import Shaula.Template.SavedPlan
import Shaula.Template.Result
import Shaula.Template.DestroyPlan

/-! # The applied plan

When the apply of a saved plan starts, what the last checks read is what the attempt recorded, and
the state is the one admission used.  The document that was admitted is the plan file's, exactly
when the file did not change between its rendering and the digest of it that is recorded.
-/

namespace Shaula

open Library Library.Outcome
open Core (Bytes PlanIntent PlanProvenance Uuid)
open RunnerOperation (TemplateOutcomeError)

namespace Template

namespace TemplateRuntime

variable {C : Crates}

/-! ## Calls -/

inductive RuntimeCall (C : Crates) where
  | create (request : TemplateCreateRequest C)
  | destroy (request : TemplateDestroyRequest)

namespace RuntimeCall

def applyIntentSink : RuntimeCall C → Bool
  | create request => request.applyIntentSink
  | destroy request => request.applyIntentSink

def generationId : RuntimeCall C → Uuid
  | create request => request.generationId
  | destroy request => request.generationId

def intent : RuntimeCall C → PlanIntent
  | create _ => .create
  | destroy _ => .destroy

/-- Plan admission accepts the rendered document, of a Destroy over the state pulled before. -/
def Admits (self : TemplateRuntime C) : RuntimeCall C → Rendering → Prop
  | create request, shown =>
    (∃ plan, parsePlan C.tables shown.document = .ok plan ∧
      admitCreatePlan C.tables plan true request.managedShape = .ok ()) ∧
    ∃ manifest, shown.manifest = some manifest ∧
      self.admitBootstrap manifest request shown.document = true
  | destroy request, shown => ∃ used, shown.pulled = some used ∧
    admitDestroyPlanJson C.tables shown.document used.managed request.managedShape = .ok () ∧
    admitDestroyIdentity shown.document used.names = .ok ()

/-- The last state read shows no resource, or what admission used. -/
def StateKept : RuntimeCall C → Seen → Rendering → Prop
  | create _, seen, _ => seen.listed = some []
  | destroy _, seen, shown => ∃ used now, shown.pulled = some used ∧ seen.pulled = some now ∧
    now.lineage = used.lineage ∧ now.serial = used.serial ∧ now.managed = used.managed

end RuntimeCall

variable (sha256 : Bytes → String) (T : JsonText) (self : TemplateRuntime C)

def body : RuntimeCall C → RuntimeRoutine Unit
  | .create request => self.createFlow sha256 T request
  | .destroy request => do
    let _ ← self.destroyFlow sha256 T request

/-- Calls of the runtime, each with a durable sink, in a world of other writers. -/
def session : Session runtimeEffects (RuntimeCall C) Workspace TemplateOutcomeError Unit where
  machine := workspaceMachine sha256
  body := self.body sha256 T
  begins w c := c.applyIntentSink = true ∧ w.seen = {}
  idle _ _ := True
  crash w := w

/-! ## The property -/

/-- What was read since the record is what the record tells. -/
structure Checked (provenance : PlanProvenance) (seen : Seen) : Prop where
  tfplan : ∃ bytes, seen.tfplan = some bytes ∧ sha256 bytes = provenance.savedPlanDigest
  input : ∃ bytes, seen.input = some bytes ∧ sha256 bytes = provenance.protectedInputDigest
  material : ∃ material, seen.material = some material ∧
    templateFilesDigest sha256 material = some provenance.templateMaterialDigest
  engine : ∃ bytes, seen.engine = some bytes ∧ sha256 bytes = provenance.engineBinaryDigest

/-- The durable provenance is of this attempt. -/
structure OfAttempt (c : RuntimeCall C) (provenance : PlanProvenance) (seen : Seen) : Prop where
  attempt : seen.attempt = some provenance.attemptId
  generation : provenance.generationId = c.generationId
  intent : provenance.intent = c.intent

/-- The admitted document was rendered from exactly the plan file the last check read, everything
that check read is recorded for the attempt, and the state is as admission used it. -/
def AppliesAdmitted (c : RuntimeCall C) (seen : Seen) : Prop :=
  ∃ shown recording, seen.shown = some shown ∧ seen.recorded = some recording ∧
    c.Admits self shown ∧ seen.tfplan = some shown.tfplan ∧
    OfAttempt c recording.provenance seen ∧ Checked sha256 recording.provenance seen ∧
    c.StateKept seen shown

/-- The plan file that was read for the recorded digest is the one that was rendered. -/
def KeptPlan (seen : Seen) : Prop :=
  ∃ shown recording, seen.shown = some shown ∧ seen.recorded = some recording ∧
    recording.tfplan = some shown.tfplan

/-! ## What a stage of a flow knows -/

section Stages

variable {sha256 self} {c : RuntimeCall C} {α : Type}

/-- An apply starts only where it applies the admitted plan, if that was recorded. -/
def MayPerform (sha256 : Bytes → String) (self : TemplateRuntime C) (c : RuntimeCall C)
    (w : Workspace) (op : Effect) : Prop :=
  op = .startApplySavedPlan → (AppliesAdmitted sha256 self c w.seen ↔ KeptPlan w.seen)

/-- From what was read before, the routine is safe and returns with what was read then. -/
def Meets (sha256 : Bytes → String) (self : TemplateRuntime C) (c : RuntimeCall C)
    (A : Seen → Prop) (p : RuntimeRoutine α) (B : α → Seen → Prop) : Prop :=
  Spec (workspaceMachine sha256) (fun _ => True) (MayPerform sha256 self c) (fun w => A w.seen) p
    fun a w => B a w.seen

variable {A : Seen → Prop}

theorem seen_stable : (workspaceMachine sha256).Stable fun w => A w.seen := by
  intro w w' hw henv
  exact henv ▸ hw

namespace Meets

variable {β : Type} {C : Seen → Prop} {B B' : α → Seen → Prop} {D : β → Seen → Prop}

theorem bind {p : RuntimeRoutine α} {f : α → RuntimeRoutine β} (h : Meets sha256 self c A p B)
    (hf : ∀ a, Meets sha256 self c (B a) (f a) D) : Meets sha256 self c A (p >>= f) D :=
  Spec.bind h hf

theorem weaken {p : RuntimeRoutine α} (h : Meets sha256 self c C p B')
    (hA : ∀ seen, A seen → C seen) (hB : ∀ a seen, B' a seen → B a seen) :
    Meets sha256 self c A p B :=
  Spec.weaken h (fun w => hA w.seen) fun a w => hB a w.seen

theorem done {a : α} (h : ∀ seen, A seen → B a seen) :
    Meets sha256 self c A (.done a : RuntimeRoutine α) B :=
  fun w => h w.seen

theorem fail {e : TemplateOutcomeError} :
    Meets sha256 self c A (.fail e : RuntimeRoutine α) B :=
  Spec.fail

theorem ensure {p : Prop} [Decidable p] {e : TemplateOutcomeError} {B : Unit → Seen → Prop}
    (h : ∀ seen, A seen → p → B () seen) : Meets sha256 self c A (Program.ensure p e) B :=
  Spec.ensure fun w => h w.seen

theorem ensure_bind {p : Prop} [Decidable p] {e : TemplateOutcomeError}
    {f : Unit → RuntimeRoutine α} (h : p → Meets sha256 self c A (f ()) B) :
    Meets sha256 self c A (Program.ensure p e >>= f) B :=
  Spec.ensure_bind h

theorem okOr {o : Option α} {e : TemplateOutcomeError}
    (h : ∀ seen a, A seen → o = some a → B a seen) :
    Meets sha256 self c A (Program.okOr o e) B :=
  Spec.okOr fun w => h w.seen

theorem okOr_bind {o : Option β} {e : TemplateOutcomeError} {f : β → RuntimeRoutine α}
    (h : ∀ a, o = some a → Meets sha256 self c A (f a) B) :
    Meets sha256 self c A (Program.okOr o e >>= f) B :=
  Spec.okOr_bind h

theorem ask {op : Effect} {B : op.Answer → Seen → Prop} (hop : op ≠ .startApplySavedPlan)
    (h : ∀ w answer w', A w.seen → Acts sha256 w op answer w' → B answer w'.seen) :
    Meets sha256 self c A (ask op) B := by
  refine Spec.lift seen_stable (fun w _ hstart => absurd hstart hop) (fun _ _ _ _ => trivial) ?_
  intro w answer w' hw hact
  exact ⟨trivial, h w answer w' hw hact⟩

/-- An effect that reads nothing new. -/
theorem quiet {op : Effect} (hop : op ≠ .startApplySavedPlan)
    (h : ∀ w answer w', Acts sha256 w op answer w' → w'.seen = w.seen) :
    Meets sha256 self c A (TemplateRuntime.ask op) fun _ => A :=
  ask hop fun w answer w' hw hact => by
    rw [h w answer w' hact]
    exact hw

/-- Effects that all keep what is known keep it. -/
theorem frame {P : Effect → Prop} {p : RuntimeRoutine α} (hp : p.Only P)
    (hop : ∀ op, P op → op ≠ .startApplySavedPlan)
    (h : ∀ op, P op → ∀ w answer w', A w.seen → Acts sha256 w op answer w' → A w'.seen) :
    Meets sha256 self c A p fun _ => A := by
  refine Spec.frame hp seen_stable fun op hP w hw => ?_
  exact ⟨fun hstart => absurd hstart (hop op hP), fun _ _ => trivial,
    fun answer w' hact => ⟨trivial, h op hP w answer w' hw hact⟩⟩

end Meets

/-- Effects that read neither the manifest nor a plan, and record and start nothing. -/
def Prepares (op : Effect) : Prop :=
  op ≠ .startApplySavedPlan ∧ op ≠ .readManifest ∧ ∀ provenance, op ≠ .persistApplyStarting provenance

theorem Prepares.manifest {op : Effect} (hop : Prepares op) {w w' : Workspace} {answer : op.Answer}
    (hact : Acts sha256 w op answer w') : w'.seen.manifest = w.seen.manifest := by
  obtain ⟨-, hread, hpersist⟩ := hop
  unfold Acts at hact
  split at hact
  all_goals first
    | exact absurd rfl hread
    | exact absurd rfl (hpersist _)
    | (obtain ⟨-, rfl⟩ := hact; rfl)
    | (obtain ⟨_, -, rfl⟩ := hact; rfl)

/-- Preparation keeps the manifest that was read. -/
theorem meets_prepares {p : RuntimeRoutine α} (h : p.Only Prepares) {manifest : ProfileManifest} :
    Meets sha256 self c (fun seen => seen.manifest = some manifest) p fun _ seen =>
      seen.manifest = some manifest := by
  refine .frame h (fun op hop => hop.1) fun op hop w answer w' hw hact => ?_
  rw [hop.manifest hact]
  exact hw

theorem meets_verifyHttpWorkspace {initialized : Bool} :
    Meets sha256 self c A (self.verifyHttpWorkspace initialized) fun _ => A := by
  unfold verifyHttpWorkspace
  split
  · refine (Meets.quiet (by simp) fun w _ w' hact => ?_).bind fun (verified : Bool) => ?_
    · cases hact
      rfl
    · exact .ensure fun _ h _ => h
  · exact .done fun _ h => h

/-! ### Preparation -/

theorem meets_validateInputContract {input : ShaulaInputEnvelope C} :
    Meets sha256 self c A (validateInputContract input) fun manifest seen =>
      seen.manifest = some manifest := by
  unfold validateInputContract
  have hread : Meets sha256 self c A (ask .readManifest)
      fun (manifest : Option ProfileManifest) seen => seen.manifest = manifest := by
    refine .ask (by simp) fun w manifest w' _ hact => ?_
    cases hact
    rfl
  refine hread.bind fun manifest => .okOr_bind fun found hfound => .ensure_bind fun _ => ?_
  exact .done fun seen hseen => hseen.trans hfound

section Only

variable {P : Effect → Prop}

theorem only_openStep {r : CoreResult α} : (openStep r).Only P := by
  cases r <;> exact trivial

theorem only_openFlow : openFlow.Only Prepares := by
  refine .bind (.lift ⟨by simp, by simp, by simp⟩) fun digest => ?_
  refine .bind only_openStep fun binaryDigest => ?_
  refine .bind (.lift ⟨by simp, by simp, by simp⟩) fun output => ?_
  exact .bind only_openStep fun _ => trivial

theorem only_verifyHttpWorkspace {initialized : Bool} :
    (self.verifyHttpWorkspace initialized).Only Prepares := by
  unfold verifyHttpWorkspace
  split
  · exact .bind (.lift ⟨by simp, by simp, by simp⟩) fun (_ : Bool) => .ensure
  · exact trivial

theorem only_materializeUnless {prepared : Bool} :
    (self.materializeUnless prepared).Only Prepares := by
  unfold materializeUnless
  split
  · exact trivial
  · refine .bind ?_ fun _ => .bind (.lift ⟨by simp, by simp, by simp⟩) fun (_ : Bool) =>
      .bind .ensure fun _ => ?_
    · unfold requireFreshHttpWorkspace
      split
      · exact .bind (.lift ⟨by simp, by simp, by simp⟩) fun (_ : Bool) => .ensure
      · exact trivial
    · unfold installBackend
      split
      · exact .bind (.lift ⟨by simp, by simp, by simp⟩) fun (_ : Bool) => .ensure
      · exact trivial

theorem only_initializeUnless {prepared : Bool} :
    (self.initializeUnless prepared).Only Prepares := by
  unfold initializeUnless
  split
  · exact trivial
  · exact .bind (.lift ⟨by simp, by simp, by simp⟩) fun (_ : Bool) =>
      .bind .ensure fun _ => only_verifyHttpWorkspace

theorem only_keepInput {content : Bytes} : (keepInput sha256 content).Only Prepares :=
  .bind (.lift ⟨by simp, by simp, by simp⟩) fun (_ : Option Bytes) => .bind .ensure fun _ => trivial

theorem only_writeProtectedInput {content : Bytes} :
    (writeProtectedInput sha256 content).Only Prepares := by
  refine .bind (.lift ⟨by simp, by simp, by simp⟩) fun (found : Bool) => ?_
  cases found with
  | true => exact only_keepInput
  | false =>
    refine .bind (.lift ⟨by simp, by simp, by simp⟩) fun (publication : Publication) => ?_
    cases publication with
    | published => exact trivial
    | alreadyExists => exact only_keepInput
    | failed => exact trivial

end Only

/-- What a Create plans with, over the manifest it read. -/
theorem meets_prepareCreate {T : JsonText} {request : TemplateCreateRequest C} :
    Meets sha256 self c A (self.prepareCreate sha256 T request) fun base seen =>
      seen.manifest = some base.manifest := by
  unfold prepareCreate
  refine meets_validateInputContract.bind fun manifest => ?_
  have keep {α : Type} {p : RuntimeRoutine α} (h : p.Only Prepares) :
      Meets sha256 self c (fun seen => seen.manifest = some manifest) p fun _ seen =>
        seen.manifest = some manifest := meets_prepares h
  refine (keep .ensure).bind fun _ => (keep .ensure).bind fun _ => ?_
  refine (keep (.lift ⟨by simp, by simp, by simp⟩)).bind fun expected => ?_
  refine (keep .okOr).bind fun expectedMaterial => ?_
  refine (keep (.lift ⟨by simp, by simp, by simp⟩)).bind fun prepared => ?_
  refine (keep only_materializeUnless).bind fun _ => ?_
  refine (keep only_verifyHttpWorkspace).bind fun _ => ?_
  refine (keep (.lift ⟨by simp, by simp, by simp⟩)).bind fun (digest : Option String) => ?_
  refine (keep .ensure).bind fun _ => (keep only_openFlow).bind fun flow => ?_
  refine (keep only_initializeUnless).bind fun _ => (keep .okOr).bind fun content => ?_
  refine (keep only_writeProtectedInput).bind fun inputDigest => ?_
  refine (keep (.lift ⟨by simp, by simp, by simp⟩)).bind fun (ssh : Bool) => ?_
  refine (keep .ensure).bind fun _ => ?_
  exact .done fun seen h => h

/-! ### Admission -/

/-- The engine renders the plan file it finds; what was read before is known of the rendering. -/
theorem meets_planAndShow {destroy : Bool} {phase : String}
    {R : Option ProfileManifest → Option StateSnapshot → Prop} :
    Meets sha256 self c (fun seen => R seen.manifest seen.pulled)
      (planAndShow destroy phase) fun document seen => ∃ shown, seen.shown = some shown ∧
        shown.document = document ∧ R shown.manifest shown.pulled := by
  have hshow : Meets sha256 self c (fun seen => R seen.manifest seen.pulled)
      (ask .showPlan) fun (document : Option Json) seen => ∀ d, document = some d →
        ∃ shown, seen.shown = some shown ∧ shown.document = d ∧
          R shown.manifest shown.pulled := by
    refine .ask (by simp) fun w document w' hw hact d hd => ?_
    cases hd
    obtain ⟨tfplan, -, rfl⟩ := hact
    exact ⟨_, rfl, rfl, hw⟩
  unfold planAndShow
  refine (Meets.quiet (by simp) ?_).bind fun (planned : Bool) => .ensure_bind fun _ => ?_
  · rintro w _ w' ⟨tfplan, rfl⟩
    rfl
  · exact hshow.bind fun document => .okOr fun seen d h hd => h d hd

/-- The document was admitted, and the attempt's provenance is drawn up. -/
structure Drawn (self : TemplateRuntime C) (c : RuntimeCall C) (shown : Rendering)
    (provenance : PlanProvenance) (seen : Seen) : Prop where
  rendered : seen.shown = some shown
  admits : c.Admits self shown
  attempt : OfAttempt c provenance seen

theorem meets_listState {environment : List (String × String)} {e : TemplateOutcomeError}
    (hA : ∀ seen addresses, A seen → A { seen with listed := addresses }) :
    Meets sha256 self c A (listState environment e) fun addresses seen =>
      A seen ∧ seen.listed = some addresses := by
  have hlist : Meets sha256 self c A (ask (.runStateList environment))
      fun (output : Option ProcessOutput) seen =>
        A seen ∧ seen.listed = output.bind (stateList environment) := by
    refine .ask (by simp) fun w output w' hw hact => ?_
    cases hact
    exact ⟨hA _ _ hw, rfl⟩
  exact hlist.bind fun output => .okOr fun seen addresses h hfound => ⟨h.1, h.2.trans hfound⟩

theorem meets_statePullSnapshot
    (hA : ∀ seen snapshot, A seen → A { seen with pulled := snapshot }) :
    Meets sha256 self c A statePullSnapshot fun snapshot seen =>
      A seen ∧ seen.pulled = some snapshot := by
  have hpull : Meets sha256 self c A (ask .statePull) fun (snapshot : Option StateSnapshot) seen =>
      A seen ∧ seen.pulled = snapshot := by
    refine .ask (by simp) fun w snapshot w' hw hact => ?_
    cases hact
    exact ⟨hA _ _ hw, rfl⟩
  exact hpull.bind fun snapshot => .okOr fun seen found h hfound => ⟨h.1, h.2.trans hfound⟩

/-- A plan file that is read was there. -/
theorem meets_readPlan (hA : ∀ seen bytes, A seen → A { seen with tfplan := bytes }) :
    Meets sha256 self c A (ask .readPlan) fun (bytes : Option Bytes) seen =>
      A seen ∧ seen.tfplan = bytes := by
  refine .ask (by simp) fun w bytes w' hw hact => ?_
  obtain ⟨-, rfl⟩ := hact
  exact ⟨hA _ _ hw, rfl⟩

/-- The provenance records the plan file that was read last. -/
def Digested (sha256 : Bytes → String) (provenance : PlanProvenance) (seen : Seen) : Prop :=
  ∃ bytes, seen.tfplan = some bytes ∧ sha256 bytes = provenance.savedPlanDigest

theorem meets_readInput (hA : ∀ seen bytes, A seen → A { seen with input := bytes }) :
    Meets sha256 self c A (ask .readInput) fun (bytes : Option Bytes) seen =>
      A seen ∧ seen.input = bytes := by
  refine .ask (by simp) fun w bytes w' hw hact => ?_
  obtain ⟨-, rfl⟩ := hact
  exact ⟨hA _ _ hw, rfl⟩

theorem meets_hashEngine (hA : ∀ seen binary, A seen → A { seen with engine := binary }) :
    Meets sha256 self c A (ask .hashEngine) fun (digest : CoreResult String) seen => A seen ∧
      ∀ d, digest = .ok d → ∃ binary, seen.engine = some binary ∧ sha256 binary = d := by
  refine .ask (by simp) fun w digest w' hw hact => ?_
  obtain ⟨hdigest, rfl⟩ := hact
  refine ⟨hA _ _ hw, fun d hd => ?_⟩
  obtain ⟨binary, hbinary, rfl⟩ := hdigest d hd
  exact ⟨binary, hbinary, rfl⟩

theorem meets_workspaceDigest (hA : ∀ seen material, A seen → A { seen with material := material }) :
    Meets sha256 self c A (ask .workspaceDigest) fun (digest : Option String) seen => A seen ∧
      ∀ d, digest = some d →
        ∃ material, seen.material = some material ∧ templateFilesDigest sha256 material = some d := by
  refine .ask (by simp) fun w digest w' hw hact => ?_
  obtain ⟨hdigest, rfl⟩ := hact
  refine ⟨hA _ _ hw, fun d hd => ⟨w.files.material, rfl, ?_⟩⟩
  rcases hdigest with rfl | hdigest
  · cases hd
  · exact hdigest.symm.trans hd

theorem meets_newAttemptId (hA : ∀ seen attempt, A seen → A { seen with attempt := attempt }) :
    Meets sha256 self c A (ask .newAttemptId) fun (id : String) seen =>
      A seen ∧ seen.attempt = some id := by
  refine .ask (by simp) fun w id w' hw hact => ?_
  cases hact
  exact ⟨hA _ _ hw, rfl⟩

theorem meets_admitCreate {request : TemplateCreateRequest C} {base : CreateBase}
    {document : Json} :
    Meets sha256 self (.create request)
      (fun seen => ∃ shown, seen.shown = some shown ∧ shown.document = document ∧
        shown.manifest = some base.manifest)
      (self.admitCreate sha256 request base document) fun provenance seen =>
        Digested sha256 provenance seen ∧
          ∃ shown, True ∧ Drawn self (.create request) shown provenance seen := by
  unfold admitCreate
  refine .okOr_bind fun parsed hparsed => ?_
  refine (meets_listState fun seen _ h => h).bind fun priorState => ?_
  refine .ensure_bind fun hadmit => .ensure_bind fun hbootstrap => ?_
  refine (meets_readPlan fun seen _ h => h).bind fun tfplan => .okOr_bind fun planBytes hplan => ?_
  refine (meets_workspaceDigest fun seen _ h => h).bind fun (digest : Option String) => ?_
  refine .ensure_bind fun _ => .ensure_bind fun hempty => ?_
  refine (meets_newAttemptId fun seen _ h => h).bind fun attemptId => .done fun seen h => ?_
  obtain ⟨⟨⟨⟨⟨shown, hshown, rfl, hmanifest⟩, -⟩, htfplan⟩, -⟩, hattempt⟩ := h
  rw [hempty] at hadmit
  obtain ⟨⟨⟩, hadmit⟩ := exists_ok_of_isOk hadmit
  refine ⟨⟨planBytes, htfplan.trans hplan, rfl⟩, shown, trivial, hshown, ⟨⟨parsed, ?_, hadmit⟩, ?_⟩, ?_⟩
  · exact toOption_eq_some.mp hparsed
  · exact ⟨base.manifest, hmanifest, hbootstrap⟩
  · exact ⟨hattempt, rfl, rfl⟩

theorem meets_admitDestroy {request : TemplateDestroyRequest} {base : DestroyBase}
    {document : Json} :
    Meets sha256 self (.destroy request)
      (fun seen => ∃ shown, seen.shown = some shown ∧ shown.document = document ∧
        shown.pulled = some base.snapshot)
      (admitDestroy (C := C) sha256 request base document) fun provenance seen =>
        Digested sha256 provenance seen ∧ ∃ shown, shown.pulled = some base.snapshot ∧
          Drawn self (.destroy request) shown provenance seen := by
  unfold admitDestroy
  refine .ensure_bind fun hadmit => .ensure_bind fun hidentity => ?_
  refine (meets_readPlan fun seen _ h => h).bind fun tfplan => .okOr_bind fun planBytes hplan => ?_
  refine (meets_newAttemptId fun seen _ h => h).bind fun attemptId => .done fun seen h => ?_
  obtain ⟨⟨⟨shown, hshown, rfl, hpulled⟩, htfplan⟩, hattempt⟩ := h
  obtain ⟨⟨⟩, hadmit⟩ := exists_ok_of_isOk hadmit
  obtain ⟨⟨⟩, hidentity⟩ := exists_ok_of_isOk hidentity
  refine ⟨⟨planBytes, htfplan.trans hplan, rfl⟩, shown, hpulled, hshown, ?_, hattempt, rfl, rfl⟩
  exact ⟨base.snapshot, hpulled, hadmit, hidentity⟩

/-! ### The record and the last checks -/

/-- The drawn up provenance is durable, with the plan file as it was read for it. -/
structure Recorded (sha256 : Bytes → String) (self : TemplateRuntime C) (c : RuntimeCall C)
    (shown : Rendering) (provenance : PlanProvenance) (seen : Seen) : Prop where
  drawn : Drawn self c shown provenance seen
  recorded : ∃ bytes, seen.recorded = some ⟨provenance, some bytes⟩ ∧
    sha256 bytes = provenance.savedPlanDigest

variable {R : Rendering → Prop} {provenance : PlanProvenance}

theorem Drawn.of_reads {shown : Rendering} {seen seen' : Seen}
    (h : Drawn self c shown provenance seen) (hshown : seen'.shown = seen.shown)
    (hattempt : seen'.attempt = seen.attempt) : Drawn self c shown provenance seen' := by
  obtain ⟨hrendered, hadmits, hof, hgeneration, hintent⟩ := h
  exact ⟨hshown.trans hrendered, hadmits, hattempt.trans hof, hgeneration, hintent⟩

/-- The durable record of an attempt, of a rendering with `R`. -/
def RecordedOf (sha256 : Bytes → String) (self : TemplateRuntime C) (c : RuntimeCall C)
    (R : Rendering → Prop) (provenance : PlanProvenance) (seen : Seen) : Prop :=
  ∃ shown, R shown ∧ Recorded sha256 self c shown provenance seen

/-- Reads after the record leave it alone. -/
theorem RecordedOf.of_reads {seen seen' : Seen}
    (h : RecordedOf sha256 self c R provenance seen) (hshown : seen'.shown = seen.shown)
    (hattempt : seen'.attempt = seen.attempt) (hrecorded : seen'.recorded = seen.recorded) :
    RecordedOf sha256 self c R provenance seen' := by
  obtain ⟨shown, hR, hdrawn, bytes, hbytes, hdigest⟩ := h
  exact ⟨shown, hR, hdrawn.of_reads hshown hattempt, bytes, hrecorded.trans hbytes, hdigest⟩

theorem meets_admitApply {phases : ApplyPhases} :
    Meets sha256 self c
      (fun seen => Digested sha256 provenance seen ∧
        ∃ shown, R shown ∧ Drawn self c shown provenance seen)
      (admitApply true provenance phases) fun _ =>
        RecordedOf sha256 self c R provenance := by
  have hpersist : Meets sha256 self c
      (fun seen => Digested sha256 provenance seen ∧
        ∃ shown, R shown ∧ Drawn self c shown provenance seen)
      (ask (.persistApplyStarting provenance)) fun (recorded : Bool) seen => recorded = true →
        RecordedOf sha256 self c R provenance seen := by
    refine .ask (by simp) fun w recorded w' h hact hrecorded => ?_
    cases hrecorded
    cases hact
    obtain ⟨⟨bytes, hbytes, hdigest⟩, shown, hR, hdrawn⟩ := h
    refine ⟨shown, hR, hdrawn.of_reads rfl rfl, bytes, ?_, hdigest⟩
    simp only [Seen.record, hbytes]
  exact hpersist.bind fun (recorded : Bool) => .ensure fun seen h hrecorded => h hrecorded

theorem meets_verifyPreSpawn {phases : ApplyPhases} :
    Meets sha256 self c (RecordedOf sha256 self c R provenance)
      (verifyPreSpawn sha256 provenance phases) fun _ seen =>
        RecordedOf sha256 self c R provenance seen ∧ Checked sha256 provenance seen := by
  unfold verifyPreSpawn
  refine (meets_readPlan ?_).bind fun tfplan => .okOr_bind fun planNow hplan => ?_
  · exact fun seen _ h => h.of_reads rfl rfl rfl
  refine .ensure_bind fun hplanDigest => ?_
  refine (meets_hashEngine ?_).bind fun digest => .okOr_bind fun engineNow hengine => ?_
  · exact fun seen _ h => ⟨h.1.of_reads rfl rfl rfl, h.2⟩
  refine .ensure_bind fun hengineDigest => ?_
  refine (meets_readInput ?_).bind fun input => .okOr_bind fun inputNow hinput => ?_
  · exact fun seen _ h => ⟨⟨h.1.1.of_reads rfl rfl rfl, h.1.2⟩, h.2⟩
  refine .ensure_bind fun hinputDigest => ?_
  refine (meets_workspaceDigest ?_).bind fun material => .okOr_bind fun materialNow hmaterial => ?_
  · exact fun seen _ h => ⟨⟨⟨h.1.1.1.of_reads rfl rfl rfl, h.1.1.2⟩, h.1.2⟩, h.2⟩
  refine .ensure fun seen h hmaterialDigest => ?_
  obtain ⟨⟨⟨⟨hrecorded, hseenPlan⟩, hseenEngine⟩, hseenInput⟩, hseenMaterial⟩ := h
  refine ⟨hrecorded, ⟨planNow, hseenPlan.trans hplan, hplanDigest⟩,
    ⟨inputNow, hseenInput.trans hinput, hinputDigest⟩, ?_, ?_⟩
  · exact hmaterialDigest ▸ hseenMaterial materialNow hmaterial
  · exact hengineDigest ▸ hseenEngine engineNow (toOption_eq_some.mp hengine)

/-! ### The spawn -/

/-- Equal digests are of equal bytes, and so is what was rendered, recorded and checked, exactly when
the first two agree. -/
theorem appliesAdmitted_iff_keptPlan (hsha : Function.Injective sha256) {seen : Seen}
    {shown : Rendering} (hrecorded : Recorded sha256 self c shown provenance seen)
    (hchecked : Checked sha256 provenance seen) (hstate : c.StateKept seen shown) :
    AppliesAdmitted sha256 self c seen ↔ KeptPlan seen := by
  obtain ⟨⟨hrendered, hadmits, hattempt⟩, read, hread, hreadDigest⟩ := hrecorded
  obtain ⟨bytes, hbytes, hdigest⟩ := hchecked.tfplan
  have hsame : bytes = read := hsha (hdigest.trans hreadDigest.symm)
  constructor
  · rintro ⟨shown', recording, hshown, hrecording, -, htfplan, -⟩
    cases hrendered.symm.trans hshown
    refine ⟨shown, _, hrendered, hread, ?_⟩
    rw [← hsame, ← hbytes, htfplan]
  · rintro ⟨shown', recording, hshown, hrecording, hkept⟩
    cases hrendered.symm.trans hshown
    cases hread.symm.trans hrecording
    refine ⟨shown, _, hrendered, hread, hadmits, ?_, hattempt, hchecked, hstate⟩
    rw [hbytes, hsame]
    exact hkept

theorem only_tell {P : Effect → Prop} {sink : Bool} {op : Effect} {told : op.Answer → Bool}
    {phase : String} (hop : P op) : (tell sink op told phase).Only P := by
  unfold tell
  split
  · exact .bind (.lift hop) fun _ => .ensure
  · exact trivial

/-- The apply starts where everything was checked. -/
theorem meets_spawnApply (hsha : Function.Injective sha256) {sink : Bool} {phases : ApplyPhases}
    (hA : ∀ seen, A seen → ∃ shown, Recorded sha256 self c shown provenance seen ∧
      Checked sha256 provenance seen ∧ c.StateKept seen shown) :
    Meets sha256 self c A (self.spawnApply sink provenance phases) fun _ _ => True := by
  unfold spawnApply
  refine meets_verifyHttpWorkspace.bind fun _ => ?_
  have hstart : Meets sha256 self c A (ask .startApplySavedPlan) fun (_ : Bool) _ => True := by
    refine Spec.lift seen_stable (fun w hw _ => ?_) (fun _ _ _ _ => trivial) fun _ _ _ _ _ =>
      ⟨trivial, trivial⟩
    obtain ⟨shown, hrecorded, hchecked, hstate⟩ := hA _ hw
    exact appliesAdmitted_iff_keptPlan hsha hrecorded hchecked hstate
  refine hstart.bind fun (started : Bool) => .ensure_bind fun _ => ?_
  have hrest {α : Type} {p : RuntimeRoutine α} (h : p.Only (· ≠ Effect.startApplySavedPlan)) :
      Meets sha256 self c (fun _ => True) p fun _ _ => True :=
    .frame h (fun _ hop => hop) fun _ _ _ _ _ _ _ => trivial
  refine hrest ?_
  refine .bind ?_ fun _ => .bind (.lift (by simp)) fun (_ : Bool) => .bind ?_ fun _ => .ensure
  · exact only_tell (by simp)
  · exact only_tell (by simp)

/-! ### The flows -/

theorem meets_createFlow (hsha : Function.Injective sha256) {T : JsonText}
    {request : TemplateCreateRequest C} (hsink : request.applyIntentSink = true) :
    Meets sha256 self (.create request) A (self.createFlow sha256 T request) fun _ _ => True := by
  unfold createFlow
  rw [hsink]
  refine meets_prepareCreate.bind fun base => ?_
  refine (meets_planAndShow (R := fun manifest _ => manifest = some base.manifest)).bind
    fun document => ?_
  refine meets_admitCreate.bind fun provenance => meets_admitApply.bind fun _ => ?_
  refine meets_verifyPreSpawn.bind fun _ => ?_
  refine (meets_listState ?_).bind fun priorNow => .ensure_bind fun hempty => ?_
  · exact fun seen _ h => ⟨h.1.of_reads rfl rfl rfl, h.2.tfplan, h.2.input, h.2.material, h.2.engine⟩
  refine meets_spawnApply hsha fun seen h => ?_
  obtain ⟨⟨⟨shown, -, hrecorded⟩, hchecked⟩, hlisted⟩ := h
  cases List.isEmpty_iff.mp hempty
  exact ⟨shown, hrecorded, hchecked, hlisted⟩

theorem meets_verifyOriginal {T : JsonText} {request : TemplateDestroyRequest} :
    Meets sha256 self c A (self.verifyOriginal sha256 T request) fun base seen =>
      seen.pulled = some base.snapshot := by
  unfold verifyOriginal
  have any {α : Type} {p : RuntimeRoutine α} (h : p.Only (· ≠ Effect.startApplySavedPlan)) :
      Meets sha256 self c (fun _ => True) p fun _ _ => True :=
    .frame h (fun _ hop => hop) fun _ _ _ _ _ _ _ => trivial
  have start {p : RuntimeRoutine (DestroyBase)} {B : DestroyBase → Seen → Prop}
      (h : Meets sha256 self c (fun _ => True) p B) : Meets sha256 self c A p B :=
    h.weaken (fun _ _ => trivial) fun _ _ h => h
  refine start ?_
  refine .ensure_bind fun _ => meets_verifyHttpWorkspace.bind fun _ => ?_
  refine (any (Program.Only.mono (fun op h => h.1) only_openFlow)).bind fun flow => ?_
  refine (any (.lift (by simp))).bind fun protectedInput => .okOr_bind fun inputNow _ => ?_
  refine .ensure_bind fun _ => .okOr_bind fun input _ => ?_
  refine (meets_validateInputContract.weaken (fun _ h => h) fun _ _ _ => trivial).bind fun _ => ?_
  refine (any (.lift (by simp))).bind fun digest => .okOr_bind fun workspaceNow _ => ?_
  refine (any (.lift (by simp))).bind fun expected => .okOr_bind fun expectedMaterial _ => ?_
  refine .ensure_bind fun _ => .ensure_bind fun _ => ?_
  refine (meets_statePullSnapshot fun _ _ h => h).bind fun snapshot => .ensure_bind fun _ => ?_
  exact .done fun seen h => h.2

theorem meets_destroyManaged (hsha : Function.Injective sha256)
    {request : TemplateDestroyRequest} (hsink : request.applyIntentSink = true)
    {base : DestroyBase} :
    Meets sha256 self (.destroy request) (fun seen => seen.pulled = some base.snapshot)
      (self.destroyManaged sha256 request base) fun _ _ => True := by
  unfold destroyManaged
  rw [hsink]
  refine (Meets.quiet (by simp) ?_).bind fun (ssh : Bool) => .ensure_bind fun _ => ?_
  · rintro w _ w' ⟨⟩
    rfl
  refine (meets_planAndShow (R := fun _ pulled => pulled = some base.snapshot)).bind
    fun document => ?_
  refine meets_admitDestroy.bind fun provenance => meets_admitApply.bind fun _ => ?_
  refine meets_verifyPreSpawn.bind fun _ => ?_
  refine (meets_statePullSnapshot ?_).bind fun now => .ensure_bind fun hnow => ?_
  · exact fun seen _ h => ⟨h.1.of_reads rfl rfl rfl, h.2.tfplan, h.2.input, h.2.material, h.2.engine⟩
  refine (meets_spawnApply hsha fun seen h => ?_).bind fun _ => ?_
  · obtain ⟨⟨⟨shown, hpulled, hrecorded⟩, hchecked⟩, hnowPulled⟩ := h
    obtain ⟨hserial, hlineage, hmanaged⟩ := hnow
    exact ⟨shown, hrecorded, hchecked, base.snapshot, now, hpulled, hnowPulled, hlineage, hserial,
      hmanaged⟩
  · refine meets_verifyHttpWorkspace.bind fun _ => ?_
    refine (meets_statePullSnapshot fun _ _ h => h).bind fun after => .ensure_bind fun _ => ?_
    exact .done fun _ _ => trivial

theorem meets_destroyFlow (hsha : Function.Injective sha256) {T : JsonText}
    {request : TemplateDestroyRequest} (hsink : request.applyIntentSink = true) :
    Meets sha256 self (.destroy request) A (self.destroyFlow sha256 T request) fun _ _ => True := by
  unfold destroyFlow
  refine meets_verifyOriginal.bind fun base => ?_
  split
  · exact .done fun _ _ => trivial
  · exact meets_destroyManaged hsha hsink

end Stages

/-! ## Runs -/

variable {sha256 self}

theorem disciplined (hsha : Function.Injective sha256) :
    (self.session sha256 T).Disciplined (fun _ => True) (MayPerform sha256 self) where
  env _ _ _ _ := trivial
  idle _ _ _ _ := trivial
  crash _ _ := trivial
  safe w c _ hbegins := by
    obtain ⟨hsink, hfresh⟩ := hbegins
    cases c with
    | create request => exact meets_createFlow (A := fun _ => True) hsha hsink w trivial
    | destroy request =>
      have h : Meets sha256 self (.destroy request) (fun _ => True)
          (self.destroyFlow sha256 T request) fun _ _ => True :=
        meets_destroyFlow hsha hsink
      have hdone : Meets sha256 self (.destroy request) (fun _ => True) (.done ()) fun _ _ => True :=
        .done fun _ _ => trivial
      exact (h.bind fun _ => hdone) w trivial

/-- Whenever the apply of a saved plan starts, it applies the admitted plan if and only if the plan
file was not changed between the rendering that was admitted and the digest that was recorded. -/
theorem applies_admitted_plan_iff (hsha : Function.Injective sha256)
    {κ κ' : Session.Config runtimeEffects (RuntimeCall C) Workspace TemplateOutcomeError Unit}
    {event : Session.Event runtimeEffects (RuntimeCall C) TemplateOutcomeError Unit}
    (h : Reachable (Session.Initial fun _ => True) (self.session sha256 T).Step κ)
    (hstep : (self.session sha256 T).Step κ event κ') {c : RuntimeCall C}
    (heffect : event.effect = some (c, .startApplySavedPlan)) :
    AppliesAdmitted sha256 self c κ.world.seen ↔ KeptPlan κ.world.seen :=
  ((disciplined T hsha).reached (fun _ _ => trivial) h).obliged hstep heffect rfl

/-! ## A sample -/

/-- Bytes as the characters of their numbers: a digest without collisions. -/
def charDigest (bytes : Bytes) : String := String.ofList (bytes.map fun b => Char.ofNat b.toNat)

theorem charDigest_injective : Function.Injective charDigest := by
  have hchar : ∀ n : Nat, n < 256 → (Char.ofNat n).toNat = n := by decide +kernel
  intro a b h
  refine List.map_injective_iff.mpr (fun x y hxy => ?_) (String.ofList_injective h)
  apply UInt8.toNat.inj
  rw [← hchar x.toNat x.toNat_lt, ← hchar y.toNat y.toNat_lt]
  exact congrArg Char.toNat hxy

/-- The input of a runner of GitHub. -/
def sampleInput : ShaulaInputEnvelope noCrates where
  contractVersion := 1
  generation := ⟨"f", none, "1", "r", "g"⟩
  jitConfig := "j"
  forgejo := none
  forgejoVm := none
  gitlab := none
  gitlabVm := none
  bindingsDigest := "b"
  bindings := []
  parameters := []
  setupInfo := none

/-- A reader that takes every text for the sample input's. -/
def sampleText : JsonText where
  render _ := ""
  parse _ := some sampleInput.document

def sampleMaterial : Material :=
  [(".terraform.lock.hcl", [1]), ("main.tf", [2]), ("profile.yaml", [3])]

def sampleFiles : Files where
  tfplan := none
  input := some [4]
  material := sampleMaterial
  engine := some [7]

def sampleSnapshot : StateSnapshot := ⟨["vm.runner"], [], 3, "lineage"⟩

def sampleRequest : TemplateDestroyRequest where
  pinnedArtifactDigest := "archive"
  generationId := ⟨7#128⟩
  managedShape := [vmRole "runner" 1]
  originalProvenance := {
    intent := .create
    savedPlanDigest := ""
    engineKind := "terraform"
    engineVersion := "1.9.0"
    engineBinaryDigest := charDigest [7]
    artifactDigest := "archive"
    templateMaterialDigest := (templateFilesDigest charDigest sampleMaterial).getD ""
    protectedInputDigest := charDigest [4]
    stateLineage := .empty
    generationId := ⟨7#128⟩
    attemptId := "create" }
  originalState := ⟨"lineage", 3, false⟩
  applyIntentSink := true

/-- A worker without the HTTP backend. -/
def sampleRuntime : TemplateRuntime noCrates := ⟨false, fun _ _ _ => true⟩

/-- Answers of a quiet world, but that the plan file is `later` whenever the runtime reads it. -/
def answerWith (later : Bytes) (w : Workspace) : (op : Effect) → Option (op.Answer × Workspace)
  | .readManifest =>
    some (some (vmManifest [vmRole "runner" 1]),
      { w with seen.manifest := some (vmManifest [vmRole "runner" 1]) })
  | .artifactMaterialDigest _ => some (templateFilesDigest charDigest sampleMaterial, w)
  | .workspaceDigest =>
    some (templateFilesDigest charDigest w.files.material,
      { w with seen.material := some w.files.material })
  | .readInput => some (w.files.input, { w with seen.input := w.files.input })
  | .prepareSsh => some (true, w)
  | .readPlan =>
    some (some later, { w with files.tfplan := some later, seen.tfplan := some later })
  | .hashEngine => w.files.engine.map fun binary =>
    (.ok (charDigest binary), { w with seen.engine := some binary })
  | .engineVersion => some (.ok "1.9.0", w)
  | .plan _ => some (true, { w with files.tfplan := some [5] })
  | .showPlan => w.files.tfplan.map fun tfplan =>
    (some (runnerPlan (.array [runnerDeletion .null]) .null),
      { w with seen.shown := some ⟨tfplan, runnerPlan (.array [runnerDeletion .null]) .null,
        w.seen.manifest, w.seen.pulled⟩ })
  | .statePull => some (some sampleSnapshot, { w with seen.pulled := some sampleSnapshot })
  | .newAttemptId => some ("attempt", { w with seen.attempt := some "attempt" })
  | .persistApplyStarting provenance =>
    some (true, { w with seen := w.seen.record provenance })
  | _ => none

theorem answerWith_acts (later : Bytes) (w : Workspace) (op : runtimeEffects.Op)
    (answer : runtimeEffects.Answer op) (w' : Workspace)
    (h : answerWith later w op = some (answer, w')) :
    ∃ w₁, (workspaceMachine charDigest).env w w₁ ∧
      (workspaceMachine charDigest).act w₁ op answer w' := by
  cases op with
  | readPlan =>
    cases h
    exact ⟨{ w with files.tfplan := some later }, rfl, .inr rfl, rfl⟩
  | hashEngine =>
    obtain ⟨binary, hbinary, h⟩ := Option.map_eq_some_iff.mp h
    cases h
    refine ⟨w, rfl, fun value hvalue => ?_, ?_⟩
    · exact ⟨binary, hbinary, (Except.ok.inj hvalue).symm⟩
    · rw [hbinary]
  | showPlan =>
    obtain ⟨tfplan, htfplan, h⟩ := Option.map_eq_some_iff.mp h
    cases h
    exact ⟨w, rfl, tfplan, htfplan, rfl⟩
  | readManifest => cases h; exact ⟨w, rfl, rfl⟩
  | artifactMaterialDigest => cases h; exact ⟨w, rfl, rfl⟩
  | workspaceDigest => cases h; exact ⟨w, rfl, .inr rfl, rfl⟩
  | readInput => cases h; exact ⟨w, rfl, .inr rfl, rfl⟩
  | prepareSsh => cases h; exact ⟨w, rfl, rfl⟩
  | engineVersion => cases h; exact ⟨w, rfl, rfl⟩
  | plan => cases h; exact ⟨w, rfl, some [5], rfl⟩
  | statePull => cases h; exact ⟨w, rfl, rfl⟩
  | newAttemptId => cases h; exact ⟨w, rfl, rfl⟩
  | persistApplyStarting => cases h; exact ⟨w, rfl, rfl⟩
  | _ => cases h

/-- The sample Destroy, up to where the answers end. -/
def sampleRun (later : Bytes) : Workspace × RuntimeRoutine Unit :=
  (sampleRuntime.body charDigest sampleText (.destroy sampleRequest)).play (answerWith later)
    ⟨sampleFiles, {}⟩

theorem sampleRun_reached (later : Bytes) :
    Reachable (Session.Initial fun _ => True) (sampleRuntime.session charDigest sampleText).Step
      ⟨(sampleRun later).1, some (.destroy sampleRequest, (sampleRun later).2)⟩ := by
  have hbegun : (sampleRuntime.session charDigest sampleText).Step ⟨⟨sampleFiles, {}⟩, none⟩
      (.begun (.destroy sampleRequest)) ⟨⟨sampleFiles, {}⟩, some (.destroy sampleRequest,
        sampleRuntime.body charDigest sampleText (.destroy sampleRequest))⟩ :=
    .begun ⟨rfl, rfl⟩
  exact Session.reaches_play (answerWith_acts later) (Reachable.next (.of_init ⟨trivial, rfl⟩) hbegun)

/-- The apply of the sample starts, on a plan file that was read as `later` since it was shown. -/
theorem sampleRun_starts {later : Bytes}
    (h : (sampleRun later).2.next = some Effect.startApplySavedPlan) :
    ∃ κ', (sampleRuntime.session charDigest sampleText).Step
      ⟨(sampleRun later).1, some (.destroy sampleRequest, (sampleRun later).2)⟩
      (.lost (.destroy sampleRequest) .startApplySavedPlan) κ' := by
  obtain ⟨k, hk⟩ := Program.eq_perform_of_next h
  rw [hk]
  exact ⟨_, .lost (.inl rfl)⟩

/-- A run of the sample that comes to its apply, and what was seen of the plan file on the way. -/
structure StartedRun (later : Bytes) where
  run : Workspace × RuntimeRoutine Unit
  played : sampleRun later = run
  seen : run.2.next = some Effect.startApplySavedPlan ∧
    run.1.seen.shown.map (·.tfplan) = some [5] ∧ run.1.seen.tfplan = some later ∧
    run.1.seen.recorded.bind (·.tfplan) = some later

def unchangedRun : StartedRun [5] where
  run := sampleRun [5]
  played := rfl
  seen := by decide +kernel

def changedRun : StartedRun [6] where
  run := sampleRun [6]
  played := rfl
  seen := by decide +kernel

/-- A plan file that nobody changes is applied as it was admitted. -/
theorem applies_admitted_plan_iff_sample :
    AppliesAdmitted charDigest sampleRuntime (.destroy sampleRequest) (sampleRun [5]).1.seen := by
  have hiff : ∀ (run : Workspace × RuntimeRoutine Unit) κ',
      Reachable (Session.Initial fun _ => True) (sampleRuntime.session charDigest sampleText).Step
        ⟨run.1, some (.destroy sampleRequest, run.2)⟩ →
      (sampleRuntime.session charDigest sampleText).Step
        ⟨run.1, some (.destroy sampleRequest, run.2)⟩
        (.lost (.destroy sampleRequest) .startApplySavedPlan) κ' →
      (AppliesAdmitted charDigest sampleRuntime (.destroy sampleRequest) run.1.seen ↔
        KeptPlan run.1.seen) :=
    fun _ _ hreached hstep =>
      applies_admitted_plan_iff sampleText charDigest_injective hreached hstep rfl
  obtain ⟨run, hplayed, hseen⟩ := unchangedRun
  rw [← hplayed] at hseen
  obtain ⟨hnext, hshown, -, hrecorded⟩ := hseen
  obtain ⟨κ', hstep⟩ := sampleRun_starts hnext
  refine (hiff _ _ (sampleRun_reached [5]) hstep).mpr ?_
  generalize (sampleRun [5]).1.seen = seen at *
  obtain ⟨shown, hshown, htfplan⟩ := Option.map_eq_some_iff.mp hshown
  obtain ⟨recording, hrecording, hread⟩ := Option.bind_eq_some_iff.mp hrecorded
  exact ⟨shown, recording, hshown, hrecording, hread.trans (congrArg some htfplan.symm)⟩

/-- A plan file that was changed since it was admitted is not applied as admitted. -/
theorem not_appliesAdmitted {seen : Seen} {later : Bytes}
    (hshown : seen.shown.map (·.tfplan) = some [5]) (hread : seen.tfplan = some later)
    (hchanged : [5] ≠ later) :
    ¬ AppliesAdmitted charDigest sampleRuntime (.destroy sampleRequest) seen := by
  rintro ⟨shown, recording, hrendered, -, -, htfplan, -⟩
  rw [hrendered] at hshown
  have hsame : later = shown.tfplan := Option.some.inj (hread.symm.trans htfplan)
  exact hchanged ((Option.some.inj hshown).symm.trans hsame.symm)

theorem started_on_changed {run : Workspace × RuntimeRoutine Unit}
    {κ' : Session.Config runtimeEffects (RuntimeCall noCrates) Workspace TemplateOutcomeError Unit}
    {later : Bytes}
    (hreached : Reachable (Session.Initial fun _ => True)
      (sampleRuntime.session charDigest sampleText).Step
        ⟨run.1, some (.destroy sampleRequest, run.2)⟩)
    (hstep : (sampleRuntime.session charDigest sampleText).Step
      ⟨run.1, some (.destroy sampleRequest, run.2)⟩
      (.lost (.destroy sampleRequest) .startApplySavedPlan) κ')
    (hshown : run.1.seen.shown.map (·.tfplan) = some [5]) (hread : run.1.seen.tfplan = some later)
    (hchanged : [5] ≠ later) :
    ∃ κ κ', Reachable (Session.Initial fun _ => True)
        (sampleRuntime.session charDigest sampleText).Step κ ∧
      (sampleRuntime.session charDigest sampleText).Step κ
        (.lost (.destroy sampleRequest) .startApplySavedPlan) κ' ∧
      ¬ AppliesAdmitted charDigest sampleRuntime (.destroy sampleRequest) κ.world.seen :=
  ⟨_, κ', hreached, hstep, not_appliesAdmitted hshown hread hchanged⟩

/-- The plan file is changed after its rendering was admitted and before it is read for the record:
the apply starts, on a plan that nobody admitted. -/
theorem changed_plan_applied :
    ∃ κ κ', Reachable (Session.Initial fun _ => True)
        (sampleRuntime.session charDigest sampleText).Step κ ∧
      (sampleRuntime.session charDigest sampleText).Step κ
        (.lost (.destroy sampleRequest) .startApplySavedPlan) κ' ∧
      ¬ AppliesAdmitted charDigest sampleRuntime (.destroy sampleRequest) κ.world.seen := by
  obtain ⟨run, hplayed, hseen⟩ := changedRun
  rw [← hplayed] at hseen
  obtain ⟨hnext, hshown, hread, -⟩ := hseen
  obtain ⟨κ', hstep⟩ := sampleRun_starts hnext
  exact started_on_changed (sampleRun_reached [6]) hstep hshown hread (by decide)

end TemplateRuntime

end Template

end Shaula
