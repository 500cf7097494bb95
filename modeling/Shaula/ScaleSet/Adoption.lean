import Shaula.ScaleSet.Stages

/-! # Adoption

A whole pass, and every run of passes.
-/

namespace Shaula.ScaleSet

open Library

section Passes

variable {sha256 : String → String} {c : FleetSupervisor} {A : Books → Prop} {id groupId : Int}
  {attempt : Option String}

/-! ## The bound identity -/

theorem settles_verifyFound {row : Option ScaleSetState} {view : ScaleSetView}
    (h : ∀ books, A books → books.Bound id ∧ books.seen.group = some groupId ∧
      books.seen.lookup = some (.exactlyOne view)) :
    Settles c A (c.verifyFound sha256 row id groupId view) Books.Adopted := by
  unfold FleetSupervisor.verifyFound
  by_cases hview : view.id = id ∧ c.ViewCompatible view groupId
  · simp only [if_pos hview]
    refine settles_verifyInventory fun books hbooks => ?_
    obtain ⟨hbound, hgroup, hlookup⟩ := h books hbooks
    exact ⟨.inl hbound, view, groupId, hgroup, hlookup, hview⟩
  simp only [if_neg hview]
  by_cases howned : view.id = id ∧ c.IdentityCompatible view groupId ∧
      row.bind (·.ownedScaleSetId) = some id
  · simp only [if_pos howned]
    exact settles_reconcileLabels fun books hbooks => ⟨(h books hbooks).1, (h books hbooks).2.1⟩
  simp only [if_neg howned]
  by_cases hid : view.id = id
  · simp only [if_pos hid]
    refine Settles.upsert_same nofun (by decide) ⟨by decide, by decide⟩ fun books hbooks x hx => ?_
    cases hx
    exact .inl (h books hbooks).1
  · simp only [if_neg hid]
    exact settles_reopenOwnership

theorem settles_verifyAdopted (h : ∀ books, A books → books.Bound id) :
    Settles c A (c.verifyAdopted sha256 id) Books.Adopted := by
  refine Settles.weaken (D := fun books => books.Bound id) ?_ h fun _ h => h
  have hsame : ∀ books : Books, books.Bound id → ∀ x, some id = some x → books.MayBind x := by
    rintro books hbound x hx
    cases hx
    exact .inl hbound
  refine meets_scaleSetGet.bind fun (row : Option ScaleSetState) => ?_
  by_cases hchanged : ∃ r ∈ row, r.fingerprint ≠ fingerprint sha256 c.identity
  · simp only [if_pos hchanged]
    exact settles_reopenOwnership
  simp only [if_neg hchanged]
  refine (meets_resolveRunnerGroup fun _ _ h => h).bind fun (group : Except AccessFailure Int) => ?_
  cases group with
  | error failure => exact Settles.accessBlocked fun books hbooks => hsame books hbooks.1.1
  | ok groupId =>
    refine (meets_lookupScaleSet (fun _ _ h => h) fun _ h => h.2 _ rfl).bind
      fun (lookup : Except AccessFailure LookupOutcome) => ?_
    match lookup with
    | .error failure => exact Settles.accessBlocked fun books hbooks => hsame books hbooks.1.1.1
    | .ok .none => exact settles_reopenOwnership
    | .ok .multiple => exact settles_reopenOwnership
    | .ok (.exactlyOne view) =>
      exact settles_verifyFound fun books hbooks =>
        ⟨hbooks.1.1.1, hbooks.1.2 _ rfl, hbooks.2 _ rfl⟩

/-! ## A row that binds nothing -/

/-- The attempt is persisted, the group resolved and nothing was found. -/
def Creating (groupId : Int) (attempt : String) (books : Books) : Prop :=
  (∃ row, books.row = some row ∧ row.state = .scaleSetCreateStarting ∧
    row.attemptId = some attempt) ∧ books.seen.group = some groupId ∧
    books.seen.lookup = some .none

theorem Creating.free {books : Books} {attempt : String} (h : Creating groupId attempt books) :
    books.Free := by
  obtain ⟨⟨row, hrow, hstate, -⟩, -⟩ := h
  exact Books.free_of_row hrow (.inr fun hbinds => hbinds.2 hstate)

theorem Books.Free.mayBind {books : Books} (h : books.Free) : books.MayBind id := .inr h

/-- The row before the request. -/
theorem meets_createStarting {attempt : String}
    (h : ∀ books, A books → books.Free ∧ books.seen.group = some groupId ∧
      books.seen.lookup = some .none) :
    Meets c A (c.upsertOwnership sha256 none .scaleSetCreateStarting (some attempt)) fun _ =>
      Creating groupId attempt := by
  refine ViewSpec.weaken (meets_upsert ?_ ?_) (fun _ h => h) ?_
  · exact fun _ _ _ h => by cases h
  · intro w hinv hA _ hoccupied
    exact absurd hoccupied (hinv.vacant_of_free (h _ hA).1)
  · rintro _ _ ⟨books, hA, rfl⟩
    exact ⟨⟨_, rfl, rfl, rfl⟩, (h books hA).2⟩

/-- The request, sent under the persisted attempt after a lookup that found nothing. -/
theorem meets_createScaleSet {attempt : String} :
    Meets c (Creating groupId attempt)
      (ask (.createScaleSet c.identity groupId c.fallbackLabels))
      fun (created : Except AccessFailure (EffectOutcome ScaleSetView)) books =>
        Creating groupId attempt books ∧
          ∀ view, created = .ok (.definite view) → books.seen.created = some view := by
  refine .ask ?_ fun w created w' hinv hbooks hact => ?_
  · rintro w - ⟨⟨row, hrow, hstate, hattempt⟩, hgroup, hlookup⟩
    exact ⟨rfl, rfl, hgroup, hlookup, row, attempt, hrow, hstate, hattempt⟩
  · match created with
    | .ok (.definite view) =>
      cases hact
      refine ⟨hinv.sees (.inl rfl), hbooks, fun _ h => ?_⟩
      cases h
      rfl
    | .ok .uncertain =>
      cases hact
      exact ⟨hinv, hbooks, fun _ h => by cases h⟩
    | .error failure =>
      cases hact
      exact ⟨hinv, hbooks, fun _ h => by cases h⟩

theorem settles_createOwnedScaleSet
    (h : ∀ books, A books → books.Free ∧ books.seen.group = some groupId ∧
      books.seen.lookup = some .none) :
    Settles c A (c.createOwnedScaleSet sha256 groupId attempt) Books.Adopted := by
  refine Settles.weaken (D := fun books => books.Free ∧ books.seen.group = some groupId ∧
    books.seen.lookup = some .none) ?_ h fun _ h => h
  refine (Meets.quiet .newAttemptId (fun _ => trivial) fun _ _ _ h => h).bind
    fun (fresh : String) => ?_
  refine (meets_createStarting fun _ h => h).bind fun _ => ?_
  refine meets_createScaleSet.bind
    fun (created : Except AccessFailure (EffectOutcome ScaleSetView)) => ?_
  match created with
  | .ok (.definite view) =>
    by_cases hview : c.ViewCompatible view groupId
    · simp only [if_pos hview]
      refine settles_adopt fun books hbooks => ⟨?_, hbooks.1.free.mayBind⟩
      exact proven_of_created hbooks.1.2.1 (hbooks.2 view rfl) hview
    · simp only [if_neg hview]
      exact Settles.upsert_free nofun (by decide) fun _ hbooks => hbooks.1.free
  | .ok .uncertain => exact Settles.blocked
  | .error failure =>
    have hblocked : ∀ attempt : Option String, Settles c
        (fun books => Creating groupId (attempt.getD fresh) books)
        (c.accessBlocked sha256 none (some (attempt.getD fresh)) failure) Books.Adopted :=
      fun _ => Settles.accessBlocked fun _ _ _ h => by cases h
    have hfailed := (hblocked attempt).weaken
      (A := fun books => Creating groupId (attempt.getD fresh) books ∧
        ∀ view, Except.error failure = .ok (EffectOutcome.definite view) →
          books.seen.created = some view) (fun _ h => h.1) fun _ h => h
    cases failure
    case requestUncertain => exact Settles.blocked
    all_goals exact hfailed

theorem settles_createOrAdopt {existing : Option ScaleSetState}
    (h : ∀ books, A books → books.Free) :
    Settles c A (c.createOrAdopt sha256 existing) Books.Adopted := by
  refine Settles.weaken (D := Books.Free) ?_ h fun _ h => h
  refine (meets_resolveRunnerGroup fun _ _ h => h).bind fun (group : Except AccessFailure Int) => ?_
  cases group with
  | error failure => exact Settles.accessBlocked fun _ _ _ h => by cases h
  | ok groupId =>
    refine (meets_lookupScaleSet (fun _ _ h => h) fun _ h => h.2 _ rfl).bind
      fun (lookup : Except AccessFailure LookupOutcome) => ?_
    match lookup with
    | .error failure => exact Settles.accessBlocked fun _ _ _ h => by cases h
    | .ok .none =>
      exact settles_createOwnedScaleSet fun books hbooks =>
        ⟨hbooks.1.1, hbooks.1.2 _ rfl, hbooks.2 _ rfl⟩
    | .ok .multiple => exact Settles.blocked
    | .ok (.exactlyOne view) =>
      by_cases hview : c.ViewCompatible view groupId
      · simp only [if_pos hview]
        refine settles_verifyInventory fun books hbooks => ⟨hbooks.1.1.mayBind, view, groupId, ?_⟩
        exact ⟨hbooks.1.2 _ rfl, hbooks.2 _ rfl, rfl, hview⟩
      · simp only [if_neg hview]
        exact Settles.upsert_free nofun (by decide) fun _ hbooks => hbooks.1.1

theorem settles_recoverAccess {row : ScaleSetState} (hid : row.scaleSetId = none) :
    Settles c (fun books => books.row = some row) (c.recoverAccess sha256 row) Books.Adopted := by
  refine (Meets.quiet .handoffGet (fun _ => trivial) fun _ _ _ h => h).bind
    fun (handoff : Option HandoffRow) => ?_
  by_cases hrecovered : ∃ h ∈ handoff, h.observed = some h.desired
  · simp only [hrecovered, not_true_eq_false, if_false]
    have hunbound : Meets c (fun books => books.row = some row)
        (c.upsertOwnership sha256 row.scaleSetId .unbound row.attemptId) fun _ => Books.Free := by
      refine ViewSpec.weaken (meets_upsert ?_ ?_) (fun _ h => h) ?_
      · exact fun _ _ _ h => by cases h
      · intro w hinv hrow _ hoccupied
        exact absurd hoccupied (hinv.vacant_of_free (Books.free_of_row hrow (.inl hid)))
      · rintro _ _ ⟨books, -, rfl⟩
        exact Books.free_of_row rfl (.inr fun h => h.1 rfl)
    exact hunbound.bind fun _ => settles_createOrAdopt fun _ h => h
  · simp only [hrecovered, not_false_eq_true, if_true]
    exact Settles.blocked

/-! ## The pass -/

/-- A state that is not verified again binds nothing, but the one that waits for its resources. -/
theorem not_binds_of_not_verifies {state : OwnershipState}
    (h : FleetSupervisor.verifies state = false) (hmissing : state ≠ .scaleSetMissingWithResources) :
    ¬ Binds state := by
  cases state <;> simp_all [FleetSupervisor.verifies, Binds]

theorem binds_of_verifies {state : OwnershipState} (h : FleetSupervisor.verifies state = true) :
    Binds state := by
  cases state <;> simp_all [FleetSupervisor.verifies, Binds]

theorem settles_ensureRow {existing : Option ScaleSetState} :
    Settles c (fun books => books.row = existing) (c.ensureRow sha256 existing) Books.Adopted := by
  cases existing with
  | none => exact settles_createOrAdopt fun _ hrow => Books.free_of_none hrow
  | some row =>
    by_cases hbound : FleetSupervisor.verifies row.state = true ∧ ∃ id, row.scaleSetId = some id
    · obtain ⟨hverifies, id, hid⟩ := hbound
      simp only [FleetSupervisor.ensureRow, hverifies, hid]
      exact settles_verifyAdopted fun _ hrow => Books.bound_of_row hrow hid
        (binds_of_verifies hverifies)
    · have hunbound : FleetSupervisor.verifies row.state = false ∨ row.scaleSetId = none := by
        by_contra h
        simp only [not_or, Bool.not_eq_false, Option.ne_none_iff_exists'] at h
        exact hbound h
      have hensure : c.ensureRow sha256 (some row) =
          if row.state = .scaleSetMissingWithResources then
            return .blocked .scaleSetMissingWithResources
          else if row.state = .accessBlocked then c.recoverAccess sha256 row
          else c.createOrAdopt sha256 (some row) := by
        rcases hunbound with h | h <;> simp only [FleetSupervisor.ensureRow, h]
        split
        · simp_all
        · rfl
      rw [hensure]
      by_cases hmissing : row.state = .scaleSetMissingWithResources
      · rw [if_pos hmissing]
        exact Settles.blocked
      rw [if_neg hmissing]
      by_cases haccess : row.state = .accessBlocked
      · rw [if_pos haccess]
        refine settles_recoverAccess (hunbound.resolve_left fun h => ?_)
        rw [haccess] at h
        cases h
      · rw [if_neg haccess]
        refine settles_createOrAdopt fun _ hrow => Books.free_of_row hrow ?_
        exact hunbound.symm.imp_right fun h => not_binds_of_not_verifies h hmissing

theorem settles_ensureProven :
    Settles c (fun _ => True) (c.ensureProven sha256) Books.Adopted := by
  refine (Meets.quiet .ensureRouteProof (fun _ => trivial) ?_).bind
    fun (proof : Except AccessFailure Unit) => ?_
  · exact fun _ _ _ h => h
  refine (Meets.quiet (.recordRouteHealth proof) (fun _ => trivial) fun _ _ _ h => h).bind
    fun _ => ?_
  cases proof with
  | error failure =>
    refine .done fun _ _ h => ?_
    cases failure <;> cases h
  | ok _ =>
    refine meets_scaleSetGet.bind fun (existing : Option ScaleSetState) => ?_
    exact settles_ensureRow.weaken (fun _ h => h.2.symm) fun _ h => h

theorem settles_ensureOwnership :
    Settles c (fun _ => True) (c.ensureOwnership sha256) Books.Adopted := by
  unfold FleetSupervisor.ensureOwnership
  by_cases hlistener : c.listener = true
  · rw [if_pos hlistener]
    refine (Meets.quiet .authorizeRuntime (fun _ => trivial) fun _ _ _ h => h).bind
      fun (authorized : Bool) => ?_
    cases authorized with
    | false => exact Settles.blocked
    | true => exact settles_ensureProven
  · rw [if_neg hlistener]
    exact settles_ensureProven

/-! ## Creates -/

theorem Books.Adopted.bound {w : World} (h : w.books.Adopted) (hinv : Inv w) :
    ∃ id, w.books.lastAdopted = some id ∧ w.books.Bound id := by
  obtain ⟨row, hrow, hstate⟩ := h
  obtain ⟨id, hid, hlast⟩ := hinv.adopted row hrow hstate
  refine ⟨id, hlast, row, hrow, hid, ?_⟩
  rw [hstate]
  exact ⟨by decide, by decide⟩

/-- Under an adopted row the fleet may be filled. -/
theorem meets_generationInsert :
    Meets c Books.Adopted (ask .generationInsert) fun (_ : Bool) => Books.Adopted := by
  refine .ask (fun _ _ _ => trivial) fun w inserted w' hinv hadopted hact => ?_
  cases inserted with
  | false =>
    cases hact
    exact ⟨hinv, hadopted⟩
  | true =>
    obtain ⟨generation, -, rfl⟩ := hact
    refine ⟨⟨hinv.owned, fun _ => hadopted.bound hinv, hinv.adopted, ?_⟩, hadopted⟩
    exact fun _ h => by cases h

theorem meets_runCreates (n : Nat) :
    Meets c Books.Adopted (FleetSupervisor.runCreates n) fun _ => Books.Adopted := by
  induction n with
  | zero => exact .done fun _ h => h
  | succ n ih => exact meets_generationInsert.bind fun _ => ih

theorem meets_listenerStage :
    Meets c A c.listenerStage fun _ => A := by
  by_cases hlistener : c.listener = true
  · have hstage : c.listenerStage = ask .listenerReady := if_pos hlistener
    rw [hstage]
    exact Meets.quiet .listenerReady (fun _ => trivial) fun _ _ _ h => h
  · have hstage : c.listenerStage = .done true := if_neg hlistener
    rw [hstage]
    exact .done fun _ h => h

theorem meets_reconcile :
    Meets c (fun _ => True) (c.reconcile sha256) fun _ _ => True := by
  refine settles_ensureOwnership.bind fun (outcome : OwnershipOutcome) => ?_
  by_cases hready : outcome = .ready
  · simp only [if_pos hready]
    refine ViewSpec.weaken (C := Books.Adopted) ?_ (fun _ hbooks => hbooks hready) fun _ _ h => h
    refine meets_listenerStage.bind fun (ready : Bool) => ?_
    cases ready with
    | false => exact .done fun _ _ => trivial
    | true =>
      refine (Meets.quiet .capacityPlan (fun _ => trivial) fun _ _ _ h => h).bind
        fun (creates : Nat) => ?_
      exact (meets_runCreates creates).weaken (fun _ h => h) fun _ _ _ => trivial
  · simp only [if_neg hready]
    exact .done fun _ _ => trivial

end Passes

/-! ## Runs -/

section Runs

variable (sha256 : String → String)

abbrev OwnershipConfig := Session.Config ownershipEffects FleetSupervisor World Empty Unit

abbrev OwnershipEvent := Session.Event ownershipEffects FleetSupervisor Empty Unit

/-- The passes of a fleet run one at a time, each with what the supervisor of its day is built
with.  A crash keeps the row. -/
def ownershipSession : Session ownershipEffects FleetSupervisor World Empty Unit where
  machine := ownershipMachine
  body c := c.reconcile sha256
  begins w _ := w.books.seen = {}
  idle w w' := w'.books = { w.books with seen := {} } ∧ Proceeds w.generations w'.generations
  crash w := w

/-- A fleet before its first pass. -/
def fresh : World := ⟨⟨none, [], {}⟩, []⟩

def Fresh (w : World) : Prop := w = fresh

variable {sha256}

theorem inv_fresh : Inv fresh := by
  refine ⟨fun _ _ h => ?_, fun h => ?_, fun _ h => ?_, fun _ h => ?_⟩
  · cases h
  · obtain ⟨_, hmem, -⟩ := h
    cases hmem
  · cases h
  · cases h

theorem disciplined : (ownershipSession sha256).Disciplined Inv Allowed where
  env := fun _ _ hinv ⟨hbooks, hproceeds⟩ => hinv.proceeds hbooks hproceeds
  idle := fun _ _ hinv ⟨hbooks, hproceeds⟩ =>
    (hinv.sees (.inr (.inl rfl))).proceeds hbooks hproceeds
  crash := fun _ hinv => hinv
  safe := fun _ _ hinv _ => (meets_reconcile _ ⟨hinv, trivial⟩).mono fun _ _ _ => trivial

/-- Only an upsert writes the row. -/
theorem acts_row {w w' : World} {op : Effect} {answer : op.Answer} (h : Acts w op answer w') :
    w'.books.row = w.books.row ∨ ∃ row, op = .scaleSetUpsert row ∧
      w'.books.row = some (scaleSetUpsert w.books.row row) := by
  cases op with
  | scaleSetUpsert row =>
    cases h
    exact .inr ⟨row, rfl, rfl⟩
  | scaleSetGet | generationsForFleet =>
    obtain ⟨-, rfl⟩ := h
    exact .inl rfl
  | generationInsert =>
    cases answer with
    | false => exact .inl (congrArg (·.books.row) h)
    | true =>
      obtain ⟨generation, -, rfl⟩ := h
      exact .inl rfl
  | resolveRunnerGroup | lookupScaleSet | listRunners =>
    cases answer <;> exact .inl (congrArg (·.books.row) h)
  | createScaleSet =>
    match answer, h with
    | .ok (.definite _), h => exact .inl (congrArg (·.books.row) h)
    | .ok .uncertain, h => exact .inl (congrArg (·.books.row) h)
    | .error _, h => exact .inl (congrArg (·.books.row) h)
  | _ => exact .inl (congrArg (·.books.row) h)

theorem step_row {κ κ' : OwnershipConfig} {event : OwnershipEvent}
    (hstep : (ownershipSession sha256).Step κ event κ') :
    κ'.world.books.row = κ.world.books.row ∨ ∃ c row, event.effect = some (c, .scaleSetUpsert row) ∧
      κ'.world.books.row = some (scaleSetUpsert κ.world.books.row row) := by
  cases hstep with
  | passed hidle =>
    rw [show _ = _ from hidle.1]
    exact .inl rfl
  | interfered henv =>
    rw [show _ = _ from henv.1]
    exact .inl rfl
  | performed hact =>
    refine (acts_row hact).imp_right ?_
    rintro ⟨row, rfl, hrow⟩
    exact ⟨_, row, rfl, hrow⟩
  | lost hlost =>
    rcases hlost with rfl | ⟨answer, hact⟩
    · exact .inl rfl
    refine (acts_row hact).imp_right ?_
    rintro ⟨row, rfl, hrow⟩
    exact ⟨_, row, rfl, hrow⟩
  | begun | done | fail | crashed => exact .inl rfl

/-- **Ownership.**  In every run, an owned identity was adopted under what the row says, an adopted row
is about the identity adopted last, the row changes by an upsert of a pass only, and every effect of
a pass is performed where it may be. -/
theorem binding_proven {κ κ' : OwnershipConfig} {event : OwnershipEvent}
    (hκ : Reachable (Session.Initial Fresh) (ownershipSession sha256).Step κ)
    (hstep : (ownershipSession sha256).Step κ event κ') :
    (∀ row id, κ.world.books.row = some row → row.ownedScaleSetId = some id →
      ⟨id, row.fingerprint, row.name, row.runnerGroup⟩ ∈ κ.world.books.adoptions) ∧
    (∀ row, κ.world.books.row = some row → row.state = .adopted →
      ∃ id, row.scaleSetId = some id ∧ κ.world.books.lastAdopted = some id) ∧
    (κ'.world.books.row = κ.world.books.row ∨
      ∃ c row, event.effect = some (c, .scaleSetUpsert row) ∧
        κ'.world.books.row = some (scaleSetUpsert κ.world.books.row row)) ∧
    ∀ c op, event.effect = some (c, op) → Allowed c κ.world op := by
  have hguarded : (ownershipSession sha256).Guarded Inv Allowed κ := by
    refine disciplined.reached (fun w hw => ?_) hκ
    cases hw
    exact inv_fresh
  exact ⟨hguarded.1.owned, hguarded.1.adopted, step_row hstep,
    fun c op heffect => hguarded.obliged hstep heffect⟩

/-! ## A run -/

def sampleSupervisor : FleetSupervisor := ⟨⟨"url", "group", "set"⟩, [], false⟩

def sampleView : ScaleSetView := ⟨5, "set", 7, [⟨"set", "System"⟩]⟩

/-- GitHub reports one scale set without runners; no row is written yet. -/
def answerWith (w : World) : (op : Effect) → Option (op.Answer × World)
  | .ensureRouteProof => some (.ok (), w)
  | .recordRouteHealth _ => some ((), w)
  | .scaleSetGet => some (w.books.row, w)
  | .resolveRunnerGroup _ => some (.ok 7, { w with books.seen.group := some 7 })
  | .lookupScaleSet _ _ => some (.ok (.exactlyOne sampleView),
      { w with books.seen.lookup := some (.exactlyOne sampleView) })
  | .listRunners id => some (.ok [],
      { w with books.seen.inventory := some (id, []), books.seen.ledger := none })
  | .generationsForFleet => some (w.generations, { w with books.seen.ledger := some w.generations })
  | _ => none

theorem answerWith_acts (w : World) (op : ownershipEffects.Op)
    (answer : ownershipEffects.Answer op) (w' : World) (h : answerWith w op = some (answer, w')) :
    ∃ w₁, ownershipMachine.env w w₁ ∧ ownershipMachine.act w₁ op answer w' := by
  refine ⟨w, ⟨rfl, Proceeds.refl _⟩, ?_⟩
  cases op with
  | scaleSetGet | generationsForFleet => cases h; exact ⟨rfl, rfl⟩
  | ensureRouteProof | recordRouteHealth | resolveRunnerGroup | lookupScaleSet | listRunners =>
    cases h
    rfl
  | _ => cases h

/-- The sample pass, up to its first upsert. -/
def sampleRun : World × Routine Unit :=
  (sampleSupervisor.reconcile id).play answerWith fresh

def sampleRow : ScaleSetRow := sampleSupervisor.row id (some 5) .adopted none

theorem sampleRun_reached :
    Reachable (Session.Initial Fresh) (ownershipSession id).Step
      ⟨sampleRun.1, some (sampleSupervisor, sampleRun.2)⟩ := by
  have hinit : Session.Initial Fresh (⟨fresh, none⟩ : OwnershipConfig) := ⟨rfl, rfl⟩
  have hbegun : (ownershipSession id).Step ⟨fresh, none⟩ (.begun sampleSupervisor)
      ⟨fresh, some (sampleSupervisor, sampleSupervisor.reconcile id)⟩ := .begun rfl
  exact Session.reaches_play answerWith_acts (Reachable.next (.of_init hinit) hbegun)

/-- The one scale set that was reported is adopted. -/
theorem binding_proven_sample : Proven sampleSupervisor sampleRun.1.books.seen 5 := by
  have hreached := sampleRun_reached
  have hnext : sampleRun.2.next = some (.scaleSetUpsert sampleRow) := rfl
  generalize sampleRun = run at *
  obtain ⟨w, p⟩ := run
  obtain ⟨k, rfl⟩ := Program.eq_perform_of_next hnext
  have hstep : (ownershipSession id).Step
      ⟨w, some (sampleSupervisor, .perform (F := ownershipEffects) (.scaleSetUpsert sampleRow) k)⟩
      (.lost sampleSupervisor (.scaleSetUpsert sampleRow)) ⟨w, none⟩ := .lost (.inl rfl)
  obtain ⟨-, -, -, hallowed⟩ := binding_proven hreached hstep
  obtain ⟨id, hid, hproven, -⟩ := hallowed _ _ rfl rfl
  cases hid
  exact hproven

end Runs

end Shaula.ScaleSet
