import Shaula.Library.Execution
import Shaula.ScaleSet.Adoption

/-! # Ways back from a block

Passes of a fleet without resources while GitHub answers every call and has at most one scale set of
the fleet's name, which is the one the fleet asks for.
-/

namespace Shaula.ScaleSet

open Library

/-! ## A GitHub that answers -/

/-- What is fixed while the passes go on: the group, the scale set a create makes, the fleet's
handoff and the attempt id that is drawn. -/
structure Circumstances where
  groupId : Int
  made : ScaleSetView
  handoff : HandoffRow
  attempt : String

/-- The fleet, and the scale set of its name. -/
structure Situation where
  world : World
  found : Option ScaleSetView

def Situation.lookup (s : Situation) : LookupOutcome :=
  match s.found with
  | some view => .exactlyOne view
  | none => .none

variable (g : Circumstances)

def settle (s : Situation) : (op : Effect) → Option (op.Answer × Situation)
  | .scaleSetGet => some (s.world.books.row, s)
  | .scaleSetUpsert row => some ((), { s with world.books := s.world.books.upsert row })
  | .handoffGet => some (some g.handoff, s)
  | .generationsForFleet =>
    some (s.world.generations, { s with world.books.seen.ledger := some s.world.generations })
  | .ensureRouteProof => some (.ok (), s)
  | .recordRouteHealth _ => some ((), s)
  | .resolveRunnerGroup _ =>
    some (.ok g.groupId, { s with world.books.seen.group := some g.groupId })
  | .lookupScaleSet _ _ =>
    some (.ok s.lookup, { s with world.books.seen.lookup := some s.lookup })
  | .createScaleSet _ _ _ =>
    some (.ok (.definite g.made),
      { s with found := some g.made, world.books.seen.created := some g.made })
  | .updateScaleSetLabels _ _ => some (.ok (.definite ()), s)
  | .listRunners id =>
    some (.ok [], { s with
      world.books.seen.inventory := some (id, [])
      world.books.seen.ledger := none })
  | .authorizeRuntime => some (true, s)
  | .newAttemptId => some (g.attempt, s)
  | .generationInsert | .listenerReady | .capacityPlan => none

variable (sha256 : String → String) (c : FleetSupervisor)

/-- One pass: what it leaves, and its outcome once it came to its end. -/
def pass (s : Situation) : Situation × Routine OwnershipOutcome :=
  (c.ensureOwnership sha256).play (settle g) s

/-- What a number of passes leaves. -/
def passes : Nat → Situation → Situation
  | 0, s => s
  | n + 1, s => (pass g sha256 c (passes n s)).1

def Situation.Adopted (s : Situation) : Prop :=
  ∃ row, s.world.books.row = some row ∧ row.state = .adopted

/-- The outcome is ready, and the row adopted. -/
def Restores (s : Situation) : Prop :=
  (pass g sha256 c s).2 = .done .ready ∧ (pass g sha256 c s).1.Adopted

/-- The fleet has no resources, and what GitHub has and makes is what the fleet asks for. -/
structure Settled (s : Situation) : Prop where
  vacant : occupancy s.world.generations = 0
  handoff : g.handoff.observed = some g.handoff.desired
  found : ∀ view, s.found = some view → c.ViewCompatible view g.groupId
  made : c.ViewCompatible g.made g.groupId

/-! ## Stages -/

variable {g sha256 c} {s : Situation} {α : Type}

abbrev LeadsTo (g : Circumstances) (p : Routine α) (s : Situation) (Q : α → Situation → Prop) :
    Prop :=
  p.Leads (settle g) s Q

/-- What a pass is about stays, whatever the pass has seen. -/
structure Same (s s' : Situation) : Prop where
  found : s'.found = s.found
  generations : s'.world.generations = s.world.generations
  row : s'.world.books.row = s.world.books.row

theorem Same.settled {s' : Situation} (h : Same s s') (hs : Settled g c s) : Settled g c s' :=
  ⟨h.generations ▸ hs.vacant, hs.handoff, fun view hview => hs.found view (h.found ▸ hview),
    hs.made⟩

theorem leads_resolveRunnerGroup (identity : ScaleSetIdentity) :
    LeadsTo g (ask (.resolveRunnerGroup identity)) s
      fun (group : Except AccessFailure Int) s' => group = .ok g.groupId ∧ Same s s' :=
  .lift rfl ⟨rfl, rfl, rfl, rfl⟩

/-- Nothing is found, or what the fleet asks for. -/
theorem leads_lookupScaleSet (hs : Settled g c s) (identity : ScaleSetIdentity) :
    LeadsTo g (ask (.lookupScaleSet identity g.groupId)) s
      fun (lookup : Except AccessFailure LookupOutcome) s' => Same s s' ∧
        (lookup = .ok .none ∨
          ∃ view, lookup = .ok (.exactlyOne view) ∧ c.ViewCompatible view g.groupId) := by
  refine .lift rfl ⟨⟨rfl, rfl, rfl⟩, ?_⟩
  unfold Situation.lookup
  split
  · next view hview => exact .inr ⟨view, rfl, hs.found view hview⟩
  · exact .inl rfl

theorem leads_upsert {id : Option Int} {state : OwnershipState} {attempt : Option String}
    {Q : Unit → Situation → Prop}
    (h : Q () { s with world.books := s.world.books.upsert (c.row sha256 id state attempt) }) :
    LeadsTo g (c.upsertOwnership sha256 id state attempt) s Q :=
  .lift rfl h

/-- An inventory without runners is a known one. -/
theorem leads_checkInventory (id : Int) :
    LeadsTo g (c.checkInventory sha256 id) s fun outcome s' => outcome = .ready ∧ Same s s' := by
  refine .bind (.lift rfl ?_)
  refine .bind (.lift rfl ?_)
  simp only [List.not_mem_nil, false_implies, implies_true, if_true]
  exact .done ⟨rfl, rfl, rfl, rfl⟩

theorem leads_verifyInventory (id : Int) :
    LeadsTo g (c.verifyInventory sha256 id) s fun outcome s' => outcome = .ready ∧ s'.Adopted := by
  refine .bind ((leads_checkInventory id).mono fun outcome s' h => ?_)
  obtain ⟨rfl, -⟩ := h
  simp only [if_true]
  exact .bind (leads_upsert (.done ⟨rfl, _, rfl, rfl⟩))

/-- The row is reopened. -/
def Reopened (s s' : Situation) : Prop :=
  (∃ row, s'.world.books.row = some row ∧ row.state = .unbound) ∧ s'.found = s.found ∧
    s'.world.generations = s.world.generations

theorem leads_reopenOwnership (hs : Settled g c s) (reason : ReasonCode)
    (attempt : Option String) :
    LeadsTo g (c.reopenOwnership sha256 reason attempt) s fun _ s' => Reopened s s' := by
  refine .bind (.lift rfl ?_)
  have hvacant : ¬ 0 < occupancy s.world.generations := by
    rw [hs.vacant]
    exact Nat.lt_irrefl 0
  simp only [if_neg hvacant]
  exact .bind (leads_upsert (.done ⟨⟨_, rfl, rfl⟩, rfl, rfl⟩))

theorem leads_createOwnedScaleSet (hs : Settled g c s) (attempt : Option String) :
    LeadsTo g (c.createOwnedScaleSet sha256 g.groupId attempt) s fun outcome s' =>
      outcome = .ready ∧ s'.Adopted := by
  refine .bind (.lift rfl (.bind (leads_upsert (.bind (.lift rfl ?_)))))
  simp only [if_pos hs.made]
  exact .bind (leads_upsert (.done ⟨rfl, _, rfl, rfl⟩))

/-- A row that binds nothing is adopted, or its scale set is made. -/
theorem leads_createOrAdopt (hs : Settled g c s) (existing : Option ScaleSetState) :
    LeadsTo g (c.createOrAdopt sha256 existing) s fun outcome s' =>
      outcome = .ready ∧ s'.Adopted := by
  refine .bind ((leads_resolveRunnerGroup _).mono fun group s₁ hgroup => ?_)
  obtain ⟨rfl, hsame⟩ := hgroup
  have hs₁ := hsame.settled hs
  refine .bind ((leads_lookupScaleSet hs₁ _).mono fun lookup s₂ hlookup => ?_)
  obtain ⟨hsame₂, rfl | ⟨view, rfl, hview⟩⟩ := hlookup
  · exact leads_createOwnedScaleSet (hsame₂.settled hs₁) _
  · simp only [if_pos hview]
    exact leads_verifyInventory _

theorem Reopened.of_same {s₁ s₂ : Situation} (h : Same s s₁) (hreopened : Reopened s₁ s₂) :
    Reopened s s₂ := by
  obtain ⟨hrow, hfound, hgenerations⟩ := hreopened
  exact ⟨hrow, hfound.trans h.found, hgenerations.trans h.generations⟩

/-- A bound row is proven again, or reopened. -/
theorem leads_verifyAdopted (hs : Settled g c s) (id : Int) :
    LeadsTo g (c.verifyAdopted sha256 id) s fun outcome s' =>
      (outcome = .ready ∧ s'.Adopted) ∨ Reopened s s' := by
  refine .bind (.lift rfl ?_)
  by_cases hchanged : ∃ r ∈ s.world.books.row, r.fingerprint ≠ fingerprint sha256 c.identity
  · simp only [if_pos hchanged]
    exact (leads_reopenOwnership hs _ _).mono fun _ _ h => .inr h
  simp only [if_neg hchanged]
  refine .bind ((leads_resolveRunnerGroup _).mono fun group s₁ hgroup => ?_)
  obtain ⟨rfl, hsame⟩ := hgroup
  have hs₁ := hsame.settled hs
  refine .bind ((leads_lookupScaleSet hs₁ _).mono fun lookup s₂ hlookup => ?_)
  obtain ⟨hsame₂, hlookup⟩ := hlookup
  have hs₂ := hsame₂.settled hs₁
  have hreopen : ∀ s', Reopened s₂ s' → Reopened s s' :=
    fun _ h => (h.of_same hsame₂).of_same hsame
  rcases hlookup with rfl | ⟨view, rfl, hview⟩
  · exact (leads_reopenOwnership hs₂ _ _).mono fun _ s' h => .inr (hreopen s' h)
  · dsimp only
    unfold FleetSupervisor.verifyFound
    by_cases hid : view.id = id
    · simp only [if_pos (And.intro hid hview)]
      exact (leads_verifyInventory _).mono fun _ _ h => .inl h
    · simp only [hid, false_and, if_false]
      exact (leads_reopenOwnership hs₂ _ _).mono fun _ s' h => .inr (hreopen s' h)

/-! ## Passes -/

/-- A row that is blocked for good. -/
def Situation.Stuck (s : Situation) : Prop :=
  ∃ row, s.world.books.row = some row ∧ row.state = .scaleSetMissingWithResources

theorem leads_ensureRow (hs : Settled g c s) {row : ScaleSetState} (hstuck : row.state ≠ .scaleSetMissingWithResources) :
    LeadsTo g (c.ensureRow sha256 (some row)) s fun outcome s' =>
      (outcome = .ready ∧ s'.Adopted) ∨ Reopened s s' := by
  have hcreate : ∀ {s₁ : Situation}, Settled g c s₁ → ∀ existing,
      LeadsTo g (c.createOrAdopt sha256 existing) s₁ fun outcome s' =>
        (outcome = .ready ∧ s'.Adopted) ∨ Reopened s s' :=
    fun hs₁ existing => (leads_createOrAdopt hs₁ existing).mono fun _ _ h => .inl h
  rw [FleetSupervisor.ensureRow]
  split
  · exact leads_verifyAdopted hs _
  · rw [if_neg hstuck]
    by_cases hblocked : row.state = .accessBlocked
    · rw [if_pos hblocked]
      refine .bind (.lift rfl ?_)
      have hhandoff : ∃ h ∈ some g.handoff, h.observed = some h.desired :=
        ⟨g.handoff, rfl, hs.handoff⟩
      simp only [hhandoff, not_true_eq_false, if_false]
      refine .bind (leads_upsert ?_)
      apply hcreate
      exact ⟨hs.vacant, hs.handoff, hs.found, hs.made⟩
    · rw [if_neg hblocked]
      exact hcreate hs _

/-- The proof of the route comes before the row is read. -/
theorem leads_ensureOwnership {Q : OwnershipOutcome → Situation → Prop}
    (h : LeadsTo g (c.ensureRow sha256 s.world.books.row) s Q) :
    LeadsTo g (c.ensureOwnership sha256) s Q := by
  have hproven : LeadsTo g (c.ensureProven sha256) s Q :=
    .bind (.lift rfl (.bind (.lift rfl (.bind (.lift rfl h)))))
  unfold FleetSupervisor.ensureOwnership
  split
  · exact .bind (.lift rfl hproven)
  · exact hproven

/-- One pass restores the row, or reopens it. -/
theorem pass_restores (hs : Settled g c s) (hstuck : ¬ s.Stuck) :
    Restores g sha256 c s ∨ Reopened s (pass g sha256 c s).1 := by
  have hlead : LeadsTo g (c.ensureOwnership sha256) s fun outcome s' =>
      (outcome = .ready ∧ s'.Adopted) ∨ Reopened s s' := by
    refine leads_ensureOwnership ?_
    cases hrow : s.world.books.row with
    | none => exact (leads_createOrAdopt hs none).mono fun _ _ h => .inl h
    | some row => exact leads_ensureRow hs fun hstate => hstuck ⟨row, hrow, hstate⟩
  obtain ⟨outcome, s', hplay, ⟨rfl, hadopted⟩ | hreopened⟩ := hlead
  · left
    refine ⟨congrArg (·.2) hplay, ?_⟩
    rw [pass, hplay]
    exact hadopted
  · right
    rw [pass, hplay]
    exact hreopened

/-- A reopened row is restored by the next pass. -/
theorem restores_of_unbound (hs : Settled g c s)
    (hunbound : ∃ row, s.world.books.row = some row ∧ row.state = .unbound) :
    Restores g sha256 c s := by
  obtain ⟨row, hrow, hstate⟩ := hunbound
  have hlead : LeadsTo g (c.ensureOwnership sha256) s fun outcome s' =>
      outcome = .ready ∧ s'.Adopted := by
    refine leads_ensureOwnership ?_
    rw [hrow]
    have hensure : c.ensureRow sha256 (some row) = c.createOrAdopt sha256 (some row) := by
      simp [FleetSupervisor.ensureRow, FleetSupervisor.verifies, hstate]
    rw [hensure]
    exact leads_createOrAdopt hs _
  obtain ⟨outcome, s', hplay, rfl, hadopted⟩ := hlead
  refine ⟨congrArg (·.2) hplay, ?_⟩
  rw [pass, hplay]
  exact hadopted

/-- Without a scale set its row stays blocked, whatever GitHub has. -/
theorem pass_stuck (hstuck : s.Stuck) :
    (pass g sha256 c s).1.Stuck ∧
      (pass g sha256 c s).2 = .done (.blocked .scaleSetMissingWithResources) := by
  obtain ⟨row, hrow, hstate⟩ := hstuck
  have hlead : LeadsTo g (c.ensureOwnership sha256) s fun outcome s' =>
      outcome = .blocked .scaleSetMissingWithResources ∧ s' = s := by
    refine leads_ensureOwnership ?_
    rw [hrow]
    have hensure : c.ensureRow sha256 (some row) =
        .done (.blocked .scaleSetMissingWithResources) := by
      simp [FleetSupervisor.ensureRow, FleetSupervisor.verifies, hstate]
    rw [hensure]
    exact .done ⟨rfl, rfl⟩
  obtain ⟨outcome, s', hplay, rfl, rfl⟩ := hlead
  rw [pass, hplay]
  exact ⟨⟨row, hrow, hstate⟩, rfl⟩

theorem passes_stuck (hstuck : s.Stuck) (n : Nat) : (passes g sha256 c n s).Stuck := by
  induction n with
  | zero => exact hstuck
  | succ n ih => exact (pass_stuck ih).1

/-- Three passes restore every row but one that lost its scale set while it had resources. -/
theorem ownership_restored_iff (hs : Settled g c s) :
    (∃ n < 3, Restores g sha256 c (passes g sha256 c n s)) ↔ ¬ s.Stuck := by
  constructor
  · rintro ⟨n, -, hready, -⟩ hstuck
    rw [(pass_stuck (passes_stuck hstuck n)).2] at hready
    cases hready
  · intro hstuck
    rcases pass_restores hs hstuck with hrestores | ⟨hrow, hfound, hgenerations⟩
    · exact ⟨0, by decide, hrestores⟩
    · have hs₁ : Settled g c (pass g sha256 c s).1 :=
        ⟨hgenerations ▸ hs.vacant, hs.handoff, fun view hview => hs.found view (hfound ▸ hview),
          hs.made⟩
      exact ⟨1, by decide, restores_of_unbound hs₁ hrow⟩

/-! ## A fleet that lost its scale set -/

def sampleCircumstances : Circumstances :=
  ⟨7, sampleView, ⟨some ("profile", 1), ("profile", 1)⟩, "attempt"⟩

theorem sample_compatible : sampleSupervisor.ViewCompatible sampleView 7 := by decide

theorem ownership_restored_iff_sample :
    ∃ n < 3, Restores sampleCircumstances id sampleSupervisor
      (passes sampleCircumstances id sampleSupervisor n ⟨fresh, none⟩) := by
  refine (ownership_restored_iff ⟨rfl, rfl, fun _ h => (by cases h), sample_compatible⟩).mpr ?_
  rintro ⟨row, hrow, -⟩
  cases hrow

/-- GitHub has the scale set or has it no more, and one runner is wanted. -/
def opening (has : Bool) (w : World) : (op : Effect) → Option (op.Answer × World)
  | .scaleSetUpsert row => some ((), { w with books := w.books.upsert row })
  | .lookupScaleSet identity groupId =>
    if has then answerWith w (.lookupScaleSet identity groupId)
    else some (.ok .none, { w with books.seen.lookup := some .none })
  | .capacityPlan => some ((1 : Nat), w)
  | .generationInsert =>
    some (true, ⟨{ w.books with seen.ledger := none },
      ⟨"generation", "runner", .createPending, none⟩ :: w.generations⟩)
  | op => answerWith w op

theorem opening_acts (has : Bool) (w : World) (op : ownershipEffects.Op)
    (answer : ownershipEffects.Answer op) (w' : World)
    (h : opening has w op = some (answer, w')) :
    ∃ w₁, ownershipMachine.env w w₁ ∧ ownershipMachine.act w₁ op answer w' := by
  cases op with
  | scaleSetUpsert | capacityPlan =>
    cases h
    exact ⟨w, ⟨rfl, Proceeds.refl _⟩, rfl⟩
  | generationInsert =>
    cases h
    exact ⟨w, ⟨rfl, Proceeds.refl _⟩, _, rfl, rfl⟩
  | lookupScaleSet =>
    cases has with
    | true => exact answerWith_acts w _ answer w' h
    | false =>
      cases h
      exact ⟨w, ⟨rfl, Proceeds.refl _⟩, rfl⟩
  | _ => exact answerWith_acts w _ answer w' h

/-- A pass that comes to its end leaves the world as it was answered. -/
theorem reached_pass {has : Bool} {w w' : World} (hseen : w.books.seen = {})
    (hplay : (sampleSupervisor.reconcile id).play (opening has) w = (w', .done ()))
    (h : Reachable (Session.Initial Fresh) (ownershipSession id).Step ⟨w, none⟩) :
    Reachable (Session.Initial Fresh) (ownershipSession id).Step ⟨w', none⟩ := by
  have hbegun : (ownershipSession id).Step ⟨w, none⟩ (.begun sampleSupervisor)
      ⟨w, some (sampleSupervisor, sampleSupervisor.reconcile id)⟩ := .begun hseen
  have hplayed := Session.reaches_play (opening_acts has) (h.next hbegun)
  rw [hplay] at hplayed
  exact hplayed.next .done

/-- The fleet adopts its scale set and gets a runner. -/
def served : World := ((sampleSupervisor.reconcile id).play (opening true) fresh).1

/-- The scale set is gone in the next pass. -/
def lost : World :=
  ((sampleSupervisor.reconcile id).play (opening false) { served with books.seen := {} }).1

/-- The runner's generation is destroyed. -/
def vacated : World :=
  ⟨{ lost.books with seen := {} }, [⟨"generation", "runner", .destroyed, none⟩]⟩

theorem vacated_reached :
    Reachable (Session.Initial Fresh) (ownershipSession id).Step ⟨vacated, none⟩ := by
  have hserved : Reachable (Session.Initial Fresh) (ownershipSession id).Step ⟨served, none⟩ :=
    reached_pass rfl rfl (Reachable.of_init ⟨rfl, rfl⟩)
  have hidle : (ownershipSession id).Step ⟨served, none⟩ .passed
      ⟨{ served with books.seen := {} }, none⟩ := .passed ⟨rfl, Proceeds.refl _⟩
  have hlost : Reachable (Session.Initial Fresh) (ownershipSession id).Step ⟨lost, none⟩ :=
    reached_pass rfl rfl (hserved.next hidle)
  have hpath : Core.Reaches .createPending .destroyed :=
    .head (b := .quarantined) rfl (.single rfl)
  exact hlost.next (.passed ⟨rfl, .cons ⟨rfl, rfl, hpath⟩ .nil⟩)

theorem block_outlives_resources :
    Reachable (Session.Initial Fresh) (ownershipSession id).Step ⟨vacated, none⟩ ∧
      Settled sampleCircumstances sampleSupervisor ⟨vacated, none⟩ ∧
      ¬ ∃ n < 3, Restores sampleCircumstances id sampleSupervisor
        (passes sampleCircumstances id sampleSupervisor n ⟨vacated, none⟩) := by
  refine ⟨vacated_reached, ⟨rfl, rfl, fun _ h => (by cases h), sample_compatible⟩, ?_⟩
  rintro ⟨n, -, hready, -⟩
  have hstuck : Situation.Stuck ⟨vacated, none⟩ := ⟨_, rfl, rfl⟩
  rw [(pass_stuck (passes_stuck hstuck n)).2] at hready
  cases hready

end Shaula.ScaleSet
