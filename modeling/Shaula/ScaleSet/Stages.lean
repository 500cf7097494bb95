import Shaula.ScaleSet.Binding

/-! # The stages of an ownership pass

What each stage needs of the row and of what the pass has seen, and that it adopts nothing without a
proof.
-/

namespace Shaula.ScaleSet

open Library
open FleetSupervisor (KnownRunner)

section Stages

variable {sha256 : String → String} {c : FleetSupervisor} {A : Books → Prop} {id groupId : Int}

/-! ## Reading the books -/

theorem Books.bound_of_row {books : Books} {row : ScaleSetState} (hrow : books.row = some row)
    (hid : row.scaleSetId = some id) (hbinds : Binds row.state) : books.Bound id :=
  ⟨row, hrow, hid, hbinds⟩

theorem Books.free_of_none {books : Books} (hrow : books.row = none) : books.Free := by
  rintro id ⟨row, hrow', -⟩
  cases hrow.symm.trans hrow'

theorem Books.free_of_row {books : Books} {row : ScaleSetState} (hrow : books.row = some row)
    (h : row.scaleSetId = none ∨ ¬ Binds row.state) : books.Free := by
  rintro id ⟨row', hrow', hid, hbinds⟩
  cases hrow.symm.trans hrow'
  rcases h with hnone | hunbound
  · cases hnone.symm.trans hid
  · exact hunbound hbinds

/-- The scale set was reported in this pass, with all the supervisor asks of it. -/
def Reported (c : FleetSupervisor) (seen : Seen) (id : Int) : Prop :=
  ∃ view groupId, seen.group = some groupId ∧ seen.lookup = some (.exactlyOne view) ∧
    view.id = id ∧ c.ViewCompatible view groupId

theorem Reported.proven {seen : Seen} (h : Reported c seen id)
    (hinventory : seen.InventoryProven id) : Proven c seen id := by
  obtain ⟨view, groupId, hgroup, hlookup, hid, hview⟩ := h
  exact ⟨view, groupId, hgroup, hid, hview, .inl ⟨hlookup, hinventory⟩⟩

theorem proven_of_created {seen : Seen} {view : ScaleSetView} (hgroup : seen.group = some groupId)
    (hcreated : seen.created = some view) (hview : c.ViewCompatible view groupId) :
    Proven c seen view.id :=
  ⟨view, groupId, hgroup, rfl, hview, .inr hcreated⟩

/-! ## Effects that show something -/

theorem meets_scaleSetGet :
    Meets c A (ask .scaleSetGet) fun (row : Option ScaleSetState) books =>
      A books ∧ row = books.row := by
  refine .ask (fun _ _ _ => trivial) fun w row w' hinv hA hact => ?_
  obtain ⟨hrow, rfl⟩ := hact
  exact ⟨hinv, hA, hrow⟩

theorem meets_resolveRunnerGroup
    (hA : ∀ books group, A books → A { books with seen.group := group }) :
    Meets c A (ask (.resolveRunnerGroup c.identity)) fun (group : Except AccessFailure Int) books =>
      A books ∧ ∀ groupId, group = .ok groupId → books.seen.group = some groupId := by
  refine .ask (fun _ _ _ => rfl) fun w group w' hinv hbooks hact => ?_
  cases group with
  | error failure =>
    cases hact
    exact ⟨hinv, hbooks, fun _ h => by cases h⟩
  | ok groupId =>
    cases hact
    refine ⟨hinv.sees (.inl rfl), hA _ _ hbooks, fun _ h => ?_⟩
    cases h
    rfl

theorem meets_lookupScaleSet
    (hA : ∀ books lookup, A books → A { books with seen.lookup := lookup })
    (hgroup : ∀ books, A books → books.seen.group = some groupId) :
    Meets c A (ask (.lookupScaleSet c.identity groupId))
      fun (lookup : Except AccessFailure LookupOutcome) books =>
        A books ∧ ∀ outcome, lookup = .ok outcome → books.seen.lookup = some outcome := by
  refine .ask (fun _ _ hbooks => ⟨rfl, hgroup _ hbooks⟩) fun w lookup w' hinv hbooks hact => ?_
  cases lookup with
  | error failure =>
    cases hact
    exact ⟨hinv, hbooks, fun _ h => by cases h⟩
  | ok outcome =>
    cases hact
    refine ⟨hinv.sees (.inl rfl), hA _ _ hbooks, fun _ h => ?_⟩
    cases h
    rfl

theorem meets_listRunners
    (hA : ∀ books inventory ledger, A books →
      A { books with seen.inventory := inventory, seen.ledger := ledger }) :
    Meets c A (ask (.listRunners id)) fun (listed : Except AccessFailure (List RunnerRef)) books =>
      A books ∧ ∀ runners, listed = .ok runners → books.seen.inventory = some (id, runners) := by
  refine .ask (fun _ _ _ => trivial) fun w listed w' hinv hbooks hact => ?_
  cases listed with
  | error failure =>
    cases hact
    exact ⟨hinv, hbooks, fun _ h => by cases h⟩
  | ok runners =>
    cases hact
    refine ⟨hinv.sees (.inr (.inl rfl)), hA _ _ _ hbooks, fun _ h => ?_⟩
    cases h
    rfl

theorem meets_generationsForFleet
    (hA : ∀ books ledger, A books → A { books with seen.ledger := ledger }) :
    Meets c A (ask .generationsForFleet) fun (generations : List GenerationRecord) books =>
      A books ∧ books.seen.ledger = some generations := by
  refine .ask (fun _ _ _ => trivial) fun w generations w' hinv hbooks hact => ?_
  obtain ⟨hread, rfl⟩ := hact
  exact ⟨hinv.sees (.inr (.inr (congrArg some hread))), hA _ _ hbooks, rfl⟩

/-- A proven identity is adopted, and the pass is ready. -/
theorem settles_adopt {attempt : Option String} (hproven : ∀ books, A books →
      Proven c books.seen id ∧ books.MayBind id) :
    Settles c A (do
      c.upsertOwnership sha256 (some id) .adopted attempt
      return .ready) Books.Adopted := by
  refine (meets_upsert (fun w hinv hA _ => ⟨id, rfl, (hproven _ hA).1, fun hoccupied => ?_⟩)
    fun _ _ _ h => absurd rfl h).bind fun _ => .done ?_
  · exact hinv.last_of_mayBind (hproven _ hA).2 hoccupied
  · rintro books ⟨before, -, rfl⟩ -
    exact ⟨_, rfl, rfl⟩

/-! ## Inventory -/

/-- The inventory of an identity the row may bind. -/
theorem settles_checkInventory (hbind : ∀ books, A books → books.MayBind id)
    (hA : ∀ books inventory ledger, A books →
      A { books with seen.inventory := inventory, seen.ledger := ledger }) :
    Settles c A (c.checkInventory sha256 id) fun books =>
      A books ∧ books.seen.InventoryProven id := by
  have hsame : ∀ books, A books → ∀ x, some id = some x → books.MayBind x := by
    rintro books hbooks x hx
    cases hx
    exact hbind books hbooks
  refine (meets_listRunners hA).bind fun (listed : Except AccessFailure (List RunnerRef)) => ?_
  cases listed with
  | error failure => exact Settles.accessBlocked fun books hbooks => hsame books hbooks.1
  | ok runners =>
    refine (meets_generationsForFleet fun books ledger hbooks => ?_).bind
      fun (generations : List GenerationRecord) => ?_
    · exact ⟨hA _ books.seen.inventory _ hbooks.1, hbooks.2⟩
    · by_cases hknown : ∀ runner ∈ runners, KnownRunner id generations runner
      · simp only [if_pos hknown]
        refine .done fun books hbooks _ => ⟨hbooks.1.1, runners, generations, ?_, hbooks.2, hknown⟩
        exact hbooks.1.2 runners rfl
      · simp only [if_neg hknown]
        exact Settles.upsert_same nofun (by decide) ⟨by decide, by decide⟩
          fun books hbooks => hsame books hbooks.1.1

/-- The reported identity with its inventory is adopted. -/
theorem settles_verifyInventory
    (h : ∀ books, A books → books.MayBind id ∧ Reported c books.seen id) :
    Settles c A (c.verifyInventory sha256 id) Books.Adopted := by
  refine Settles.weaken (D := fun books => books.MayBind id ∧ Reported c books.seen id) ?_ h
    fun _ h => h
  refine (settles_checkInventory (fun _ h => h.1) fun _ _ _ h => h).bind
    fun (outcome : OwnershipOutcome) => ?_
  by_cases hready : outcome = .ready
  · simp only [if_pos hready]
    subst hready
    refine settles_adopt fun books hbooks => ?_
    obtain ⟨⟨hbind, hreported⟩, hinventory⟩ := hbooks rfl
    exact ⟨hreported.proven hinventory, hbind⟩
  · simp only [if_neg hready]
    exact .done fun _ _ h => absurd h hready

theorem settles_reopenOwnership {reason : ReasonCode} {attempt : Option String} {R : Books → Prop} :
    Settles c A (c.reopenOwnership sha256 reason attempt) R := by
  refine Settles.weaken (D := fun _ => True) ?_ (fun _ _ => trivial) fun _ h => h
  refine (meets_generationsForFleet fun _ _ _ => trivial).bind
    fun (generations : List GenerationRecord) => ?_
  by_cases hoccupied : 0 < occupancy generations
  · simp only [if_pos hoccupied]
    exact Settles.upsert_same nofun (by decide) ⟨by decide, by decide⟩
      fun _ _ _ h => by cases h
  · simp only [if_neg hoccupied]
    refine Settles.upsert_blocked nofun (by decide) fun w hinv hbooks hstill => ?_
    have hvacant : ¬ Occupied generations := fun h => hoccupied (occupancy_pos.mpr h)
    exact absurd hstill (hinv.vacant generations hbooks.2 hvacant)

/-! ## Labels -/

theorem settles_readBackLabels
    (h : ∀ books, A books → books.MayBind id ∧ books.seen.group = some groupId) :
    Settles c A (c.readBackLabels sha256 id groupId) Books.Adopted := by
  refine Settles.weaken
    (D := fun books => books.MayBind id ∧ books.seen.group = some groupId) ?_ h fun _ h => h
  refine (meets_lookupScaleSet (fun _ _ h => h) fun _ h => h.2).bind
    fun (lookup : Except AccessFailure LookupOutcome) => ?_
  match lookup with
  | .error failure =>
    refine Settles.accessBlocked fun books hbooks x hx => ?_
    cases hx
    exact hbooks.1.1
  | .ok .none => exact Settles.blocked
  | .ok .multiple => exact Settles.blocked
  | .ok (.exactlyOne view) =>
    by_cases hview : view.id = id ∧ c.ViewCompatible view groupId
    · simp only [if_pos hview]
      refine settles_verifyInventory fun books hbooks => ⟨hbooks.1.1, view, groupId, ?_⟩
      exact ⟨hbooks.1.2, hbooks.2 _ rfl, hview⟩
    · simp only [if_neg hview]
      exact Settles.blocked

/-- The row owns this identity, and the group was resolved in this pass. -/
def Owning (id groupId : Int) (books : Books) : Prop :=
  (∃ row, books.row = some row ∧ row.scaleSetId = some id ∧ Binds row.state ∧
    row.ownedScaleSetId = some id) ∧ books.seen.group = some groupId

theorem Owning.mayBind {books : Books} (h : Owning id groupId books) : books.MayBind id := by
  obtain ⟨⟨row, hrow, hid, hbinds, -⟩, -⟩ := h
  exact .inl ⟨row, hrow, hid, hbinds⟩

theorem Owning.same {books : Books} (h : Owning id groupId books) :
    ∀ x, some id = some x → books.MayBind x := by
  rintro x hx
  cases hx
  exact h.mayBind

theorem settles_updateLabels :
    Settles c (Owning id groupId) (c.updateLabels sha256 id groupId) Books.Adopted := by
  refine (Meets.quiet .authorizeRuntime (fun _ => trivial) fun _ _ _ h => h).bind
    fun (authorized : Bool) => ?_
  cases authorized with
  | false => exact Settles.blocked
  | true =>
    simp only [Bool.true_eq_false, if_false]
    refine (Meets.ask (B := fun _ => Owning id groupId) ?_ ?_).bind
      fun (update : Except AccessFailure (EffectOutcome Unit)) => ?_
    · rintro w - ⟨⟨row, hrow, -, -, howned⟩, -⟩
      exact ⟨rfl, row, hrow, howned⟩
    · rintro w answer w' hinv hbooks hact
      cases hact
      exact ⟨hinv, hbooks⟩
    · have huncertain : Settles c (Owning id groupId) (do
          c.upsertOwnership sha256 (some id) .labelsUpdateUncertain none
          return .blocked .scaleSetLabelsUpdateUncertain) Books.Adopted :=
        Settles.upsert_same nofun (by decide) ⟨by decide, by decide⟩ fun _ hbooks => hbooks.same
      match update with
      | .ok (.definite _) =>
        exact settles_readBackLabels fun _ hbooks => ⟨hbooks.mayBind, hbooks.2⟩
      | .ok .uncertain => exact huncertain
      | .error failure =>
        have hblocked : Settles c (Owning id groupId)
            (c.accessBlocked sha256 (some id) none failure) Books.Adopted :=
          Settles.accessBlocked fun _ hbooks => hbooks.same
        cases failure
        case requestUncertain => exact huncertain
        all_goals exact hblocked

theorem settles_reconcileView {view : ScaleSetView} (hid : view.id = id) :
    Settles c
      (fun books => Owning id groupId books ∧ books.seen.lookup = some (.exactlyOne view))
      (c.reconcileView sha256 id groupId view) Books.Adopted := by
  refine (settles_checkInventory (fun _ h => h.1.mayBind) fun _ _ _ h => h).bind
    fun (inventory : OwnershipOutcome) => ?_
  by_cases hready : inventory = .ready
  · subst hready
    simp only [ne_eq, not_true_eq_false, if_false]
    by_cases hview : c.ViewCompatible view groupId
    · simp only [if_pos hview]
      refine settles_adopt fun books hbooks => ?_
      obtain ⟨⟨howning, hlookup⟩, hinventory⟩ := hbooks trivial
      have hreported : Reported c books.seen id :=
        ⟨view, groupId, howning.2, hlookup, hid, hview⟩
      exact ⟨hreported.proven hinventory, howning.mayBind⟩
    · simp only [if_neg hview]
      exact settles_updateLabels.weaken (fun _ hbooks => (hbooks trivial).1.1) fun _ h => h
  · simp only [ne_eq, hready, not_false_eq_true, if_true]
    exact .done fun _ _ h => absurd h hready

/-- Writing that labels are being updated keeps what the row owns. -/
theorem owning_labelsUpdating {books : Books} {row : ScaleSetState} (hrow : books.row = some row)
    (howned : c.OwnedRow sha256 id row) (hgroup : books.seen.group = some groupId) :
    Owning id groupId (books.upsert (c.row sha256 (some id) .labelsUpdating none)) := by
  obtain ⟨hid, hown, hfp, hname, hrunnerGroup⟩ := howned
  refine ⟨⟨_, rfl, rfl, ⟨nofun, nofun⟩, ?_⟩, hgroup⟩
  simp [scaleSetUpsert, ownedId, FleetSupervisor.row, keepsProof, hrow, hid, hown, hfp, hname,
    hrunnerGroup]

theorem settles_reconcileLabels (h : ∀ books, A books → books.Bound id ∧
      books.seen.group = some groupId) :
    Settles c A (c.reconcileLabels sha256 id groupId) Books.Adopted := by
  refine Settles.weaken (D := fun books => books.Bound id ∧ books.seen.group = some groupId)
    ?_ h fun _ h => h
  have hsame : ∀ books : Books, books.Bound id ∧ books.seen.group = some groupId →
      ∀ x, some id = some x → books.MayBind x := by
    rintro books hbooks x hx
    cases hx
    exact .inl hbooks.1
  unfold FleetSupervisor.reconcileLabels
  by_cases hlistener : c.listener = false
  · simp only [if_pos hlistener]
    exact Settles.upsert_same nofun (by decide) ⟨by decide, by decide⟩ hsame
  simp only [if_neg hlistener]
  refine (Meets.quiet .authorizeRuntime (fun _ => trivial) fun _ _ _ h => h).bind
    fun (authorized : Bool) => ?_
  cases authorized with
  | false => exact Settles.blocked
  | true =>
    simp only [Bool.true_eq_false, if_false]
    refine meets_scaleSetGet.bind fun (owned : Option ScaleSetState) => ?_
    by_cases howned : ∃ row ∈ owned, c.OwnedRow sha256 id row
    · simp only [howned, not_true_eq_false, if_false]
      obtain ⟨row, hmem, howned⟩ := howned
      have hupsert : Meets c
          (fun books => (books.Bound id ∧ books.seen.group = some groupId) ∧ owned = books.row)
          (c.upsertOwnership sha256 (some id) .labelsUpdating none) fun _ books =>
            Owning id groupId books := by
        refine ViewSpec.weaken (meets_upsert ?_ ?_) (fun _ h => h) ?_
        · exact fun _ _ _ h => by cases h
        · intro w hinv hbooks _ hoccupied
          exact ⟨⟨nofun, nofun⟩, .inr (hinv.last_of_mayBind (.inl hbooks.1.1) hoccupied).symm⟩
        · rintro _ _ ⟨books, ⟨⟨-, hgroup⟩, hrow⟩, rfl⟩
          exact owning_labelsUpdating (hrow ▸ hmem) howned hgroup
      refine hupsert.bind fun _ => ?_
      refine (Meets.quiet .ensureRouteProof (fun _ => trivial) ?_).bind
        fun (proof : Except AccessFailure Unit) => ?_
      · exact fun _ _ _ h => h
      cases proof with
      | error failure => exact Settles.accessBlocked fun _ hbooks => hbooks.same
      | ok _ =>
        refine (meets_lookupScaleSet (fun _ _ h => h) fun _ h => h.2).bind
          fun (lookup : Except AccessFailure LookupOutcome) => ?_
        match lookup with
        | .error failure => exact Settles.accessBlocked fun _ hbooks => hbooks.1.same
        | .ok .none => exact Settles.blocked
        | .ok .multiple => exact Settles.blocked
        | .ok (.exactlyOne view) =>
          by_cases hview : view.id = id ∧ c.IdentityCompatible view groupId
          · simp only [if_pos hview]
            exact (settles_reconcileView hview.1).weaken
              (fun _ hbooks => ⟨hbooks.1, hbooks.2 _ rfl⟩) fun _ h => h
          · simp only [if_neg hview]
            exact Settles.blocked
    · simp only [howned, not_false_eq_true, if_true]
      exact Settles.blocked

end Stages

end Shaula.ScaleSet
