import Shaula.ScaleSet.Pass

/-! # The binding of a fleet

A row is adopted only under a proof of the same pass, and never moved to another identity while the
fleet has a generation.  Generations appear only under an adopted row, so a fleet whose row binds
nothing is vacant.
-/

namespace Shaula.ScaleSet

open Library
open FleetSupervisor (KnownRunner)

/-! ## The invariant -/

/-- States of a row that stands for its identity. -/
def Binds (state : OwnershipState) : Prop := state ≠ .unbound ∧ state ≠ .scaleSetCreateStarting

namespace Books

/-- The row binds this identity. -/
def Bound (books : Books) (id : Int) : Prop :=
  ∃ row, books.row = some row ∧ row.scaleSetId = some id ∧ Binds row.state

/-- The row binds nothing. -/
def Free (books : Books) : Prop := ∀ id, ¬ books.Bound id

/-- The row binds nothing else. -/
def MayBind (books : Books) (id : Int) : Prop := books.Bound id ∨ books.Free

def Adopted (books : Books) : Prop := ∃ row, books.row = some row ∧ row.state = .adopted

theorem Bound.unique {books : Books} {id id' : Int} (h : books.Bound id) (h' : books.Bound id') :
    id = id' := by
  obtain ⟨row, hrow, hid, -⟩ := h
  obtain ⟨row', hrow', hid', -⟩ := h'
  cases hrow.symm.trans hrow'
  exact Option.some.inj (hid.symm.trans hid')

end Books

/-- What holds of a fleet at any time. -/
structure Inv (w : World) : Prop where
  /-- An owned identity was adopted under the row's fingerprint, name and group. -/
  owned : ∀ row id, w.books.row = some row → row.ownedScaleSetId = some id →
    ⟨id, row.fingerprint, row.name, row.runnerGroup⟩ ∈ w.books.adoptions
  /-- While there are generations, the row binds the identity adopted last. -/
  anchored : Occupied w.generations →
    ∃ id, w.books.lastAdopted = some id ∧ w.books.Bound id
  adopted : ∀ row, w.books.row = some row → row.state = .adopted →
    ∃ id, row.scaleSetId = some id ∧ w.books.lastAdopted = some id
  /-- A fleet that was read to be vacant in this pass still is. -/
  vacant : ∀ generations, w.books.seen.ledger = some generations → ¬ Occupied generations →
    ¬ Occupied w.generations

namespace Inv

variable {w w' : World} {id : Int}

theorem vacant_of_free (h : Inv w) (hfree : w.books.Free) : ¬ Occupied w.generations := by
  intro hoccupied
  obtain ⟨id, -, hbound⟩ := h.anchored hoccupied
  exact hfree id hbound

/-- Where nothing else is bound, an occupied fleet's last adoption is this one. -/
theorem last_of_mayBind (h : Inv w) (hbind : w.books.MayBind id)
    (hoccupied : Occupied w.generations) : w.books.lastAdopted = some id := by
  rcases hbind with hbound | hfree
  · obtain ⟨id', hlast, hbound'⟩ := h.anchored hoccupied
    rw [hbound.unique hbound']
    exact hlast
  · exact absurd hoccupied (h.vacant_of_free hfree)

theorem proceeds (h : Inv w) (hbooks : w'.books = w.books)
    (hproceeds : Proceeds w.generations w'.generations) : Inv w' := by
  refine ⟨?_, fun hoccupied => ?_, ?_, ?_⟩
  · rw [hbooks]
    exact h.owned
  · rw [hbooks]
    exact h.anchored (hproceeds.occupied hoccupied)
  · rw [hbooks]
    exact h.adopted
  · rw [hbooks]
    intro generations hledger hvacant hoccupied
    exact h.vacant generations hledger hvacant (hproceeds.occupied hoccupied)

/-- What is seen besides the ledger does not matter. -/
theorem sees (h : Inv w) {seen : Seen}
    (hledger : seen.ledger = w.books.seen.ledger ∨ seen.ledger = none ∨
      seen.ledger = some w.generations) :
    Inv { w with books.seen := seen } := by
  refine ⟨h.owned, h.anchored, h.adopted, fun generations hread hvacant => ?_⟩
  rcases hledger with hsame | hnone | hnow
  · exact h.vacant generations (hsame.symm.trans hread) hvacant
  · cases hnone.symm.trans hread
  · cases hnow.symm.trans hread
    exact hvacant

/-- What a row may be written, so that an occupied fleet stays bound to the last adoption. -/
theorem upsert (h : Inv w) {row : ScaleSetRow}
    (hadopted : row.state = .adopted → ∃ id, row.scaleSetId = some id)
    (hother : row.state ≠ .adopted → Occupied w.generations → Binds row.state ∧
      (row.scaleSetId = none ∨ row.scaleSetId = w.books.lastAdopted)) :
    Inv { w with books := w.books.upsert row } := by
  by_cases hstate : row.state = .adopted
  · obtain ⟨id, hid⟩ := hadopted hstate
    have hadoption : row.adoption = some ⟨id, row.fingerprint, row.name, row.runnerGroup⟩ := by
      rw [ScaleSetRow.adoption, if_pos hstate, hid]
      rfl
    have hlast : (w.books.upsert row).lastAdopted = some id := by
      simp [Books.lastAdopted, Books.upsert, hadoption]
    have hbound : (scaleSetUpsert w.books.row row).scaleSetId = some id :=
      scaleSetUpsert_id_some hid
    refine ⟨?_, fun _ => ⟨id, hlast, _, rfl, hbound, ?_⟩, ?_, h.vacant⟩
    · rintro row' owned hrow howned
      cases hrow
      rcases ownedId_eq_some howned with ⟨-, hown⟩ | ⟨previous, hprevious, hown, hfp, hname, hgroup⟩
      · cases hid.symm.trans hown
        simp only [Books.upsert, hadoption, Option.toList_some, List.cons_append, List.nil_append]
        exact List.mem_cons_self
      · have hmem := h.owned previous owned hprevious hown
        rw [hfp, hname, hgroup] at hmem
        exact List.mem_append_right _ hmem
    · show Binds row.state
      rw [hstate]
      exact ⟨by decide, by decide⟩
    · rintro row' hrow -
      cases hrow
      exact ⟨id, hbound, hlast⟩
  · have hadoption : row.adoption = none := if_neg hstate
    have hadoptions : (w.books.upsert row).adoptions = w.books.adoptions := by
      simp [Books.upsert, hadoption]
    refine ⟨?_, fun hoccupied => ?_, ?_, h.vacant⟩
    · rintro row' owned hrow howned
      cases hrow
      simp only [hadoptions]
      rcases ownedId_eq_some howned with ⟨hnow, -⟩ | ⟨previous, hprevious, hown, hfp, hname, hgroup⟩
      · exact absurd hnow hstate
      · have hmem := h.owned previous owned hprevious hown
        rw [hfp, hname, hgroup] at hmem
        exact hmem
    · obtain ⟨hbinds, hid⟩ := hother hstate hoccupied
      obtain ⟨id, hlast, row', hrow', hbound, -⟩ := h.anchored hoccupied
      refine ⟨id, ?_, _, rfl, ?_, hbinds⟩
      · simp only [Books.lastAdopted, hadoptions]
        exact hlast
      · rcases hid with hnone | hsome
        · rw [scaleSetUpsert_id_none hnone, hrow']
          exact hbound
        · exact scaleSetUpsert_id_some (hsome.trans hlast)
    · rintro row' hrow hadopted'
      cases hrow
      exact absurd hadopted' hstate

end Inv

/-! ## What a pass proves -/

/-- The runner inventory of a scale set, read before the ledger, has only live generations. -/
def Seen.InventoryProven (seen : Seen) (id : Int) : Prop :=
  ∃ runners generations, seen.inventory = some (id, runners) ∧ seen.ledger = some generations ∧
    ∀ runner ∈ runners, KnownRunner id generations runner

/-- GitHub reported one scale set in this pass, with this identity and all the supervisor asks of it;
and it was created in this pass, or its inventory is proven. -/
def Proven (c : FleetSupervisor) (seen : Seen) (id : Int) : Prop :=
  ∃ view groupId, seen.group = some groupId ∧ view.id = id ∧ c.ViewCompatible view groupId ∧
    ((seen.lookup = some (.exactlyOne view) ∧ seen.InventoryProven id) ∨
      seen.created = some view)

/-- Where an effect may be performed. -/
def Allowed (c : FleetSupervisor) (w : World) : Effect → Prop
  | .scaleSetUpsert row => row.state = .adopted → ∃ id, row.scaleSetId = some id ∧
      Proven c w.books.seen id ∧
      (Occupied w.generations → w.books.lastAdopted = some id)
  | .resolveRunnerGroup identity => identity = c.identity
  | .lookupScaleSet identity groupId => identity = c.identity ∧ w.books.seen.group = some groupId
  | .updateScaleSetLabels id labels => labels = c.fallbackLabels ∧
      ∃ row, w.books.row = some row ∧ row.ownedScaleSetId = some id
  | .createScaleSet identity groupId labels => identity = c.identity ∧ labels = c.fallbackLabels ∧
      w.books.seen.group = some groupId ∧ w.books.seen.lookup = some .none ∧
      ∃ row attempt, w.books.row = some row ∧ row.state = .scaleSetCreateStarting ∧
        row.attemptId = some attempt
  | _ => True

section Stages

variable {sha256 : String → String} {c : FleetSupervisor} {α β : Type}
  {A A' : Books → Prop} {B B' : α → Books → Prop}

/-- From what the books show, the routine is safe and returns with what they show then. -/
abbrev Meets (c : FleetSupervisor) (A : Books → Prop) (p : Routine α) (B : α → Books → Prop) :
    Prop :=
  ViewSpec ownershipMachine Inv (Allowed c) World.books A p B

theorem books_spared : ownershipMachine.Spares Inv World.books :=
  fun _ _ hinv ⟨hbooks, hproceeds⟩ => ⟨hinv.proceeds hbooks hproceeds, hbooks⟩

namespace Meets

theorem ask {op : Effect} {B : op.Answer → Books → Prop}
    (hok : ∀ w, Inv w → A w.books → Allowed c w op)
    (hact : ∀ w answer w', Inv w → A w.books → Acts w op answer w' → Inv w' ∧ B answer w'.books) :
    Meets c A (ask op) B := by
  refine ViewSpec.lift books_spared hok (fun w w' hinv hA hlost => ?_) hact
  rcases hlost with rfl | ⟨answer, h⟩
  · exact hinv
  · exact (hact w answer w' hinv hA h).1

/-- An effect that shows nothing new. -/
theorem quiet (op : Effect) (hok : ∀ w, Allowed c w op)
    (h : ∀ w answer w', Acts w op answer w' → w' = w) :
    Meets c A (ScaleSet.ask op) fun _ => A :=
  ask (fun w _ _ => hok w) fun w answer w' hinv hA hact => by
    rw [h w answer w' hact]
    exact ⟨hinv, hA⟩

end Meets

/-- A row is written where it may be, and then is the one in the books. -/
theorem meets_upsert {id : Option Int} {state : OwnershipState} {attempt : Option String}
    (hadopted : ∀ w, Inv w → A w.books → state = .adopted → ∃ x, id = some x ∧
      Proven c w.books.seen x ∧ (Occupied w.generations → w.books.lastAdopted = some x))
    (hother : ∀ w, Inv w → A w.books → state ≠ .adopted → Occupied w.generations → Binds state ∧
      (id = none ∨ id = w.books.lastAdopted)) :
    Meets c A (c.upsertOwnership sha256 id state attempt) fun _ books =>
      ∃ before, A before ∧ books = before.upsert (c.row sha256 id state attempt) := by
  refine .ask (fun w hinv hA hstate => hadopted w hinv hA hstate) fun w _ w' hinv hA hact => ?_
  cases hact
  refine ⟨hinv.upsert (fun hstate => ?_) fun hstate => hother w hinv hA hstate, w.books, hA, rfl⟩
  obtain ⟨x, hx, -⟩ := hadopted w hinv hA hstate
  exact ⟨x, hx⟩

/-- A stage that is ready leaves this. -/
abbrev Settles (c : FleetSupervisor) (A : Books → Prop) (p : Routine OwnershipOutcome)
    (B : Books → Prop) : Prop :=
  Meets c A p fun outcome books => outcome = .ready → B books

variable {R : Books → Prop}

namespace Settles

theorem weaken {p : Routine OwnershipOutcome} {D R' : Books → Prop} (h : Settles c D p R')
    (hA : ∀ books, A books → D books) (hR : ∀ books, R' books → R books) : Settles c A p R :=
  ViewSpec.weaken h hA fun _ books hbooks hready => hR books (hbooks hready)

theorem blocked {reason : ReasonCode} :
    Settles c A (.done (.blocked reason) : Routine OwnershipOutcome) R :=
  .done fun _ _ h => by cases h

/-- A row that adopts nothing, and the pass is blocked. -/
theorem upsert_blocked {id : Option Int} {state : OwnershipState} {attempt : Option String}
    {outcome : OwnershipOutcome} (houtcome : outcome ≠ .ready) (hstate : state ≠ .adopted)
    (hother : ∀ w, Inv w → A w.books → Occupied w.generations → Binds state ∧
      (id = none ∨ id = w.books.lastAdopted)) :
    Settles c A (do
      c.upsertOwnership sha256 id state attempt
      return outcome) R := by
  refine (meets_upsert (fun _ _ _ h => absurd h hstate) fun w hinv hA _ => hother w hinv hA).bind
    fun _ => ?_
  exact .done fun _ _ h => absurd h houtcome

/-- A row about the identity that is bound, or about none. -/
theorem upsert_same {id : Option Int} {state : OwnershipState} {attempt : Option String}
    {outcome : OwnershipOutcome} (houtcome : outcome ≠ .ready) (hstate : state ≠ .adopted)
    (hbinds : Binds state) (h : ∀ books, A books → ∀ x, id = some x → books.MayBind x) :
    Settles c A (do
      c.upsertOwnership sha256 id state attempt
      return outcome) R := by
  refine upsert_blocked houtcome hstate fun w hinv hA hoccupied => ⟨hbinds, ?_⟩
  cases id with
  | none => exact .inl rfl
  | some x => exact .inr (hinv.last_of_mayBind (h _ hA x rfl) hoccupied).symm

/-- A row of a fleet that binds nothing. -/
theorem upsert_free {id : Option Int} {state : OwnershipState} {attempt : Option String}
    {outcome : OwnershipOutcome} (houtcome : outcome ≠ .ready) (hstate : state ≠ .adopted)
    (h : ∀ books, A books → books.Free) :
    Settles c A (do
      c.upsertOwnership sha256 id state attempt
      return outcome) R :=
  upsert_blocked houtcome hstate fun _ hinv hA hoccupied =>
    absurd hoccupied (hinv.vacant_of_free (h _ hA))

theorem accessBlocked {id : Option Int} {attempt : Option String} {failure : AccessFailure}
    (h : ∀ books, A books → ∀ x, id = some x → books.MayBind x) :
    Settles c A (c.accessBlocked sha256 id attempt failure) R := by
  refine upsert_same ?_ (by decide) ⟨by decide, by decide⟩ h
  cases failure <;> exact nofun

end Settles

end Stages

end Shaula.ScaleSet
