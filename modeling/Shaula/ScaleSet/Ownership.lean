import Shaula.Core.Lifecycle
import Mathlib.Data.List.Forall2

/-! # Scale set ownership rows

The durable binding of a fleet to a scale set, and the rules by which the store keeps or clears the
candidate and the owned identity when a row is written again.
-/

namespace Shaula.ScaleSet

open Core (GenerationState Reaches)

/-! ## Rows -/

/-- The state column of an ownership row. -/
inductive OwnershipState where
  | unbound
  | scaleSetCreateStarting
  | adopted
  | accessBlocked
  | unknownRemoteRunner
  | labelsUpdating
  | labelsUpdateUncertain
  | scaleSetMissingWithResources
  deriving DecidableEq, Repr

structure ScaleSetIdentity where
  configUrl : String
  runnerGroup : String
  scaleSetName : String
  deriving DecidableEq

/-- The concatenation is not separated. -/
def fingerprint (sha256 : String → String) (identity : ScaleSetIdentity) : String :=
  sha256 (identity.configUrl ++ identity.runnerGroup ++ identity.scaleSetName)

/-- The row a caller asks to be written. -/
structure ScaleSetRow where
  scaleSetId : Option Int
  name : String
  runnerGroup : String
  fingerprint : String
  state : OwnershipState
  attemptId : Option String
  deriving DecidableEq

/-- A stored row. -/
structure ScaleSetState where
  scaleSetId : Option Int
  ownedScaleSetId : Option Int
  name : String
  runnerGroup : String
  fingerprint : String
  state : OwnershipState
  attemptId : Option String
  deriving DecidableEq

/-- States that keep an ownership proof as long as nothing it is about changes. -/
def keepsProof : OwnershipState → Bool
  | .accessBlocked | .unknownRemoteRunner | .labelsUpdating | .labelsUpdateUncertain => true
  | _ => false

/-- Ownership is a store-managed historical fact, not a caller assertion. -/
def ownedId (next : ScaleSetRow) (previous : Option ScaleSetState) : Option Int :=
  if next.state = .adopted then next.scaleSetId.filter (0 < ·)
  else if keepsProof next.state = false then none
  else
    previous.bind fun previous =>
      let effectiveId := next.scaleSetId.or previous.scaleSetId
      if previous.scaleSetId = effectiveId ∧ previous.ownedScaleSetId = effectiveId ∧
          previous.fingerprint = next.fingerprint ∧ previous.name = next.name ∧
          previous.runnerGroup = next.runnerGroup then previous.ownedScaleSetId
      else none

/-- A candidate and an attempt that are not given are kept. -/
def scaleSetUpsert (existing : Option ScaleSetState) (row : ScaleSetRow) : ScaleSetState where
  scaleSetId := row.scaleSetId.or (existing.bind (·.scaleSetId))
  ownedScaleSetId := ownedId row existing
  name := row.name
  runnerGroup := row.runnerGroup
  fingerprint := row.fingerprint
  state := row.state
  attemptId := row.attemptId.or (existing.bind (·.attemptId))

/-! ## What the store keeps -/

section Keeps

variable {existing : Option ScaleSetState} {row : ScaleSetRow} {id : Int}

/-- An owned identity is the one adopted now, or the one owned before under the same fingerprint, name
and group. -/
theorem ownedId_eq_some (h : ownedId row existing = some id) :
    (row.state = .adopted ∧ row.scaleSetId = some id) ∨
      ∃ previous, existing = some previous ∧ previous.ownedScaleSetId = some id ∧
        previous.fingerprint = row.fingerprint ∧ previous.name = row.name ∧
        previous.runnerGroup = row.runnerGroup := by
  unfold ownedId at h
  by_cases hadopted : row.state = .adopted
  · rw [if_pos hadopted] at h
    exact .inl ⟨hadopted, (Option.filter_eq_some_iff.mp h).1⟩
  · rw [if_neg hadopted] at h
    by_cases hkeeps : keepsProof row.state = false
    · rw [if_pos hkeeps] at h
      cases h
    · rw [if_neg hkeeps] at h
      obtain ⟨previous, hprevious, h⟩ := Option.bind_eq_some_iff.mp h
      simp only at h
      split at h
      · next hsame =>
        exact .inr ⟨previous, hprevious, h, hsame.2.2.1, hsame.2.2.2.1, hsame.2.2.2.2⟩
      · cases h

theorem scaleSetUpsert_id_some (h : row.scaleSetId = some id) :
    (scaleSetUpsert existing row).scaleSetId = some id := by
  simp [scaleSetUpsert, h]

theorem scaleSetUpsert_id_none (h : row.scaleSetId = none) :
    (scaleSetUpsert existing row).scaleSetId = existing.bind (·.scaleSetId) := by
  simp [scaleSetUpsert, h]

end Keeps

/-! ## Generations of the fleet -/

structure GenerationRecord where
  id : String
  runnerName : String
  state : GenerationState
  githubRunnerId : Option Int
  deriving DecidableEq

/-- The fleet has a generation whose Destroy has not completed. -/
def Occupied (generations : List GenerationRecord) : Prop :=
  ∃ generation ∈ generations, generation.state.countsOccupancy = true

/-- The occupancy counter of `capacity_counters`. -/
def occupancy (generations : List GenerationRecord) : Nat :=
  generations.countP fun generation => generation.state.countsOccupancy

theorem occupancy_pos {generations : List GenerationRecord} :
    0 < occupancy generations ↔ Occupied generations :=
  List.countP_pos_iff

/-- Generations go on along their lifecycle, and their runners get identities. -/
def Proceeds (generations generations' : List GenerationRecord) : Prop :=
  List.Forall₂ (fun before after => after.id = before.id ∧ after.runnerName = before.runnerName ∧
    Reaches before.state after.state) generations generations'

theorem Proceeds.refl (generations : List GenerationRecord) : Proceeds generations generations :=
  List.forall₂_same.mpr fun _ _ => ⟨rfl, rfl, .refl _⟩

/-- Nothing that goes on fills a vacant fleet. -/
theorem Proceeds.occupied {generations generations' : List GenerationRecord}
    (h : Proceeds generations generations') (hoccupied : Occupied generations') :
    Occupied generations := by
  induction h with
  | nil => exact hoccupied
  | @cons before after _ _ hhead _ ih =>
    obtain ⟨generation, hmem, hcounts⟩ := hoccupied
    rcases List.mem_cons.mp hmem with rfl | hmem
    · refine ⟨before, List.mem_cons_self, ?_⟩
      by_contra hdestroyed
      simp only [GenerationState.countsOccupancy, bne_iff_ne, ne_eq, not_not] at hdestroyed hcounts
      rw [hdestroyed] at hhead
      exact hcounts hhead.2.2.eq_of_destroyed
    · obtain ⟨generation', hmem', hcounts'⟩ := ih ⟨generation, hmem, hcounts⟩
      exact ⟨generation', List.mem_cons_of_mem _ hmem', hcounts'⟩

end Shaula.ScaleSet
