import Mathlib.Logic.Relation
import Mathlib.Tactic.Common

/-! # Runner generation lifecycle

The coarse lifecycle states of a runner generation, the transitions between them, and the paths
those transitions make.
-/

namespace Shaula.Core

/-- Coarse externally visible lifecycle state. -/
inductive GenerationState where
  | createPending
  | creating
  | waitingOnline
  | idle
  | busy
  | retiring
  | destroyPending
  | destroying
  | cleanupRequired
  | quarantined
  | destroyed
  deriving DecidableEq, Repr

namespace GenerationState

/-- Canonical string representation persisted in the ledger. -/
def asStrRepr : GenerationState → String
  | createPending => "CreatePending"
  | creating => "Creating"
  | waitingOnline => "WaitingOnline"
  | idle => "Idle"
  | busy => "Busy"
  | retiring => "Retiring"
  | destroyPending => "DestroyPending"
  | destroying => "Destroying"
  | cleanupRequired => "CleanupRequired"
  | quarantined => "Quarantined"
  | destroyed => "Destroyed"

/-- Inverse of `asStrRepr`; unknown strings are corrupt ledger data. -/
def fromStrRepr (value : String) : Option GenerationState :=
  match value with
  | "CreatePending" => some createPending
  | "Creating" => some creating
  | "WaitingOnline" => some waitingOnline
  | "Idle" => some idle
  | "Busy" => some busy
  | "Retiring" => some retiring
  | "DestroyPending" => some destroyPending
  | "Destroying" => some destroying
  | "CleanupRequired" => some cleanupRequired
  | "Quarantined" => some quarantined
  | "Destroyed" => some destroyed
  | _ => none

/-- Whether the generation counts toward Effective Capacity. -/
def countsEffective : GenerationState → Bool
  | createPending | creating | waitingOnline | idle | busy => true
  | _ => false

/-- Whether the generation counts toward Resource Occupancy. -/
def countsOccupancy (state : GenerationState) : Bool :=
  state != destroyed

/-- Reading a state back from the ledger gives the state that was written. -/
@[simp] theorem fromStrRepr_asStrRepr (state : GenerationState) :
    fromStrRepr state.asStrRepr = some state := by
  cases state <;> rfl

end GenerationState

open GenerationState

/-- Allowed coarse transitions. -/
def transitionAllowed : GenerationState → GenerationState → Bool
  | createPending, creating => true
  | creating, waitingOnline => true
  | creating, cleanupRequired => true
  | waitingOnline, idle => true
  | waitingOnline, cleanupRequired => true
  | idle, busy => true
  | busy, retiring => true
  | idle, retiring => true
  | cleanupRequired, retiring => true
  | cleanupRequired, quarantined => true
  | retiring, retiring => true
  | retiring, destroyPending => true
  | destroyPending, destroying => true
  | destroying, destroyed => true
  | destroying, destroyPending => true
  | createPending, quarantined
  | creating, quarantined
  | waitingOnline, quarantined
  | idle, quarantined
  | busy, quarantined
  | retiring, quarantined
  | destroyPending, quarantined
  | destroying, quarantined => true
  -- The only way out of quarantine is the explicit operator finalize.
  | quarantined, destroyed => true
  | _, _ => false

/-- Attempt to advance a state. -/
def advance (current next : GenerationState) : Option GenerationState :=
  if transitionAllowed current next then some next else none

/-! ## Paths of transitions -/

/-- `t` is `s` or reachable from `s` by allowed transitions. -/
def Reaches : GenerationState → GenerationState → Prop :=
  Relation.ReflTransGen fun s t => transitionAllowed s t = true

/-- The states on the paths from a state. -/
def GenerationState.onward : GenerationState → List GenerationState
  | createPending => [createPending, creating, waitingOnline, idle, busy, cleanupRequired,
      retiring, destroyPending, destroying, quarantined, destroyed]
  | creating => [creating, waitingOnline, idle, busy, cleanupRequired, retiring,
      destroyPending, destroying, quarantined, destroyed]
  | waitingOnline => [waitingOnline, idle, busy, cleanupRequired, retiring, destroyPending,
      destroying, quarantined, destroyed]
  | idle => [idle, busy, retiring, destroyPending, destroying, quarantined, destroyed]
  | busy => [busy, retiring, destroyPending, destroying, quarantined, destroyed]
  | cleanupRequired => [cleanupRequired, retiring, destroyPending, destroying, quarantined,
      destroyed]
  | retiring => [retiring, destroyPending, destroying, quarantined, destroyed]
  | destroyPending | destroying => [destroyPending, destroying, quarantined, destroyed]
  | quarantined => [quarantined, destroyed]
  | destroyed => [destroyed]

namespace Reaches

variable {s t u : GenerationState}

theorem refl (s : GenerationState) : Reaches s s :=
  Relation.ReflTransGen.refl

theorem trans (h : Reaches s t) (h' : Reaches t u) : Reaches s u :=
  Relation.ReflTransGen.trans h h'

theorem of_allowed (h : transitionAllowed s t = true) : Reaches s t :=
  Relation.ReflTransGen.single h

/-- Nothing leaves `destroyed`. -/
theorem eq_of_destroyed (h : Reaches destroyed t) : t = destroyed := by
  induction h with
  | refl => rfl
  | tail _ hstep ih =>
    subst ih
    simp [transitionAllowed] at hstep

/-- Every state but the two terminal ones may be quarantined. -/
theorem quarantined_of_ne (h : s ≠ destroyed) : Reaches s quarantined := by
  cases s with
  | destroyed => exact absurd rfl h
  | quarantined => exact refl _
  | _ => exact of_allowed rfl

/-- A generation whose creation never finished may be sent to cleanup; from `createPending` the
path leads through `creating`. -/
theorem cleanupRequired_of_unfinished
    (h : s = createPending ∨ s = creating ∨ s = waitingOnline) : Reaches s cleanupRequired := by
  rcases h with rfl | rfl | rfl
  · exact (of_allowed (t := creating) rfl).trans (of_allowed rfl)
  · exact of_allowed rfl
  · exact of_allowed rfl

/-- A path of at most `n` transitions. -/
def within : Nat → GenerationState → GenerationState → Bool
  | 0, s, t => s = t
  | n + 1, s, t => s = t || (onward s).any fun u => transitionAllowed s u && within n u t

theorem of_within {n : Nat} (h : within n s t = true) : Reaches s t := by
  induction n generalizing s with
  | zero =>
    rw [of_decide_eq_true h]
    exact refl t
  | succ n ih =>
    simp only [within, Bool.or_eq_true, decide_eq_true_eq, List.any_eq_true,
      Bool.and_eq_true] at h
    rcases h with rfl | ⟨u, -, hstep, hrest⟩
    · exact refl s
    · exact (of_allowed hstep).trans (ih hrest)

theorem mem_onward_of_allowed (hstep : transitionAllowed t u = true) (ht : t ∈ onward s) :
    u ∈ onward s := by
  revert ht
  cases t <;> cases u <;> cases hstep <;> cases s <;> decide

theorem iff_mem_onward : Reaches s t ↔ t ∈ onward s := by
  constructor
  · intro h
    induction h with
    | refl => cases s <;> decide
    | tail _ hstep ih => exact mem_onward_of_allowed hstep ih
  · intro h
    refine of_within (n := 8) ?_
    revert h
    cases s <;> cases t <;> decide

end Reaches

end Shaula.Core
