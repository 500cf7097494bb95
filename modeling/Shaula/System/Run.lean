import Shaula.System.Step

/-! # Runs of the lifecycle system

A run serves requests in any order, interrupted by storage failures, by restarts, and by crashes
between a commit and its answer.  Beside the daemon's own state it remembers which credentials were
drawn and which state capabilities left the daemon: drawn credentials have different verifiers, and
nobody presents a drawn state capability that was never handed out.
-/

namespace Shaula

open Core Library Library.Outcome

variable {P : Platform}

/-- The daemon, the credentials drawn so far, and the state capabilities handed out. -/
structure System where
  daemon : Daemon
  stateDraws : List StateCapability
  controlDraws : List ControlCapability
  handed : List StateCapability

/-- One step of a run. -/
inductive Label (P : Platform) where
  | served (r : Request P) (outcome : Outcome P)
  /-- A storage failure rolled the request back. -/
  | failed (r : Request P)
  /-- The daemon died after the request's commit and before its answer. -/
  | crashed (r : Request P)
  | restarted

/-- The request whose commit a step contains. -/
def Label.request : Label P → Option (Request P)
  | served r _ | crashed r => some r
  | failed _ | restarted => none

namespace System

def view (σ : System) (id : Uuid) : View := σ.daemon.store.view id

/-- A freshly migrated store, with nothing drawn. -/
def initial (createLimit : Nat) : System where
  daemon := { store := .initial, pending := ∅, createLimit }
  stateDraws := []
  controlDraws := []
  handed := []

def Initial (σ : System) : Prop := ∃ createLimit, σ = initial createLimit

/-- What credentials allow: draws differ from all earlier ones, and a drawn state capability is
presented only after it was handed out. -/
structure Permits (P : Platform) (σ : System) (r : Request P) : Prop where
  freshState : ∀ k ∈ r.stateDraws, ∀ k' ∈ σ.stateDraws, k'.verifier P ≠ k.verifier P
  freshControl : ∀ k ∈ r.controlDraws, ∀ k' ∈ σ.controlDraws, k'.verifier P ≠ k.verifier P
  secret : ∀ access ∈ r.stateAccess, ∀ k ∈ σ.stateDraws,
    k.verifier P = access.capability.verifier P → k ∈ σ.handed

/-- The state after a request was served. -/
def serve (P : Platform) (σ : System) (r : Request P) : System where
  daemon := (σ.daemon.exec P r).1
  stateDraws := r.stateDraws ++ σ.stateDraws
  controlDraws := r.controlDraws ++ σ.controlDraws
  handed := Daemon.handed (σ.daemon.exec P r).2 ++ σ.handed

/-- A new daemon on the same store: admissions nobody took are lost. -/
def restart (σ : System) : System :=
  { σ with daemon := { σ.daemon with pending := ∅ } }

inductive Step (P : Platform) : System → Label P → System → Prop
  | served (σ : System) (r : Request P) : σ.Permits P r →
      Step P σ (.served r (σ.daemon.exec P r).2) (σ.serve P r)
  | failed (σ : System) (r : Request P) : Step P σ (.failed r) σ
  | crashed (σ : System) (r : Request P) : σ.Permits P r →
      Step P σ (.crashed r) { (σ.serve P r).restart with handed := σ.handed }
  | restarted (σ : System) : Step P σ .restarted σ.restart

/-- The states runs reach from a freshly migrated store. -/
abbrev Reached (P : Platform) : System → Prop := Reachable Initial (Step P)

variable {σ τ : System} {l : Label P} {id : Uuid}

/-- Every step changes the rows of every generation as its request may, or not at all. -/
theorem Step.change (h : Step P σ l τ) (id : Uuid) :
    (τ.view id = σ.view id) ∨
      ∃ r, l.request = some r ∧ σ.Permits P r ∧ Change P id r (σ.view id) (τ.view id) := by
  cases h with
  | served r hpermits => exact .inr ⟨r, rfl, hpermits, σ.daemon.exec_change r id⟩
  | failed r => exact .inl rfl
  | crashed r hpermits => exact .inr ⟨r, rfl, hpermits, σ.daemon.exec_change r id⟩
  | restarted => exact .inl rfl

/-- What every change of a generation's rows preserves, every step preserves. -/
theorem Step.preserves {I : View → Prop}
    (hI : ∀ (r : Request P) v v', Change P id r v v' → I v → I v') (h : Step P σ l τ)
    (hσ : I (σ.view id)) : I (τ.view id) := by
  rcases h.change id with hsame | ⟨r, -, -, hchange⟩
  · rw [hsame]
    exact hσ
  · exact hI r _ _ hchange hσ

/-- What holds of missing rows and is preserved by every change holds in every reachable state. -/
theorem Reached.view_invariant {I : View → Prop} (hnone : I ⟨none, none, none⟩)
    (hI : ∀ (r : Request P) v v', Change P id r v v' → I v → I v') (h : Reached P σ) :
    I (σ.view id) := by
  refine Reachable.invariant (I := fun σ => I (σ.view id)) ?_ ?_ h
  · rintro σ ⟨createLimit, rfl⟩
    exact hnone
  · exact fun _ _ _ hσ hstep => hstep.preserves hI hσ

end System

end Shaula
