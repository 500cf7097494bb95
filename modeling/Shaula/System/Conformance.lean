import Shaula.System.Terminal

/-! # Conformance of the generation ledger

Several statements write a generation's lifecycle state, each under its own conditions.  Made in one
step, each of them moves the state only along a path of allowed transitions.
-/

namespace Shaula

open Core Library

variable {P : Platform} {id : Uuid}

/-- One job event moves a generation along allowed transitions. -/
theorem activityStep_reaches {fleet : String} {next : GenerationState}
    {froms : List GenerationState} {now : Int} (hfroms : ∀ s ∈ froms, Reaches s next)
    (event : RunnerEvent) (g : GenerationRow) :
    Reaches g.state (activityStep fleet next froms now event g).state := by
  unfold activityStep
  split
  · next hmoves => exact hfroms _ hmoves.2.2.2.2
  · exact .refl _

theorem activityRow_reaches (fleet : String) (started completed : List RunnerEvent) (now : Int)
    (g : GenerationRow) : Reaches g.state (activityRow fleet started completed now g).state := by
  refine activityRow_relates (R := fun g g' => Reaches g.state g'.state) (fun _ => .refl _)
    (fun _ _ _ => .trans) ?_ ?_ started completed g
  · -- A runner that starts a job while it waits to come online has come online.
    refine activityStep_reaches fun s hs => ?_
    rcases List.mem_pair.mp hs with rfl | rfl
    · exact (Reaches.of_allowed (t := .idle) rfl).trans (.of_allowed rfl)
    · exact .of_allowed rfl
  · refine activityStep_reaches fun s hs => ?_
    rcases List.mem_pair.mp hs with rfl | rfl <;> exact .of_allowed rfl

theorem replacedState_reaches (s : GenerationState) : Reaches s (replacedState s) := by
  cases s with
  | createPending => exact .cleanupRequired_of_unfinished (.inl rfl)
  | creating => exact .cleanupRequired_of_unfinished (.inr (.inl rfl))
  | waitingOnline => exact .cleanupRequired_of_unfinished (.inr (.inr rfl))
  | _ => exact .refl _

/-- Every change of a ledger row follows a path of allowed transitions. -/
theorem Change.reaches {r : Request P} {v v' : View} {g : GenerationRow} (h : Change P id r v v')
    (hv : v.TerminalSound) (hg : v.generation = some g) :
    ∃ g', v'.generation = some g' ∧ Reaches g.state g'.state := by
  cases h with
  | inserted _ hnone | admitted _ hnone | generationInserted _ _ hnone =>
    cases hnone.symm.trans hg
  | completed _ _ _ hg₁ _ _ _ _ _ _ _ hdestroying =>
    cases Option.some.inj (hg₁.symm.trans hg)
    exact ⟨_, rfl, .of_allowed (by rw [hdestroying]; rfl)⟩
  | finalized _ _ hg₁ hquarantined | finalizedBare _ hg₁ hquarantined =>
    cases Option.some.inj (hg₁.symm.trans hg)
    exact ⟨_, rfl, .of_allowed (by rw [hquarantined]; rfl)⟩
  | quarantined _ _ hc hw hg₁ _ hunsealed =>
    -- A destroyed generation with a worker is sealed, and recovery refuses it.
    cases Option.some.inj (hg₁.symm.trans hg)
    refine ⟨_, rfl, .quarantined_of_ne fun hdestroyed => ?_⟩
    obtain ⟨receipt, ⟨c, hc₁, hsealed⟩, -⟩ := hv.destroyed _ _ hw hg hdestroyed
    cases Option.some.inj (hc₁.symm.trans hc)
    cases hsealed.symm.trans hunsealed
  | replaced _ _ _ _ hg₁ =>
    cases Option.some.inj (hg₁.symm.trans hg)
    exact ⟨_, rfl, replacedState_reaches _⟩
  | anchored hg₁ _ _ hanchored =>
    cases Option.some.inj (hg₁.symm.trans hg)
    exact ⟨_, rfl, by rw [hanchored.state_eq]; exact .refl _⟩
  | importQuarantined _ hg₁ hlive =>
    cases Option.some.inj (hg₁.symm.trans hg)
    exact ⟨_, rfl, .quarantined_of_ne hlive⟩
  | advanced hg₁ hallowed =>
    cases Option.some.inj (hg₁.symm.trans hg)
    exact ⟨_, rfl, .of_allowed hallowed⟩
  | activity hg₁ =>
    cases Option.some.inj (hg₁.symm.trans hg)
    exact ⟨_, rfl, activityRow_reaches _ _ _ _ _⟩
  | imported _ _ _ hg₁ | jitSet hg₁ | resultSet hg₁ | expiryRequested hg₁
  | resourcesDestroyed hg₁ =>
    cases Option.some.inj (hg₁.symm.trans hg)
    exact ⟨_, rfl, .refl _⟩
  | _ => exact ⟨g, hg, .refl _⟩

namespace System

variable {σ τ υ : System} {l : Label P}

/-- The ledger row of generation `id` stays, and moved along a path of allowed transitions. -/
def Conforms (id : Uuid) (σ τ : System) : Prop :=
  ∀ g, (σ.view id).generation = some g → ∃ g', (τ.view id).generation = some g' ∧
    Reaches g.state g'.state

theorem Conforms.trans (h : Conforms id σ τ) (h' : Conforms id τ υ) : Conforms id σ υ := by
  intro g hg
  obtain ⟨g', hg', hreaches⟩ := h g hg
  obtain ⟨g'', hg'', hreaches'⟩ := h' g' hg'
  exact ⟨g'', hg'', hreaches.trans hreaches'⟩

theorem Step.conforms (hσ : (σ.view id).TerminalSound) (h : Step P σ l τ) : Conforms id σ τ := by
  intro g hg
  rcases h.change id with hsame | ⟨r, -, -, hchange⟩
  · exact ⟨g, hsame ▸ hg, .refl _⟩
  · exact hchange.reaches hσ hg

end System

end Shaula
