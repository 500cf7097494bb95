import Shaula.RunnerOperation.Effects

/-! # Checkpoints of a generation's way down

Whatever writes a ledger row keeps the checkpoints it has passed: a requested expiry stays
requested, and only a runner operation records destroyed resources or sends a generation down the
destroy chain.
-/

namespace Shaula

open Core Library Library.Outcome

variable {P : Platform} {id : Uuid}

namespace RunnerOperation

/-- What a change leaves of a generation's checkpoints. -/
structure Checkpoints (P : Platform) (id : Uuid) (r : Request P) (g g' : GenerationRow) : Prop where
  expiry : g.expiryRequestedAt ≠ none → g'.expiryRequestedAt ≠ none
  resources : g'.resourcesDestroyedAt ≠ none → g.resourcesDestroyedAt ≠ none ∨
    ∃ now, r = .generationResourcesDestroyed id now
  descending : Descending g'.state → Descending g.state ∨
    ∃ requestId now, r = .generationAdvance id g'.state requestId now

/-- A change that keeps the checkpoints' columns, and descends only from where it was. -/
theorem Checkpoints.of_same {r : Request P} {g g' : GenerationRow}
    (hexpiry : g'.expiryRequestedAt = g.expiryRequestedAt)
    (hresources : g'.resourcesDestroyedAt = g.resourcesDestroyedAt)
    (hstate : Descending g'.state → Descending g.state) : Checkpoints P id r g g' :=
  ⟨fun h => hexpiry ▸ h, fun h => .inl (hresources ▸ h), fun h => .inl (hstate h)⟩

theorem replacedState_descending {s : GenerationState} (h : Descending (replacedState s)) :
    Descending s := by
  cases s with
  | createPending | creating | waitingOnline => rcases h with h | h <;> cases h
  | _ => exact h

theorem not_descending {s : GenerationState} (h : s ≠ .destroyPending) (h' : s ≠ .destroying) :
    ¬ Descending s :=
  fun hs => hs.elim h h'

end RunnerOperation

open RunnerOperation

/-- A listener message moves only serving generations, and leaves the checkpoints alone. -/
theorem activityRow_checkpoints (fleet : String) (started completed : List RunnerEvent)
    (now : Int) (g : GenerationRow) :
    (activityRow fleet started completed now g).lifetime = g.lifetime ∧
      ((activityRow fleet started completed now g).state = g.state ∨
        g.state ∈ [.waitingOnline, .idle, .busy] ∧
          (activityRow fleet started completed now g).state ∈ [.busy, .retiring]) := by
  refine activityRow_relates (R := fun g g' => g'.lifetime = g.lifetime ∧ (g'.state = g.state ∨
    g.state ∈ [GenerationState.waitingOnline, .idle, .busy] ∧ g'.state ∈ [.busy, .retiring]))
    (fun _ => ⟨rfl, .inl rfl⟩) ?_ ?_ ?_ started completed g
  · rintro g g' g'' ⟨hlife, hstate⟩ ⟨hlife', hstate'⟩
    refine ⟨hlife'.trans hlife, ?_⟩
    rcases hstate with heq | ⟨hfrom, hto⟩
    · rw [heq] at hstate'
      exact hstate'
    · right
      rcases hstate' with heq | ⟨-, hto'⟩
      · exact ⟨hfrom, heq ▸ hto⟩
      · exact ⟨hfrom, hto'⟩
  all_goals
    intro event g
    unfold activityStep
    split
    · next hmoves =>
      refine ⟨rfl, .inr ⟨?_, by simp⟩⟩
      have hfrom := hmoves.2.2.2.2
      simp only [List.mem_cons, List.not_mem_nil, or_false] at hfrom ⊢
      tauto
    · exact ⟨rfl, .inl rfl⟩

/-- A row is inserted with no checkpoint passed, and every change keeps what was passed. -/
theorem Change.checkpoints {r : Request P} {v v' : View} {g' : GenerationRow}
    (h : Change P id r v v') (hg' : v'.generation = some g') :
    (v.generation = none ∧ g'.resourcesDestroyedAt = none ∧ ¬ Descending g'.state) ∨
      ∃ g, v.generation = some g ∧ Checkpoints P id r g g' := by
  cases h with
  | inserted _ hnone | admitted _ hnone | generationInserted _ _ hnone =>
    cases hg'
    exact .inl ⟨hnone, rfl, not_descending nofun nofun⟩
  | completed _ _ _ hg | finalized _ _ hg | finalizedBare _ hg | quarantined _ _ _ _ hg
  | importQuarantined _ hg =>
    cases hg'
    refine .inr ⟨_, hg, .of_same rfl rfl fun hs => ?_⟩
    exact absurd hs (not_descending nofun nofun)
  | replaced _ _ _ _ hg _ _ _ _ _ hanchored =>
    cases hg'
    refine .inr ⟨_, hg, .of_same ?_ ?_ replacedState_descending⟩ <;>
      cases hanchored <;> rfl
  | anchored hg _ _ hanchored =>
    cases hg'
    refine .inr ⟨_, hg, .of_same ?_ ?_ fun hs => hanchored.state_eq ▸ hs⟩ <;>
      cases hanchored <;> rfl
  | advanced hg =>
    cases hg'
    exact .inr ⟨_, hg, fun h => h, .inl, fun _ => .inr ⟨_, _, rfl⟩⟩
  | activity hg =>
    cases hg'
    obtain ⟨hlife, hstate⟩ := activityRow_checkpoints _ _ _ _ _
    refine .inr ⟨_, hg, .of_same (congrArg RunnerLifetime.expiryRequestedAt hlife)
      (congrArg RunnerLifetime.resourcesDestroyedAt hlife) fun hs => ?_⟩
    rcases hstate with heq | ⟨-, hto⟩
    · exact heq ▸ hs
    · rcases hs with hs | hs <;> rw [hs] at hto <;> simp at hto
  | imported _ _ _ hg | jitSet hg | resultSet hg =>
    cases hg'
    exact .inr ⟨_, hg, .of_same rfl rfl fun hs => hs⟩
  | expiryRequested hg =>
    cases hg'
    exact .inr ⟨_, hg, fun _ => Option.some_ne_none _, .inl, .inl⟩
  | resourcesDestroyed hg =>
    cases hg'
    exact .inr ⟨_, hg, fun h => h, fun _ => .inr ⟨_, rfl⟩, .inl⟩
  | _ => exact .inr ⟨_, hg', .of_same rfl rfl fun hs => hs⟩

/-- An advance takes its generation to where it goes, or leaves it. -/
theorem Change.advance_state {target : Uuid} {next : GenerationState} {requestId : Uuid} {now : Int}
    {v v' : View} {g' : GenerationRow}
    (h : Change P id (.generationAdvance target next requestId now) v v')
    (hg' : v'.generation = some g') :
    ∃ g, v.generation = some g ∧ g'.lifetime = g.lifetime ∧
      (g'.state = g.state ∨ target = id ∧ g'.state = next) := by
  cases h with
  | same => exact ⟨_, hg', rfl, .inl rfl⟩
  | completed hcompletes _ _ hg =>
    cases hg'
    cases hcompletes
    exact ⟨_, hg, rfl, .inr ⟨rfl, rfl⟩⟩
  | advanced hg =>
    cases hg'
    exact ⟨_, hg, rfl, .inr ⟨rfl, rfl⟩⟩
  | generationInserted hr | createStarting hr | destroyStarting hr | released hr | quarantined hr
  | replaced hr => cases hr

/-- Requests about the lifetime leave the state alone. -/
theorem Change.lifetime_state {r : Request P} {target : Uuid} {now : Int} {v v' : View}
    {g' : GenerationRow} (h : Change P id r v v')
    (hr : r = .generationRequestExpiry target now ∨ r = .generationResourcesDestroyed target now)
    (hg' : v'.generation = some g') :
    ∃ g, v.generation = some g ∧ g'.state = g.state := by
  cases h with
  | same => exact ⟨_, hg', rfl⟩
  | expiryRequested hg | resourcesDestroyed hg =>
    cases hg'
    exact ⟨_, hg, rfl⟩
  | generationInserted hs | createStarting hs | destroyStarting hs | released hs | quarantined hs
  | replaced hs | completed hs => rcases hr with rfl | rfl <;> cases hs
  | _ => rcases hr with hr | hr <;> cases hr

/-! ## Advances leave the operations alone -/

namespace Store

variable {s s' : Store}

theorem completeOn_operations {claim : StateClaim} {worker : WorkerColumns} {requestId : Uuid}
    {expectedRevision : Int} {kind : CompletionKind} {now : Int} {receipt : CompletionReceipt}
    (h : s.completeOn P claim worker requestId expectedRevision kind now = .ok (s', receipt)) :
    s'.operations = s.operations := by
  unfold completeOn at h
  split at h
  · split at h <;> cases h
    rfl
  · simp only [bind_eq_ok, pure_eq_ok, Prod.mk.injEq] at h
    obtain ⟨_, -, _, -, _, -, _, -, _, -, _, -, _, -, _, -, _, -, _, -, _, -, _, -, s₁, hseal, rfl,
      -⟩ := h
    simp only [sealCompleted, bind_eq_ok, pure_eq_ok] at hseal
    obtain ⟨s₂, hset, s₃, hset', rfl⟩ := hseal
    show s₃.operations = s.operations
    rw [(setWorker_ok hset').2, (setState_ok hset).2]

theorem ledgerAdvance_operations {id : Uuid} {next : GenerationState} {subphase : Option String}
    {now : Int} (h : s.ledgerAdvance id next subphase now = .ok s') :
    s'.operations = s.operations := by
  simp only [ledgerAdvance, advanceWrite, bind_eq_ok, pure_eq_ok] at h
  obtain ⟨_, -, _, -, rfl⟩ := h
  rfl

theorem completeGeneration_operations {id requestId : Uuid} {now : Int} {b : Bool}
    (h : s.completeGeneration P id requestId now = .ok (s', b)) : s'.operations = s.operations := by
  unfold completeGeneration at h
  split at h
  · cases h
    rfl
  · split at h
    · cases h
      rfl
    · simp only [bind_eq_ok, pure_eq_ok, Prod.exists, Prod.mk.injEq] at h
      obtain ⟨_, -, _, _, hcomplete, rfl, -⟩ := h
      exact completeOn_operations hcomplete

theorem generationAdvance_operations {id : Uuid} {next : GenerationState} {requestId : Uuid}
    {now : Int} {b : Bool} (h : s.generationAdvance P id next requestId now = .ok (s', b)) :
    s'.operations = s.operations := by
  unfold generationAdvance at h
  split at h
  all_goals
    simp only [bind_eq_ok, mapError_eq_ok, Prod.exists] at h
    obtain ⟨s₁, completed, hcomplete, h⟩ := h
    have hsame : s₁.operations = s.operations := by
      first
      | exact completeGeneration_operations hcomplete
      | cases hcomplete; rfl
    split at h
    · cases pure_eq_ok.mp h
      exact hsame
    · simp only [bind_eq_ok, mapError_eq_ok, pure_eq_ok, Prod.mk.injEq] at h
      obtain ⟨_, hadvance, rfl, -⟩ := h
      rw [ledgerAdvance_operations hadvance, hsame]

end Store

end Shaula
