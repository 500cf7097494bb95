import Shaula.System.Backend
import Shaula.System.Script

/-! # Completed and sealed generations

A sealed document never moves again, and a completed generation keeps its receipt and its terminal
state.  Sealing alone does not complete: a generation whose backend only was sealed may still be
terminated by an operator.
-/

namespace Shaula

open Core Library Library.Outcome

variable {P : Platform} {id : Uuid}

/-! ## Completed rows -/

/-- The rows of a generation that was completed with `receipt`. -/
structure View.Completed (v : View) (receipt : CompletionReceipt) : Prop where
  state : ∃ c, v.state = some c ∧ c.sealed = true
  worker : ∃ w, v.worker = some w ∧ w.phase = .completed ∧ w.Idle ∧
    w.completionReceipt = some receipt
  generation : ∃ g, v.generation = some g ∧ g.state = .destroyed

/-- A listener message leaves a destroyed generation alone, and destroys none. -/
theorem activityRow_destroyed {fleet : String} {started completed : List RunnerEvent} {now : Int}
    {g : GenerationRow} :
    (activityRow fleet started completed now g).state = .destroyed ↔ g.state = .destroyed := by
  have hstep : ∀ next froms (event : RunnerEvent) (g : GenerationRow), next ≠ .destroyed →
      .destroyed ∉ froms → ((activityStep fleet next froms now event g).state = .destroyed ↔
        g.state = .destroyed) := by
    intro next froms event g hnext hfroms
    unfold activityStep
    split
    · next hmoves =>
      refine ⟨fun h => absurd h hnext, fun h => absurd (h ▸ hmoves.2.2.2.2) hfroms⟩
    · exact Iff.rfl
  exact activityRow_relates (R := fun g g' => g'.state = .destroyed ↔ g.state = .destroyed)
    (fun _ => Iff.rfl) (fun _ _ _ h h' => h'.trans h)
    (fun event g => hstep _ _ event g (by decide) (by decide))
    (fun event g => hstep _ _ event g (by decide) (by decide)) started completed g

/-- A completed generation stays completed, with its receipt. -/
theorem View.Completed.change {r : Request P} {v v' : View} {receipt : CompletionReceipt}
    (hv : v.Completed receipt) (h : Change P id r v v') : v'.Completed receipt := by
  obtain ⟨⟨c, hc, hsealed⟩, ⟨w, hw, hphase, hidle, hreceipt⟩, ⟨g, hg, hdestroyed⟩⟩ := hv
  have hworker : ∃ w, v.worker = some w ∧ w.phase = .completed ∧ w.Idle ∧
      w.completionReceipt = some receipt := ⟨w, hw, hphase, hidle, hreceipt⟩
  have hkept : ∀ w₁ : WorkerColumns, v.worker = some w₁ → w₁.phase = .completed := by
    intro w₁ hw₁
    cases Option.some.inj (hw₁.symm.trans hw)
    exact hphase
  have hseal : ∀ c₁ : StateColumns, v.state = some c₁ → c₁.sealed = true := by
    intro c₁ hc₁
    cases Option.some.inj (hc₁.symm.trans hc)
    exact hsealed
  have hend : ∀ g₁ : GenerationRow, v.generation = some g₁ → g₁.state = .destroyed := by
    intro g₁ hg₁
    cases Option.some.inj (hg₁.symm.trans hg)
    exact hdestroyed
  cases h with
  | locked _ hgranted | unlocked _ hgranted | written _ hgranted =>
    cases (hseal _ hgranted.state).symm.trans hgranted.unsealed
  | launchPending _ hl hother | registered _ hl hother | inputRetained _ hl hother
  | cleanupVerified _ hl hother | spawnAcked _ hl hother | commandEnded _ hl hother =>
    cases (hkept _ hl.worker).symm.trans hother
  | workerFenced _ hl _ hother => exact absurd (hkept _ hl.worker) hother
  | createStarting _ _ _ _ hw₁ hother | destroyStarting _ _ _ _ hw₁ hother
  | bootstrapStarted _ hw₁ hother | released _ _ _ hw₁ _ _ hother =>
    cases (hkept _ hw₁).symm.trans hother
  | completed _ _ hw₁ _ _ _ hother =>
    rcases hother with hother | hother | hother <;> cases (hkept _ hw₁).symm.trans hother
  | finalized _ hw₁ _ _ _ hother =>
    rcases hother with hother | hother | hother <;> cases (hkept _ hw₁).symm.trans hother
  | createNoted _ hc₁ _ hunsealed => cases (hseal _ hc₁).symm.trans hunsealed
  | quarantined _ _ hc₁ _ _ _ hunsealed | replaced _ _ hc₁ _ _ _ hunsealed =>
    cases (hseal _ hc₁).symm.trans hunsealed
  | inserted _ _ hnone | admitted _ _ hnone | imported _ hnone => cases hnone.symm.trans hc
  | generationInserted _ _ hnone => cases hnone.symm.trans hg
  | finalizedBare hnone => cases hnone.symm.trans hw
  | advanced hg₁ hallowed =>
    rw [hend _ hg₁] at hallowed
    simp [transitionAllowed] at hallowed
  | importQuarantined _ hg₁ hlive => exact absurd (hend _ hg₁) hlive
  | revoked _ hc₁ =>
    have hsealed := hseal _ hc₁
    exact ⟨⟨_, rfl, hsealed⟩, hworker, g, hg, hdestroyed⟩
  | sealed => exact ⟨⟨_, rfl, rfl⟩, hworker, g, hg, hdestroyed⟩
  | reaped _ hw₁ =>
    cases Option.some.inj (hw₁.symm.trans hw)
    exact ⟨⟨c, hc, hsealed⟩, ⟨_, rfl, hphase, hidle, hreceipt⟩, g, hg, hdestroyed⟩
  | anchored hg₁ _ _ hanchored =>
    exact ⟨⟨c, hc, hsealed⟩, hworker, _, rfl, hanchored.state_eq.trans (hend _ hg₁)⟩
  | activity hg₁ =>
    exact ⟨⟨c, hc, hsealed⟩, hworker, _, rfl, activityRow_destroyed.mpr (hend _ hg₁)⟩
  | jitSet hg₁ | resultSet hg₁ | expiryRequested hg₁ | resourcesDestroyed hg₁ =>
    have hdestroyed := hend _ hg₁
    exact ⟨⟨c, hc, hsealed⟩, hworker, _, rfl, hdestroyed⟩
  | same => exact ⟨⟨c, hc, hsealed⟩, hworker, g, hg, hdestroyed⟩

/-- A receipt was there before, or the generation was just completed with it: by an operator, or on
the ground of its kind. -/
theorem Change.receipt_appears {r : Request P} {v v' : View} {w' : WorkerColumns}
    {receipt : CompletionReceipt} (h : Change P id r v v') (hw' : v'.worker = some w')
    (hreceipt : w'.completionReceipt = some receipt) :
    (∃ w, v.worker = some w ∧ w.completionReceipt = some receipt) ∨
      v'.Completed receipt ∧ (receipt.kind = .operatorAttested ∨ ∃ c w, v.state = some c ∧
        v.worker = some w ∧ CompletionGround c w receipt.kind) := by
  cases h with
  | completed _ hstate hworker _ _ hidle _ _ _ _ _ _ hground =>
    cases hw'
    cases hreceipt
    exact .inr ⟨⟨⟨_, rfl, rfl⟩, ⟨_, rfl, rfl, hidle, rfl⟩, _, rfl, rfl⟩,
      .inr ⟨_, _, hstate, hworker, hground⟩⟩
  | finalized _ _ _ _ hidle _ hkind =>
    cases hw'
    cases hreceipt
    exact .inr ⟨⟨⟨_, rfl, rfl⟩, ⟨_, rfl, rfl, hidle, rfl⟩, _, rfl, rfl⟩, .inl hkind⟩
  | written =>
    obtain ⟨w, hw, rfl⟩ := Option.map_eq_some_iff.mp hw'
    refine .inl ⟨w, hw, ?_⟩
    rw [← hreceipt]
    unfold WorkerColumns.noteSeen
    split <;> rfl
  | launchPending _ hl | registered _ hl | inputRetained _ hl | cleanupVerified _ hl
  | spawnAcked _ hl | commandEnded _ hl | workerFenced _ hl =>
    cases hw'
    exact .inl ⟨_, hl.worker, hreceipt⟩
  | reaped _ hworker | createStarting _ _ _ _ hworker | destroyStarting _ _ _ _ hworker
  | bootstrapStarted _ hworker | released _ _ _ hworker | replaced _ _ _ hworker =>
    cases hw'
    exact .inl ⟨_, hworker, hreceipt⟩
  | quarantined _ _ _ hworker _ _ _ _ _ hw =>
    cases hw'
    refine .inl ⟨_, hworker, ?_⟩
    rcases hw with rfl | rfl <;> exact hreceipt
  | admitted | imported =>
    cases hw'
    cases hreceipt
  | _ => exact .inl ⟨w', hw', hreceipt⟩

/-- A destroyed generation was destroyed before, or has no worker, or was just completed. -/
theorem Change.destroyed_appears {r : Request P} {v v' : View} {g' : GenerationRow}
    (h : Change P id r v v') (hg' : v'.generation = some g') (hdestroyed : g'.state = .destroyed) :
    (∃ g, v.generation = some g ∧ g.state = .destroyed) ∨ v'.worker = none ∨
      ∃ receipt, v'.Completed receipt := by
  cases h with
  | completed _ _ _ _ _ hidle | finalized _ _ _ _ hidle =>
    exact .inr (.inr ⟨_, ⟨_, rfl, rfl⟩, ⟨_, rfl, rfl, hidle, rfl⟩, _, rfl, rfl⟩)
  | finalizedBare hnone => exact .inr (.inl hnone)
  | advanced _ _ hworker =>
    cases hg'
    exact .inr (.inl (hworker hdestroyed))
  | inserted | generationInserted | admitted | quarantined | importQuarantined =>
    cases hg'
    cases hdestroyed
  | replaced _ _ _ _ hg =>
    cases hg'
    refine .inl ⟨_, hg, ?_⟩
    revert hdestroyed
    simp only [replacedState]
    split <;> simp
  | imported _ _ _ hg hlive =>
    cases hg'
    exact absurd hdestroyed hlive
  | anchored hg _ _ hanchored =>
    cases hg'
    exact .inl ⟨_, hg, hanchored.state_eq.symm.trans hdestroyed⟩
  | activity hg =>
    cases hg'
    exact .inl ⟨_, hg, activityRow_destroyed.mp hdestroyed⟩
  | jitSet hg | resultSet hg | expiryRequested hg | resourcesDestroyed hg =>
    cases hg'
    exact .inl ⟨_, hg, hdestroyed⟩
  | _ => exact .inl ⟨g', hg', hdestroyed⟩

/-- A worker appears only with a live generation. -/
theorem Change.worker_appears {r : Request P} {v v' : View} {w' : WorkerColumns}
    (h : Change P id r v v') (hnone : v.worker = none) (hw' : v'.worker = some w') :
    ∃ g', v'.generation = some g' ∧ g'.state ≠ .destroyed := by
  cases h with
  | admitted => exact ⟨_, rfl, by simp [GenerationRecord.row]⟩
  | imported _ _ _ _ hlive => exact ⟨_, rfl, hlive⟩
  | written =>
    obtain ⟨w, hw, -⟩ := Option.map_eq_some_iff.mp hw'
    cases hnone.symm.trans hw
  | launchPending _ hl | registered _ hl | inputRetained _ hl | cleanupVerified _ hl
  | spawnAcked _ hl | commandEnded _ hl | workerFenced _ hl => cases hnone.symm.trans hl.worker
  | reaped _ hw | createStarting _ _ _ _ hw | destroyStarting _ _ _ _ hw | bootstrapStarted _ hw
  | completed _ _ hw | finalized _ hw | released _ _ _ hw | quarantined _ _ _ hw
  | replaced _ _ _ hw => cases hnone.symm.trans hw
  | _ => cases hnone.symm.trans hw'

/-- A receipt means completion, and so does a destroyed generation with a worker. -/
structure View.TerminalSound (v : View) : Prop where
  completed : ∀ w receipt, v.worker = some w → w.completionReceipt = some receipt →
    v.Completed receipt
  destroyed : ∀ w g, v.worker = some w → v.generation = some g → g.state = .destroyed →
    ∃ receipt, v.Completed receipt

theorem View.TerminalSound.change {r : Request P} {v v' : View} (hv : v.TerminalSound)
    (h : Change P id r v v') : v'.TerminalSound := by
  constructor
  · intro w' receipt hw' hreceipt
    rcases h.receipt_appears hw' hreceipt with ⟨w, hw, hold⟩ | ⟨hdone, -⟩
    · exact (hv.completed w receipt hw hold).change h
    · exact hdone
  · intro w' g' hw' hg' hdestroyed
    rcases h.destroyed_appears hg' hdestroyed with ⟨g, hg, hold⟩ | hnone | hdone
    · cases hw : v.worker with
      | none =>
        obtain ⟨g₁, hg₁, hlive⟩ := h.worker_appears hw hw'
        cases Option.some.inj (hg₁.symm.trans hg')
        exact absurd hdestroyed hlive
      | some w =>
        obtain ⟨receipt, hcompleted⟩ := hv.destroyed w g hw hg hold
        exact ⟨receipt, hcompleted.change h⟩
    · cases hnone.symm.trans hw'
    · exact hdone

/-! ## Guards of the two seals -/

/-- No executor of the worker can be left: nothing runs or was handed over, no launch is pending,
and a quarantined attempt has its fence record. -/
structure Quiet (s : Store) (id : Uuid) (w : WorkerColumns) : Prop where
  idle : w.Idle
  launched : w.phase ≠ .launchPending
  fenced : w.phase = .quarantined → ∃ c f, (s.view id).state = some c ∧
    s.fences.find c.workerAttempt = some f ∧ f.generationId = id ∧ f.workerEpoch = c.workerEpoch ∧
    (f.outcome = .fenced ∨ f.confirmedFenced = true)

/-- A fence record of the exact attempt and epoch. -/
theorem Store.attemptFenced_eq_true {s : Store} {c : StateColumns}
    (h : s.attemptFenced id c = true) : ∃ f, s.fences.find c.workerAttempt = some f ∧
      f.generationId = id ∧ f.workerEpoch = c.workerEpoch ∧
      (f.outcome = .fenced ∨ f.confirmedFenced = true) := by
  obtain ⟨⟨attempt, f⟩, hmem, hf⟩ := List.any_eq_true.mp h
  simp only [Bool.and_eq_true, Bool.or_eq_true, beq_iff_eq] at hf
  obtain ⟨⟨⟨hid, rfl⟩, hepoch⟩, hproof⟩ := hf
  exact ⟨f, Table.mem_rows.mp hmem, hid, hepoch, hproof⟩

theorem Store.operatorSealOn_quiet {s s' : Store} {request : Uuid} {now : Int}
    {w : WorkerColumns} (hw : (s.view id).worker = some w)
    (h : s.operatorSealOn id request now = .ok s') : Quiet s id w := by
  obtain ⟨c, -, hc, hidle, hphase, -⟩ := Store.operatorSealOn_ok hw h
  refine ⟨hidle, fun hlaunch => ?_, fun hquarantined => ?_⟩
  · rcases hphase with h' | h' | ⟨h', -⟩ <;> cases hlaunch.symm.trans h'
  · rcases hphase with h' | h' | ⟨-, hfenced⟩
    · cases hquarantined.symm.trans h'
    · cases hquarantined.symm.trans h'
    · obtain ⟨f, hf⟩ := Store.attemptFenced_eq_true hfenced
      exact ⟨c, f, hc, hf⟩

theorem Store.generationFinalize_quiet {s s' : Store} {operationId : Uuid}
    {actor reason : String} {now : Int} {w : WorkerColumns} (hw : (s.view id).worker = some w)
    (h : s.generationFinalize id operationId actor reason now = .ok s') : Quiet s id w := by
  obtain ⟨g, s₁, s₂, -, -, hview, hfences, hseal, -⟩ := Store.generationFinalize_ok h
  have hw₁ : (s₁.view id).worker = some w := by
    rw [hview, Function.update_self]
    exact hw
  obtain ⟨hidle, hlaunched, hfenced⟩ := Store.operatorSealOn_quiet hw₁ hseal
  rw [hview, hfences, Function.update_self] at hfenced
  exact ⟨hidle, hlaunched, hfenced⟩

/-- What completing the worker `w` of generation `id`, by itself or by an operator, can answer. -/
structure CompletionGuards (P : Platform) (s : Store) (id : Uuid) (w : WorkerColumns) : Prop where
  replay : ∀ receipt claim requestId revision kind now, w.completionReceipt = some receipt →
    s.completeOn P claim w requestId revision kind now = .ok (s, receipt) ∨
      s.completeOn P claim w requestId revision kind now = .error .conflict
  complete : ∀ claim requestId revision kind now answer, claim.generationId = id →
    s.completeOn P claim w requestId revision kind now = .ok answer → Quiet s id w
  attest : ∀ request now s', s.operatorSealOn id request now = .ok s' → Quiet s id w
  finalize : ∀ operationId actor reason now s',
    s.generationFinalize id operationId actor reason now = .ok s' → Quiet s id w

theorem View.TerminalSound.guards {s : Store} {w : WorkerColumns}
    (hs : (s.view id).TerminalSound) (hw : (s.view id).worker = some w) :
    CompletionGuards P s id w := by
  refine ⟨?_, ?_, fun _ _ _ => Store.operatorSealOn_quiet hw,
    fun _ _ _ _ _ => Store.generationFinalize_quiet hw⟩
  · intro receipt claim requestId revision kind now hreceipt
    simp only [Store.completeOn, hreceipt]
    split
    · exact .inl rfl
    · exact .inr rfl
  · rintro claim requestId revision kind now ⟨s', receipt⟩ rfl h
    obtain ⟨hcompleted, -⟩ := Store.completeOn_ok hw h
    cases hcompleted with
    | replayed _ hreceipt =>
      obtain ⟨w₁, hw₁, hphase, hidle, -⟩ := (hs.completed w receipt hw hreceipt).worker
      cases Option.some.inj (hw₁.symm.trans hw)
      exact ⟨hidle, by simp [hphase], by simp [hphase]⟩
    | sealed _ _ _ _ hidle hphase =>
      refine ⟨hidle, fun hlaunch => ?_, fun hquarantined => ?_⟩
      · rcases hphase with h' | h' | h' <;> cases hlaunch.symm.trans h'
      · rcases hphase with h' | h' | h' <;> cases hquarantined.symm.trans h'

namespace System

variable {σ τ : System} {l : Label P}

theorem Reached.terminalSound (h : Reached P σ) (id : Uuid) : (σ.view id).TerminalSound := by
  refine h.view_invariant ⟨fun _ _ hw => ?_, fun _ _ hw => ?_⟩ fun _ _ _ hchange hv =>
    hv.change hchange
  · cases hw
  · cases hw

/-- The document and lock of generation `id` are sealed as `backend`. -/
def SealedAs (id : Uuid) (backend : Backend) (σ : System) : Prop :=
  ∃ c, (σ.view id).state = some c ∧ c.sealed = true ∧ c.backend = backend

theorem Step.sealedAs {backend : Backend} (h : Step P σ l τ) (hσ : SealedAs id backend σ) :
    SealedAs id backend τ := by
  obtain ⟨c, hc, hsealed, rfl⟩ := hσ
  rcases h.change id with hsame | ⟨r, -, -, hchange⟩
  · exact ⟨c, hsame ▸ hc, hsealed, rfl⟩
  · obtain ⟨c', hc', hmove⟩ := hchange.move hc
    rcases hchange.authority hc with ⟨c₁, hc₁, hkeeps⟩ | ⟨w, draw, hreplaces⟩
    · cases Option.some.inj (hc₁.symm.trans hc')
      exact ⟨_, hc', hkeeps.sealed hsealed, hmove.sealed hc hsealed⟩
    · cases hsealed.symm.trans hreplaces.unsealed

theorem Step.completed {receipt : CompletionReceipt} (h : Step P σ l τ)
    (hσ : (σ.view id).Completed receipt) : (τ.view id).Completed receipt := by
  rcases h.change id with hsame | ⟨r, -, -, hchange⟩
  · rw [hsame]
    exact hσ
  · exact hσ.change hchange

/-- **Terminal generations.**  A sealed document and its lock never change; a completed generation
stays sealed and destroyed with its receipt; a completion is replayed exactly or refused; and
neither seal succeeds while an executor may be left. -/
theorem terminal_generations_immutable {trace : List (System × Label P × System)}
    (hσ : Reached P σ) (h : Run (Step P) σ trace τ) (id : Uuid) :
    (∀ c, (σ.view id).state = some c → c.sealed = true → SealedAs id c.backend τ) ∧
      (∀ w receipt, (σ.view id).worker = some w → w.completionReceipt = some receipt →
        (σ.view id).Completed receipt ∧ (τ.view id).Completed receipt) ∧
      ∀ w, (τ.view id).worker = some w → CompletionGuards P τ.daemon.store id w := by
  refine ⟨fun c hc hsealed => ?_, fun w receipt hw hreceipt => ?_, fun w hw => ?_⟩
  · exact h.invariant (fun _ _ _ hs hstep => hstep.sealedAs hs) ⟨c, hc, hsealed, rfl⟩
  · have hcompleted := (hσ.terminalSound id).completed w receipt hw hreceipt
    exact ⟨hcompleted, h.invariant (I := fun σ => (σ.view id).Completed receipt)
      (fun _ _ _ hs hstep => hstep.completed hs) hcompleted⟩
  · exact (Reached.terminalSound (Reachable.run hσ h) id).guards hw

open Script in
/-- A completed generation, whose completion is replayed and whose lock is asked for. -/
theorem terminal_generations_immutable_sample :
    ∃ σ τ : System, ∃ trace, Run (Step platform) σ trace τ ∧ trace.length = 2 ∧
      (∃ receipt, (σ.view generation).Completed receipt ∧
        (τ.view generation).Completed receipt) ∧
      ∃ w, (τ.view generation).worker = some w ∧
        CompletionGuards platform τ.daemon.store generation w := by
  have hstart : (initial 2).Plays platform completed := by decide +kernel
  have hplay : ((initial 2).play platform completed).Plays platform
      [complete .neverStarted, .lock stateAccess lockInfo] := by
    decide +kernel
  have hrows : (((initial 2).play platform completed).view generation).worker.any
      (fun w => w.completionReceipt.isSome) = true := by
    decide +kernel
  obtain ⟨w, hw, hreceipt⟩ := (Option.any_eq_true _ _).mp hrows
  obtain ⟨receipt, hreceipt⟩ := Option.isSome_iff_exists.mp hreceipt
  obtain ⟨-, hkept, hguards⟩ :=
    terminal_generations_immutable hstart.reached hplay.run generation
  obtain ⟨hbefore, hafter⟩ := hkept w receipt hw hreceipt
  obtain ⟨w', hw', -⟩ := hafter.worker
  exact ⟨_, _, _, hplay.run, rfl, ⟨receipt, hbefore, hafter⟩, w', hw', hguards w' hw'⟩

open Script in
/-- A generation whose backend only was sealed is still terminated by its operator. -/
theorem sealed_generation_finalized :
    ∃ σ l τ, Reached platform σ ∧ Step platform σ l τ ∧
      ((σ.view generation).state.any fun c => c.sealed) = true ∧
      (σ.view generation).generation.map (·.state) = some .quarantined ∧
      (τ.view generation).generation.map (·.state) = some .destroyed := by
  have hplay : (initial 2).Plays platform sealedOnly := by decide +kernel
  have hpermits : ((initial 2).play platform sealedOnly).Permits platform
      (.generationFinalize generation ⟨95⟩ "operator" "gone" 400) := by
    decide +kernel
  exact ⟨_, _, _, hplay.reached, .served _ _ hpermits, by decide +kernel, by decide +kernel,
    by decide +kernel⟩

end System

end Shaula
