import Shaula.System.Run

/-! # Authority over a generation

Who may act for a generation is written in its state row (epoch, attempt, state capability,
revocation, seal) and its worker row (control capability).  A replacement is the only change that
hands this authority on; every other one keeps it or takes it away.
-/

namespace Shaula

open Core Library

variable {P : Platform} {id : Uuid}

/-- The owner and credential are the same, and no flag that restricts them was taken back. -/
structure StateColumns.Keeps (c c' : StateColumns) : Prop where
  workerEpoch : c'.workerEpoch = c.workerEpoch
  workerAttempt : c'.workerAttempt = c.workerAttempt
  capabilityHash : c'.capabilityHash = c.capabilityHash
  revoked : c.revoked = true → c'.revoked = true
  sealed : c.sealed = true → c'.sealed = true
  createStarted : c.createStarted = true → c'.createStarted = true

/-- The control credential is the same, and the worker stays cleanup-only once it is. -/
structure WorkerColumns.Keeps (w w' : WorkerColumns) : Prop where
  controlHash : w'.controlHash = w.controlHash
  cleanupOnly : w.cleanupOnly = true → w'.cleanupOnly = true

theorem StateColumns.Keeps.refl (c : StateColumns) : c.Keeps c :=
  ⟨rfl, rfl, rfl, fun h => h, fun h => h, fun h => h⟩

theorem WorkerColumns.Keeps.refl (w : WorkerColumns) : w.Keeps w := ⟨rfl, fun h => h⟩

theorem WorkerColumns.Keeps.noteSeen (w : WorkerColumns) (document : StateDocument P) :
    w.Keeps (w.noteSeen document) := by
  unfold WorkerColumns.noteSeen
  split
  · exact .refl w
  · exact ⟨rfl, fun h => h⟩

/-- A replacement of an unsealed, unquarantined worker by its cleanup-only successor. -/
structure Replaces (P : Platform) (id : Uuid) (r : Request P) (v v' : View) (c : StateColumns)
    (w : WorkerColumns) (draw : Draw) : Prop where
  state : v.state = some c
  worker : v.worker = some w
  unsealed : c.sealed = false
  live : w.phase ≠ .quarantined
  rotated : ∃ record preserve, Recovers record .fenced preserve draw r ∧
    record.generationId = id ∧ c.Owns record.claim ∧
    v'.state = some (c.rotated P (replacementAdmission record c draw)) ∧
    v'.worker = some (w.replaced P (replacementAdmission record c draw) (keptCleanupRevision c w))

namespace Replaces

variable {r : Request P} {v v' : View} {c : StateColumns} {w : WorkerColumns} {draw : Draw}

theorem publishes (h : Replaces P id r v v' c w draw) : r.publishes = some id := by
  obtain ⟨record, preserve, hrecovers, rfl, -⟩ := h.rotated
  exact hrecovers.publishes

theorem draws (h : Replaces P id r v v' c w draw) :
    draw.state ∈ r.stateDraws ∧ draw.control ∈ r.controlDraws := by
  obtain ⟨record, preserve, hrecovers, -⟩ := h.rotated
  exact hrecovers.draws

end Replaces

/-- A state row keeps its authority unless its worker is replaced. -/
theorem Change.authority {r : Request P} {v v' : View} {c : StateColumns}
    (h : Change P id r v v') (hc : v.state = some c) :
    (∃ c', v'.state = some c' ∧ c.Keeps c') ∨ ∃ w draw, Replaces P id r v v' c w draw := by
  cases h with
  | replaced hrecovers hid hstate hworker _ howns hunsealed _ hlive =>
    cases Option.some.inj (hstate.symm.trans hc)
    exact .inr ⟨_, _, hstate, hworker, hunsealed, hlive, _, _, hrecovers, hid, howns, rfl, rfl⟩
  | locked _ hgranted | unlocked _ hgranted | written _ hgranted =>
    cases Option.some.inj (hgranted.state.symm.trans hc)
    exact .inl ⟨_, rfl, rfl, rfl, rfl, fun h => h, fun h => h, fun h => h⟩
  | inserted _ _ hnone | admitted _ _ hnone | imported _ hnone =>
    cases hnone.symm.trans hc
  | revoked _ hstate | createNoted _ hstate | sealed _ hstate | createStarting _ _ _ hstate
  | completed _ hstate | finalized hstate | quarantined _ _ hstate =>
    cases Option.some.inj (hstate.symm.trans hc)
    exact .inl ⟨_, rfl, rfl, rfl, rfl, by simp, by simp, by simp⟩
  | finalizedBare | importQuarantined =>
    simp only [hc, Option.map_some]
    exact .inl ⟨_, rfl, rfl, rfl, rfl, by simp, by simp, by simp⟩
  | _ => exact .inl ⟨c, hc, .refl c⟩

/-- A worker row keeps its authority unless it is replaced. -/
theorem Change.control {r : Request P} {v v' : View} {w : WorkerColumns}
    (h : Change P id r v v') (hw : v.worker = some w) :
    (∃ w', v'.worker = some w' ∧ w.Keeps w') ∨ ∃ c draw, Replaces P id r v v' c w draw := by
  cases h with
  | replaced hrecovers hid hstate hworker _ howns hunsealed _ hlive =>
    cases Option.some.inj (hworker.symm.trans hw)
    exact .inr ⟨_, _, hstate, hworker, hunsealed, hlive, _, _, hrecovers, hid, howns, rfl, rfl⟩
  | written =>
    simp only [hw, Option.map_some]
    exact .inl ⟨_, rfl, .noteSeen w _⟩
  | admitted _ _ _ hnone | imported _ _ hnone | finalizedBare hnone =>
    cases hnone.symm.trans hw
  | launchPending _ hl | registered _ hl | inputRetained _ hl | cleanupVerified _ hl
  | spawnAcked _ hl | commandEnded _ hl | workerFenced _ hl =>
    cases Option.some.inj (hl.worker.symm.trans hw)
    exact .inl ⟨_, rfl, rfl, fun h => h⟩
  | reaped _ hworker | createStarting _ _ _ _ hworker | destroyStarting _ _ _ _ hworker
  | bootstrapStarted _ hworker | completed _ _ hworker | finalized _ hworker
  | released _ _ _ hworker =>
    cases Option.some.inj (hworker.symm.trans hw)
    exact .inl ⟨_, rfl, rfl, fun h => h⟩
  | quarantined _ _ _ hworker _ _ _ _ _ hw' =>
    cases Option.some.inj (hworker.symm.trans hw)
    refine .inl ⟨_, rfl, ?_⟩
    rcases hw' with rfl | rfl <;> exact ⟨rfl, fun h => h⟩
  | _ => exact .inl ⟨w, hw, .refl w⟩

end Shaula
