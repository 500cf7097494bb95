import Shaula.System.Custody
import Shaula.System.Script

/-! # State rows only move forward

Along every run the document of a state row keeps its lineage, its serial and its revision never go
back, and only the holder of the row's lock and capability can change its bytes.  A request that
failed left document and lock as they were.
-/

namespace Shaula

open Core Library

variable {P : Platform} {σ τ : System} {l : Label P} {id : Uuid}

namespace System

/-- The step answered an error, or none at all for a storage failure. -/
def Rejected : Label P → Prop
  | .served _ (.error _) | .failed _ => True
  | _ => False

/-- What one step may do to the document and lock of a generation's state row. -/
structure Guarded (P : Platform) (id : Uuid) (σ : System) (l : Label P) (τ : System) : Prop where
  /-- The revision counts the changes of the stored bytes. -/
  revision : ∀ c c', (σ.view id).state = some c → (τ.view id).state = some c' →
    (c'.revision = c.revision ∧ c'.stateBytes = c.stateBytes) ∨
      (c'.revision = c.revision + 1 ∧ c'.stateBytes ≠ c.stateBytes)
  written : ∀ c c', (σ.view id).state = some c → (τ.view id).state = some c' →
    c'.stateBytes ≠ c.stateBytes → ∃ r access lockId document, l.request = some r ∧
      WrittenBy P id (σ.view id) c c' r access lockId document
  rejected : Rejected l →
    (τ.view id).state.map StateColumns.backend = (σ.view id).state.map StateColumns.backend

/-- A row that no request changed keeps its document and lock. -/
theorem Guarded.same (h : τ.view id = σ.view id) : Guarded P id σ l τ := by
  refine ⟨fun c c' hc hc' => ?_, fun c c' hc hc' hne => ?_, fun _ => by rw [h]⟩
  all_goals
    rw [h] at hc'
    cases Option.some.inj (hc.symm.trans hc')
  · exact .inl ⟨rfl, rfl⟩
  · exact absurd rfl hne

/-- A failed request left document and lock alone: a replacement whose admission could not be
published found its row unlocked. -/
theorem Custody.rejected (hσ : Custody P σ) {r : Request P} {e : RequestError}
    (h : (σ.daemon.exec P r).2 = .error e) :
    ((σ.serve P r).view id).state.map StateColumns.backend =
      (σ.view id).state.map StateColumns.backend := by
  rcases Daemon.exec_error h with hsame | ⟨target, hpublishes, hpending⟩
  · exact congrArg (fun v : Uuid → View => (v id).state.map StateColumns.backend) hsame
  · have hchange : Change P id r (σ.view id) ((σ.serve P r).view id) := σ.daemon.exec_change r id
    have htarget : r.publishes = some id → ∃ c, σ.Reserved P id c := by
      intro hid
      cases Option.some.inj (hpublishes.symm.trans hid)
      exact hσ.reserved _ hpending
    cases hc : (σ.view id).state with
    | none =>
      cases hc' : ((σ.serve P r).view id).state with
      | none => rfl
      | some c' =>
        rcases hchange.appears hc hc' with hid | ⟨_, _, _, rfl⟩ | ⟨_, _, rfl⟩
        · obtain ⟨c, hreserved⟩ := htarget hid
          cases hreserved.state.symm.trans hc
        · cases hpublishes
        · cases hpublishes
    | some c =>
      obtain ⟨c', hc', hmove⟩ := hchange.move hc
      rw [hc']
      cases hmove with
      | kept hsame => exact congrArg some hsame
      | locked | unlocked | written => cases hpublishes
      | cleared hid =>
        obtain ⟨c₀, hreserved⟩ := htarget hid
        cases Option.some.inj (hreserved.state.symm.trans hc)
        obtain ⟨-, -, -, -, hlock, -⟩ := Store.view_check_state hc
        rw [hreserved.unlocked, Option.isNone_none, eq_comm, Option.isNone_iff_eq_none] at hlock
        simp only [Option.map_some, StateColumns.backend, StateColumns.rotated,
          hreserved.unlocked, hlock]

/-- **Step law.**  Every step from a reachable state guards every state row. -/
theorem Step.guarded (hσ : Reached P σ) (h : Step P σ l τ) (id : Uuid) : Guarded P id σ l τ := by
  rcases h.change id with hsame | ⟨r, hr, -, hchange⟩
  · exact .same hsame
  · refine ⟨fun c c' hc hc' => ?_, fun c c' hc hc' hne => ?_, fun hrejected => ?_⟩
    · obtain ⟨c₁, hc₁, hmove⟩ := hchange.move hc
      cases Option.some.inj (hc₁.symm.trans hc')
      exact hmove.revision
    · obtain ⟨c₁, hc₁, hmove⟩ := hchange.move hc
      cases Option.some.inj (hc₁.symm.trans hc')
      obtain ⟨access, lockId, document, hwritten⟩ := hmove.written_of_ne hne
      exact ⟨r, access, lockId, document, hr, hwritten⟩
    · cases h with
      | served r' =>
        cases houtcome : (σ.daemon.exec P r').2 with
        | ok => rw [houtcome] at hrejected; exact hrejected.elim
        | error e => exact hσ.custody.rejected houtcome
      | failed => rfl
      | crashed | restarted => exact hrejected.elim

/-- A state row never disappears, and only moves forward. -/
def Forward (id : Uuid) (σ τ : System) : Prop :=
  ∀ c, (σ.view id).state = some c → ∃ c', (τ.view id).state = some c' ∧ c.Follows c'

theorem Forward.trans {υ : System} (h : Forward id σ τ) (h' : Forward id τ υ) :
    Forward id σ υ := by
  intro c hc
  obtain ⟨c', hc', hfollows⟩ := h c hc
  obtain ⟨c'', hc'', hfollows'⟩ := h' c' hc'
  exact ⟨c'', hc'', hfollows.trans hfollows'⟩

theorem Step.forward (h : Step P σ l τ) : Forward id σ τ := by
  intro c hc
  rcases h.change id with hsame | ⟨r, -, -, hchange⟩
  · exact ⟨c, by rw [hsame, hc], .refl c⟩
  · obtain ⟨c', hc', hmove⟩ := hchange.move hc
    exact ⟨c', hc', hmove.follows⟩

/-- **State-backend monotonicity and lock authority.** -/
theorem state_rows_move_forward {trace : List (System × Label P × System)} (hσ : Reached P σ)
    (h : Run (Step P) σ trace τ) (id : Uuid) :
    Forward id σ τ ∧ ∀ e ∈ trace, Guarded P id e.1 e.2.1 e.2.2 := by
  constructor
  · exact h.relates (fun σ c hc => ⟨c, hc, .refl c⟩) (fun _ _ _ => Forward.trans)
      (fun _ _ _ _ _ => trivial) (fun _ _ _ (_ : True) hstep => hstep.forward) trivial
  · exact h.forall_mem (I := Reached P) (fun _ _ _ hs hstep => hs.next hstep)
      (fun _ _ _ hs hstep => hstep.guarded hs id) hσ

open Script in
/-- Two writes, a replay of the first, and the release of the lock. -/
theorem state_rows_move_forward_sample :
    ∃ σ τ : System, ∃ trace, Run (Step platform) σ trace τ ∧ trace.length = 5 ∧
      Forward generation σ τ ∧ ∀ e ∈ trace, Guarded platform generation e.1 e.2.1 e.2.2 := by
  have hstart : (initial 1).Plays platform
      [.fleetChanged "fleet" fleet, .insertGeneration record firstDraw.workerAttempt
        firstDraw.state] := by
    decide +kernel
  have hplay : ((initial 1).play platform [.fleetChanged "fleet" fleet,
      .insertGeneration record firstDraw.workerAttempt firstDraw.state]).Plays platform
      [.lock stateAccess lockInfo, .write stateAccess lockInfo.id created,
        .write stateAccess lockInfo.id removed, .write stateAccess lockInfo.id created,
        .unlock stateAccess lockInfo.id] := by
    decide +kernel
  exact ⟨_, _, _, hplay.run, rfl, state_rows_move_forward hstart.reached hplay.run generation⟩

end System

end Shaula
