import Shaula.Listener.Ingestion

/-! # A job is acquired at most once

An acquisition is handed out when it leaves the pending state, and no step takes it back there.
-/

namespace Shaula

open Library Library.Outcome Core Jobs Registry

namespace Listener

namespace AcquisitionState

/-- Nothing more becomes of the acquisition. -/
def terminal : AcquisitionState → Bool
  | acquired | rejected | cancelled | reconciledUncertain => true
  | pending | acquireStarting | uncertain => false

end AcquisitionState

/-- Whether the operation replaces the session of a fleet. -/
def Op.installs : Op → Bool
  | .install _ _ => true
  | _ => false

namespace ListenerStore

variable {δ : Type} {E : Encoding δ} {s t : ListenerStore δ} {fleet : String}
  {context : SessionEffectContext} {messageId epoch now : Int} {message : PollMessage}
  {key : AcquisitionKey} {row : AcquisitionRow} {op : Op}

/-! ## What a step does to an acquisition -/

theorem find_startPending :
    (s.startPending fleet epoch messageId).acquisitions.find key =
      (s.acquisitions.find key).map fun row =>
        if key.1 = fleet ∧ key.2.1 = epoch ∧ row.messageId = messageId ∧ row.state = .pending then
          { row with state := .acquireStarting }
        else row := by
  simp [startPending]

theorem find_listenerSessionEnd :
    (s.listenerSessionEnd fleet epoch).acquisitions.find key =
      (s.acquisitions.find key).map fun row =>
        if key.1 = fleet ∧ key.2.1 = epoch ∧
            (row.state = .pending ∨ row.state = .acquireStarting) then
          { row with state := if row.state = .pending then .cancelled else .uncertain }
        else row := by
  simp [listenerSessionEnd]

theorem find_listenerReconcileOld :
    (s.listenerReconcileOld fleet epoch).acquisitions.find key =
      (s.acquisitions.find key).map fun row =>
        if key.1 = fleet ∧ key.2.1 < epoch ∧ row.state = .uncertain then
          { row with state := .reconciledUncertain }
        else row := by
  simp [listenerReconcileOld]

/-- The ways in which a step moves an acquisition. -/
inductive Moves (key : AcquisitionKey) (row : AcquisitionRow) : Op → AcquisitionState → Prop
  | started {context : SessionEffectContext} : row.state = .pending → context.epoch = key.2.1 →
      Moves key row (.acquireStart key.1 context row.messageId) .acquireStarting
  | answered {context : SessionEffectContext} {accepted : Option (List Int)} :
      row.state = .acquireStarting ∨ row.state = .uncertain →
      Moves key row (.acquireComplete key.1 context row.messageId accepted)
        (settled accepted key.2.2)
  | cancelled {op : Op} : row.state = .pending → Moves key row op .cancelled
  | cut {epoch : Int} : row.state = .acquireStarting → Moves key row (.clear key.1 epoch) .uncertain
  | reconciled {install : SessionInstall} : row.state = .acquireStarting ∨ row.state = .uncertain →
      Moves key row (.install key.1 install) .reconciledUncertain

/-- The row was kept, or moved. -/
def Follows (key : AcquisitionKey) (row : AcquisitionRow) (op : Op) (row' : AcquisitionRow) : Prop :=
  row'.messageId = row.messageId ∧ (row'.state = row.state ∨ Moves key row op row'.state)

theorem Follows.refl : Follows key row op row :=
  ⟨rfl, .inl rfl⟩

/-- What the end of a session makes of an acquisition. -/
def ended (row : AcquisitionRow) : AcquisitionRow :=
  if row.state = .pending then { row with state := .cancelled }
  else if row.state = .acquireStarting then { row with state := .uncertain }
  else row

/-- What a fresh session makes of an acquisition of an earlier one. -/
def reconciled (row : AcquisitionRow) : AcquisitionRow :=
  if row.state = .uncertain then { row with state := .reconciledUncertain } else row

theorem find_ended :
    (s.listenerSessionEnd fleet epoch).acquisitions.find key =
      (s.acquisitions.find key).map fun row =>
        if key.1 = fleet ∧ key.2.1 = epoch then ended row else row := by
  rw [find_listenerSessionEnd]
  congr 1
  funext row
  unfold ended
  by_cases hkey : key.1 = fleet ∧ key.2.1 = epoch
  · cases row.state <;> simp [hkey]
  · have hnot : ¬ (key.1 = fleet ∧ key.2.1 = epoch ∧
        (row.state = .pending ∨ row.state = .acquireStarting)) := fun h => hkey ⟨h.1, h.2.1⟩
    rw [if_neg hkey, if_neg hnot]

theorem find_reconciled :
    (s.listenerReconcileOld fleet epoch).acquisitions.find key =
      (s.acquisitions.find key).map fun row =>
        if key.1 = fleet ∧ key.2.1 < epoch then reconciled row else row := by
  rw [find_listenerReconcileOld]
  congr 1
  funext row
  unfold reconciled
  by_cases hkey : key.1 = fleet ∧ key.2.1 < epoch
  · cases row.state <;> simp [hkey]
  · have hnot : ¬ (key.1 = fleet ∧ key.2.1 < epoch ∧ row.state = .uncertain) :=
      fun h => hkey ⟨h.1, h.2.1⟩
    rw [if_neg hkey, if_neg hnot]

theorem ended_follows (epoch : Int) : Follows key row (.clear key.1 epoch) (ended row) := by
  unfold ended
  by_cases hpending : row.state = .pending
  · rw [if_pos hpending]
    exact ⟨rfl, .inr (.cancelled hpending)⟩
  · rw [if_neg hpending]
    by_cases hstarting : row.state = .acquireStarting
    · rw [if_pos hstarting]
      exact ⟨rfl, .inr (.cut hstarting)⟩
    · rw [if_neg hstarting]
      exact .refl

theorem reconciled_follows (install : SessionInstall) :
    Follows key row (.install key.1 install) (reconciled row) := by
  unfold reconciled
  by_cases huncertain : row.state = .uncertain
  · rw [if_pos huncertain]
    exact ⟨rfl, .inr (.reconciled (.inr huncertain))⟩
  · rw [if_neg huncertain]
    exact .refl

theorem replaced_follows (install : SessionInstall) :
    Follows key row (.install key.1 install) (reconciled (ended row)) := by
  unfold ended
  by_cases hpending : row.state = .pending
  · rw [if_pos hpending]
    exact ⟨rfl, .inr (.cancelled hpending)⟩
  · rw [if_neg hpending]
    by_cases hstarting : row.state = .acquireStarting
    · rw [if_pos hstarting]
      exact ⟨rfl, .inr (.reconciled (.inl hstarting))⟩
    · rw [if_neg hstarting]
      exact reconciled_follows install

theorem find_install {install : SessionInstall} :
    (((s.endPrevious fleet (s.sessions.find fleet)).publishSession fleet install
        epoch).listenerReconcileOld fleet epoch).acquisitions.find key =
      ((s.endPrevious fleet (s.sessions.find fleet)).acquisitions.find key).map fun row =>
        if key.1 = fleet ∧ key.2.1 < epoch then reconciled row else row :=
  find_reconciled

theorem install_sessions {install : SessionInstall} :
    (((s.endPrevious fleet (s.sessions.find fleet)).publishSession fleet install
        epoch).listenerReconcileOld fleet epoch).sessions =
      s.sessions.put fleet
        { sessionId := install.handle.sessionId, epoch, scaleSetId := install.scaleSetId
          messageQueueUrl := some install.handle.messageQueueUrl
          queueToken := some install.handle.messageQueueAccessToken, lastMessageId := 0 } := by
  cases hsession : s.sessions.find fleet with
  | none => rfl
  | some session => rfl

theorem install_messages {install : SessionInstall} :
    (((s.endPrevious fleet (s.sessions.find fleet)).publishSession fleet install
        epoch).listenerReconcileOld fleet epoch).messages = s.messages := by
  cases hsession : s.sessions.find fleet with
  | none => rfl
  | some session => rfl

/-- An install closes the open acquisitions of the session it replaces. -/
theorem install_follows (install : SessionInstall) (h : s.acquisitions.find key = some row)
    (hepoch : epoch = ((s.sessions.find fleet).map (·.epoch)).getD 0 + 1) :
    ∃ row', (((s.endPrevious fleet (s.sessions.find fleet)).publishSession fleet install
        epoch).listenerReconcileOld fleet epoch).acquisitions.find key = some row' ∧
      Follows key row (.install fleet install) row' ∧
      ∀ session, s.sessions.find fleet = some session → key.1 = fleet → key.2.1 = session.epoch →
        row' = reconciled (ended row) := by
  rw [find_install]
  cases hsession : s.sessions.find fleet with
  | none =>
    simp only [endPrevious, h, Option.map_some, Option.some.injEq, exists_eq_left']
    refine ⟨?_, fun session hnone => by cases hnone⟩
    by_cases hold : key.1 = fleet ∧ key.2.1 < epoch
    · rw [if_pos hold, ← hold.1]
      exact reconciled_follows install
    · rw [if_neg hold]
      exact .refl
  | some session =>
    simp only [hsession, Option.map_some, Option.getD_some] at hepoch
    simp only [endPrevious, find_ended, h, Option.map_some, Option.some.injEq, exists_eq_left',
      forall_eq']
    by_cases hfleet : key.1 = fleet
    · by_cases hended : key.2.1 = session.epoch
      · have hold : key.2.1 < epoch := by omega
        rw [if_pos ⟨hfleet, hold⟩, if_pos ⟨hfleet, hended⟩, ← hfleet]
        exact ⟨replaced_follows install, fun _ _ => rfl⟩
      · rw [if_neg (fun hkey : key.1 = fleet ∧ key.2.1 = session.epoch => hended hkey.2)]
        refine ⟨?_, fun _ heq => absurd heq hended⟩
        by_cases hold : key.2.1 < epoch
        · rw [if_pos ⟨hfleet, hold⟩, ← hfleet]
          exact reconciled_follows install
        · rw [if_neg (fun hkey => hold hkey.2)]
          exact .refl
    · rw [if_neg (fun hkey => hfleet hkey.1), if_neg (fun hkey => hfleet hkey.1)]
      exact ⟨.refl, fun heq => absurd heq hfleet⟩

/-- No step loses an acquisition. -/
theorem Effect.follows (heffect : Effect E s op t) (h : s.acquisitions.find key = some row) :
    ∃ row', t.acquisitions.find key = some row' ∧ Follows key row op row' := by
  cases heffect with
  | unchanged => exact ⟨row, h, .refl⟩
  | ingested hcurrent hlikely hnone hingested =>
    refine ⟨row, ?_, .refl⟩
    rw [hingested.acquisitions, h]
    rfl
  | upgraded hlikely hrow hunder hone hdigest hfacts => exact ⟨row, h, .refl⟩
  | acknowledged hsession hepoch hrow hearlier => exact ⟨row, h, .refl⟩
  | @started fleet context messageId =>
    rw [find_startPending, h, Option.map_some]
    by_cases hstarts : key.1 = fleet ∧ key.2.1 = context.epoch ∧ row.messageId = messageId ∧
        row.state = .pending
    · obtain ⟨hfleet, hepoch, hmessage, hstate⟩ := hstarts
      rw [if_pos ⟨hfleet, hepoch, hmessage, hstate⟩, ← hfleet, ← hmessage]
      exact ⟨_, rfl, rfl, .inr (.started hstate hepoch.symm)⟩
    · rw [if_neg hstarts]
      exact ⟨row, rfl, .refl⟩
  | @completed fleet context messageId accepted acquisitions hfind =>
    rw [hfind, h, Option.map_some]
    by_cases hanswers : key.1 = fleet ∧ key.2.1 = context.epoch ∧ row.messageId = messageId ∧
        (row.state = .acquireStarting ∨ row.state = .uncertain)
    · obtain ⟨hfleet, hepoch, hmessage, hstate⟩ := hanswers
      rw [if_pos ⟨hfleet, hepoch, hmessage, hstate⟩, ← hfleet, ← hmessage]
      exact ⟨_, rfl, rfl, .inr (.answered hstate)⟩
    · rw [if_neg hanswers]
      exact ⟨row, rfl, .refl⟩
  | installed hepoch =>
    obtain ⟨row', hrow', hfollows, -⟩ := install_follows _ h hepoch
    exact ⟨row', hrow', hfollows⟩
  | @cleared fleet session hsession =>
    show ∃ row', (s.listenerSessionEnd fleet session.epoch).acquisitions.find key = some row' ∧ _
    rw [find_ended, h, Option.map_some]
    by_cases hended : key.1 = fleet ∧ key.2.1 = session.epoch
    · rw [if_pos hended, ← hended.1]
      exact ⟨_, rfl, ended_follows session.epoch⟩
    · rw [if_neg hended]
      exact ⟨row, rfl, .refl⟩
  | others => exact ⟨row, h, .refl⟩

/-- An acquisition appears when its job is offered. -/
theorem Effect.offered (heffect : Effect E s op t) (hnone : s.acquisitions.find key = none)
    (h : t.acquisitions.find key = some row) :
    ∃ context message now, op = .ingest key.1 context message now ∧ context.epoch = key.2.1 ∧
      key.2.2 ∈ message.jobAvailable.map (·.runnerRequestId) ∧
      row = ⟨message.messageId, .pending⟩ := by
  cases heffect with
  | unchanged => cases hnone.symm.trans h
  | @ingested fleet context message now answer t hcurrent hlikely hnew hingested =>
    rw [hingested.acquisitions, hnone, Option.none_or] at h
    split at h
    · next hkey =>
      obtain ⟨hfleet, hepoch, hrequest⟩ := hkey
      exact ⟨context, message, now, by rw [hfleet], hepoch.symm, hrequest, (Option.some.inj h).symm⟩
    · cases h
  | upgraded hlikely hrow hunder hone hdigest hfacts => cases hnone.symm.trans h
  | acknowledged hsession hepoch hrow hearlier => cases hnone.symm.trans h
  | started =>
    rw [find_startPending, hnone] at h
    cases h
  | completed hfind =>
    rw [hfind, hnone] at h
    cases h
  | @installed fleet install epoch hepoch =>
    rw [find_install] at h
    cases hsession : s.sessions.find fleet with
    | none =>
      simp only [hsession, endPrevious, hnone, Option.map_none] at h
      cases h
    | some session =>
      simp only [hsession, endPrevious, find_ended, hnone, Option.map_none] at h
      cases h
  | @cleared fleet session hsession =>
    have h : (s.listenerSessionEnd fleet session.epoch).acquisitions.find key = some row := h
    rw [find_ended, hnone] at h
    cases h
  | others => cases hnone.symm.trans h

theorem Moves.not_terminal {state : AcquisitionState} (h : Moves key row op state) :
    row.state.terminal = false := by
  cases h with
  | started hstate _ => rw [hstate]; rfl
  | answered hstate => rcases hstate with hstate | hstate <;> rw [hstate] <;> rfl
  | cancelled hstate => rw [hstate]; rfl
  | cut hstate => rw [hstate]; rfl
  | reconciled hstate => rcases hstate with hstate | hstate <;> rw [hstate] <;> rfl

theorem Moves.ne_pending {state : AcquisitionState} (h : Moves key row op state) :
    state ≠ .pending := by
  cases h with
  | @answered context accepted hstate =>
    cases accepted with
    | none => nofun
    | some ids =>
      show (if key.2.2 ∈ ids then AcquisitionState.acquired else .rejected) ≠ .pending
      split <;> nofun
  | started | cancelled | cut | reconciled => nofun

/-- Only a pending acquisition is cancelled. -/
theorem Moves.cancelled_pending (h : Moves key row op .cancelled) : row.state = .pending := by
  generalize hstate : AcquisitionState.cancelled = state at h
  cases h with
  | @answered context accepted _ =>
    cases accepted with
    | none => cases hstate
    | some ids =>
      have hstate : AcquisitionState.cancelled =
        (if key.2.2 ∈ ids then AcquisitionState.acquired else .rejected) := hstate
      split at hstate <;> cases hstate
  | cancelled hpending => exact hpending
  | started | cut | reconciled => cases hstate

/-! ## Sessions -/

/-- No step takes an epoch back. -/
theorem Effect.epoch_le (heffect : Effect E s op t) {session : SessionRow}
    (h : s.sessions.find fleet = some session) :
    ∃ session', t.sessions.find fleet = some session' ∧ session.epoch ≤ session'.epoch := by
  have hkept : ∃ session', s.sessions.find fleet = some session' ∧
      session.epoch ≤ session'.epoch := ⟨session, h, le_refl _⟩
  cases heffect with
  | unchanged => exact hkept
  | ingested hcurrent hlikely hnone hingested =>
    rw [hingested.sessions]
    exact hkept
  | upgraded hlikely hrow hunder hone hdigest hfacts => exact hkept
  | acknowledged hsession hepoch hrow hearlier =>
    unfold markAcked
    rw [Table.find_update, h]
    refine ⟨_, rfl, ?_⟩
    dsimp only
    split <;> exact le_refl _
  | started => exact hkept
  | completed hfind => exact hkept
  | @installed other install epoch hepoch =>
    rw [install_sessions, Table.find_put]
    by_cases hfleet : fleet = other
    · subst hfleet
      rw [if_pos rfl]
      refine ⟨_, rfl, ?_⟩
      simp only [h, Option.map_some, Option.getD_some] at hepoch
      show session.epoch ≤ epoch
      omega
    · rw [if_neg hfleet]
      exact hkept
  | @cleared other row hrow =>
    show ∃ session', (s.sessions.put other _).find fleet = some session' ∧ _
    rw [Table.find_put]
    by_cases hfleet : fleet = other
    · subst hfleet
      rw [if_pos rfl]
      cases h.symm.trans hrow
      refine ⟨_, rfl, ?_⟩
      show session.epoch ≤ session.epoch + 1
      omega
    · rw [if_neg hfleet]
      exact hkept
  | others => exact hkept

/-- What the end of a session makes of a started acquisition. -/
theorem Effect.ends (heffect : Effect E s op t) {session session' : SessionRow} {request : Int}
    (h : s.sessions.find fleet = some session) (h' : t.sessions.find fleet = some session')
    (hends : session'.epoch ≠ session.epoch)
    (hrow : s.acquisitions.find (fleet, session.epoch, request) = some row)
    (hstarted : row.state = .acquireStarting) :
    t.acquisitions.find (fleet, session.epoch, request) =
      some ⟨row.messageId, if op.installs then .reconciledUncertain else .uncertain⟩ := by
  have hsame (hsessions : t.sessions = s.sessions) : False := by
    rw [hsessions, h] at h'
    cases h'
    exact hends rfl
  have hended : ended row = ⟨row.messageId, .uncertain⟩ := by
    unfold ended
    rw [if_neg (by rw [hstarted]; nofun), if_pos hstarted]
  cases heffect with
  | unchanged => exact (hsame rfl).elim
  | ingested hcurrent hlikely hnone hingested => exact (hsame hingested.sessions).elim
  | upgraded hlikely hfound hunder hone hdigest hfacts => exact (hsame rfl).elim
  | acknowledged hsession hepoch hfound hearlier =>
    have hfind : ((s.sessions.find fleet).map _) = some session' :=
      (Table.find_update _ _ _ _).symm.trans h'
    rw [h, Option.map_some, Option.some.injEq] at hfind
    subst hfind
    refine (hends ?_).elim
    split <;> rfl
  | started => exact (hsame rfl).elim
  | completed hfind => exact (hsame rfl).elim
  | @installed other install epoch hepoch =>
    rw [install_sessions, Table.find_put] at h'
    by_cases hfleet : fleet = other
    · subst hfleet
      obtain ⟨row', hrow', -, hreplaced⟩ := install_follows install hrow hepoch
      rw [hrow', hreplaced session h rfl rfl, hended]
      rfl
    · rw [if_neg hfleet, h] at h'
      cases h'
      exact (hends rfl).elim
  | @cleared other found hfound =>
    have h' : (s.sessions.put other _).find fleet = some session' := h'
    rw [Table.find_put] at h'
    by_cases hfleet : fleet = other
    · subst hfleet
      cases h.symm.trans hfound
      show (s.listenerSessionEnd fleet session.epoch).acquisitions.find _ = _
      rw [find_ended, hrow, Option.map_some, if_pos ⟨rfl, rfl⟩, hended]
      rfl
    · rw [if_neg hfleet, h] at h'
      cases h'
      exact (hends rfl).elim
  | others => exact (hsame rfl).elim

/-! ## Runs -/

/-- The requests a step hands out for a fleet and an epoch. -/
def handedOut (fleet : String) (epoch : Int) (e : ListenerStore δ × Op × ListenerStore δ) :
    List Int :=
  match e.2.1 with
  | .acquireStart other context messageId =>
    if other = fleet ∧ context.epoch = epoch then
      match e.1.listenerAcquireStart other context messageId with
      | .ok (some ids, _) => ids
      | _ => []
    else []
  | _ => []

theorem handedOut_start {e : ListenerStore δ × Op × ListenerStore δ} {request : Int}
    (h : request ∈ handedOut fleet epoch e) :
    ∃ context messageId, e.2.1 = .acquireStart fleet context messageId ∧ context.epoch = epoch ∧
      e.1.listenerContextCurrent fleet context = .ok true ∧
      (∃ message, e.1.messages.find (fleet, epoch, messageId) = some message ∧
        message.acked = true) ∧
      request ∈ e.1.pendingRequests fleet epoch messageId ∧
      handedOut fleet epoch e = e.1.pendingRequests fleet epoch messageId ∧
      e.1.committed (e.1.listenerAcquireStart fleet context messageId) =
        e.1.startPending fleet epoch messageId := by
  obtain ⟨s, op, t⟩ := e
  cases op with
  | acquireStart other context messageId =>
    simp only [handedOut] at h
    by_cases hkey : other = fleet ∧ context.epoch = epoch
    · obtain ⟨rfl, rfl⟩ := hkey
      simp only [and_self, if_true] at h
      cases hresult : s.listenerAcquireStart other context messageId with
      | error e =>
        simp only [hresult] at h
        cases h
      | ok result =>
        obtain ⟨answer, u⟩ := result
        cases answer with
        | none =>
          simp only [hresult] at h
          cases h
        | some ids =>
          simp only [hresult] at h
          rcases listenerAcquireStart_ok hresult with ⟨hnone, -⟩ | ⟨hcurrent, hacked, hids, rfl⟩
          · cases hnone
          · cases hids
            refine ⟨context, messageId, rfl, rfl, hcurrent, hacked, h, ?_, ?_⟩
            · simp only [handedOut, and_self, if_true, hresult]
            · simp only [hresult, committed]
    · rw [if_neg hkey] at h
      cases h
  | ingest | acknowledge | acquireComplete | install | clear | others => cases h

/-- The acquisition was handed out, or will never be. -/
def Taken (fleet : String) (epoch request : Int) (s : ListenerStore δ) : Prop :=
  ∃ row, s.acquisitions.find (fleet, epoch, request) = some row ∧ row.state ≠ .pending

theorem Effect.taken {request : Int} (heffect : Effect E s op t) (h : Taken fleet epoch request s) :
    Taken fleet epoch request t := by
  obtain ⟨row, hrow, hstate⟩ := h
  obtain ⟨row', hrow', -, hkept | hmoved⟩ := heffect.follows hrow
  · exact ⟨row', hrow', hkept ▸ hstate⟩
  · exact ⟨row', hrow', hmoved.ne_pending⟩

theorem handedOut_taken [DecidableEq δ] (hstep : Step E s op t) :
    (handedOut fleet epoch (s, op, t)).Nodup ∧ ∀ request ∈ handedOut fleet epoch (s, op, t),
      ¬ Taken fleet epoch request s ∧ Taken fleet epoch request t := by
  constructor
  · cases hitems : handedOut fleet epoch (s, op, t) with
    | nil => exact List.nodup_nil
    | cons request rest =>
      have hmem : request ∈ handedOut fleet epoch (s, op, t) := hitems ▸ List.mem_cons_self
      obtain ⟨context, messageId, -, -, -, -, -, hpending, -⟩ := handedOut_start hmem
      rw [← hitems, hpending]
      exact nodup_pendingRequests epoch
  · intro request hmem
    obtain ⟨context, messageId, hop, -, -, -, hpending, -, hcommitted⟩ := handedOut_start hmem
    obtain ⟨row, hrow, hmessage, hstate⟩ := mem_pendingRequests.mp hpending
    constructor
    · rintro ⟨row', hrow', htaken⟩
      cases hrow.symm.trans hrow'
      exact htaken hstate
    · have ht : t = s.startPending fleet epoch messageId := by
        have hop : op = .acquireStart fleet context messageId := hop
        rw [hstep, hop]
        exact hcommitted
      refine ⟨{ row with state := .acquireStarting }, ?_, nofun⟩
      rw [ht, find_startPending, hrow, Option.map_some, if_pos ⟨rfl, rfl, hmessage, hstate⟩]

/-- What listeners may rely on, whatever they do and however they are interleaved. -/
structure AcquiredOnce (s : ListenerStore δ) (trace : List (ListenerStore δ × Op × ListenerStore δ))
    (t : ListenerStore δ) : Prop where
  /-- No request of an epoch is handed out twice. -/
  once : ∀ fleet epoch, (trace.flatMap (handedOut fleet epoch)).Nodup
  /-- The message that offered it is acknowledged. -/
  acknowledged : ∀ e ∈ trace, ∀ fleet epoch request, request ∈ handedOut fleet epoch e →
    ∃ row message, e.1.acquisitions.find (fleet, epoch, request) = some row ∧
      e.1.messages.find (fleet, epoch, row.messageId) = some message ∧ message.acked = true
  offered : ∀ e ∈ trace, ∀ (key : AcquisitionKey) row, e.1.acquisitions.find key = none →
    e.2.2.acquisitions.find key = some row → ∃ context message now,
      e.2.1 = .ingest key.1 context message now ∧ context.epoch = key.2.1 ∧
        key.2.2 ∈ message.jobAvailable.map (·.runnerRequestId) ∧ row = ⟨message.messageId, .pending⟩
  /-- Only the active session hands out, and its epoch is the latest there was. -/
  current : ∀ e ∈ trace, ∀ fleet epoch request, request ∈ handedOut fleet epoch e →
    ∃ session, e.1.sessions.find fleet = some session ∧ session.epoch = epoch ∧
      session.active = true
  latest : ∀ before e after, trace = before ++ e :: after → ∀ fleet epoch request,
    request ∈ handedOut fleet epoch e → ∀ e' ∈ before, ∀ session,
      e'.1.sessions.find fleet = some session → session.epoch ≤ epoch
  /-- The offering message of an acquisition never changes, nor does a terminal outcome, and what
  was started is never cancelled. -/
  kept : ∀ key row, s.acquisitions.find key = some row →
    ∃ row', t.acquisitions.find key = some row' ∧ row'.messageId = row.messageId ∧
      (row.state.terminal = true → row' = row) ∧
      (row.state ≠ .pending → row'.state = .cancelled → row.state = .cancelled)
  /-- A started acquisition whose session ends is uncertain; a session that replaces the ended one
  reconciles it at once. -/
  ended : ∀ e ∈ trace, ∀ fleet request session session' row,
    e.1.sessions.find fleet = some session → e.2.2.sessions.find fleet = some session' →
      session'.epoch ≠ session.epoch →
      e.1.acquisitions.find (fleet, session.epoch, request) = some row →
      row.state = .acquireStarting →
      e.2.2.acquisitions.find (fleet, session.epoch, request) =
        some ⟨row.messageId, if e.2.1.installs then .reconciledUncertain else .uncertain⟩

/-- A kept acquisition, across a step. -/
def KeepsAcquisitions (s t : ListenerStore δ) : Prop :=
  ∀ key row, s.acquisitions.find key = some row →
    ∃ row', t.acquisitions.find key = some row' ∧ row'.messageId = row.messageId ∧
      (row.state ≠ .pending → row'.state ≠ .pending) ∧
      (row.state.terminal = true → row' = row) ∧
      (row.state ≠ .pending → row'.state = .cancelled → row.state = .cancelled)

theorem KeepsAcquisitions.refl (s : ListenerStore δ) : KeepsAcquisitions s s :=
  fun _ row h => ⟨row, h, rfl, id, fun _ => rfl, fun _ => id⟩

theorem KeepsAcquisitions.trans {u : ListenerStore δ} (h : KeepsAcquisitions s t)
    (h' : KeepsAcquisitions t u) : KeepsAcquisitions s u := by
  intro key row hrow
  obtain ⟨row₁, hrow₁, hmessage₁, hpending₁, hterminal₁, hcancelled₁⟩ := h key row hrow
  obtain ⟨row₂, hrow₂, hmessage₂, hpending₂, hterminal₂, hcancelled₂⟩ := h' key row₁ hrow₁
  refine ⟨row₂, hrow₂, hmessage₂.trans hmessage₁, fun hstate => hpending₂ (hpending₁ hstate),
    ?_, fun hstate hcancelled => hcancelled₁ hstate (hcancelled₂ (hpending₁ hstate) hcancelled)⟩
  intro hterminal
  have heq := hterminal₁ hterminal
  subst heq
  exact hterminal₂ hterminal

theorem Effect.keepsAcquisitions (heffect : Effect E s op t) : KeepsAcquisitions s t := by
  intro key row hrow
  obtain ⟨row', hrow', hmessage, hkept | hmoved⟩ := heffect.follows hrow
  · have heq : row' = row := by
      obtain ⟨m, state⟩ := row
      obtain ⟨m', state'⟩ := row'
      simp only [AcquisitionRow.mk.injEq]
      exact ⟨hmessage, hkept⟩
    subst heq
    exact ⟨row', hrow', rfl, id, fun _ => rfl, fun _ => id⟩
  · refine ⟨row', hrow', hmessage, fun _ => hmoved.ne_pending, ?_, ?_⟩
    · intro hterminal
      rw [hmoved.not_terminal] at hterminal
      cases hterminal
    · intro hstate hcancelled
      rw [hcancelled] at hmoved
      exact absurd hmoved.cancelled_pending hstate

/-- No step takes an epoch back, across a run. -/
theorem run_epoch_le [DecidableEq δ] {trace : List (ListenerStore δ × Op × ListenerStore δ)}
    (h : Run (Step E) s trace t) {session : SessionRow}
    (hsession : s.sessions.find fleet = some session) :
    ∃ session', t.sessions.find fleet = some session' ∧ session.epoch ≤ session'.epoch := by
  refine h.invariant (I := fun u => ∃ session', u.sessions.find fleet = some session' ∧
    session.epoch ≤ session'.epoch) ?_ ⟨session, hsession, le_refl _⟩
  rintro u op v ⟨session₁, hfound, hle⟩ rfl
  obtain ⟨session₂, hfound₂, hle₂⟩ := (perform_effect E u op).epoch_le hfound
  exact ⟨session₂, hfound₂, hle.trans hle₂⟩

/-- **A listener acquires a job at most once.** -/
theorem acquired_at_most_once [DecidableEq δ] (E : Encoding δ) (s t : ListenerStore δ)
    (trace : List (ListenerStore δ × Op × ListenerStore δ)) (h : Run (Step E) s trace t) :
    AcquiredOnce s trace t where
  once fleet epoch := by
    refine (h.nodup_flatMap (I := fun _ => True) (f := fun request u => Taken fleet epoch request u)
      (fun _ _ _ _ _ => trivial) ?_ ?_ trivial).1
    · rintro request u op v - rfl htaken
      exact (perform_effect E u op).taken htaken
    · intro u op v _ hstep
      exact handedOut_taken hstep
  acknowledged e _ fleet epoch request hmem := by
    obtain ⟨context, messageId, -, -, -, ⟨message, hmessage, hacked⟩, hpending, -, -⟩ :=
      handedOut_start hmem
    obtain ⟨row, hrow, rfl, -⟩ := mem_pendingRequests.mp hpending
    exact ⟨row, message, hrow, hmessage, hacked⟩
  offered e he key row hnone hrow := by
    have hstep : e.2.2 = e.1.perform E e.2.1 := h.mem_step he
    rw [hstep] at hrow
    exact (perform_effect E e.1 e.2.1).offered hnone hrow
  current e _ fleet epoch request hmem := by
    obtain ⟨context, messageId, -, rfl, hcurrent, -⟩ := handedOut_start hmem
    exact listenerContextCurrent_true hcurrent
  latest before e after htrace fleet epoch request hmem e' he' session hsession := by
    obtain ⟨context, messageId, -, rfl, hcurrent, -⟩ := handedOut_start hmem
    obtain ⟨session', hsession', hepoch, -⟩ := listenerContextCurrent_true hcurrent
    subst htrace
    obtain ⟨u, hbefore, hrest⟩ := h.of_append
    obtain ⟨first, rest, rfl⟩ := List.append_of_mem he'
    obtain ⟨v, -, hsegment⟩ := hbefore.of_append
    have hfrom := hsegment.start_cons
    have hto := hrest.start_cons
    rw [hfrom] at hsession
    rw [hto] at hsession'
    obtain ⟨last, hlast, hle⟩ := run_epoch_le hsegment hsession
    cases hlast.symm.trans hsession'
    exact hepoch ▸ hle
  kept key row hrow := by
    have hrun : KeepsAcquisitions s t := by
      refine h.relates (I := fun _ => True) .refl (fun _ _ _ => .trans) (fun _ _ _ _ _ => trivial)
        ?_ trivial
      rintro u op v - rfl
      exact (perform_effect E u op).keepsAcquisitions
    obtain ⟨row', hrow', hmessage, -, hterminal, hcancelled⟩ := hrun key row hrow
    exact ⟨row', hrow', hmessage, hterminal, hcancelled⟩
  ended e he fleet request session session' row hsession hsession' hends hrow hstarted := by
    have hstep : e.2.2 = e.1.perform E e.2.1 := h.mem_step he
    rw [hstep] at hsession' ⊢
    exact (perform_effect E e.1 e.2.1).ends hsession hsession' hends hrow hstarted

end ListenerStore

/-! ## A replaced session -/

namespace Sample

def verified : ResolvedAuthContext where
  profileKey := "app"
  revision := 1
  githubHost := "github.com"
  appId := "12"
  accountId := 34
  accountKind := .organization
  login := "org"
  installationId := 56
  target := .organization "org"
  organizationId := some 34
  repositoryId := none
  repositoryOwnerId := none

def guard : FleetRuntimeGuard := ⟨"incarnation", 1, 1⟩

/-- A fleet whose auth context is observed and whose scale set is adopted. -/
def authority : Authority where
  fleets := (∅ : Table _ _).put "fleet"
    { incarnation := "incarnation", desiredRevision := 1, observedRevision := 1, mutationFence := 1
      deletionMarker := false, phase := .ready, tombstone := false }
  handoffs := (∅ : Table _ _).put "fleet"
    { desiredProfileKey := "app", desiredRevision := 1, observedProfileKey := some "app"
      observedRevision := some 1, state := .observed, cleanupOnly := false }
  authRevisions := (∅ : Table _ _).put ("app", 1) { schemaVersion := 2, kind := .githubApp }
  contexts := (∅ : Table _ _).put "fleet"
    { desiredProfileKey := some "app", desiredRevision := some 1, desiredFence := some 1
      desiredContext := some verified, observedProfileKey := some "app"
      observedRevision := some 1, observedContext := some verified, state := .observed }
  contextHistory := (∅ : Table _ _).put ("fleet", "app", 1) verified
  scaleSets := (∅ : Table _ _).put "fleet" { scaleSetId := some 9, adopted := true }

def noJobs : JobStore := ⟨[], [], [], [], 0⟩

/-- A store in which nothing happened yet. -/
def store : ListenerStore PollMessage :=
  ⟨authority, ∅, ∅, ∅, ∅, ∅, ∅, ∅, noJobs, []⟩

def encoding : Encoding PollMessage where
  digest := id
  scopeKey fleet incarnation _ _ := fleet ++ "/" ++ incarnation
  uuid n := toString n

def install (expectedEpoch : Option Int) : SessionInstall :=
  ⟨guard, expectedEpoch, verified, 9, ⟨"session", "https://queue", "token", ⟨1, 0, 0, 0⟩⟩⟩

/-- A message that offers one request. -/
def offer : PollMessage := ⟨1, ⟨1, 0, 0, 0⟩, [⟨5, "job", .empty⟩], [], [], []⟩

def context (epoch : Int) : SessionEffectContext := ⟨guard, verified, epoch⟩

/-- A request is offered, acknowledged and started in the first session. -/
def startOps : List Op :=
  [.install "fleet" (install none), .ingest "fleet" (context 1) offer 10,
    .acknowledge "fleet" (context 1) 1, .acquireStart "fleet" (context 1) 1]

/-- The store after that, and the session of it. -/
def started : ListenerStore PollMessage := startOps.foldl (ListenerStore.perform encoding) store

def replacement : Op := .install "fleet" (install (some 1))

def session (epoch : Int) : SessionRow :=
  ⟨"session", epoch, 9, some "https://queue", some "token", if epoch = 1 then 1 else 0⟩

/-- The session and the acquisition, before and after the replacement. -/
theorem outcome :
    (started.sessions.find "fleet" = some (session 1) ∧
      started.acquisitions.find ("fleet", 1, 5) = some ⟨1, .acquireStarting⟩) ∧
    (started.perform encoding replacement).sessions.find "fleet" = some (session 2) ∧
      (started.perform encoding replacement).acquisitions.find ("fleet", 1, 5) =
        some ⟨1, .reconciledUncertain⟩ := by
  decide +kernel

theorem started_session : started.sessions.find "fleet" = some (session 1) := outcome.1.1

theorem started_acquisition :
    started.acquisitions.find ("fleet", 1, 5) = some ⟨1, .acquireStarting⟩ := outcome.1.2

theorem replaced_session :
    (started.perform encoding replacement).sessions.find "fleet" = some (session 2) := outcome.2.1

theorem replaced_acquisition :
    (started.perform encoding replacement).acquisitions.find ("fleet", 1, 5) =
      some ⟨1, .reconciledUncertain⟩ := outcome.2.2

end Sample

namespace ListenerStore

/-- A started acquisition does not stay uncertain when its session is replaced. -/
theorem replaced_not_uncertain :
    ¬ ∀ (s t : ListenerStore PollMessage) (trace : List (ListenerStore PollMessage × Op ×
        ListenerStore PollMessage)), Run (Step Sample.encoding) s trace t → ∀ e ∈ trace,
      ∀ fleet request session session' row, e.1.sessions.find fleet = some session →
        e.2.2.sessions.find fleet = some session' → session'.epoch ≠ session.epoch →
        e.1.acquisitions.find (fleet, session.epoch, request) = some row →
        row.state = .acquireStarting → ∃ row',
          e.2.2.acquisitions.find (fleet, session.epoch, request) = some row' ∧
            row'.state = .uncertain := by
  intro h
  obtain ⟨row', hrow', hstate⟩ := h _ _ _
    (run_play Sample.store (Sample.startOps ++ [Sample.replacement])) _
    (mem_play_append Sample.store Sample.startOps Sample.replacement) "fleet" 5 _ _ _
    Sample.started_session Sample.replaced_session (by decide) Sample.started_acquisition rfl
  cases Sample.replaced_acquisition.symm.trans hrow'
  cases hstate

/-- The run that replaces the session of a started acquisition. -/
theorem acquired_at_most_once_sample :
    AcquiredOnce Sample.store
      (play (perform Sample.encoding) Sample.store (Sample.startOps ++ [Sample.replacement]))
      ((Sample.startOps ++ [Sample.replacement]).foldl (perform Sample.encoding) Sample.store) :=
  acquired_at_most_once Sample.encoding _ _ _ (run_play _ _)

end ListenerStore

end Listener

end Shaula
