import Shaula.Library.Run
import Shaula.Listener.Acquisitions

/-! # Steps of listeners

Listeners of any fleets and sessions share the store.  Each of their transactions is one step; one
that fails, or a crash inside it, leaves the store as it was.  What other components write happens
between the steps.  Each operation has one lemma saying what a success did.
-/

namespace Shaula

open Library Library.Outcome Core Jobs Registry

namespace Listener

inductive Op where
  | ingest (fleet : String) (context : SessionEffectContext) (message : PollMessage) (now : Int)
  | acknowledge (fleet : String) (context : SessionEffectContext) (messageId : Int)
  | acquireStart (fleet : String) (context : SessionEffectContext) (messageId : Int)
  | acquireComplete (fleet : String) (context : SessionEffectContext) (messageId : Int)
    (accepted : Option (List Int))
  | install (fleet : String) (install : SessionInstall)
  | clear (fleet : String) (expectedEpoch : Int)
  /-- Fleet heads, auth contexts, generations, jobs, demand and the outbox as others leave them. -/
  | others (authority : Authority) (activity : Table String ActivityRow) (jobs : JobStore)
    (demand : Table String Int) (outbox : List (String × Int))

namespace ListenerStore

variable {δ : Type}

/-- The store after a transaction: a failed one is rolled back. -/
def committed {α : Type} (s : ListenerStore δ) (outcome : StoreResult (α × ListenerStore δ)) :
    ListenerStore δ :=
  match outcome with
  | .ok (_, t) => t
  | .error _ => s

/-- The step of an operation. -/
def perform [DecidableEq δ] (E : Encoding δ) (s : ListenerStore δ) : Op → ListenerStore δ
  | .ingest fleet context message now => s.committed (s.listenerIngest E fleet context message now)
  | .acknowledge fleet context messageId =>
    s.committed (s.listenerAcknowledge fleet context messageId)
  | .acquireStart fleet context messageId =>
    s.committed (s.listenerAcquireStart fleet context messageId)
  | .acquireComplete fleet context messageId accepted =>
    s.committed (s.listenerAcquireComplete fleet context messageId accepted)
  | .install fleet install => s.committed (s.sessionInstall fleet install)
  | .clear fleet expectedEpoch => s.committed (s.sessionClear fleet expectedEpoch)
  | .others authority activity jobs demand outbox =>
    { s with authority, activity, jobs, demand, outbox }

def Step [DecidableEq δ] (E : Encoding δ) (s : ListenerStore δ) (op : Op) (t : ListenerStore δ) :
    Prop :=
  t = s.perform E op

variable {E : Encoding δ} {s t : ListenerStore δ} {fleet : String} {context : SessionEffectContext}
  {messageId : Int}

/-- What holds of the store, and of the store after any success, holds after the transaction. -/
theorem committed_of {α : Type} {P : ListenerStore δ → Prop}
    {outcome : StoreResult (α × ListenerStore δ)} (hs : P s)
    (hok : ∀ a t, outcome = .ok (a, t) → P t) : P (s.committed outcome) := by
  unfold committed
  cases outcome with
  | error e => exact hs
  | ok answer => exact hok answer.1 answer.2 rfl

/-! ## Authority -/

/-- Only a listener of the active session of its epoch is current. -/
theorem listenerContextCurrent_true (h : s.listenerContextCurrent fleet context = .ok true) :
    ∃ session, s.sessions.find fleet = some session ∧ session.epoch = context.epoch ∧
      session.active = true := by
  unfold listenerContextCurrent sessionGuard at h
  simp only [bind_eq_ok] at h
  obtain ⟨current, -, h⟩ := h
  cases current with
  | false => simp at h
  | true =>
    simp only [not_true_eq_false, if_false] at h
    cases hsession : s.sessions.find fleet with
    | none => simp [hsession] at h
    | some session =>
      simp only [hsession] at h
      by_cases hstale : session.epoch ≠ context.epoch ∨ ¬ session.active = true
      · rw [if_pos hstale] at h
        simp at h
      · have hepoch : session.epoch = context.epoch := by
          by_contra hne
          exact hstale (.inl hne)
        have hactive : session.active = true := by
          by_contra hinactive
          exact hstale (.inr hinactive)
        exact ⟨session, rfl, hepoch, hactive⟩

/-- The row was ingested under this authority. -/
def MessageRow.Under (row : MessageRow δ) (context : SessionEffectContext) : Prop :=
  row.incarnation = context.guard.incarnation ∧
    row.fleetRevision = context.guard.desiredRevision ∧
    row.mutationFence = context.guard.mutationFence ∧ row.context = context.authContext

theorem listenerMessage_some {row : MessageRow δ} :
    s.listenerMessage fleet context messageId = .ok (some row) ↔
      s.messages.find (fleet, context.epoch, messageId) = some row ∧ MessageRow.Under row context := by
  unfold listenerMessage
  cases hfind : s.messages.find (fleet, context.epoch, messageId) with
  | none => simp
  | some found =>
    simp only [ne_eq, Option.some.injEq]
    by_cases hunder : MessageRow.Under found context
    · obtain ⟨hincarnation, hrevision, hfence, hcontext⟩ := hunder
      rw [if_neg (by simp [hincarnation, hrevision, hfence, hcontext])]
      constructor
      · rintro heq
        cases heq
        exact ⟨rfl, hincarnation, hrevision, hfence, hcontext⟩
      · rintro ⟨rfl, -⟩
        rfl
    · rw [if_pos (by unfold MessageRow.Under at hunder; tauto)]
      constructor
      · nofun
      · rintro ⟨rfl, hrow⟩
        exact absurd hrow hunder

theorem listenerMessage_none :
    s.listenerMessage fleet context messageId = .ok none ↔
      s.messages.find (fleet, context.epoch, messageId) = none := by
  unfold listenerMessage
  cases hfind : s.messages.find (fleet, context.epoch, messageId) with
  | none => simp
  | some found =>
    simp only
    split <;> simp

/-! ## Pending requests -/

theorem mem_pendingRequests {epoch request : Int} :
    request ∈ s.pendingRequests fleet epoch messageId ↔ ∃ row,
      s.acquisitions.find (fleet, epoch, request) = some row ∧ row.messageId = messageId ∧
        row.state = .pending := by
  unfold pendingRequests
  rw [List.mem_insertionSort, List.mem_map]
  constructor
  · rintro ⟨⟨⟨f, e, r⟩, row⟩, hmem, rfl⟩
    rw [List.mem_filter] at hmem
    obtain ⟨hrow, hkey⟩ := hmem
    simp only [decide_eq_true_eq] at hkey
    obtain ⟨rfl, rfl, hmessage, hstate⟩ := hkey
    exact ⟨row, Table.mem_rows.mp hrow, hmessage, hstate⟩
  · rintro ⟨row, hrow, hmessage, hstate⟩
    refine ⟨((fleet, epoch, request), row), ?_, rfl⟩
    rw [List.mem_filter]
    exact ⟨Table.mem_rows.mpr hrow, by simp [hmessage, hstate]⟩

theorem nodup_pendingRequests (epoch : Int) :
    (s.pendingRequests fleet epoch messageId).Nodup := by
  unfold pendingRequests
  rw [(List.perm_insertionSort _ _).nodup_iff]
  refine List.Nodup.map_on ?_ (s.acquisitions.nodup_rows.filter _)
  rintro ⟨⟨f, e, r⟩, row⟩ hmem ⟨⟨f', e', r'⟩, row'⟩ hmem' hrequest
  obtain ⟨hrow, hkey⟩ := List.mem_filter.mp hmem
  obtain ⟨hrow', hkey'⟩ := List.mem_filter.mp hmem'
  simp only [decide_eq_true_eq] at hkey hkey' hrequest
  obtain ⟨rfl, rfl, -⟩ := hkey
  obtain ⟨rfl, rfl, -⟩ := hkey'
  subst hrequest
  have hsame := (Table.mem_rows.mp hrow).symm.trans (Table.mem_rows.mp hrow')
  rw [Option.some.inj hsame]

/-! ## Operations -/

theorem listenerAcquireStart_ok {answer : Option (List Int)}
    (h : s.listenerAcquireStart fleet context messageId = .ok (answer, t)) :
    (answer = none ∧ t = s) ∨
      (s.listenerContextCurrent fleet context = .ok true ∧
        (∃ row, s.messages.find (fleet, context.epoch, messageId) = some row ∧ row.acked = true) ∧
        answer = some (s.pendingRequests fleet context.epoch messageId) ∧
        t = s.startPending fleet context.epoch messageId) := by
  unfold listenerAcquireStart at h
  simp only [bind_eq_ok] at h
  obtain ⟨current, hcurrent, h⟩ := h
  cases current with
  | false =>
    simp only [Bool.false_eq_true, not_false_eq_true, if_true, pure_eq_ok, Prod.mk.injEq] at h
    exact .inl ⟨h.1.symm, h.2.symm⟩
  | true =>
    simp only [not_true_eq_false, if_false, bind_eq_ok] at h
    obtain ⟨found, hfound, h⟩ := h
    cases found with
    | none => cases h
    | some row =>
      simp only [bind_eq_ok, ensure_eq_ok, pure_eq_ok, Prod.mk.injEq] at h
      obtain ⟨-, hacked, hanswer, ht⟩ := h
      exact .inr ⟨hcurrent, ⟨row, (listenerMessage_some.mp hfound).1, hacked⟩, hanswer.symm, ht.symm⟩

/-- The requests of a message, with their states. -/
def requestsOf (s : ListenerStore δ) (fleet : String) (epoch messageId : Int) :
    List (Int × AcquisitionState) :=
  (s.acquisitions.rows.filter fun (key, row) => key.1 = fleet ∧
    key.2.1 = epoch ∧ row.messageId = messageId).map fun (key, row) => (key.2.2, row.state)

theorem mem_requestsOf {epoch : Int} {request : Int × AcquisitionState} :
    request ∈ s.requestsOf fleet epoch messageId ↔
      s.acquisitions.find (fleet, epoch, request.1) = some ⟨messageId, request.2⟩ := by
  obtain ⟨id, state⟩ := request
  unfold requestsOf
  rw [List.mem_map]
  constructor
  · rintro ⟨⟨⟨f, e, r⟩, row⟩, hmem, hrequest⟩
    obtain ⟨hrow, hkey⟩ := List.mem_filter.mp hmem
    simp only [decide_eq_true_eq] at hkey
    obtain ⟨rfl, rfl, rfl⟩ := hkey
    cases hrequest
    exact Table.mem_rows.mp hrow
  · intro hrow
    exact ⟨((fleet, epoch, id), ⟨messageId, state⟩),
      List.mem_filter.mpr ⟨Table.mem_rows.mpr hrow, by simp⟩, rfl⟩

theorem foldl_completeAcquisition (epoch : Int) (accepted : Option (List Int))
    (requests : List (Int × AcquisitionState)) (s : ListenerStore δ) (key : AcquisitionKey) :
    (requests.foldl (completeAcquisition fleet epoch accepted) s).acquisitions.find key =
      (s.acquisitions.find key).map fun row =>
        if key.1 = fleet ∧ key.2.1 = epoch ∧ ∃ request ∈ requests, request.1 = key.2.2 ∧
            (request.2 = .acquireStarting ∨ request.2 = .uncertain) then
          { row with state := settled accepted key.2.2 }
        else row := by
  induction requests generalizing s with
  | nil => simp
  | cons request rest ih =>
    rw [List.foldl_cons, ih]
    obtain ⟨f, e, r⟩ := key
    unfold completeAcquisition
    by_cases hopen : request.2 = .acquireStarting ∨ request.2 = .uncertain
    · rw [if_pos hopen, Table.find_update, Option.map_map]
      congr 1
      funext row
      simp only [Function.comp_apply, Prod.mk.injEq, decide_eq_true_eq, List.mem_cons,
        exists_eq_or_imp, hopen, and_true]
      by_cases hkey : f = fleet ∧ e = epoch ∧ r = request.1
      · obtain ⟨rfl, rfl, rfl⟩ := hkey
        simp
      · rw [if_neg hkey]
        congr 1
        rw [eq_iff_iff]
        constructor
        · rintro ⟨hf, he, hrest⟩
          exact ⟨hf, he, .inr hrest⟩
        · rintro ⟨hf, he, hr | hrest⟩
          · exact absurd ⟨hf, he, hr.symm⟩ hkey
          · exact ⟨hf, he, hrest⟩
    · rw [if_neg hopen]
      simp only [List.mem_cons, exists_eq_or_imp, hopen, and_false, false_or]

/-- Completing acquisitions writes nothing else. -/
theorem foldl_completeAcquisition_eq (epoch : Int) (accepted : Option (List Int))
    (requests : List (Int × AcquisitionState)) (s : ListenerStore δ) :
    requests.foldl (completeAcquisition fleet epoch accepted) s =
      { s with acquisitions :=
          (requests.foldl (completeAcquisition fleet epoch accepted) s).acquisitions } := by
  induction requests generalizing s with
  | nil => rfl
  | cons request rest ih =>
    rw [List.foldl_cons, ih]
    unfold completeAcquisition
    split <;> rfl

theorem listenerAcquireComplete_ok {accepted : Option (List Int)} {answer : StoreResult Bool}
    (h : s.listenerAcquireComplete fleet context messageId accepted = .ok (answer, t)) :
    t = { s with acquisitions := t.acquisitions } ∧
      ∀ key : AcquisitionKey, t.acquisitions.find key = (s.acquisitions.find key).map fun row =>
        if key.1 = fleet ∧ key.2.1 = context.epoch ∧ row.messageId = messageId ∧
            (row.state = .acquireStarting ∨ row.state = .uncertain) then
          { row with state := settled accepted key.2.2 }
        else row := by
  unfold listenerAcquireComplete at h
  simp only [bind_eq_ok] at h
  obtain ⟨found, -, h⟩ := h
  cases found with
  | none => cases h
  | some row =>
    simp only [bind_eq_ok, ensure_eq_ok, pure_eq_ok, Prod.mk.injEq] at h
    obtain ⟨-, -, -, ht⟩ := h
    have ht : t = (s.requestsOf fleet context.epoch messageId).foldl
        (completeAcquisition fleet context.epoch accepted) s := ht.symm
    constructor
    · rw [ht]
      exact foldl_completeAcquisition_eq _ _ _ _
    · rintro ⟨f, e, r⟩
      rw [ht, foldl_completeAcquisition]
      cases hrow : s.acquisitions.find (f, e, r) with
      | none => rfl
      | some row =>
        simp only [Option.map_some, Option.some.injEq]
        congr 1
        rw [eq_iff_iff]
        constructor
        · rintro ⟨rfl, rfl, request, hmem, rfl, hopen⟩
          cases hrow.symm.trans (mem_requestsOf.mp hmem)
          exact ⟨rfl, rfl, rfl, hopen⟩
        · rintro ⟨rfl, rfl, rfl, hopen⟩
          exact ⟨rfl, rfl, (r, row.state), mem_requestsOf.mpr hrow, rfl, hopen⟩

theorem sessionInstall_ok {install : SessionInstall} {answer : Option Int}
    (h : s.sessionInstall fleet install = .ok (answer, t)) :
    t = s ∨ ∃ epoch, epoch = ((s.sessions.find fleet).map (·.epoch)).getD 0 + 1 ∧
      t = ((s.endPrevious fleet (s.sessions.find fleet)).publishSession fleet install
        epoch).listenerReconcileOld fleet epoch := by
  unfold sessionInstall at h
  simp only [bind_eq_ok, ensure_eq_ok] at h
  obtain ⟨-, -, current, -, h⟩ := h
  cases current with
  | false =>
    simp only [Bool.false_eq_true, not_false_eq_true, if_true, pure_eq_ok, Prod.mk.injEq] at h
    exact .inl h.2.symm
  | true =>
    simp only [not_true_eq_false, if_false] at h
    by_cases hown : s.authority.ownsScaleSet fleet install.scaleSetId = true
    · rw [if_neg (not_not_intro hown)] at h
      by_cases hepoch : (s.sessions.find fleet).map (·.epoch) ≠ install.expectedEpoch
      · rw [if_pos hepoch] at h
        simp only [pure_eq_ok, Prod.mk.injEq] at h
        exact .inl h.2.symm
      · rw [if_neg hepoch] at h
        simp only [bind_eq_ok, okOr_eq_ok, pure_eq_ok, Prod.mk.injEq] at h
        obtain ⟨epoch, hnext, -, ht⟩ := h
        exact .inr ⟨epoch, checkedAdd_eq_some hnext, ht.symm⟩
    · rw [if_pos hown] at h
      simp only [pure_eq_ok, Prod.mk.injEq] at h
      exact .inl h.2.symm

theorem sessionClear_ok {expectedEpoch : Int} {answer : Bool}
    (h : s.sessionClear fleet expectedEpoch = .ok (answer, t)) :
    t = s ∨ ∃ row, s.sessions.find fleet = some row ∧ row.epoch = expectedEpoch ∧
      t = (s.listenerSessionEnd fleet expectedEpoch).retireSession fleet row (row.epoch + 1) := by
  unfold sessionClear at h
  cases hrow : s.sessions.find fleet with
  | none =>
    simp only [hrow, Except.ok.injEq, Prod.mk.injEq] at h
    exact .inl h.2.symm
  | some row =>
    simp only [hrow] at h
    by_cases hepoch : row.epoch ≠ expectedEpoch
    · simp only [if_pos hepoch, Except.ok.injEq, Prod.mk.injEq] at h
      exact .inl h.2.symm
    · simp only [if_neg hepoch, bind_eq_ok, okOr_eq_ok, pure_eq_ok, Prod.mk.injEq] at h
      obtain ⟨epoch, hnext, -, ht⟩ := h
      cases checkedAdd_eq_some hnext
      exact .inr ⟨row, rfl, not_not.mp hepoch, ht.symm⟩

theorem listenerAcknowledge_ok {answer : Bool}
    (h : s.listenerAcknowledge fleet context messageId = .ok (answer, t)) :
    t = s ∨
      (s.listenerContextCurrent fleet context = .ok true ∧
        (∃ row, s.messages.find (fleet, context.epoch, messageId) = some row) ∧
        (∀ entry ∈ s.messages.rows, entry.1.1 = fleet → entry.1.2.1 = context.epoch →
          entry.1.2.2 < messageId → entry.2.acked = true) ∧
        t = s.markAcked fleet context.epoch messageId) := by
  unfold listenerAcknowledge at h
  simp only [bind_eq_ok] at h
  obtain ⟨current, hcurrent, h⟩ := h
  cases current with
  | false =>
    simp only [Bool.false_eq_true, not_false_eq_true, if_true, pure_eq_ok, Prod.mk.injEq] at h
    exact .inl h.2.symm
  | true =>
    simp only [not_true_eq_false, if_false, bind_eq_ok] at h
    obtain ⟨found, hfound, h⟩ := h
    cases found with
    | none =>
      simp only [pure_eq_ok, Prod.mk.injEq] at h
      exact .inl h.2.symm
    | some row =>
      simp only [bind_eq_ok, ensure_eq_ok, pure_eq_ok, Prod.mk.injEq] at h
      obtain ⟨-, hearlier, -, ht⟩ := h
      exact .inr ⟨hcurrent, ⟨row, (listenerMessage_some.mp hfound).1⟩, hearlier, ht.symm⟩

end ListenerStore

end Listener

end Shaula
