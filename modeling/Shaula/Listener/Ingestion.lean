import Shaula.Listener.Step

/-! # What an ingest does

A message is either new, and everything it says is stored at once, or it is stored already, and at
most its job facts are still missing.
-/

namespace Shaula

open Library Library.Outcome Core Jobs Registry

namespace Listener

namespace ListenerStore

variable {δ : Type} {E : Encoding δ} {s t : ListenerStore δ} {fleet : String}
  {context : SessionEffectContext} {messageId epoch now : Int} {message : PollMessage}

/-! ## The parts of a new message -/

/-- Offered jobs become pending acquisitions, unless the epoch has one for the request already. -/
theorem foldlM_offerJob {offered : List JobMessage}
    (h : offered.foldlM (offerJob fleet epoch messageId) s = .ok t) :
    t = { s with acquisitions := t.acquisitions } ∧
      ∀ key : AcquisitionKey, t.acquisitions.find key = (s.acquisitions.find key).or
        (if key.1 = fleet ∧ key.2.1 = epoch ∧ key.2.2 ∈ offered.map (·.runnerRequestId) then
          some ⟨messageId, .pending⟩ else none) := by
  induction offered generalizing s with
  | nil =>
    cases pure_eq_ok.mp h
    exact ⟨rfl, fun key => by simp⟩
  | cons job rest ih =>
    rw [List.foldlM_cons] at h
    obtain ⟨next, hnext, hrest⟩ := bind_eq_ok.mp h
    unfold offerJob at hnext
    simp only [bind_eq_ok, ensure_eq_ok, pure_eq_ok] at hnext
    obtain ⟨-, -, rfl⟩ := hnext
    obtain ⟨hframe, hfind⟩ := ih hrest
    refine ⟨hframe, ?_⟩
    rintro ⟨f, e, r⟩
    rw [hfind, Table.find_createIfAbsent, Option.or_assoc]
    congr 1
    simp only [Prod.mk.injEq, List.map_cons, List.mem_cons]
    by_cases hkey : f = fleet ∧ e = epoch ∧ r = job.runnerRequestId
    · obtain ⟨rfl, rfl, rfl⟩ := hkey
      simp
    · rw [if_neg hkey, Option.none_or]
      congr 1
      rw [eq_iff_iff]
      constructor
      · rintro ⟨hf, he, hr⟩
        exact ⟨hf, he, .inr hr⟩
      · rintro ⟨hf, he, hr | hr⟩
        · exact absurd ⟨hf, he, hr⟩ hkey
        · exact ⟨hf, he, hr⟩

theorem foldlM_observeJob {observed : List (ObservationKind × Int × ObservedJob)}
    (h : observed.foldlM (observeJob fleet epoch messageId) s = .ok t) :
    t = { s with observations := t.observations } := by
  have hframe : ∀ (u : ListenerStore δ) (o : ObservationKind × Int × ObservedJob) (v : ListenerStore δ),
      u = { s with observations := u.observations } → observeJob fleet epoch messageId u o = .ok v →
        v = { s with observations := v.observations } := by
    intro u o v hu hstep
    obtain ⟨kind, request, job⟩ := o
    unfold observeJob at hstep
    simp only [bind_eq_ok, ensure_eq_ok] at hstep
    obtain ⟨-, -, hstep⟩ := hstep
    split at hstep
    · exact pure_eq_ok.mp hstep ▸ hu
    · cases pure_eq_ok.mp hstep
      rw [hu]
  exact foldlM_invariant hframe h rfl

theorem listenerActivity_eq : s.listenerActivity fleet message =
    { s with activity := (s.listenerActivity fleet message).activity } := by
  have hfold : ∀ (events : List (Int × String × GenerationState × List GenerationState))
      (u : ListenerStore δ), events.foldl (moveRunner fleet) u =
        { u with activity := (events.foldl (moveRunner fleet) u).activity } := by
    intro events
    induction events with
    | nil => exact fun u => rfl
    | cons event rest ih =>
      intro u
      obtain ⟨runnerId, runnerName, next, origins⟩ := event
      rw [List.foldl_cons, ih]
      by_cases hnone : runnerId ≤ 0
      · simp only [moveRunner, if_pos hnone]
      · simp only [moveRunner, if_neg hnone]
  exact hfold _ s

theorem jobsIngestTx_ok (h : s.jobsIngestTx E fleet context message now = .ok t) :
    ∃ scope, s.observedScope E fleet context = some scope ∧
      s.jobs.jobsIngest E.uuid { fleet, scope, epoch := context.epoch, now } message = .ok t.jobs ∧
      t = { s with jobs := t.jobs } := by
  unfold jobsIngestTx at h
  simp only [bind_eq_ok, okOr_eq_ok, pure_eq_ok] at h
  obtain ⟨scope, hscope, jobs, hjobs, rfl⟩ := h
  exact ⟨scope, hscope, hjobs, rfl⟩

/-! ## Outcomes -/

/-- The job facts of a message were stored, once more. -/
def StoresFacts (E : Encoding δ) (s : ListenerStore δ) (fleet : String)
    (context : SessionEffectContext) (message : PollMessage) (now : Int) (jobs : JobStore) : Prop :=
  ∃ scope, s.observedScope E fleet context = some scope ∧
    s.jobs.jobsIngest E.uuid { fleet, scope, epoch := context.epoch, now } message = .ok jobs

/-- What the delivery of a new message did. -/
structure Ingested (E : Encoding δ) (s : ListenerStore δ) (fleet : String)
    (context : SessionEffectContext) (message : PollMessage) (now : Int)
    (answer : Option IngestedMessage) (t : ListenerStore δ) : Prop where
  later : ∀ entry ∈ s.messages.rows, entry.1.1 = fleet → entry.1.2.1 = context.epoch →
    entry.1.2.2 < message.messageId
  messages : t.messages =
    s.messages.put (fleet, context.epoch, message.messageId) (newMessage E context message)
  sessions : t.sessions = s.sessions
  acquisitions : ∀ key : AcquisitionKey, t.acquisitions.find key = (s.acquisitions.find key).or
    (if key.1 = fleet ∧ key.2.1 = context.epoch ∧
        key.2.2 ∈ message.jobAvailable.map (·.runnerRequestId) then
      some ⟨message.messageId, .pending⟩ else none)
  facts : StoresFacts E s fleet context message now t.jobs
  answer : answer = some (t.listenerMessageView fleet context.epoch message.messageId
    (newMessage E context message))

variable {answer : Option IngestedMessage}

theorem ingestNew_ok (h : s.ingestNew E fleet context message now = .ok (answer, t)) :
    Ingested E s fleet context message now answer t := by
  unfold ingestNew listenerObservations at h
  simp only [bind_eq_ok, ensure_eq_ok, pure_eq_ok, Prod.mk.injEq] at h
  obtain ⟨-, hlater, u₂, ⟨u₁, hoffer, hobserve⟩, u₃, hfacts, hanswer, rfl⟩ := h
  obtain ⟨hu₁, hacquisitions⟩ := foldlM_offerJob hoffer
  have hu₂ := foldlM_observeJob hobserve
  rw [listenerActivity_eq] at hfacts
  obtain ⟨scope, hscope, hjobs, hu₃⟩ := jobsIngestTx_ok hfacts
  have hjobs₁ : u₁.jobs = s.jobs := by rw [hu₁]
  have hsessions₁ : u₁.sessions = s.sessions := by rw [hu₁]
  have hjobs₂ : u₂.jobs = s.jobs := by rw [hu₂, hjobs₁]
  have hsessions₂ : u₂.sessions = s.sessions := by rw [hu₂, hsessions₁]
  constructor
  · exact hlater
  · rw [hu₃]
    show u₂.messages = _
    rw [hu₂]
    show u₁.messages = _
    rw [hu₁]
  · rw [hu₃]
    exact hsessions₂
  · intro key
    rw [hu₃]
    show u₂.acquisitions.find key = _
    rw [hu₂]
    exact hacquisitions key
  · refine ⟨scope, ?_, ?_⟩
    · unfold observedScope at hscope ⊢
      rw [← hsessions₂]
      exact hscope
    · rw [← hjobs₂]
      exact hjobs
  · exact hanswer.symm

/-- What the delivery of a stored message did. -/
inductive Redelivered (E : Encoding δ) (s : ListenerStore δ) (fleet : String)
    (context : SessionEffectContext) (message : PollMessage) (now : Int) (row : MessageRow δ) :
    ListenerStore δ → Prop
  /-- Its contents are known. -/
  | known : row.payloadDigestVersion = 2 → row.payloadDigest = E.digest message →
      Redelivered E s fleet context message now row s
  /-- Its digest is of the first format; its job facts are stored now. -/
  | upgraded {jobs : JobStore} : row.payloadDigestVersion = 1 →
      row.payloadDigest = E.legacy message → StoresFacts E s fleet context message now jobs →
      Redelivered E s fleet context message now row
        (({ s with jobs } : ListenerStore δ).upgradeDigest fleet context.epoch message.messageId
          (E.digest message))

theorem redeliver_ok [DecidableEq δ] {row : MessageRow δ}
    (h : s.redeliver E fleet context message now row = .ok (answer, t)) :
    answer = some (s.listenerMessageView fleet context.epoch message.messageId row) ∧
      Redelivered E s fleet context message now row t := by
  unfold redeliver at h
  simp only [bind_eq_ok, ensure_eq_ok] at h
  obtain ⟨expected, hexpected, -, hdigest, h⟩ := h
  unfold expectedDigest at hexpected
  by_cases hone : row.payloadDigestVersion = 1
  · rw [if_pos hone, Except.ok.injEq] at hexpected
    simp only [if_pos hone, bind_eq_ok, pure_eq_ok, Prod.mk.injEq] at h
    obtain ⟨u, hu, hanswer, rfl⟩ := h
    obtain ⟨scope, hscope, hjobs, hu⟩ := jobsIngestTx_ok hu
    have hfacts : StoresFacts E s fleet context message now u.jobs := ⟨scope, hscope, hjobs⟩
    rw [hu] at hanswer ⊢
    exact ⟨hanswer.symm, .upgraded hone (hdigest.trans hexpected.symm) hfacts⟩
  · simp only [if_neg hone, pure_eq_ok, Prod.mk.injEq] at h
    obtain ⟨hanswer, rfl⟩ := h
    rw [if_neg hone] at hexpected
    by_cases htwo : row.payloadDigestVersion = 2
    · rw [if_pos htwo, Except.ok.injEq] at hexpected
      exact ⟨hanswer.symm, .known htwo (hdigest.trans hexpected.symm)⟩
    · rw [if_neg htwo] at hexpected
      cases hexpected

/-- The id and the statistics an ingest requires. -/
def Plausible (message : PollMessage) : Prop :=
  0 < message.messageId ∧ 0 ≤ message.statistics.totalAssignedJobs

/-- A delivery of a stale listener does nothing; another one is of a stored message or a new one. -/
theorem listenerIngest_ok [DecidableEq δ]
    (h : s.listenerIngest E fleet context message now = .ok (answer, t)) :
    (answer = none ∧ t = s ∧ s.listenerContextCurrent fleet context = .ok false) ∨
      (s.listenerContextCurrent fleet context = .ok true ∧ Plausible message ∧
        ((∃ row, s.messages.find (fleet, context.epoch, message.messageId) = some row ∧
            MessageRow.Under row context ∧
            answer = some (s.listenerMessageView fleet context.epoch message.messageId row) ∧
            Redelivered E s fleet context message now row t) ∨
          (s.messages.find (fleet, context.epoch, message.messageId) = none ∧
            Ingested E s fleet context message now answer t))) := by
  unfold listenerIngest at h
  simp only [bind_eq_ok] at h
  obtain ⟨current, hcurrent, h⟩ := h
  cases current with
  | false =>
    simp only [Bool.false_eq_true, not_false_eq_true, if_true, pure_eq_ok, Prod.mk.injEq] at h
    exact .inl ⟨h.1.symm, h.2.symm, hcurrent⟩
  | true =>
    simp only [not_true_eq_false, if_false, bind_eq_ok, ensure_eq_ok, not_or, not_le, not_lt] at h
    obtain ⟨-, hlikely, found, hfound, h⟩ := h
    refine .inr ⟨hcurrent, hlikely, ?_⟩
    cases found with
    | some row =>
      obtain ⟨hanswer, hredelivered⟩ := redeliver_ok h
      obtain ⟨hrow, hunder⟩ := listenerMessage_some.mp hfound
      exact .inl ⟨row, hrow, hunder, hanswer, hredelivered⟩
    | none => exact .inr ⟨listenerMessage_none.mp hfound, ingestNew_ok h⟩

/-! ## Effects of a step -/

/-- What a step did to the store. -/
inductive Effect (E : Encoding δ) (s : ListenerStore δ) : Op → ListenerStore δ → Prop
  /-- It failed, was stale, or found everything done. -/
  | unchanged {op : Op} : Effect E s op s
  | ingested {fleet : String} {context : SessionEffectContext} {message : PollMessage} {now : Int}
      {answer : Option IngestedMessage} {t : ListenerStore δ} :
      s.listenerContextCurrent fleet context = .ok true → Plausible message →
      s.messages.find (fleet, context.epoch, message.messageId) = none →
      Ingested E s fleet context message now answer t →
      Effect E s (.ingest fleet context message now) t
  | upgraded {fleet : String} {context : SessionEffectContext} {message : PollMessage} {now : Int}
      {row : MessageRow δ} {jobs : JobStore} :
      Plausible message → s.messages.find (fleet, context.epoch, message.messageId) = some row →
      MessageRow.Under row context → row.payloadDigestVersion = 1 →
      row.payloadDigest = E.legacy message → StoresFacts E s fleet context message now jobs →
      Effect E s (.ingest fleet context message now)
        (({ s with jobs } : ListenerStore δ).upgradeDigest fleet context.epoch message.messageId
          (E.digest message))
  | acknowledged {fleet : String} {context : SessionEffectContext} {messageId : Int}
      {session : SessionRow} {row : MessageRow δ} :
      s.sessions.find fleet = some session → session.epoch = context.epoch →
      s.messages.find (fleet, context.epoch, messageId) = some row →
      (∀ entry ∈ s.messages.rows, entry.1.1 = fleet → entry.1.2.1 = context.epoch →
        entry.1.2.2 < messageId → entry.2.acked = true) →
      Effect E s (.acknowledge fleet context messageId)
        (s.markAcked fleet context.epoch messageId)
  | started {fleet : String} {context : SessionEffectContext} {messageId : Int} :
      Effect E s (.acquireStart fleet context messageId)
        (s.startPending fleet context.epoch messageId)
  | completed {fleet : String} {context : SessionEffectContext} {messageId : Int}
      {accepted : Option (List Int)} {acquisitions : Table AcquisitionKey AcquisitionRow} :
      (∀ key : AcquisitionKey, acquisitions.find key = (s.acquisitions.find key).map fun row =>
        if key.1 = fleet ∧ key.2.1 = context.epoch ∧ row.messageId = messageId ∧
            (row.state = .acquireStarting ∨ row.state = .uncertain) then
          { row with state := settled accepted key.2.2 }
        else row) →
      Effect E s (.acquireComplete fleet context messageId accepted) { s with acquisitions }
  | installed {fleet : String} {install : SessionInstall} {epoch : Int} :
      epoch = ((s.sessions.find fleet).map (·.epoch)).getD 0 + 1 →
      Effect E s (.install fleet install)
        (((s.endPrevious fleet (s.sessions.find fleet)).publishSession fleet install
          epoch).listenerReconcileOld fleet epoch)
  | cleared {fleet : String} {session : SessionRow} :
      s.sessions.find fleet = some session →
      Effect E s (.clear fleet session.epoch)
        ((s.listenerSessionEnd fleet session.epoch).retireSession fleet session (session.epoch + 1))
  | others {authority : Authority} {activity : Table String ActivityRow} {jobs : JobStore}
      {demand : Table String Int} {outbox : List (String × Int)} :
      Effect E s (.others authority activity jobs demand outbox)
        { s with authority, activity, jobs, demand, outbox }

/-- Every step has an effect of its kind. -/
theorem perform_effect [DecidableEq δ] (E : Encoding δ) (s : ListenerStore δ) (op : Op) :
    Effect E s op (s.perform E op) := by
  cases op with
  | ingest fleet context message now =>
    refine committed_of .unchanged ?_
    intro answer t hok
    rcases listenerIngest_ok hok with ⟨-, rfl, -⟩ |
      ⟨hcurrent, hlikely, ⟨row, hrow, hunder, -, hredelivered⟩ | ⟨hnone, hingested⟩⟩
    · exact .unchanged
    · cases hredelivered with
      | known => exact .unchanged
      | upgraded hone hdigest hfacts => exact .upgraded hlikely hrow hunder hone hdigest hfacts
    · exact .ingested hcurrent hlikely hnone hingested
  | acknowledge fleet context messageId =>
    refine committed_of .unchanged ?_
    intro answer t hok
    rcases listenerAcknowledge_ok hok with rfl | ⟨hcurrent, ⟨row, hrow⟩, hearlier, rfl⟩
    · exact .unchanged
    · obtain ⟨session, hsession, hepoch, -⟩ := listenerContextCurrent_true hcurrent
      exact .acknowledged hsession hepoch hrow hearlier
  | acquireStart fleet context messageId =>
    refine committed_of .unchanged ?_
    intro answer t hok
    rcases listenerAcquireStart_ok hok with ⟨-, rfl⟩ | ⟨-, -, -, rfl⟩
    · exact .unchanged
    · exact .started
  | acquireComplete fleet context messageId accepted =>
    refine committed_of .unchanged ?_
    intro answer t hok
    obtain ⟨hframe, hfind⟩ := listenerAcquireComplete_ok hok
    rw [hframe]
    exact .completed hfind
  | install fleet install =>
    refine committed_of .unchanged ?_
    intro answer t hok
    rcases sessionInstall_ok hok with rfl | ⟨epoch, hepoch, rfl⟩
    · exact .unchanged
    · exact .installed hepoch
  | clear fleet expectedEpoch =>
    refine committed_of .unchanged ?_
    intro answer t hok
    rcases sessionClear_ok hok with rfl | ⟨session, hsession, rfl, rfl⟩
    · exact .unchanged
    · exact .cleared hsession
  | others authority activity jobs demand outbox => exact .others

end ListenerStore

end Listener

end Shaula
