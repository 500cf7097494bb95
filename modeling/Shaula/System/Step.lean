import Shaula.System.Daemon
import Shaula.Library.Run

/-! # Runs of the lifecycle system

A run serves requests in any order, interrupted by storage failures, restarts and crashes between a
commit and its answer.  Beside the daemon's own state it remembers which credentials were drawn and
which state capabilities were handed out: callers cannot present a credential that nobody handed to
them, and two drawn credentials have different verifiers.
-/

namespace Shaula

open Core Library Library.Outcome

variable {P : Platform}

/-! ## Every request makes an allowed change -/

namespace Daemon

variable {d : Daemon}

/-- A transaction that failed changed nothing; one that succeeded changed what it may. -/
theorem change_transact {ε : Type} {wrap : ε → RequestError} {result : Except ε Store}
    {r : Request P} {t : Uuid}
    (h : ∀ store, result = .ok store → Changes P r t d.store store) (id : Uuid) :
    Change P id r (d.store.view id) ((d.transact (P := P) wrap result).1.store.view id) := by
  rcases transact_store (d := d) (P := P) wrap result with hsame | hok
  · rw [hsame]
    exact .same _ _
  · exact (h _ hok).all id

theorem change_transactWith {ε α : Type} {wrap : ε → RequestError} {reply : α → Reply P}
    {result : Except ε (Store × α)} {r : Request P} {t : Uuid}
    (h : ∀ store a, result = .ok (store, a) → Changes P r t d.store store) (id : Uuid) :
    Change P id r (d.store.view id) ((d.transactWith wrap reply result).1.store.view id) := by
  rcases transactWith_store (d := d) wrap reply result with hsame | ⟨a, hok⟩
  · rw [hsame]
    exact .same _ _
  · exact (h _ _ hok).all id

theorem change_transactIssuing {result : StateResult (Store × Option WorkerAdmission)} {r : Request P}
    {t : Uuid}
    (h : ∀ store issued, result = .ok (store, issued) → Changes P r t d.store store)
    (id : Uuid) :
    Change P id r (d.store.view id) ((d.transactIssuing (P := P) result).1.store.view id) := by
  rcases transactIssuing_store (d := d) (P := P) result with hsame | ⟨issued, hok⟩
  · rw [hsame]
    exact .same _ _
  · exact (h _ _ hok).all id

open Store in
/-- **Refinement.**  Whatever a request answers, the rows of every generation changed as
`Change` allows. -/
theorem exec_change (d : Daemon) (r : Request P) (id : Uuid) :
    Change P id r (d.store.view id) ((d.exec P r).1.store.view id) := by
  cases r with
  | authenticate access => simpa [exec] using Change.same _ _
  | read access => simpa [exec] using Change.same _ _
  | lock access info => exact change_transact (fun _ h => lock_changes h) id
  | unlock access lockId => exact change_transact (fun _ h => unlock_changes h) id
  | write access lockId document => exact change_transactWith (fun _ _ h => write_changes h) id
  | insertGeneration record attempt capability =>
    exact change_transactWith (fun _ _ h => insertGeneration_changes h) id
  | revoke claim => exact change_transact (fun _ h => revoke_changes h) id
  | noteCreateStarting claim => exact change_transact (fun _ h => noteCreateStarting_changes h) id
  | sealBackend claim revision => exact change_transact (fun _ h => sealBackend_changes h) id
  | generationInsert record =>
    refine change_transact (t := record.id) (fun _ h => ?_) id
    obtain ⟨hnone, hview, -⟩ := generationInsertOn_view h
    exact .of_update (.generationInserted .plain rfl hnone) hview
  | generationInsertGuarded record guard admission =>
    simp only [exec]
    split
    · exact .same _ _
    · next store issued h =>
      rw [publishAfter_store]
      exact (generationInsertGuarded_changes h).1.all id
    · exact .same _ _
  | takeAdmission generation =>
    simp only [exec]
    split
    · next d' admission h =>
      simp only [take, bind_eq_ok, okOr_eq_ok, pure_eq_ok, Prod.mk.injEq] at h
      obtain ⟨_, -, rfl, -⟩ := h
      exact .same _ _
    · exact .same _ _
  | authenticateWorker access => simpa [exec] using Change.same _ _
  | launchPending access => exact change_transact (fun _ h => launchPending_changes h) id
  | register access identity => exact change_transact (fun _ h => register_changes h) id
  | retainInput access input => exact change_transact (fun _ h => retainInput_changes h) id
  | protectedInput access => simpa [exec] using Change.same _ _
  | verifyCleanup access => exact change_transact (fun _ h => verifyCleanup_changes h) id
  | spawnAck access attempt => exact change_transact (fun _ h => spawnAck_changes h) id
  | commandEnded access attempt => exact change_transact (fun _ h => commandEnded_changes h) id
  | fenced access identity => exact change_transact (fun _ h => fenced_changes h) id
  | receipt access => simpa [exec] using Change.same _ _
  | replaceFenced access draw =>
    rcases transactIssuing_store (d := d) (P := P) (d.store.replaceFenced P access draw) with
      hsame | ⟨issued, hok⟩
    · simp only [exec, hsame]
      exact .same _ _
    · obtain ⟨record, hclaim, hrecover, -⟩ := replaceFenced_changes hok
      exact (recoverWorker_changes (.fenced hclaim rfl rfl) hrecover).1.all id
  | workspaceReaped receipt => exact change_transact (fun _ h => workspaceReaped_changes h) id
  | applyStarting session capability claim proof path now =>
    exact change_transact (fun _ h => applyStarting_changes h) id
  | recordApplyStarting proof path now =>
    exact change_transact (fun _ h => recordApplyStarting_changes .direct h) id
  | recordBootstrapStarting proof now =>
    simp only [exec]
    split
    · exact .same _ _
    · next store h => exact (operationBootstrapStarting_changes h).all id
    · exact .same _ _
  | completeWorker access requestId expectedRevision kind now =>
    exact change_transactWith (fun _ _ h => completeWorker_changes h) id
  | generationAdvance generation next requestId now =>
    simp only [exec]
    split
    · next store h => exact (generationAdvance_changes h).all id
    · next store h => exact (generationAdvance_changes h).all id
    · exact .same _ _
  | generationFinalize generation operationId actor reason now =>
    exact change_transact (fun _ h => generationFinalize_changes h) id
  | recoverWorker record outcome preserveEvidence draw =>
    exact change_transactIssuing (fun _ _ h => (recoverWorker_changes .direct h).1) id
  | anchorFailedCreate generation =>
    exact change_transactWith (fun _ _ h => anchorFailedCreate_changes h) id
  | importLegacy args draw => exact change_transact (fun _ h => importLegacy_changes h) id
  | activate =>
    have hview : (d.exec P .activate).1.store.view = d.store.view := by
      rw [← activate_view (s := d.store)]
      simp only [exec]
      split
      · next h => rw [h]
      · next h => rw [h]
    rw [hview]
    exact .same _ _
  | listenerActivity fleet started completed now => exact listenerActivity_change ..
  | generationSetJit generation jitPhase githubRunnerId now =>
    exact change_transact (fun _ h => generationSetJit_changes h) id
  | generationSetResult generation resultJson digest now =>
    exact change_transact (fun _ h => generationSetResult_changes h) id
  | generationRequestExpiry generation now =>
    exact change_transactWith (fun _ _ h => generationRequestExpiry_changes h) id
  | generationResourcesDestroyed generation now =>
    exact change_transact (fun _ h => generationResourcesDestroyed_changes h) id
  | generationSetForgejoRunner generation runnerId runnerUuid forgejo now =>
    exact change_transact (t := generation)
      (fun _ h => .same (generationSetForgejoRunner_view h)) id
  | operationInsert insert =>
    exact change_transact (t := insert.generationId)
      (fun _ h => .same (operationInsertOn_view h).1) id
  | operationUpdateState operation state now =>
    exact change_transact (t := id) (fun _ h => .same (operationUpdateState_view h)) id
  | fleetChanged key fleet => exact .same _ _
  | revisionChanged key revision => exact .same _ _

/-! ## Failing requests -/

theorem transact_error {ε : Type} {wrap : ε → RequestError} {result : Except ε Store}
    {e : RequestError} (h : (d.transact (P := P) wrap result).2 = .error e) :
    (d.transact (P := P) wrap result).1 = d := by
  unfold transact at h ⊢
  split at h
  · cases h
  · rfl

theorem transactWith_error {ε α : Type} {wrap : ε → RequestError} {reply : α → Reply P}
    {result : Except ε (Store × α)} {e : RequestError}
    (h : (d.transactWith wrap reply result).2 = .error e) :
    (d.transactWith wrap reply result).1 = d := by
  unfold transactWith at h ⊢
  split at h
  · cases h
  · rfl

/-- Publishing fails only over an admission that nobody took yet. -/
theorem publishAfter_error {wrap : StateError → RequestError} {reply : Reply P}
    {issued : Option WorkerAdmission} {e : RequestError}
    (h : (d.publishAfter wrap reply issued).2 = .error e) :
    ∃ admission, issued = some admission ∧
      (d.pending.find admission.claim.generationId).isSome := by
  unfold publishAfter at h
  split at h
  · cases h
  · next admission =>
    refine ⟨admission, rfl, ?_⟩
    split at h
    · cases h
    · next e' hpublish =>
      by_contra hfree
      simp only [Bool.not_eq_true, Option.isSome_eq_false_iff] at hfree
      simp [publish, ensure, hfree, bind, Except.bind, pure, Except.pure] at hpublish

theorem transactIssuing_error {result : StateResult (Store × Option WorkerAdmission)} {e : RequestError}
    (h : (d.transactIssuing (P := P) result).2 = .error e) :
    (d.transactIssuing (P := P) result).1 = d ∨ ∃ store admission, result = .ok (store, some admission) ∧
      (d.pending.find admission.claim.generationId).isSome := by
  unfold transactIssuing at h ⊢
  split at h
  · next store issued =>
    obtain ⟨admission, rfl, hpending⟩ := publishAfter_error h
    exact .inr ⟨store, admission, rfl, hpending⟩
  · exact .inl rfl

/-- **Failure.**  A request that failed left all rows alone, unless its admission was committed
and could not be published. -/
theorem exec_error {r : Request P} {e : RequestError} (h : (d.exec P r).2 = .error e) :
    (d.exec P r).1.store.view = d.store.view ∨
      ∃ id, r.publishes = some id ∧ (d.pending.find id).isSome := by
  cases r with
  | authenticate | read | authenticateWorker | protectedInput | receipt =>
    exact .inl (by simp [exec])
  | lock | unlock | revoke | noteCreateStarting | sealBackend | generationInsert | launchPending
  | register | retainInput | verifyCleanup | spawnAck | commandEnded | fenced | workspaceReaped
  | applyStarting | recordApplyStarting | generationFinalize | importLegacy | generationSetJit
  | generationSetResult | generationResourcesDestroyed | generationSetForgejoRunner
  | operationInsert | operationUpdateState =>
    exact .inl (congrArg (·.store.view) (transact_error h))
  | write | insertGeneration | completeWorker | anchorFailedCreate | generationRequestExpiry =>
    exact .inl (congrArg (·.store.view) (transactWith_error h))
  | generationInsertGuarded record guard admission =>
    simp only [exec] at h ⊢
    split at h
    · cases h
    · next store issued hinsert =>
      obtain ⟨issued, rfl, hpending⟩ := publishAfter_error h
      obtain ⟨-, hissued, -⟩ := Store.generationInsertGuarded_changes hinsert
      cases admission with
      | none => cases hissued
      | some admission =>
        cases hissued
        exact .inr ⟨record.id, rfl, hpending⟩
    · exact .inl rfl
  | takeAdmission generation =>
    simp only [exec] at h ⊢
    split at h
    · cases h
    · exact .inl rfl
  | replaceFenced access draw =>
    rcases transactIssuing_error h with hsame | ⟨store, admission, hok, hpending⟩
    · exact .inl (congrArg (·.store.view) hsame)
    · obtain ⟨record, hclaim, hrecover, -⟩ := Store.replaceFenced_changes hok
      obtain ⟨-, hissued⟩ := Store.recoverWorker_changes (.fenced hclaim rfl rfl) hrecover
      obtain ⟨c, -, -, rfl, -⟩ := hissued admission rfl
      refine .inr ⟨access.claim.generationId, rfl, ?_⟩
      rw [← hclaim]
      exact hpending
  | recoverWorker record outcome preserve draw =>
    rcases transactIssuing_error h with hsame | ⟨store, admission, hok, hpending⟩
    · exact .inl (congrArg (·.store.view) hsame)
    · obtain ⟨-, hissued⟩ := Store.recoverWorker_changes .direct hok
      obtain ⟨c, -, -, rfl, -⟩ := hissued admission rfl
      exact .inr ⟨record.generationId, rfl, hpending⟩
  | recordBootstrapStarting | generationAdvance =>
    simp only [exec] at h ⊢
    split at h
    · cases h
    · cases h
    · exact .inl rfl
  | activate =>
    refine .inl ?_
    rw [← Store.activate_view (s := d.store)]
    simp only [exec]
    split <;> next hactivate => rw [hactivate]
  | listenerActivity | fleetChanged | revisionChanged => cases h

/-! ## Admissions and credentials -/

/-- What a publication leaves pending: what was, or the admission issued. -/
theorem publishAfter_pending {wrap : StateError → RequestError} {reply : Reply P}
    {issued : Option WorkerAdmission} {id : Uuid} {admission : WorkerAdmission}
    (h : (d.publishAfter wrap reply issued).1.pending.find id = some admission) :
    d.pending.find id = some admission ∨
      (issued = some admission ∧ admission.claim.generationId = id) := by
  unfold publishAfter at h
  split at h
  · exact .inl h
  · next published =>
    split at h
    · next d' hpublish =>
      simp only [publish, bind_eq_ok, pure_eq_ok] at hpublish
      obtain ⟨_, -, rfl⟩ := hpublish
      rw [Table.find_put] at h
      split at h
      · next heq =>
        cases h
        exact .inr ⟨rfl, heq.symm⟩
      · exact .inl h
    · exact .inl h

theorem transactIssuing_pending {result : StateResult (Store × Option WorkerAdmission)} {id : Uuid}
    {admission : WorkerAdmission}
    (h : (d.transactIssuing (P := P) result).1.pending.find id = some admission) :
    d.pending.find id = some admission ∨ ∃ store : Store,
      (d.transactIssuing (P := P) result).1.store = store ∧ result = .ok (store, some admission) ∧
        admission.claim.generationId = id := by
  unfold transactIssuing at h ⊢
  split at h
  · next store issued =>
    refine (publishAfter_pending h).imp_right ?_
    rintro ⟨hissued, hid⟩
    cases hissued
    exact ⟨store, publishAfter_store .., rfl, hid⟩
  · exact .inl h

/-- The pending admissions after a request: those before, and one whose state capability was drawn
for it and is the one of the unlocked row it belongs to. -/
theorem exec_pending {r : Request P} {id : Uuid} {admission : WorkerAdmission}
    (h : (d.exec P r).1.pending.find id = some admission) :
    d.pending.find id = some admission ∨ (r.publishes = some id ∧ admission.state ∈ r.stateDraws ∧
      ∃ c, ((d.exec P r).1.store.view id).state = some c ∧ c.lockId = none ∧
        c.capabilityHash = admission.state.verifier P) := by
  cases r with
  | authenticate | read | authenticateWorker | protectedInput | receipt =>
    simp only [exec, answer_store] at h
    exact .inl h
  | lock | unlock | revoke | noteCreateStarting | sealBackend | generationInsert | launchPending
  | register | retainInput | verifyCleanup | spawnAck | commandEnded | fenced | workspaceReaped
  | applyStarting | recordApplyStarting | generationFinalize | importLegacy | generationSetJit
  | generationSetResult | generationResourcesDestroyed | generationSetForgejoRunner
  | operationInsert | operationUpdateState =>
    simp only [exec, transact] at h
    split at h <;> exact .inl h
  | write | insertGeneration | completeWorker | anchorFailedCreate | generationRequestExpiry =>
    simp only [exec, transactWith] at h
    split at h <;> exact .inl h
  | generationInsertGuarded record guard admission =>
    simp only [exec] at h ⊢
    split at h
    · exact .inl h
    · next store issued hinsert =>
      refine (publishAfter_pending h).imp_right ?_
      rintro ⟨hissued, hid⟩
      obtain ⟨-, hdraw, hrow⟩ := Store.generationInsertGuarded_changes hinsert
      obtain ⟨document, hrow⟩ := hrow _ hissued
      cases admission with
      | none => cases hissued.symm.trans hdraw
      | some admission =>
        cases hissued.symm.trans hdraw
        cases hid
        refine ⟨rfl, List.mem_singleton_self _, .admitted _ document, ?_, rfl, rfl⟩
        rw [publishAfter_store]
        exact hrow
    · exact .inl h
  | takeAdmission generation =>
    simp only [exec] at h
    split at h
    · next d' taken htake =>
      simp only [take, bind_eq_ok, okOr_eq_ok, pure_eq_ok, Prod.mk.injEq] at htake
      obtain ⟨_, -, rfl, -⟩ := htake
      rw [Table.find_delete] at h
      split at h
      · cases h
      · exact .inl h
    · exact .inl h
  | replaceFenced access draw =>
    refine (transactIssuing_pending h).imp_right ?_
    rintro ⟨store, hstore, hok, hid⟩
    obtain ⟨record, hclaim, hrecover, -⟩ := Store.replaceFenced_changes hok
    have hrecovers : Recovers record .fenced false draw (.replaceFenced access draw : Request P) :=
      .fenced hclaim rfl rfl
    obtain ⟨-, hissued⟩ := Store.recoverWorker_changes hrecovers hrecover
    obtain ⟨c, -, -, rfl, hrow⟩ := hissued _ rfl
    cases hid
    simp only [exec, hstore]
    exact ⟨hrecovers.publishes, List.mem_singleton_self _, c.rotated P _, hrow, rfl, rfl⟩
  | recoverWorker record outcome preserve draw =>
    refine (transactIssuing_pending h).imp_right ?_
    rintro ⟨store, hstore, hok, hid⟩
    obtain ⟨-, hissued⟩ := Store.recoverWorker_changes .direct hok
    obtain ⟨c, -, -, rfl, hrow⟩ := hissued _ rfl
    cases hid
    simp only [exec, hstore]
    exact ⟨rfl, List.mem_singleton_self _, c.rotated P _, hrow, rfl, rfl⟩
  | generationAdvance generation next requestId now =>
    simp only [exec, discard] at h
    split at h
    · rw [Table.find_delete] at h
      split at h
      · cases h
      · exact .inl h
    · exact .inl h
    · exact .inl h
  | recordBootstrapStarting | activate =>
    simp only [exec] at h
    split at h <;> exact .inl h
  | listenerActivity | fleetChanged | revisionChanged => exact .inl h

/-- The state capabilities an answer hands out. -/
def handed : Outcome P → List StateCapability
  | .ok (.access _ capability) => [capability]
  | .ok (.admission admission) => [admission.state]
  | _ => []

/-- What a request hands out was drawn for it, or waited in an admission that is pending no more. -/
theorem exec_handed {r : Request P} {k : StateCapability} (h : k ∈ handed (d.exec P r).2) :
    r.publishes = none ∧ (k ∈ r.stateDraws ∨ ∃ id admission,
      d.pending.find id = some admission ∧ k = admission.state ∧
        (d.exec P r).1.pending = d.pending.delete id) := by
  cases r with
  | authenticate | read | authenticateWorker | protectedInput | receipt =>
    simp only [exec, answer] at h
    split at h <;> cases h
  | lock | unlock | revoke | noteCreateStarting | sealBackend | generationInsert | launchPending
  | register | retainInput | verifyCleanup | spawnAck | commandEnded | fenced | workspaceReaped
  | applyStarting | recordApplyStarting | generationFinalize | importLegacy | generationSetJit
  | generationSetResult | generationResourcesDestroyed | generationSetForgejoRunner
  | operationInsert | operationUpdateState =>
    simp only [exec, transact] at h
    split at h <;> cases h
  | write | completeWorker | anchorFailedCreate | generationRequestExpiry =>
    simp only [exec, transactWith] at h
    split at h <;> cases h
  | insertGeneration record attempt capability =>
    simp only [exec, transactWith] at h
    split at h
    · exact ⟨rfl, .inl h⟩
    · cases h
  | takeAdmission generation =>
    simp only [exec] at h ⊢
    split at h
    · next d' taken htake =>
      simp only [take, bind_eq_ok, okOr_eq_ok, pure_eq_ok, Prod.mk.injEq] at htake
      obtain ⟨admission, hfind, rfl, rfl⟩ := htake
      exact ⟨rfl, .inr ⟨generation, admission, hfind, List.mem_singleton.mp h, rfl⟩⟩
    · cases h
  | generationInsertGuarded | replaceFenced | recoverWorker =>
    simp only [exec, transactIssuing, publishAfter] at h
    repeat' split at h
    all_goals cases h
  | recordBootstrapStarting | generationAdvance | activate =>
    simp only [exec] at h
    split at h <;> cases h
  | listenerActivity | fleetChanged | revisionChanged => cases h

end Daemon

end Shaula
