import Shaula.Store.Ledger

/-! # The daemon's store handle

The store together with the admissions that are committed but not yet handed out.  Serving a
request runs one transaction, rolled back when it fails; an admission is published after its commit,
so that publishing may still fail when the store has already changed.
-/

namespace Shaula

open Core Library Library.Outcome

variable {P : Platform}

/-- The store and the one-time credential handoff of this daemon run. -/
structure Daemon where
  store : Store
  /-- Committed admissions whose credentials nobody took yet. -/
  pending : Table Uuid WorkerAdmission
  createLimit : Nat

/-- What a request returned. -/
abbrev Outcome (P : Platform) := Except RequestError (Reply P)

namespace Daemon

/-- Removed exactly once. -/
def take (d : Daemon) (id : Uuid) : StateResult (Daemon × WorkerAdmission) := do
  let admission ← okOr (d.pending.find id) .conflict
  return ({ d with pending := d.pending.delete id }, admission)

def publish (d : Daemon) (admission : WorkerAdmission) : StateResult Daemon := do
  ensure (d.pending.find admission.claim.generationId).isNone .conflict
  return { d with pending := d.pending.put admission.claim.generationId admission }

def discard (d : Daemon) (id : Uuid) : Daemon :=
  { d with pending := d.pending.delete id }

/-! ## Serving requests -/

/-- A request that only reads. -/
def answer {ε α : Type} (d : Daemon) (wrap : ε → RequestError) (reply : α → Reply P)
    (result : Except ε α) : Daemon × Outcome P :=
  match result with
  | .ok a => (d, .ok (reply a))
  | .error e => (d, .error (wrap e))

/-- A transaction: its store is kept exactly when it succeeds. -/
def transact {ε : Type} (d : Daemon) (wrap : ε → RequestError) (result : Except ε Store) :
    Daemon × Outcome P :=
  match result with
  | .ok store => ({ d with store }, .ok .done)
  | .error e => (d, .error (wrap e))

/-- A transaction with an answer. -/
def transactWith {ε α : Type} (d : Daemon) (wrap : ε → RequestError) (reply : α → Reply P)
    (result : Except ε (Store × α)) : Daemon × Outcome P :=
  match result with
  | .ok (store, a) => ({ d with store }, .ok (reply a))
  | .error e => (d, .error (wrap e))

/-- Publishing after the commit; its failure does not undo the commit. -/
def publishAfter (d : Daemon) (wrap : StateError → RequestError) (reply : Reply P)
    (issued : Option WorkerAdmission) : Daemon × Outcome P :=
  match issued with
  | none => (d, .ok reply)
  | some admission =>
    match d.publish admission with
    | .ok d => (d, .ok reply)
    | .error e => (d, .error (wrap e))

/-- A transaction that may issue an admission. -/
def transactIssuing (d : Daemon) (result : StateResult (Store × Option WorkerAdmission)) :
    Daemon × Outcome P :=
  match result with
  | .ok (store, issued) => publishAfter { d with store } .state .done issued
  | .error e => (d, .error (.state e))

def coreStore (e : StoreError) : RequestError := .core (coreErr e)

/-- Serves one request. -/
def exec (P : Platform) (d : Daemon) : Request P → Daemon × Outcome P
  | .authenticate access =>
    d.answer .state (fun _ => .done) (d.store.authenticate P access)
  | .read access => d.answer .state .snapshot (d.store.read P access)
  | .lock access info => d.transact .state (d.store.lock P access info)
  | .unlock access id => d.transact .state (d.store.unlock P access id)
  | .write access id document =>
    d.transactWith .state .revision (d.store.write P access id document)
  | .insertGeneration record attempt capability =>
    d.transactWith .state (fun claim => .access claim capability)
      (d.store.insertGeneration P record attempt capability)
  | .revoke claim => d.transact .state (d.store.revoke claim)
  | .noteCreateStarting claim => d.transact .state (d.store.noteCreateStarting P claim)
  | .sealBackend claim expectedRevision =>
    d.transact .state (d.store.sealBackend P claim expectedRevision)
  | .generationInsert record => d.transact coreStore (d.store.generationInsertOn record)
  | .generationInsertGuarded record guard admission =>
    match d.store.generationInsertGuarded P d.createLimit record guard admission with
    | .ok none => (d, .ok (.flag false))
    | .ok (some (store, issued)) =>
      publishAfter { d with store } (fun e => .core (workerError e)) (.flag true) issued
    | .error e => (d, .error (.core e))
  | .takeAdmission generation =>
    match d.take generation with
    | .ok (d, admission) => (d, .ok (.admission admission))
    | .error e => (d, .error (.state e))
  | .authenticateWorker access =>
    d.answer .state (fun _ => .done) (d.store.authenticateWorker P access)
  | .launchPending access => d.transact .state (d.store.launchPending P access)
  | .register access identity => d.transact .state (d.store.register P access identity)
  | .retainInput access input => d.transact .state (d.store.retainInput P access input)
  | .protectedInput access => d.answer .state .bytes (d.store.protectedInput P access)
  | .verifyCleanup access => d.transact .state (d.store.verifyCleanup P access)
  | .spawnAck access attempt => d.transact .state (d.store.spawnAck P access attempt)
  | .commandEnded access attempt => d.transact .state (d.store.commandEnded P access attempt)
  | .fenced access identity => d.transact .state (d.store.fenced P access identity)
  | .receipt access => d.answer .state .receipt (d.store.receipt P access)
  | .replaceFenced access draw => d.transactIssuing (d.store.replaceFenced P access draw)
  | .workspaceReaped receipt => d.transact .state (d.store.workspaceReaped receipt)
  | .applyStarting session capability claim proof path now =>
    d.transact .state (d.store.applyStarting P session capability claim proof path now)
  | .recordApplyStarting proof path now =>
    d.transact .core (d.store.recordApplyStarting P proof path now)
  | .recordBootstrapStarting proof now =>
    match d.store.operationBootstrapStarting proof now with
    | .ok none => (d, .ok (.flag false))
    | .ok (some store) => ({ d with store }, .ok (.flag true))
    | .error e => (d, .error (coreStore e))
  | .completeWorker access requestId expectedRevision kind now =>
    d.transactWith .state (fun receipt => .receipt (some receipt))
      (d.store.completeWorker P access requestId expectedRevision kind now)
  | .generationAdvance id next requestId now =>
    match d.store.generationAdvance P id next requestId now with
    | .ok (store, true) => (discard { d with store } id, .ok .done)
    | .ok (store, false) => ({ d with store }, .ok .done)
    | .error e => (d, .error (.core e))
  | .generationFinalize id operationId actor reason now =>
    d.transact (fun e => e) (d.store.generationFinalize id operationId actor reason now)
  | .recoverWorker record outcome preserveEvidence draw =>
    d.transactIssuing (d.store.recoverWorker P record outcome preserveEvidence draw)
  | .anchorFailedCreate id => d.transactWith .state .flag (d.store.anchorFailedCreate P id)
  | .importLegacy args draw => d.transact .state (d.store.importLegacy P args draw)
  | .activate =>
    match d.store.activate with
    | (store, .ok _) => ({ d with store }, .ok .done)
    | (store, .error e) => ({ d with store }, .error (.state e))
  | .listenerActivity fleet started completed now =>
    ({ d with store := d.store.listenerActivity fleet started completed now }, .ok .done)
  | .generationSetJit id jitPhase githubRunnerId now =>
    d.transact coreStore (d.store.generationSetJit id jitPhase githubRunnerId now)
  | .generationSetResult id resultJson digest now =>
    d.transact coreStore (d.store.generationSetResult id resultJson digest now)
  | .generationRequestExpiry id now =>
    d.transactWith .core .flag (d.store.generationRequestExpiry id now)
  | .generationResourcesDestroyed id now =>
    d.transact .core (d.store.generationResourcesDestroyed id now)
  | .generationSetForgejoRunner id runnerId runnerUuid forgejo now =>
    d.transact coreStore (d.store.generationSetForgejoRunner id runnerId runnerUuid forgejo now)
  | .operationInsert insert => d.transact coreStore (d.store.operationInsertOn insert)
  | .operationUpdateState id state now =>
    d.transact coreStore (d.store.operationUpdateState id state now)
  | .fleetChanged key fleet =>
    ({ d with store := { d.store with fleets := d.store.fleets.put key fleet } }, .ok .done)
  | .revisionChanged key revision =>
    ({ d with store := { d.store with revisions := d.store.revisions.put key revision } },
      .ok .done)

/-! ## What serving changes -/

variable {d : Daemon}

@[simp] theorem answer_store {ε α : Type} (wrap : ε → RequestError) (reply : α → Reply P)
    (result : Except ε α) : (d.answer wrap reply result).1 = d := by
  unfold answer
  split <;> rfl

@[simp] theorem publishAfter_store (wrap : StateError → RequestError) (reply : Reply P)
    (issued : Option WorkerAdmission) : (d.publishAfter wrap reply issued).1.store = d.store := by
  unfold publishAfter
  split
  · rfl
  · split
    · next d' hpublish =>
      simp only [publish, bind_eq_ok, pure_eq_ok] at hpublish
      obtain ⟨_, -, rfl⟩ := hpublish
      rfl
    · rfl

/-- A transaction keeps the store or moves it to what succeeded. -/
theorem transact_store {ε : Type} (wrap : ε → RequestError) (result : Except ε Store) :
    (d.transact (P := P) wrap result).1.store = d.store ∨
      result = .ok (d.transact (P := P) wrap result).1.store := by
  unfold transact
  split
  · exact .inr rfl
  · exact .inl rfl

theorem transactWith_store {ε α : Type} (wrap : ε → RequestError) (reply : α → Reply P)
    (result : Except ε (Store × α)) :
    (d.transactWith wrap reply result).1.store = d.store ∨
      ∃ a, result = .ok ((d.transactWith wrap reply result).1.store, a) := by
  unfold transactWith
  split
  · exact .inr ⟨_, rfl⟩
  · exact .inl rfl

theorem transactIssuing_store (result : StateResult (Store × Option WorkerAdmission)) :
    (d.transactIssuing (P := P) result).1.store = d.store ∨
      ∃ issued, result = .ok ((d.transactIssuing (P := P) result).1.store, issued) := by
  unfold transactIssuing
  split
  · next store issued =>
    right
    refine ⟨issued, ?_⟩
    rw [publishAfter_store]
  · exact .inl rfl

end Daemon

end Shaula
