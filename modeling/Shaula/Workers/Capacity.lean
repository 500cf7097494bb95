import Shaula.Core.Records
import Shaula.Core.StateBackend
import Shaula.Library.Execution
import Shaula.Library.Pool
import Shaula.Library.Table

/-! # Worker capacity

Coordinates whole lifecycle workers.  A worker takes one of the permits of a semaphore before its
process is launched, and gives it back when the process is fenced.
-/

namespace Shaula.Workers.Coordinator

open Library Core

/-! ## Sessions -/

/-- A session of the coordinator.  The last two fields are ghosts: the executor launched its
process, and a fence of that process was confirmed. -/
structure Session where
  generation : Uuid
  identity : Option ProcessIdentity
  fenced : Bool
  completed : Option Int
  cleanupAttempts : Nat
  launched : Bool
  stopped : Bool

def Session.new (generation : Uuid) : Session := ⟨generation, none, false, none, 0, false, false⟩

/-- A permit is an `OwnedSemaphorePermit`: whoever has it gives it back when it is gone. -/
inductive Owner where
  | call (i : Nat)
  | session (s : Nat)
  deriving DecidableEq

structure World where
  /-- The owner of each permit that was acquired. -/
  owner : Nat → Option Owner
  sessions : Nat → Session
  /-- How many sessions there were. -/
  allocated : Nat
  /-- The `sessions` of the coordinator. -/
  entries : Table Uuid Nat
  /-- The sessions that each call refers to. -/
  refs : Nat → List Nat

namespace World

variable (w : World)

def modify (s : Nat) (f : Session → Session) : World :=
  { w with sessions := Function.update w.sessions s (f (w.sessions s)) }

/-- A caller comes to refer to sessions. -/
def refer (i : Nat) (found : List Nat) : World :=
  { w with refs := Function.update w.refs i (found ++ w.refs i) }

/-- The session still exists. -/
def Alive (s : Nat) : Prop := (∃ id, w.entries.find id = some s) ∨ ∃ i, s ∈ w.refs i

def Free (p : Nat) : Prop :=
  w.owner p = none ∨ ∃ s, w.owner p = some (.session s) ∧ ¬ w.Alive s

def acquire (i p : Nat) : World :=
  { w with owner := Function.update w.owner p (some (.call i)) }

/-- The caller's permit goes to a new session of the generation. -/
def insert (i : Nat) (id : Uuid) : World where
  owner p := if w.owner p = some (.call i) then some (.session w.allocated) else w.owner p
  sessions := Function.update w.sessions w.allocated (.new id)
  allocated := w.allocated + 1
  entries := w.entries.put id w.allocated
  refs := Function.update w.refs i (w.allocated :: w.refs i)

def releasePermit (s : Nat) : World :=
  { w with owner := fun p => if w.owner p = some (.session s) then none else w.owner p }

/-- A caller is gone, with its permit and its references. -/
def leave (i : Nat) : World :=
  { w with
    owner := fun p => if w.owner p = some (.call i) then none else w.owner p
    refs := Function.update w.refs i [] }

@[simp] theorem modify_self (s : Nat) (f : Session → Session) :
    (w.modify s f).sessions s = f (w.sessions s) :=
  Function.update_self ..

theorem modify_of_ne {s t : Nat} (f : Session → Session) (h : t ≠ s) :
    (w.modify s f).sessions t = w.sessions t :=
  Function.update_of_ne h ..

theorem insert_of_lt (i : Nat) (id : Uuid) {s : Nat} (h : s < w.allocated) :
    (w.insert i id).sessions s = w.sessions s :=
  Function.update_of_ne (Nat.ne_of_lt h) ..

end World

/-! ## Effects -/

inductive ProcessObservation where
  | live
  | exited
  | unknown
  deriving DecidableEq

/-- Where a process is stopped and fenced. -/
inductive Fencing where
  | fence
  | completed
  | unregistered

inductive WorkerEffect where
  | stopping
  | acquire
  | makeRoom
  | admission (id : Uuid)
  | insertSession (id : Uuid)
  | launchPending (s : Nat)
  | launch (s : Nat)
  | setIdentity (s : Nat) (identity : ProcessIdentity)
  | register (s : Nat) (identity : ProcessIdentity)
  | stopAndFence (s : Nat) (where' : Fencing)
  | handoff (s : Nat)
  | receive (s : Nat)
  | session (id : Uuid)
  | isFenced (s : Nat)
  | identity (s : Nat)
  | releasePermit (s : Nat) (fenced : Bool)
  | fenced (s : Nat)
  | setFenced (s : Nat)
  | releaseFenced (s : Nat)
  | observe (s : Nat)
  | replaceFenced (s : Nat)
  | removeSession (id : Uuid)
  | snapshot
  | receipt (s : Nat)
  | elapsed (s : Nat)
  | beginCleanup (s : Nat)
  | endCleanup (s : Nat)
  | protectedInput (s : Nat)
  | reap (s : Nat)
  | workspaceReaped (s : Nat)
  | checkMaterial (s : Nat)
  | retainInput (s : Nat)
  | direct (s : Nat)

abbrev WorkerEffect.Answer : WorkerEffect → Type
  | stopping | makeRoom | isFenced _ | beginCleanup _ | checkMaterial _ | direct _ => Bool
  | acquire | admission _ | launchPending _ | register _ _ | handoff _ | fenced _ | releaseFenced _
  | replaceFenced _ | workspaceReaped _ | retainInput _ => StateResult Unit
  | insertSession _ => StateResult Nat
  | launch _ => StateResult ProcessIdentity
  | stopAndFence _ _ => FenceOutcome
  | receive _ | protectedInput _ | reap _ => StateResult Bool
  | session _ => Option Nat
  | identity _ => Option ProcessIdentity
  | observe _ => ProcessObservation
  | snapshot => List (Uuid × Nat)
  | receipt _ => StateResult (Option CompletionKind)
  | elapsed _ => Nat
  | setIdentity _ _ | releasePermit _ _ | setFenced _ | removeSession _ | endCleanup _ => Unit

abbrev workerEffects : Interface := ⟨WorkerEffect, WorkerEffect.Answer⟩

abbrev Routine (α : Type) := Program workerEffects StateError α

def ask (op : WorkerEffect) : Routine op.Answer := Program.lift (F := workerEffects) op

section Acts

variable (maxWorkers : Nat)

/-- Sessions that may make room for others. -/
def World.Settled (w : World) (id : Uuid) : Prop :=
  ∃ s, w.entries.find id = some s ∧ (w.sessions s).fenced = true ∧
    (w.sessions s).completed.isSome = true

/-- What an effect of a caller answers and leaves.  The journal and the executor answer
anything. -/
def WorkerActs (i : Nat) (w : World) : (op : WorkerEffect) → op.Answer → World → Prop
  | .acquire, .ok _, w' => ∃ p < maxWorkers, w.Free p ∧ w' = w.acquire i p
  | .makeRoom, room, w' => ∃ dropped : List Uuid, (∀ id ∈ dropped, w.Settled id) ∧
      w' = { w with entries := dropped.foldl Table.delete w.entries } ∧
      (dropped ≠ [] → maxWorkers * 2 ≤ w.entries.entries.length) ∧
      room = decide (w'.entries.entries.length < maxWorkers * 2)
  | .insertSession id, .ok s, w' =>
    w.entries.find id = none ∧ s = w.allocated ∧ w' = w.insert i id
  | .insertSession id, .error e, w' =>
    w' = w ∧ (e = .conflict → (w.entries.find id).isSome = true)
  | .launch s, .ok _, w' =>
    w' = w.modify s fun session => { session with launched := true, stopped := false }
  | .setIdentity s identity, _, w' =>
    w' = w.modify s fun session => { session with identity := some identity }
  | .stopAndFence s _, .fenced, w' => w' = w.modify s fun session => { session with stopped := true }
  | .session id, found, w' => found = w.entries.find id ∧ w' = w.refer i found.toList
  | .isFenced s, fenced, w' => fenced = (w.sessions s).fenced ∧ w' = w
  | .identity s, identity, w' => identity = (w.sessions s).identity ∧ w' = w
  | .releasePermit s fenced, _, w' => w' = (w.modify s fun session =>
      { session with fenced := session.fenced || fenced }).releasePermit s
  | .setFenced s, _, w' => w' = w.modify s fun session => { session with fenced := true }
  | .removeSession id, _, w' => w' = { w with entries := w.entries.delete id }
  | .snapshot, rows, w' => rows = w.entries.rows ∧ w' = w.refer i (rows.map (·.2))
  | .elapsed s, elapsed, w' => ∃ now : Int,
      elapsed = (now - (w.sessions s).completed.getD now).toNat ∧
      w' = w.modify s fun session => { session with completed := some (session.completed.getD now) }
  | .beginCleanup s, begun, w' => begun = decide ((w.sessions s).cleanupAttempts < 3) ∧
      w' = if begun then w.modify s fun session =>
        { session with cleanupAttempts := session.cleanupAttempts + 1 } else w
  | .endCleanup s, _, w' => w' = w.modify s fun session => { session with cleanupAttempts := 3 }
  | _, _, w' => w' = w

end Acts

/-! ## Calls -/

def fence (s : Nat) : Routine Unit := do
  let done : Bool ← ask (.isFenced s)
  if done then return ()
  else
    let identity : Option ProcessIdentity ← ask (.identity s)
    let _ ← Program.okOr identity .conflict
    let outcome : FenceOutcome ← ask (.stopAndFence s .fence)
    if outcome ≠ .fenced then .fail .unavailable
    else
      ask (.releasePermit s false)
      let fenced : StateResult Unit ← ask (.fenced s)
      Program.ofExcept fenced
      ask (.setFenced s)
      let _ ← ask (.releaseFenced s)
      return ()

/-- What a launch goes on with when the process runs. -/
def handOver (s : Nat) : Routine Bool := do
  let handoff : StateResult Unit ← ask (.handoff s)
  match handoff with
  | .error e =>
    fence s
    .fail e
  | .ok _ =>
    let received : StateResult Bool ← ask (.receive s)
    match received with
    | .ok result =>
      if result then return true
      else
        fence s
        return false
    | .error _ =>
      fence s
      .fail .unavailable

/-- No envelope was released when the registration failed.  Still the tree is fenced; a failed or
uncertain journal response is not a fence. -/
def launch (s : Nat) : Routine Bool := do
  let pending : StateResult Unit ← ask (.launchPending s)
  Program.ofExcept pending
  let launched : StateResult ProcessIdentity ← ask (.launch s)
  let identity ← Program.ofExcept launched
  ask (.setIdentity s identity)
  let registered : StateResult Unit ← ask (.register s identity)
  match registered with
  | .error e =>
    let _ ← ask (.stopAndFence s .unregistered)
    .fail e
  | .ok _ => handOver s

/-- `workspace` is the generation that the workspace is named for. -/
def prepare (workspace : Option Uuid) : Routine Bool := do
  let stopping : Bool ← ask .stopping
  Program.ensure (stopping = false) .unavailable
  let id ← Program.okOr workspace .invalid
  let acquired : StateResult Unit ← ask .acquire
  Program.ensure (acquired.isOk = true) .unavailable
  let stopping : Bool ← ask .stopping
  Program.ensure (stopping = false) .unavailable
  let room : Bool ← ask .makeRoom
  Program.ensure (room = true) .unavailable
  let admission : StateResult Unit ← ask (.admission id)
  Program.ofExcept admission
  let inserted : StateResult Nat ← ask (.insertSession id)
  let s ← Program.ofExcept inserted
  launch s

def ensureReplacement (id : Uuid) : Routine Unit := do
  let found : Option Nat ← ask (.session id)
  match found with
  | none => return ()
  | some s =>
    let identity : Option ProcessIdentity ← ask (.identity s)
    let _ ← Program.okOr identity .conflict
    let observation : ProcessObservation ← ask (.observe s)
    if observation = .live then return ()
    else
      fence s
      let replaced : StateResult Unit ← ask (.replaceFenced s)
      Program.ofExcept replaced
      ask (.removeSession id)

/-- The result of the command; a worker that does not answer is fenced. -/
def await (s : Nat) : Routine Unit := do
  let received : StateResult Bool ← ask (.receive s)
  match received with
  | .ok _ => return ()
  | .error _ =>
    let _ ← (fence s).attempt
    .fail .unavailable

def create (id : Uuid) : Routine Unit := do
  let found : Option Nat ← ask (.session id)
  let s ← Program.okOr found .unauthorized
  let material : Bool ← ask (.checkMaterial s)
  Program.ensure (material = true) .invalid
  let retained : StateResult Unit ← ask (.retainInput s)
  Program.ofExcept retained
  let directed : Bool ← ask (.direct s)
  Program.ensure (directed = true) .conflict
  await s

def destroy (id : Uuid) (workspace : Option Uuid) : Routine Unit := do
  ensureReplacement id
  let found : Option Nat ← ask (.session id)
  if found.isNone then
    let prepared ← prepare workspace
    Program.ensure (prepared = true) .unavailable
    command
  else command
where
  command : Routine Unit := do
    let found : Option Nat ← ask (.session id)
    let s ← Program.okOr found .unauthorized
    let material : Bool ← ask (.checkMaterial s)
    Program.ensure (material = true) .invalid
    let input : StateResult Bool ← ask (.protectedInput s)
    Program.ensure (input.toOption = some true) .unavailable
    let directed : Bool ← ask (.direct s)
    Program.ensure (directed = true) .conflict
    await s

def reapWorkspace (s : Nat) (kind : CompletionKind) : Routine Unit := do
  let input : StateResult Bool ← ask (.protectedInput s)
  let input ← Program.ofExcept input
  Program.ensure (¬ (kind = .providerCleanup ∧ input = false)) .unavailable
  let reaped : StateResult Bool ← ask (.reap s)
  let reaped ← Program.ofExcept reaped
  if reaped then
    let recorded : StateResult Unit ← ask (.workspaceReaped s)
    Program.ofExcept recorded
    let identity : Option ProcessIdentity ← ask (.identity s)
    if identity.isSome then
      let released : StateResult Unit ← ask (.releaseFenced s)
      Program.ofExcept released
    else return ()
  else return ()

/-- A completed process is fenced, and its permit given back. -/
def releaseCompleted (s : Nat) : Routine Unit := do
  let identity : Option ProcessIdentity ← ask (.identity s)
  if identity.isNone then ask (.releasePermit s false)
  else
    let done : Bool ← ask (.isFenced s)
    if done then ask (.releasePermit s true)
    else
      let outcome : FenceOutcome ← ask (.stopAndFence s .completed)
      if outcome ≠ .fenced then .fail .unavailable
      else ask (.releasePermit s true)

def cleanUp (reaper : Bool) (s : Nat) (kind : CompletionKind) : Routine Unit :=
  if reaper then do
    let begun : Bool ← ask (.beginCleanup s)
    if begun then
      let result ← (reapWorkspace s kind).attempt
      if result.isOk then ask (.endCleanup s) else return ()
    else return ()
  else return ()

def reapSession (reaper : Bool) (id : Uuid) (s : Nat) : Routine Unit := do
  let receipt : StateResult (Option CompletionKind) ← ask (.receipt s)
  let receipt ← Program.ofExcept receipt
  match receipt with
  | none => return ()
  | some kind =>
    let elapsed : Nat ← ask (.elapsed s)
    if elapsed < 1000 then return ()
    else
      releaseCompleted s
      cleanUp reaper s kind
      let elapsed : Nat ← ask (.elapsed s)
      if 60000 ≤ elapsed then ask (.removeSession id) else return ()

def reapSessions (reaper : Bool) : List (Uuid × Nat) → Routine Unit
  | [] => return ()
  | (id, s) :: rest => do
    reapSession reaper id s
    reapSessions reaper rest

def reapCompleted (reaper : Bool) : Routine Unit := do
  let sessions : List (Uuid × Nat) ← ask .snapshot
  reapSessions reaper sessions

inductive WorkerCall where
  | prepare (workspace : Option Uuid)
  | create (id : Uuid)
  | destroy (id : Uuid) (workspace : Option Uuid)
  | reapCompleted

def WorkerCall.body (reaper : Bool) : WorkerCall → Routine Unit
  | prepare workspace => do
    let _ ← Coordinator.prepare workspace
    return ()
  | create id => Coordinator.create id
  | destroy id workspace => Coordinator.destroy id workspace
  | reapCompleted => Coordinator.reapCompleted reaper

/-- The calls of a coordinator, in any interleaving. -/
def coordinator (maxWorkers : Nat) (reaper : Bool) :
    Pool workerEffects WorkerCall World StateError Unit where
  env w w' := w' = w
  act := WorkerActs maxWorkers
  body := WorkerCall.body reaper
  leave i w := w.leave i

end Shaula.Workers.Coordinator
