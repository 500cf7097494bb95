import Shaula.Core.Lifecycle
import Shaula.Core.Worker
import Mathlib.Logic.Function.Basic

/-! # Tables of the lifecycle store

The rows behind a runner generation: its ledger row, its Terraform state backend, its worker, and
the fences, imports and operations recorded for it.  The `CHECK` constraints of the state and the
worker table are part of the row types, so a stored row always meets them.
-/

namespace Shaula

open Core Library

/-! ## Rows -/

/-- Columns of `generation_http_state`. -/
structure StateColumns where
  workerEpoch : Int
  workerAttempt : Uuid
  capabilityHash : Bytes
  revoked : Bool
  createStarted : Bool
  sealed : Bool
  revision : Int
  stateBytes : Option Bytes
  lineage : Option String
  serial : Option Int
  lockId : Option String
  lockInfo : Option Bytes
  deriving DecidableEq

/-- The `CHECK` constraints of `generation_http_state`. -/
def StateColumns.Check (c : StateColumns) : Prop :=
  0 < c.workerEpoch ∧ c.capabilityHash.length = 32 ∧ 0 ≤ c.revision ∧ (∀ n ∈ c.serial, 0 ≤ n) ∧
    c.lockId.isNone = c.lockInfo.isNone ∧
    ((c.revision = 0 ∧ c.stateBytes.isNone ∧ c.lineage.isNone ∧ c.serial.isNone) ∨
      (0 < c.revision ∧ c.stateBytes.isSome ∧ c.lineage.isSome ∧ c.serial.isSome)) ∧
    (c.sealed = false ∨ (0 < c.revision ∧ c.lockId.isNone))

instance : DecidablePred StateColumns.Check := fun c => by
  unfold StateColumns.Check; infer_instance

abbrev StateRow := {c : StateColumns // c.Check}

/-- Columns of `lifecycle_workers`. -/
structure WorkerColumns where
  controlHash : Bytes
  phase : WorkerPhase
  processIdentity : Option ProcessIdentity
  cleanupOnly : Bool
  handover : Option String
  activeCommand : Option String
  cleanupRevision : Option Int
  protectedInput : Option Bytes
  resourceStateSeen : Bool
  completionRequest : Option Uuid
  completionReceipt : Option CompletionReceipt
  workspaceReaped : Bool
  deriving DecidableEq

/-- The `CHECK` constraints of `lifecycle_workers`. -/
def WorkerColumns.Check (c : WorkerColumns) : Prop :=
  c.controlHash.length = 32 ∧ c.completionRequest.isNone = c.completionReceipt.isNone ∧
    (c.phase = .completed ↔ c.completionReceipt.isSome)

instance : DecidablePred WorkerColumns.Check := fun c => by
  unfold WorkerColumns.Check; infer_instance

abbrev WorkerRow := {c : WorkerColumns // c.Check}

/-- Columns of `lifecycle_fences`, keyed by worker attempt. -/
structure FenceRow where
  generationId : Uuid
  workerEpoch : Int
  processIdentity : Option ProcessIdentity
  orphanLock : Option Bytes
  confirmedFenced : Bool
  outcome : FenceOutcome
  deriving DecidableEq

inductive MigrationClassification where
  | imported
  | quarantined
  deriving DecidableEq, Repr

/-- Columns of `lifecycle_imports`; `content` is the commitment its receipt binds. -/
structure ImportRow where
  commitment : String
  classification : MigrationClassification
  content : String
  deriving DecidableEq

/-- The single row of `lifecycle_deployment`. -/
structure DeploymentRow where
  migrationRequired : Bool
  activated : Bool
  deriving DecidableEq

/-- Columns of `runner_generations`. -/
structure GenerationRow where
  fleetKey : String
  runnerName : String
  generationName : String
  fleetRevision : Int
  templateProfileKey : String
  templateRevision : Int
  templateArtifactDigest : String
  attestationId : String
  inputsDigest : String
  state : GenerationState
  subphase : Option String
  jitPhase : Option String
  githubRunnerId : Option Int
  poolMemberKey : Option String
  workspacePath : String
  shaulaResultJson : Option String
  shaulaResultDigest : Option String
  provisionedAt : Option Int
  expiryRequestedAt : Option Int
  resourcesDestroyedAt : Option Int
  failedCreateIdentity : Option Identity
  createdAt : Int
  updatedAt : Int
  deriving DecidableEq

/-- Columns of `forgejo_runner_identities`. -/
structure ForgejoIdentity where
  runnerId : Int
  runnerUuid : String
  createdAt : Int
  updatedAt : Int
  deriving DecidableEq

/-- Columns of `runner_operations`. -/
structure OperationRow where
  generationId : Uuid
  kind : String
  state : String
  attempts : Int
  savedPlanPath : Option String
  savedPlanDigest : Option String
  provenanceJson : Option OperationDetail
  createdAt : Int
  updatedAt : Int
  deriving DecidableEq

/-- The columns of a fleet head that fence its generations. -/
structure FleetRow where
  incarnation : String
  desiredRevision : Int
  mutationFence : Int
  deletionMarker : Bool
  tombstone : Bool
  deriving DecidableEq

/-- The columns of a template profile revision that bind a generation to its manifest. -/
structure RevisionRow where
  artifactDigest : String
  manifestJson : Option String
  deriving DecidableEq

/-! ## The store -/

/-- The lifecycle tables, keyed by generation except where noted. -/
structure Store where
  generations : Table Uuid GenerationRow
  states : Table Uuid StateRow
  workers : Table Uuid WorkerRow
  forgejoIdentities : Table Uuid ForgejoIdentity
  imports : Table Uuid ImportRow
  /-- Keyed by operation id. -/
  operations : Table String OperationRow
  /-- Keyed by worker attempt. -/
  fences : Table Uuid FenceRow
  /-- Keyed by fleet key. -/
  fleets : Table String FleetRow
  /-- Keyed by profile key and revision. -/
  revisions : Table (String × Int) RevisionRow
  deployment : DeploymentRow

/-- A store right after its migrations ran. -/
def Store.initial : Store where
  generations := ∅
  states := ∅
  workers := ∅
  forgejoIdentities := ∅
  imports := ∅
  operations := ∅
  fences := ∅
  fleets := ∅
  revisions := ∅
  deployment := { migrationRequired := false, activated := false }

/-- The rows of one generation that carry its authority. -/
@[ext] structure View where
  state : Option StateColumns
  worker : Option WorkerColumns
  generation : Option GenerationRow

namespace Store

open Outcome

def view (s : Store) (id : Uuid) : View where
  state := (s.states.find id).map Subtype.val
  worker := (s.workers.find id).map Subtype.val
  generation := s.generations.find id

/-- The worker row of a generation, when it has one. -/
def readWorker (s : Store) (id : Uuid) : Option WorkerColumns :=
  (s.workers.find id).map Subtype.val

/-! ## Statements -/

/-- `UPDATE generation_http_state .. WHERE generation_id = id AND p`, with the rows affected. -/
def updateStates (s : Store) (id : Uuid) (p : StateColumns → Bool)
    (f : StateColumns → StateColumns) : StateResult (Store × Nat) := do
  let (states, count) ← okOr (s.states.amend id p f) .unavailable
  return ({ s with states }, count)

/-- `UPDATE lifecycle_workers .. WHERE generation_id = id AND p`, with the rows affected. -/
def updateWorkers (s : Store) (id : Uuid) (p : WorkerColumns → Bool)
    (f : WorkerColumns → WorkerColumns) : StateResult (Store × Nat) := do
  let (workers, count) ← okOr (s.workers.amend id p f) .unavailable
  return ({ s with workers }, count)

/-- `UPDATE runner_generations .. WHERE id = id AND p`. -/
def updateGenerations (s : Store) (id : Uuid) (p : GenerationRow → Bool)
    (f : GenerationRow → GenerationRow) : Store :=
  { s with generations := s.generations.update (fun k r => k = id && p r) f }

def exactlyOne (count : Nat) : StateResult Unit :=
  ensure (count = 1) .conflict

/-- Unconditional column writes to one state row; callers hold the writer. -/
def setState (s : Store) (id : Uuid) (f : StateColumns → StateColumns) : StateResult Store := do
  let (s, _) ← s.updateStates id (fun _ => true) f
  return s

/-- Unconditional column writes to one worker row; callers hold the writer. -/
def setWorker (s : Store) (id : Uuid) (f : WorkerColumns → WorkerColumns) :
    StateResult Store := do
  let (s, _) ← s.updateWorkers id (fun _ => true) f
  return s

/-- `UPDATE runner_generations SET .. WHERE id = id`. -/
def setGeneration (s : Store) (id : Uuid) (f : GenerationRow → GenerationRow) : Store :=
  s.updateGenerations id (fun _ => true) f

/-- `INSERT INTO generation_http_state`. -/
def insertState (s : Store) (id : Uuid) (c : StateColumns) : StateResult Store :=
  if h : c.Check then do
    let states ← okOr (s.states.create id ⟨c, h⟩) .unavailable
    return { s with states }
  else .error .unavailable

/-- `INSERT INTO lifecycle_workers`. -/
def insertWorker (s : Store) (id : Uuid) (c : WorkerColumns) : StateResult Store :=
  if h : c.Check then do
    let workers ← okOr (s.workers.create id ⟨c, h⟩) .unavailable
    return { s with workers }
  else .error .unavailable

/-! ## What a statement that succeeded did

Each statement changes the view of one generation and leaves all others alone. -/

variable {s s' : Store} {id : Uuid}

theorem view_check_state {c : StateColumns} (h : (s.view id).state = some c) : c.Check := by
  obtain ⟨r, -, rfl⟩ := Option.map_eq_some_iff.mp h
  exact r.2

theorem view_putState (s : Store) (id : Uuid) (r : StateRow) :
    view { s with states := s.states.put id r } =
      Function.update s.view id { s.view id with state := some r.val } := by
  funext g
  by_cases h : g = id
  · subst h
    simp [view]
  · simp [view, h]

theorem view_putWorker (s : Store) (id : Uuid) (r : WorkerRow) :
    view { s with workers := s.workers.put id r } =
      Function.update s.view id { s.view id with worker := some r.val } := by
  funext g
  by_cases h : g = id
  · subst h
    simp [view]
  · simp [view, h]

theorem view_putGeneration (s : Store) (id : Uuid) (r : GenerationRow) :
    view { s with generations := s.generations.put id r } =
      Function.update s.view id { s.view id with generation := some r } := by
  funext g
  by_cases h : g = id
  · subst h
    simp [view]
  · simp [view, h]

theorem view_updateGenerations (s : Store) (id : Uuid) (p : GenerationRow → Bool)
    (f : GenerationRow → GenerationRow) :
    (s.updateGenerations id p f).view =
      Function.update s.view id { s.view id with
        generation := (s.view id).generation.map fun r => if p r then f r else r } := by
  funext g
  by_cases h : g = id
  · subst h
    simp [view, updateGenerations]
  · simp [view, updateGenerations, h]

theorem view_setGeneration (s : Store) (id : Uuid) (f : GenerationRow → GenerationRow) :
    (s.setGeneration id f).view =
      Function.update s.view id { s.view id with
        generation := (s.view id).generation.map f } := by
  rw [setGeneration, view_updateGenerations]
  simp

/-- A conditional update that affected exactly one row. -/
theorem updateStates_exactlyOne {p : StateColumns → Bool} {f : StateColumns → StateColumns}
    {n : Nat} {u : Unit} (h : s.updateStates id p f = .ok (s', n))
    (hn : exactlyOne n = .ok u) :
    ∃ c, (s.view id).state = some c ∧ p c ∧
      s'.view = Function.update s.view id { s.view id with state := some (f c) } ∧
      s' = { s with states := s'.states } := by
  have hn : n = 1 := ensure_eq_ok.mp hn
  subst hn
  unfold updateStates at h
  simp only [bind_eq_ok, okOr_eq_ok, Prod.exists] at h
  obtain ⟨states, count, hamend, hret⟩ := h
  cases hret
  obtain ⟨r, hr, hp, hf, rfl⟩ := Table.amend_eq_some_one hamend
  exact ⟨r, by simp [view, hr], hp, view_putState s id _, rfl⟩

theorem updateWorkers_exactlyOne {p : WorkerColumns → Bool} {f : WorkerColumns → WorkerColumns}
    {n : Nat} {u : Unit} (h : s.updateWorkers id p f = .ok (s', n))
    (hn : exactlyOne n = .ok u) :
    ∃ c, (s.view id).worker = some c ∧ p c ∧
      s'.view = Function.update s.view id { s.view id with worker := some (f c) } ∧
      s' = { s with workers := s'.workers } := by
  have hn : n = 1 := ensure_eq_ok.mp hn
  subst hn
  unfold updateWorkers at h
  simp only [bind_eq_ok, okOr_eq_ok, Prod.exists] at h
  obtain ⟨workers, count, hamend, hret⟩ := h
  cases hret
  obtain ⟨r, hr, hp, hf, rfl⟩ := Table.amend_eq_some_one hamend
  exact ⟨r, by simp [view, hr], hp, view_putWorker s id _, rfl⟩

/-- An unconditional state write: nothing without a row, the new columns with one. -/
theorem setState_ok {f : StateColumns → StateColumns} (h : s.setState id f = .ok s') :
    s'.view = Function.update s.view id
        { s.view id with state := (s.view id).state.map f } ∧
      s' = { s with states := s'.states } := by
  unfold setState updateStates at h
  simp only [bind_eq_ok, okOr_eq_ok, pure_eq_ok, Prod.exists] at h
  obtain ⟨s₁, n, ⟨states, count, hamend, hret⟩, rfl⟩ := h
  cases hret
  rcases Table.amend_eq_some hamend with ⟨rfl, hnone⟩ | ⟨r, hr, -, hf, rfl⟩
  · have hfind : s.states.find id = none := by
      cases hfind : s.states.find id with
      | none => rfl
      | some r => exact absurd (hnone r hfind) (by simp)
    refine ⟨?_, rfl⟩
    have hsame : { s.view id with state := (s.view id).state.map f } = s.view id := by
      simp [view, hfind]
    rw [hsame, Function.update_eq_self]
  · refine ⟨?_, rfl⟩
    rw [view_putState]
    simp [view, hr]

theorem setWorker_ok {f : WorkerColumns → WorkerColumns} (h : s.setWorker id f = .ok s') :
    s'.view = Function.update s.view id
        { s.view id with worker := (s.view id).worker.map f } ∧
      s' = { s with workers := s'.workers } := by
  unfold setWorker updateWorkers at h
  simp only [bind_eq_ok, okOr_eq_ok, pure_eq_ok, Prod.exists] at h
  obtain ⟨s₁, n, ⟨workers, count, hamend, hret⟩, rfl⟩ := h
  cases hret
  rcases Table.amend_eq_some hamend with ⟨rfl, hnone⟩ | ⟨r, hr, -, hf, rfl⟩
  · have hfind : s.workers.find id = none := by
      cases hfind : s.workers.find id with
      | none => rfl
      | some r => exact absurd (hnone r hfind) (by simp)
    refine ⟨?_, rfl⟩
    have hsame : { s.view id with worker := (s.view id).worker.map f } = s.view id := by
      simp [view, hfind]
    rw [hsame, Function.update_eq_self]
  · refine ⟨?_, rfl⟩
    rw [view_putWorker]
    simp [view, hr]

theorem insertState_ok {c : StateColumns} (h : s.insertState id c = .ok s') :
    (s.view id).state = none ∧
      s'.view = Function.update s.view id { s.view id with state := some c } ∧
      s' = { s with states := s'.states } := by
  unfold insertState at h
  split at h
  · next hc =>
    simp only [bind_eq_ok, okOr_eq_ok, pure_eq_ok, Table.create_eq_some] at h
    obtain ⟨states, ⟨hnone, rfl⟩, rfl⟩ := h
    exact ⟨by simp [view, hnone], view_putState s id ⟨c, hc⟩, rfl⟩
  · cases h

theorem insertWorker_ok {c : WorkerColumns} (h : s.insertWorker id c = .ok s') :
    (s.view id).worker = none ∧
      s'.view = Function.update s.view id { s.view id with worker := some c } ∧
      s' = { s with workers := s'.workers } := by
  unfold insertWorker at h
  split at h
  · next hc =>
    simp only [bind_eq_ok, okOr_eq_ok, pure_eq_ok, Table.create_eq_some] at h
    obtain ⟨workers, ⟨hnone, rfl⟩, rfl⟩ := h
    exact ⟨by simp [view, hnone], view_putWorker s id ⟨c, hc⟩, rfl⟩
  · cases h

end Store

end Shaula
