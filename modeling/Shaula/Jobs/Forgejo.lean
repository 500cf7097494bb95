import Shaula.Core.Records
import Shaula.Jobs.Association
import Shaula.Jobs.Pool
import Shaula.Library.Verdict
import Shaula.Registry.Spec

/-! # Forgejo jobs

Job records of Forgejo fleets.  Snapshots of what the runners of a target may run list jobs and the
task each has, and the task history of the instance reports how a task ended.  Job ids are scoped by
instance, target and fleet, by repository and by attempt.
-/

namespace Shaula

open Library Library.Outcome
open Registry (ForgejoScope ForgejoTarget)

namespace Jobs

namespace Forgejo

/-! ## What Forgejo reports -/

/-- A job of a snapshot. -/
structure ForgejoJob where
  id : Nat
  attempt : Nat
  status : String
  runsOn : List String
  taskId : Nat
  runId : Nat
  repoId : Nat
  name : String

inductive ForgejoTaskConclusion where
  | success
  | failure
  | cancelled
  | skipped
  deriving DecidableEq

def ForgejoTaskConclusion.asStr : ForgejoTaskConclusion → String
  | success => "success"
  | failure => "failure"
  | cancelled => "cancelled"
  | skipped => "skipped"

/-- How a task ended, by the task history of its repository. -/
structure ForgejoTaskResult where
  repositoryId : Nat
  taskId : Nat
  conclusion : ForgejoTaskConclusion
  owner : String
  repository : String
  runNumber : Nat
  runUrl : String
  workflow : String

/-- A job identity that a result was asked for. -/
structure ForgejoJobLookup where
  recordId : String
  repositoryId : Nat
  taskId : Nat
  deriving DecidableEq

/-- The parts of a URL that a check looks at. -/
structure Url where
  scheme : String
  origin : String
  username : String
  password : Option String
  query : Option String
  fragment : Option String
  path : List Char

/-- The path of an instance with one slash behind it. -/
def basePath (path : List Char) : List Char := (path.reverse.dropWhile (· = '/')).reverse ++ ['/']

/-- Whether a run is shown beneath the instance. -/
def beneath (url base : Url) : Bool :=
  (url.scheme = "http" || url.scheme = "https") && url.origin = base.origin &&
    url.username = "" && url.password.isNone && url.query.isNone && url.fragment.isNone &&
    (basePath base.path).isPrefixOf url.path

/-- The checks on a result of an instance, with the URL reader as a parameter. -/
def ForgejoTaskResult.validateForInstance (parse : String → Option Url) (r : ForgejoTaskResult)
    (inst : String) : StoreResult PUnit := do
  let validUrl := ((parse r.runUrl).bind fun url => (parse inst).map (beneath url)).getD false
  ensure (validUrl = true ∧ r.runNumber ≠ 0 ∧
      ∀ value ∈ [r.owner, r.repository, r.workflow, r.runUrl],
        value ≠ "" ∧ value.utf8ByteSize ≤ 2048 ∧ value.toList.any Core.isControl = false)
    (.corrupt "invalid Forgejo task result metadata")

/-! ## Rows -/

/-- The result that a record retains. -/
structure ForgejoJobResult where
  taskId : Nat
  conclusion : ForgejoTaskConclusion
  observedAt : Int
  runNumber : Nat
  runUrl : String
  workflow : String
  deriving DecidableEq

structure ForgejoJobState where
  target : ForgejoTarget
  repositoryId : Nat
  jobId : Nat
  attempt : Nat
  runId : Nat
  taskId : Nat
  runsOn : List String
  lastReportedStatus : String
  lastObservedAt : Int
  inSnapshot : Bool
  result : Option ForgejoJobResult
  enrichmentAttemptedAt : Option Int

/-- What a job is known by within its scope. -/
structure ProtocolId where
  repoId : Nat
  id : Nat
  attempt : Nat
  deriving DecidableEq

def ForgejoJob.protocolId (job : ForgejoJob) : ProtocolId := ⟨job.repoId, job.id, job.attempt⟩

/-- A record; its id is the key of the row. -/
structure Row where
  scopeKey : String
  fleetKey : String
  fleetIncarnation : String
  protocolJobId : ProtocolId
  summary : JobSummary
  forgejo : ForgejoJobState
  status : ObservedStatus
  repository : Option String
  jobName : Option String
  inSnapshot : Bool
  createdAt : Int
  updatedAt : Int

inductive ForgejoObservationSource where
  | runnerSnapshot
  | taskHistory

/-- A retained observation; without a status the job was missing from a snapshot. -/
structure ForgejoJobObservation where
  jobRecordId : String
  reportedStatus : Option String
  taskId : Nat
  observedAt : Int
  source : ForgejoObservationSource

structure Poll where
  observedAt : Int
  attemptedAt : Int
  failed : Bool
  enrichmentAttemptedAt : Int

structure Tables where
  jobs : Table String Row
  observations : List ForgejoJobObservation
  polls : Table String Poll

/-- The tables of a new store. -/
def Tables.empty : Tables := ⟨∅, [], ∅⟩

/-- The scope that a fleet is authorized for. -/
structure ScopeSnapshot where
  key : String
  target : ForgejoTarget

/-- The fleet that an operation acts for, and the scope it is found to have. -/
structure Caller where
  fleet : String
  incarnation : String
  current : StoreResult (Option ScopeSnapshot)

/-! ## Snapshots -/

/-- Checks on the jobs of a snapshot. -/
def validate (jobs : List ForgejoJob) : StoreResult PUnit := do
  ensure (jobs.length ≤ 10000 ∧ (∀ job ∈ jobs, job.id ≠ 0 ∧ job.repoId ≠ 0) ∧
      (jobs.map (·.protocolId)).Nodup)
    (.corrupt "invalid Forgejo job snapshot identities")
  ensure (∀ job ∈ jobs, job.name.utf8ByteSize ≤ 1024 ∧ job.status.utf8ByteSize ≤ 64 ∧
      job.status.toList.any Core.isControl = false ∧ job.runsOn.length ≤ 32 ∧
      ∀ label ∈ job.runsOn, label.utf8ByteSize ≤ 255 ∧ label.toList.any Core.isControl = false)
    (.corrupt "invalid Forgejo job snapshot")

/-- What a status of a job without a result says. -/
def reportedStatus (status : String) : ObservedStatus :=
  if status = "waiting" then .queued else if status = "running" then .running else .unknown

/-- The result a record has for the task that a job is listed with. -/
def retained (previous : Option Row) (job : ForgejoJob) : Option ForgejoJobState :=
  (previous.map (·.forgejo)).filter fun old => old.taskId = job.taskId

/-- The state of a listed job. -/
def listedState (target : ForgejoTarget) (previous : Option Row) (job : ForgejoJob) (now : Int) :
    ForgejoJobState where
  target := target
  repositoryId := job.repoId
  jobId := job.id
  attempt := job.attempt
  runId := job.runId
  taskId := job.taskId
  runsOn := job.runsOn
  lastReportedStatus := job.status
  lastObservedAt := now
  inSnapshot := true
  result := (retained previous job).bind (·.result)
  enrichmentAttemptedAt := (retained previous job).bind (·.enrichmentAttemptedAt)

/-- The owner and the name of the repository, where the target or an earlier record tells them. -/
def listedRepository (target : ForgejoTarget) (previous : Option Row) :
    Option String × Option String :=
  match target.scope with
  | .repository owner name => (some owner, some name)
  | _ =>
    (previous.bind (·.summary.metadata.ownerName), previous.bind (·.summary.metadata.repositoryName))

def repositoryFilter (job : ForgejoJob) : Option String × Option String → String
  | (some owner, some repository) => owner ++ "/" ++ repository
  | _ => "repository:" ++ toString job.repoId

/-- The summary of a listed job. -/
def listedSummary (target : ForgejoTarget) (previous : Option Row) (job : ForgejoJob) (now : Int) :
    JobSummary :=
  let state := listedState target previous job now
  let (ownerName, repositoryName) := listedRepository target previous
  { metadata := { JobMetadata.empty with jobDisplayName := some job.name, ownerName, repositoryName }
    observedStatus := if state.result.isSome then .completed else reportedStatus job.status
    reportedResult := state.result.map (·.conclusion.asStr)
    associationStatus := .unverified
    createdAt := (previous.map (·.summary.createdAt)).getD now
    updatedAt := (previous.map fun old => max now old.summary.updatedAt).getD now }

/-- The row of a listed job; a row that was there keeps its scope, fleet and creation time. -/
def listedRow (c : Caller) (scope : ScopeSnapshot) (previous : Option Row) (job : ForgejoJob)
    (now : Int) : Row :=
  let summary := listedSummary scope.target previous job now
  { scopeKey := scope.key
    fleetKey := (previous.map (·.fleetKey)).getD c.fleet
    fleetIncarnation := (previous.map (·.fleetIncarnation)).getD c.incarnation
    protocolJobId := job.protocolId
    summary
    forgejo := listedState scope.target previous job now
    status := summary.observedStatus
    repository := some (repositoryFilter job (listedRepository scope.target previous))
    jobName := some job.name
    inSnapshot := true
    createdAt := (previous.map (·.createdAt)).getD summary.createdAt
    updatedAt := summary.updatedAt }

/-- Whether a listing says anything new. -/
def changed (previous : Option Row) (job : ForgejoJob) : Bool :=
  previous.all fun old => !old.forgejo.inSnapshot || old.forgejo.lastReportedStatus ≠ job.status ||
    old.forgejo.taskId ≠ job.taskId

namespace Tables

/-- The record of a job in a scope. -/
def record (s : Tables) (scope : String) (id : ProtocolId) : Option (String × Row) :=
  s.jobs.rows.find? fun e => e.2.scopeKey = scope ∧ e.2.protocolJobId = id

/-- Writes a listed job's row. -/
def putListed (s : Tables) (c : Caller) (scope : ScopeSnapshot) (previous : Option Row)
    (id : String) (job : ForgejoJob) (now : Int) : Tables :=
  { s with
    jobs := s.jobs.put id (listedRow c scope previous job now)
    observations := s.observations ++
      if changed previous job then [⟨id, some job.status, job.taskId, now, .runnerSnapshot⟩] else [] }

/-- Writes the record of a listed job, under a drawn id when it is new. -/
def upsert (s : Tables) (c : Caller) (scope : ScopeSnapshot) (job : ForgejoJob) (drawn : String)
    (now : Int) : StoreResult (Tables × String) :=
  match s.record scope.key job.protocolId with
  | some (id, old) => .ok (s.putListed c scope (some old) id job now, id)
  | none =>
    if (s.jobs.find drawn).isSome then .error .unavailable
    else .ok (s.putListed c scope none drawn job now, drawn)

end Tables

/-- A record whose job is missing from a snapshot. -/
def Row.absent (row : Row) (now : Int) : Row :=
  let status := if row.forgejo.result.isNone then .unknown else row.summary.observedStatus
  { row with
    summary :=
      { row.summary with observedStatus := status, updatedAt := max row.summary.updatedAt now }
    forgejo := { row.forgejo with inSnapshot := false }
    status := status
    inSnapshot := false
    updatedAt := max row.summary.updatedAt now }

namespace Tables

/-- Whether a record was listed and no longer is. -/
def missing (scope : String) (present : List String) (id : String) (row : Row) : Bool :=
  row.scopeKey = scope && row.inSnapshot && id ∉ present

/-- Marks the records that a snapshot no longer lists. -/
def markAbsent (s : Tables) (scope : String) (present : List String) (now : Int) : Tables :=
  { s with
    jobs := s.jobs.update (missing scope present) fun row => row.absent now
    observations := s.observations ++
      (s.jobs.rows.filter fun e => missing scope present e.1 e.2).map fun e =>
        ⟨e.1, none, e.2.forgejo.taskId, now, .runnerSnapshot⟩ }

def pollFailed (s : Tables) (scope : String) (now : Int) : Tables :=
  let poll := (s.polls.find scope).getD ⟨0, now, true, 0⟩
  { s with polls := s.polls.put scope { poll with attemptedAt := now, failed := true } }

def pollObserved (s : Tables) (scope : String) (now : Int) : Tables :=
  let poll := (s.polls.find scope).getD ⟨now, now, false, 0⟩
  { s with
    polls := s.polls.put scope { poll with observedAt := now, attemptedAt := now, failed := false } }

/-- Lists one job of a snapshot. -/
def listJob (c : Caller) (scope : ScopeSnapshot) (draw : ForgejoJob → String) (now : Int)
    (state : Tables × List String) (job : ForgejoJob) : StoreResult (Tables × List String) := do
  let (s, id) ← state.1.upsert c scope job (draw job) now
  return (s, id :: state.2)

/-- Stores a complete snapshot. -/
def observe (s : Tables) (c : Caller) (scope : ScopeSnapshot) (draw : ForgejoJob → String)
    (jobs : List ForgejoJob) (now : Int) : StoreResult Tables := do
  validate jobs
  let (s, present) ← jobs.foldlM (listJob c scope draw now) (s, [])
  return (s.markAbsent scope.key present now).pollObserved scope.key now

/-- Stores a snapshot, or that none could be taken, unless a later one is stored. -/
def observeForgejoJobs (s : Tables) (c : Caller) (draw : ForgejoJob → String)
    (jobs : Option (List ForgejoJob)) (now : Int) : StoreResult (Tables × Bool) := do
  match ← c.current with
  | none => return (s, false)
  | some scope =>
    if ((s.polls.find scope.key).any fun poll => now < poll.attemptedAt) = true then
      return (s, false)
    else
      match jobs with
      | none => return (s.pollFailed scope.key now, true)
      | some jobs =>
        let s ← s.observe c scope draw jobs now
        return (s, true)

end Tables

/-! ## Task history -/

namespace Tables

/-- Takes a scope's turn to read task history, unless it had one in the last thirty seconds. -/
def reserve (s : Tables) (scope : String) (now : Int) : Option Tables :=
  ((s.polls.find scope).filter fun poll => poll.enrichmentAttemptedAt = 0 ∨
      poll.enrichmentAttemptedAt ≤ saturatingSub now 30000).map fun poll =>
    { s with polls := s.polls.put scope { poll with enrichmentAttemptedAt := now } }

/-- The records of a scope that have a task and are not completed. -/
def candidates (s : Tables) (scope : String) : List (String × Row) :=
  inTurn (·.forgejo.enrichmentAttemptedAt) (·.createdAt)
    (fun row => row.scopeKey = scope ∧ row.status ≠ .completed ∧ 0 < row.forgejo.taskId) 100 s.jobs

/-- Notes that a record was asked for. -/
def ask (s : Tables) (id : String) (row : Row) (now : Int) : Tables :=
  { s with
    jobs := s.jobs.put id { row with
      forgejo := { row.forgejo with enrichmentAttemptedAt := some now } } }

/-- Selects records to ask for, at most twenty of at most four repositories. -/
def select (now : Int) : List (String × Row) → List Nat → List ForgejoJobLookup → Tables →
    StoreResult (Tables × List ForgejoJobLookup)
  | [], _, selected, s => .ok (s, selected)
  | (id, row) :: rest, repositories, selected, s => do
    let repositoryId ← decimalId "invalid Forgejo task identity" row.forgejo.repositoryId
    if repositoryId ∉ repositories ∧ 4 ≤ repositories.length then
      select now rest repositories selected s
    else
      let taskId ← decimalId "invalid Forgejo task identity" row.forgejo.taskId
      let selected := selected ++ [⟨id, repositoryId, taskId⟩]
      if selected.length = 20 then return (s.ask id row now, selected)
      else select now rest (repositories.insert repositoryId) selected (s.ask id row now)

/-- The records to ask the task history for. -/
def pendingForgejoResults (s : Tables) (c : Caller) (now : Int) :
    StoreResult (Tables × List ForgejoJobLookup) := do
  match ← c.current with
  | none => return (s, [])
  | some scope =>
    match s.reserve scope.key now with
    | none => return (s, [])
    | some reserved => select now (s.candidates scope.key) [] [] reserved

/-- The records of a scope that claim a task, two of them at most. -/
def claimants (s : Tables) (scope : String) (repositoryId taskId : Nat) : List (String × Row) :=
  (s.jobs.rows.filter fun e => e.2.scopeKey = scope ∧ e.2.forgejo.repositoryId = repositoryId ∧
    e.2.forgejo.taskId = taskId).take 2

end Tables

/-- What a record retains of a result. -/
def ForgejoTaskResult.retain (result : ForgejoTaskResult) (now : Int) : ForgejoJobResult where
  taskId := result.taskId
  conclusion := result.conclusion
  observedAt := now
  runNumber := result.runNumber
  runUrl := result.runUrl
  workflow := result.workflow

/-- A record with the result of its task. -/
def Row.settled (row : Row) (result : ForgejoTaskResult) (now : Int) : Row :=
  { row with
    summary :=
      { row.summary with
        metadata :=
          { row.summary.metadata with
            ownerName := some result.owner, repositoryName := some result.repository }
        observedStatus := .completed
        reportedResult := some result.conclusion.asStr
        updatedAt := now }
    forgejo := { row.forgejo with result := some (result.retain now) }
    status := .completed
    repository := some (result.owner ++ "/" ++ result.repository)
    updatedAt := now }

namespace Tables

/-- Applies a result to the record it was asked for, where it may be applied. -/
def applyTo (s : Tables) (scope : String) (id : String) (row : Row) (result : ForgejoTaskResult)
    (now : Int) : Tables × Bool :=
  if row.forgejo.taskId ≠ result.taskId ∨ row.forgejo.repositoryId ≠ result.repositoryId ∨
      now < row.summary.updatedAt then
    (s, false)
  -- Two different records claiming the same task are ambiguous.
  else if (s.claimants scope row.forgejo.repositoryId row.forgejo.taskId).length ≠ 1 then (s, false)
  else
    match row.forgejo.result with
    | some previous =>
      (s, previous.taskId = row.forgejo.taskId ∧ previous.conclusion = result.conclusion)
    | none =>
      ({ s with
          jobs := s.jobs.put id (row.settled result now)
          observations := s.observations ++
            [⟨id, some result.conclusion.asStr, result.taskId, now, .taskHistory⟩] }, true)

/-- Applies a result of the task history. -/
def applyForgejoResult (parse : String → Option Url) (s : Tables) (c : Caller)
    (lookup : ForgejoJobLookup) (result : ForgejoTaskResult) (now : Int) :
    StoreResult (Tables × Bool) :=
  if lookup.taskId = 0 ∨ lookup.repositoryId = 0 ∨ lookup.taskId ≠ result.taskId ∨
      lookup.repositoryId ≠ result.repositoryId then
    .ok (s, false)
  else do
    match ← c.current with
    | none => return (s, false)
    | some scope =>
      result.validateForInstance parse scope.target.instanceUrl
      match (s.jobs.find lookup.recordId).filter (·.scopeKey = scope.key) with
      | none => return (s, false)
      | some row => return s.applyTo scope.key lookup.recordId row result now

end Tables

/-! ## Operations -/

inductive Op where
  | snapshot (c : Caller) (draw : ForgejoJob → String) (jobs : Option (List ForgejoJob)) (now : Int)
  | pending (c : Caller) (now : Int)
  | result (c : Caller) (lookup : ForgejoJobLookup) (result : ForgejoTaskResult) (now : Int)

/-- Runs an operation; a failing one is rolled back. -/
def Op.run (parse : String → Option Url) (s : Tables) : Op → Tables
  | snapshot c draw jobs now => ((s.observeForgejoJobs c draw jobs now).toOption.map (·.1)).getD s
  | pending c now => ((s.pendingForgejoResults c now).toOption.map (·.1)).getD s
  | result c lookup found now =>
    ((s.applyForgejoResult parse c lookup found now).toOption.map (·.1)).getD s

/-! ## Records -/

/-- What a record speaks of: a task of a job. -/
structure Subject where
  scopeKey : String
  job : ProtocolId
  taskId : Nat

def Row.finding (row : Row) : Finding Subject ForgejoJobResult :=
  ⟨⟨row.scopeKey, row.protocolJobId, row.forgejo.taskId⟩, row.forgejo.result⟩

def Tables.view (s : Tables) (id : String) : Option (Finding Subject ForgejoJobResult) :=
  (s.jobs.find id).map (·.finding)

/-- A listing of the job with another task. -/
def Relists (c : Caller) (jobs : List ForgejoJob) (subject : Subject) : Prop :=
  ∃ scope, c.current = .ok (some scope) ∧ scope.key = subject.scopeKey ∧
    ∃ job ∈ jobs, job.protocolId = subject.job ∧ job.taskId ≠ subject.taskId

/-- The operations that turn a record to another task. -/
def Op.turns (_ : String) (subject : Subject) : Op → Prop
  | snapshot c _ (some jobs) _ => Relists c jobs subject
  | _ => False

/-- The operations that report a result for exactly the record's task. -/
def Op.reports (id : String) (subject : Subject) (verdict : ForgejoJobResult) : Op → Prop
  | result c lookup found now => ∃ scope, c.current = .ok (some scope) ∧
      scope.key = subject.scopeKey ∧ lookup.recordId = id ∧
      found.repositoryId = subject.job.repoId ∧ found.taskId = subject.taskId ∧
      verdict = found.retain now
  | _ => False

/-- A record is completed exactly when it has a result, and the result is of its task. -/
structure Row.Valid (row : Row) : Prop where
  status : row.summary.observedStatus = row.status
  completed : row.status = .completed ↔ row.forgejo.result.isSome = true
  repository : row.forgejo.repositoryId = row.protocolJobId.repoId
  task : ∀ r, row.forgejo.result = some r → r.taskId = row.forgejo.taskId

def Tables.Valid (s : Tables) : Prop := ∀ id row, s.jobs.find id = some row → row.Valid

theorem Tables.valid_empty : Tables.empty.Valid := by
  intro id row h
  cases h

theorem Tables.Valid.put {s : Tables} (h : s.Valid) {id : String} {row : Row} (hrow : row.Valid) :
    ∀ id' row', (s.jobs.put id row).find id' = some row' → row'.Valid := by
  intro id' row' hfind
  rw [Table.find_put] at hfind
  by_cases hid : id' = id
  · rw [if_pos hid] at hfind
    cases hfind
    exact hrow
  · rw [if_neg hid] at hfind
    exact h _ _ hfind

/-! ## What a snapshot does to the records -/

section

variable {c : Caller} {scope : ScopeSnapshot} {s t : Tables} {job : ForgejoJob} {id : String}
  {now : Int} {old row : Row}

theorem reportedStatus_ne_completed (status : String) : reportedStatus status ≠ .completed := by
  unfold reportedStatus
  split_ifs <;> decide

theorem Tables.record_eq_some {key : String} {pid : ProtocolId}
    (h : s.record key pid = some (id, old)) :
    s.jobs.find id = some old ∧ old.scopeKey = key ∧ old.protocolJobId = pid := by
  have hmem := Table.mem_rows.mp (List.mem_of_find?_eq_some h)
  have hkey := List.find?_some h
  simp only [decide_eq_true_eq] at hkey
  exact ⟨hmem, hkey⟩

theorem listedRow_valid {previous : Option Row}
    (hvalid : ∀ old, previous = some old → old.Valid) :
    (listedRow c scope previous job now).Valid := by
  constructor
  · rfl
  · change (if (listedState scope.target previous job now).result.isSome = true then
        ObservedStatus.completed else reportedStatus job.status) = _ ↔
      (listedState scope.target previous job now).result.isSome = true
    by_cases hresult : (listedState scope.target previous job now).result.isSome = true
    · simp [hresult]
    · simp [hresult, reportedStatus_ne_completed]
  · rfl
  · intro r hr
    simp only [listedRow, listedState, retained, Option.bind_eq_some_iff, Option.filter_eq_some_iff,
      Option.map_eq_some_iff, decide_eq_true_eq] at hr
    obtain ⟨state, ⟨⟨old, hold, rfl⟩, htask⟩, hr⟩ := hr
    rw [(hvalid old hold).task r hr, htask]
    rfl

/-- A listed job keeps the result of its task, or takes up a new task. -/
theorem listedRow_moves {turns : String → Subject → Prop}
    (hscope : old.scopeKey = scope.key) (hjob : old.protocolJobId = job.protocolId)
    (hturns : old.forgejo.taskId ≠ job.taskId → turns id old.finding.subject) :
    Verdict.Moves turns (fun _ _ _ => False) id (some old.finding)
      (some (listedRow c scope (some old) job now).finding) := by
  by_cases htask : old.forgejo.taskId = job.taskId
  · have hsame : (listedRow c scope (some old) job now).finding = old.finding := by
      simp [Row.finding, listedRow, listedState, retained, hscope, hjob, htask, Option.filter]
    rw [hsame]
    exact .same _
  · have hnone : (listedRow c scope (some old) job now).forgejo.result = none := by
      simp [listedRow, listedState, retained, Option.filter, htask]
    unfold Row.finding
    rw [hnone]
    exact .turned (hturns htask)

theorem Tables.view_putListed (previous : Option Row) (id' : String) :
    (s.putListed c scope previous id job now).view id' =
      if id' = id then some (listedRow c scope previous job now).finding else s.view id' := by
  unfold Tables.view Tables.putListed
  rw [Table.find_put]
  by_cases hid : id' = id <;> simp [hid]

theorem Tables.upsert_moves {turns : String → Subject → Prop} {drawn : String} (hs : s.Valid)
    (h : s.upsert c scope job drawn now = .ok (t, id))
    (hturns : ∀ id subject, subject.scopeKey = scope.key → subject.job = job.protocolId →
      subject.taskId ≠ job.taskId → turns id subject) :
    t.Valid ∧ ∀ id', Verdict.Moves turns (fun _ _ _ => False) id' (s.view id') (t.view id') := by
  unfold Tables.upsert at h
  split at h
  · next old hrecord =>
    cases h
    obtain ⟨hfind, hscope, hjob⟩ := Tables.record_eq_some hrecord
    refine ⟨hs.put (listedRow_valid fun _ hold => ?_), fun id' => ?_⟩
    · cases hold
      exact hs _ _ hfind
    · rw [Tables.view_putListed]
      by_cases hid : id' = id
      · subst hid
        rw [if_pos rfl, Tables.view, hfind, Option.map_some]
        exact listedRow_moves hscope hjob fun htask => hturns _ _ hscope hjob htask
      · rw [if_neg hid]
        exact .same _
  · next hrecord =>
    split_ifs at h with htaken
    cases h
    refine ⟨hs.put (listedRow_valid fun _ hold => by cases hold), fun id' => ?_⟩
    rw [Tables.view_putListed]
    by_cases hid : id' = id
    · subst hid
      have hnone : s.jobs.find id' = none := by simpa using htaken
      rw [if_pos rfl, Tables.view, hnone, Option.map_none]
      exact .opened _
    · rw [if_neg hid]
      exact .same _

theorem Row.Valid.absent (h : row.Valid) : (row.absent now).Valid := by
  constructor
  · rfl
  · change (if row.forgejo.result.isNone = true then ObservedStatus.unknown
        else row.summary.observedStatus) = _ ↔ row.forgejo.result.isSome = true
    cases hresult : row.forgejo.result with
    | none => simp
    | some r =>
      have hcompleted := h.completed
      rw [hresult] at hcompleted
      simp [h.status, hcompleted]
  · exact h.repository
  · exact h.task

theorem Tables.markAbsent_keeps (hs : s.Valid) (key : String) (present : List String) :
    (s.markAbsent key present now).Valid ∧
      ∀ id, (s.markAbsent key present now).view id = s.view id := by
  constructor
  · intro id row hrow
    simp only [Tables.markAbsent, Table.find_update, Option.map_eq_some_iff] at hrow
    obtain ⟨old, hold, rfl⟩ := hrow
    split_ifs
    · exact (hs _ _ hold).absent
    · exact hs _ _ hold
  · intro id
    unfold Tables.view Tables.markAbsent
    rw [Table.find_update, Option.map_map]
    cases s.jobs.find id with
    | none => rfl
    | some old =>
      simp only [Option.map_some, Function.comp_apply]
      split_ifs <;> rfl

/-- The jobs of a snapshot, one after another. -/
theorem Tables.listJobs_moves {draw : ForgejoJob → String} {listed jobs : List ForgejoJob}
    {present present' : List String} (hlisted : ∀ job ∈ jobs, job ∈ listed) (hs : s.Valid)
    (h : jobs.foldlM (Tables.listJob c scope draw now) (s, present) = .ok (t, present')) :
    t.Valid ∧ ∀ id, Verdict.Moves (fun _ subject => scope.key = subject.scopeKey ∧
        ∃ job ∈ listed, job.protocolId = subject.job ∧ job.taskId ≠ subject.taskId)
      (fun _ _ _ => False) id (s.view id) (t.view id) := by
  induction jobs generalizing s present with
  | nil =>
    cases h
    exact ⟨hs, fun id => .same _⟩
  | cons job rest ih =>
    obtain ⟨hjob, hrest⟩ := List.forall_mem_cons.mp hlisted
    simp only [List.foldlM_cons, Tables.listJob, bind_eq_ok, pure_eq_ok] at h
    obtain ⟨state, ⟨⟨u, id⟩, hupsert, rfl⟩, h⟩ := h
    have hupserted : u.Valid ∧ ∀ id, Verdict.Moves (fun _ subject =>
        scope.key = subject.scopeKey ∧
          ∃ job ∈ listed, job.protocolId = subject.job ∧ job.taskId ≠ subject.taskId)
        (fun _ _ _ => False) id (s.view id) (u.view id) :=
      Tables.upsert_moves hs hupsert fun _ subject hscope hpid htask =>
        ⟨hscope.symm, job, hjob, hpid.symm, htask.symm⟩
    obtain ⟨hu, hfirst⟩ := hupserted
    obtain ⟨ht, hlater⟩ := ih hrest hu h
    exact ⟨ht, fun id => (hfirst id).trans_of_quiet (hlater id) fun _ _ h => h⟩

theorem Tables.observe_moves {draw : ForgejoJob → String} {jobs : List ForgejoJob} (hs : s.Valid)
    (h : s.observe c scope draw jobs now = .ok t) :
    t.Valid ∧ ∀ id, Verdict.Moves (fun _ subject => scope.key = subject.scopeKey ∧
        ∃ job ∈ jobs, job.protocolId = subject.job ∧ job.taskId ≠ subject.taskId)
      (fun _ _ _ => False) id (s.view id) (t.view id) := by
  simp only [Tables.observe, bind_eq_ok, pure_eq_ok] at h
  obtain ⟨⟨⟩, -, ⟨u, present⟩, hlist, rfl⟩ := h
  obtain ⟨hu, hmoves⟩ := Tables.listJobs_moves (fun _ hjob => hjob) hs hlist
  have hkept : (u.markAbsent scope.key present now).Valid ∧
      ∀ id, (u.markAbsent scope.key present now).view id = u.view id :=
    Tables.markAbsent_keeps hu scope.key present
  obtain ⟨hvalid, hview⟩ := hkept
  refine ⟨hvalid, fun id => ?_⟩
  have hpoll : ((u.markAbsent scope.key present now).pollObserved scope.key now).view id =
      u.view id := hview id
  rw [hpoll]
  exact hmoves id

theorem Tables.observeForgejoJobs_moves {draw : ForgejoJob → String}
    {jobs : Option (List ForgejoJob)} {answer : Bool} (hs : s.Valid)
    (h : s.observeForgejoJobs c draw jobs now = .ok (t, answer)) :
    t.Valid ∧ ∀ id, Verdict.Moves
      (fun k subject => Op.turns k subject (.snapshot c draw jobs now)) (fun _ _ _ => False) id
      (s.view id) (t.view id) := by
  simp only [Tables.observeForgejoJobs, bind_eq_ok] at h
  obtain ⟨current, hcurrent, h⟩ := h
  split at h
  · simp only [pure_eq_ok, Prod.mk.injEq] at h
    obtain ⟨rfl, -⟩ := h
    exact ⟨hs, fun id => .same _⟩
  · next scope =>
    split_ifs at h
    · simp only [pure_eq_ok, Prod.mk.injEq] at h
      obtain ⟨rfl, -⟩ := h
      exact ⟨hs, fun id => .same _⟩
    · split at h
      · simp only [pure_eq_ok, Prod.mk.injEq] at h
        obtain ⟨rfl, -⟩ := h
        exact ⟨hs, fun id => .same _⟩
      · next jobs =>
        simp only [bind_eq_ok, pure_eq_ok, Prod.mk.injEq] at h
        obtain ⟨u, hobserve, rfl, -⟩ := h
        obtain ⟨hu, hmoves⟩ := Tables.observe_moves hs hobserve
        refine ⟨hu, fun id => (hmoves id).mono ?_ fun _ _ h => h⟩
        rintro subject ⟨hscope, hjob⟩
        exact ⟨scope, hcurrent, hscope, hjob⟩

/-! ## What the task history does to the records -/

variable (now) in
theorem Tables.ask_keeps (hs : s.Valid) (hfind : s.jobs.find id = some row) :
    (s.ask id row now).Valid ∧ ∀ id', (s.ask id row now).view id' = s.view id' := by
  have hrow := hs _ _ hfind
  constructor
  · exact hs.put ⟨hrow.status, hrow.completed, hrow.repository, hrow.task⟩
  · intro id'
    unfold Tables.view Tables.ask
    rw [Table.find_put]
    by_cases hid : id' = id
    · subst hid
      rw [if_pos rfl, hfind]
      rfl
    · rw [if_neg hid]

/-- Asking changes no record but the one asked for. -/
theorem Tables.find_ask_of_ne {id' : String} (hid : id' ≠ id) :
    (s.ask id row now).jobs.find id' = s.jobs.find id' := by
  unfold Tables.ask
  rw [Table.find_put, if_neg hid]

theorem Tables.select_keeps {rows : List (String × Row)} {repositories : List Nat}
    {selected selected' : List ForgejoJobLookup} (hs : s.Valid)
    (hrows : ∀ e ∈ rows, s.jobs.find e.1 = some e.2) (hnodup : (rows.map (·.1)).Nodup)
    (h : Tables.select now rows repositories selected s = .ok (t, selected')) :
    t.Valid ∧ ∀ id, t.view id = s.view id := by
  induction rows generalizing s repositories selected with
  | nil =>
    cases h
    exact ⟨hs, fun _ => rfl⟩
  | cons e rest ih =>
    obtain ⟨id, row⟩ := e
    obtain ⟨hfirst, hrest⟩ := List.forall_mem_cons.mp hrows
    obtain ⟨hnew, hnodup⟩ := List.nodup_cons.mp hnodup
    simp only [Tables.select, decimalId, bind_eq_ok, ensure_eq_ok, pure_eq_ok] at h
    obtain ⟨repositoryId, -, h⟩ := h
    split_ifs at h
    · exact ih hs hrest hnodup h
    · simp only [bind_eq_ok, ensure_eq_ok, pure_eq_ok] at h
      obtain ⟨taskId, -, h⟩ := h
      obtain ⟨hasked, hview⟩ := Tables.ask_keeps now hs hfirst
      split_ifs at h
      · simp only [pure_eq_ok, Prod.mk.injEq] at h
        obtain ⟨rfl, -⟩ := h
        exact ⟨hasked, hview⟩
      · have hothers : ∀ e ∈ rest, (s.ask id row now).jobs.find e.1 = some e.2 := by
          intro e he
          rw [Tables.find_ask_of_ne]
          · exact hrest e he
          · rintro rfl
            exact hnew (List.mem_map.mpr ⟨e, he, rfl⟩)
        obtain ⟨ht, hsame⟩ := ih hasked hothers hnodup h
        exact ⟨ht, fun id => (hsame id).trans (hview id)⟩

theorem Tables.pendingForgejoResults_keeps {selected : List ForgejoJobLookup} (hs : s.Valid)
    (h : s.pendingForgejoResults c now = .ok (t, selected)) :
    t.Valid ∧ ∀ id, t.view id = s.view id := by
  simp only [Tables.pendingForgejoResults, bind_eq_ok] at h
  obtain ⟨current, -, h⟩ := h
  split at h
  · simp only [pure_eq_ok, Prod.mk.injEq] at h
    obtain ⟨rfl, -⟩ := h
    exact ⟨hs, fun _ => rfl⟩
  · next scope =>
    split at h
    · simp only [pure_eq_ok, Prod.mk.injEq] at h
      obtain ⟨rfl, -⟩ := h
      exact ⟨hs, fun _ => rfl⟩
    · next reserved hreserve =>
      obtain ⟨poll, -, hreserved⟩ := Option.map_eq_some_iff.mp hreserve
      have hjobs : reserved.jobs = s.jobs := by rw [← hreserved]
      have hvalid : reserved.Valid := fun id row hrow => hs id row (hjobs ▸ hrow)
      obtain ⟨ht, hview⟩ := Tables.select_keeps hvalid (hjobs ▸ inTurn_spec.1) inTurn_spec.2 h
      refine ⟨ht, fun id => (hview id).trans ?_⟩
      rw [Tables.view, hjobs]
      rfl

theorem Row.Valid.settled {found : ForgejoTaskResult} (h : row.Valid)
    (htask : row.forgejo.taskId = found.taskId) : (row.settled found now).Valid := by
  constructor
  · rfl
  · simp [Row.settled]
  · exact h.repository
  · intro r hr
    cases hr
    exact htask.symm

/-- A result is recorded for the one record that claims its task and has none, or nothing
happens. -/
theorem Tables.applyTo_cases (key id : String) (row : Row) (found : ForgejoTaskResult) (now : Int) :
    (s.applyTo key id row found now).1 = s ∨
      row.forgejo.taskId = found.taskId ∧ row.forgejo.repositoryId = found.repositoryId ∧
        (s.claimants key found.repositoryId found.taskId).length = 1 ∧ row.forgejo.result = none ∧
        (s.applyTo key id row found now).1 =
          { s with
            jobs := s.jobs.put id (row.settled found now)
            observations := s.observations ++
              [⟨id, some found.conclusion.asStr, found.taskId, now, .taskHistory⟩] } := by
  unfold Tables.applyTo
  split_ifs with hstale hclaims
  · exact .inl rfl
  · exact .inl rfl
  · simp only [not_or, not_not] at hstale
    obtain ⟨htask, hrepository, -⟩ := hstale
    rw [htask, hrepository, not_not] at hclaims
    cases hresult : row.forgejo.result with
    | some previous => exact .inl rfl
    | none => exact .inr ⟨htask, hrepository, hclaims, rfl, rfl⟩

/-- An applied result found the record it was asked for in the scope. -/
theorem Tables.applyForgejoResult_cases {parse : String → Option Url} {lookup : ForgejoJobLookup}
    {found : ForgejoTaskResult} {answer : Bool}
    (h : s.applyForgejoResult parse c lookup found now = .ok (t, answer)) :
    t = s ∨ ∃ scope row, c.current = .ok (some scope) ∧ s.jobs.find lookup.recordId = some row ∧
      row.scopeKey = scope.key ∧ t = (s.applyTo scope.key lookup.recordId row found now).1 := by
  unfold Tables.applyForgejoResult at h
  split_ifs at h with hlookup
  · cases h
    exact .inl rfl
  · simp only [bind_eq_ok] at h
    obtain ⟨current, hcurrent, h⟩ := h
    split at h
    · simp only [pure_eq_ok, Prod.mk.injEq] at h
      exact .inl h.1.symm
    · next scope =>
      simp only [bind_eq_ok] at h
      obtain ⟨⟨⟩, -, h⟩ := h
      split at h
      · simp only [pure_eq_ok, Prod.mk.injEq] at h
        exact .inl h.1.symm
      · next row hrow =>
        obtain ⟨hfind, hscope⟩ := Option.filter_eq_some_iff.mp hrow
        simp only [pure_eq_ok] at h
        refine .inr ⟨scope, row, hcurrent, hfind, by simpa using hscope, ?_⟩
        rw [h]

theorem Tables.applyForgejoResult_moves {parse : String → Option Url} {lookup : ForgejoJobLookup}
    {found : ForgejoTaskResult} {answer : Bool} (hs : s.Valid)
    (h : s.applyForgejoResult parse c lookup found now = .ok (t, answer)) :
    t.Valid ∧ ∀ id, Verdict.Moves (fun _ _ => False)
      (fun k subject verdict => Op.reports k subject verdict (.result c lookup found now)) id
      (s.view id) (t.view id) := by
  rcases Tables.applyForgejoResult_cases h with rfl | ⟨scope, row, hcurrent, hfind, hscope, rfl⟩
  · exact ⟨hs, fun id => .same _⟩
  · rcases s.applyTo_cases scope.key lookup.recordId row found now with
      hsame | ⟨htask, hrepository, -, hnone, hput⟩
    · rw [hsame]
      exact ⟨hs, fun id => .same _⟩
    · have hrow := hs _ _ hfind
      rw [hput]
      refine ⟨hs.put (hrow.settled htask), fun id => ?_⟩
      unfold Tables.view
      rw [Table.find_put]
      by_cases hid : id = lookup.recordId
      · subst hid
        rw [if_pos rfl, hfind, Option.map_some, Option.map_some, Row.finding, hnone]
        exact .settled ⟨scope, hcurrent, hscope.symm, rfl, hrepository.symm.trans hrow.repository,
          htask.symm, rfl⟩
      · rw [if_neg hid]
        exact .same _

end

/-! ## What an operation does to the records -/

section

variable {parse : String → Option Url} {s : Tables}

/-- Every operation keeps the records valid, turns only records whose job it lists with another
task, and settles only records that its result is for. -/
theorem Op.run_moves (op : Op) (hs : s.Valid) :
    (op.run parse s).Valid ∧ ∀ id, Verdict.Moves (fun k subject => op.turns k subject)
      (fun k subject verdict => op.reports k subject verdict) id
      (s.view id) ((op.run parse s).view id) := by
  cases op with
  | snapshot c draw jobs now =>
    rw [Op.run]
    cases hrun : s.observeForgejoJobs c draw jobs now with
    | error e => exact ⟨hs, fun id => .same _⟩
    | ok result =>
      obtain ⟨ht, hmoves⟩ := Tables.observeForgejoJobs_moves hs hrun
      exact ⟨ht, fun id => (hmoves id).mono (fun _ h => h) fun _ _ h => h.elim⟩
  | pending c now =>
    rw [Op.run]
    cases hrun : s.pendingForgejoResults c now with
    | error e => exact ⟨hs, fun id => .same _⟩
    | ok result =>
      obtain ⟨ht, hview⟩ := Tables.pendingForgejoResults_keeps hs hrun
      refine ⟨ht, fun id => ?_⟩
      have hid := hview id
      simp only [Except.toOption, Option.map_some, Option.getD_some]
      rw [hid]
      exact .same _
  | result c lookup found now =>
    rw [Op.run]
    cases hrun : s.applyForgejoResult parse c lookup found now with
    | error e => exact ⟨hs, fun id => .same _⟩
    | ok result =>
      obtain ⟨ht, hmoves⟩ := Tables.applyForgejoResult_moves hs hrun
      exact ⟨ht, fun id => (hmoves id).mono (fun _ h => h.elim) fun _ _ h => h⟩

end

end Forgejo

end Jobs

end Shaula
