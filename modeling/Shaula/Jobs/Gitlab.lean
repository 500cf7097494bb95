import Shaula.Core.Records
import Shaula.Jobs.Association
import Shaula.Jobs.Pool
import Shaula.Library.Verdict
import Shaula.Registry.Spec

/-! # GitLab jobs

Job records of GitLab fleets.  A record is opened for a job that a generation's own registration
runs, and exact reads refresh it later.  Job ids are scoped by fleet, instance, scope and Auth
Profile, and by project.
-/

namespace Shaula

open Library Library.Outcome
open Registry (GitlabTarget trim)

namespace Jobs

namespace Gitlab

/-! ## What GitLab reports -/

inductive GitlabJobConclusion where
  | success
  | failed
  | canceled
  | skipped
  deriving DecidableEq

namespace GitlabJobConclusion

def asStr : GitlabJobConclusion → String
  | success => "success"
  | failed => "failed"
  | canceled => "canceled"
  | skipped => "skipped"

def parse (status : String) : Option GitlabJobConclusion :=
  if status = "success" then some success
  else if status = "failed" then some failed
  else if status = "canceled" then some canceled
  else if status = "skipped" then some skipped
  else none

end GitlabJobConclusion

/-- What a status says; most that are not terminal stay unknown. -/
def gitlabObservedStatus (status : String) : ObservedStatus :=
  if status = "pending" then .queued
  else if status = "running" then .running
  else if (GitlabJobConclusion.parse status).isSome then .completed
  else .unknown

/-- A job that a registration lists as running. -/
structure GitlabRunningJob where
  id : Nat
  projectId : Nat
  projectPath : String
  pipelineId : Nat
  name : String
  status : String

/-- A job that was read by its identity. -/
structure GitlabJobDetail where
  id : Nat
  projectId : Nat
  projectPath : String
  pipelineId : Nat
  name : String
  status : String
  runnerId : Option Nat

structure GitlabJobLookup where
  recordId : String
  projectId : Nat
  jobId : Nat
  deriving DecidableEq

inductive GitlabObservationSource where
  | runnerJobs
  | jobRead

/-- What a job is known by within its scope. -/
structure ProtocolId where
  projectId : Nat
  jobId : Nat
  deriving DecidableEq

/-- One reading of a job. -/
structure Reading where
  projectId : Nat
  projectPath : String
  jobId : Nat
  pipelineId : Nat
  name : String
  status : String
  runnerId : Option Nat
  source : GitlabObservationSource

def Reading.protocolId (r : Reading) : ProtocolId := ⟨r.projectId, r.jobId⟩

def GitlabRunningJob.reading (job : GitlabRunningJob) (runnerId : Nat) : Reading where
  projectId := job.projectId
  projectPath := job.projectPath
  jobId := job.id
  pipelineId := job.pipelineId
  name := job.name
  status := job.status
  runnerId := some runnerId
  source := .runnerJobs

def GitlabJobDetail.reading (read : GitlabJobDetail) : Reading where
  projectId := read.projectId
  projectPath := read.projectPath
  jobId := read.id
  pipelineId := read.pipelineId
  name := read.name
  status := read.status
  runnerId := read.runnerId
  source := .jobRead

def Reading.validate (r : Reading) : StoreResult PUnit :=
  ensure ((∀ id ∈ [r.projectId, r.jobId, r.pipelineId], id ≠ 0 ∧ id < 2 ^ 63) ∧
      r.runnerId ≠ some 0 ∧ r.name ≠ "" ∧ r.name.utf8ByteSize ≤ 1024 ∧
      r.name.toList.any Core.isControl = false ∧ r.status ≠ "" ∧ r.status.utf8ByteSize ≤ 64 ∧
      r.status.toList.all (fun c => c.isLower || c = '_') = true)
    (.corrupt "invalid GitLab job reading")

/-- Checks on the path of a project. -/
def projectPathValid (path : String) : Bool :=
  trim path = path && path ≠ "" && path.utf8ByteSize ≤ 255 && path.toList.head? ≠ some '/' &&
    path.toList.getLast? ≠ some '/' &&
    (path.toList.splitOn '/').all (fun segment => segment ≠ [] && segment ≠ ['.'] &&
      segment ≠ ['.', '.']) &&
    !path.toList.any Core.isControl && path.toList.contains '/'

/-- The link of a job beneath its instance, where `extend` puts segments behind a URL. -/
def jobUrl (extend : String → List String → Option String) (target : GitlabTarget)
    (projectPath : String) (jobId : Nat) : Option String :=
  if jobId = 0 ∨ projectPathValid projectPath = false then none
  else extend target.instanceUrl
    ((projectPath.toList.splitOn '/').map String.ofList ++ ["-", "jobs", toString jobId])

/-! ## Rows -/

structure GitlabJobResult where
  status : GitlabJobConclusion
  observedAt : Int
  deriving DecidableEq

structure GitlabJobState where
  target : GitlabTarget
  projectId : Nat
  projectPath : String
  jobId : Nat
  pipelineId : Nat
  jobName : String
  webUrl : String
  lastReportedStatus : String
  lastObservedAt : Int
  listed : Bool
  result : Option GitlabJobResult
  enrichmentAttemptedAt : Option Int

/-- A record; its id is the key of the row. -/
structure Row where
  scopeKey : String
  fleetKey : String
  fleetIncarnation : String
  protocolJobId : ProtocolId
  summary : JobSummary
  gitlab : GitlabJobState
  status : ObservedStatus
  repository : Option String
  jobName : Option String
  createdAt : Int
  updatedAt : Int

/-- A retained observation; without a status an exact read did not find the job. -/
structure GitlabJobObservation where
  jobRecordId : String
  reportedStatus : Option String
  source : GitlabObservationSource
  runnerId : Option Nat
  observedAt : Int

/-- The registration that a generation ran a job with. -/
structure Link where
  runnerId : Int
  observedAt : Int
  deriving DecidableEq

structure Tables where
  jobs : Table String Row
  observations : List GitlabJobObservation
  polls : Table String Int
  /-- By record and generation. -/
  links : Table (String × String) Link

/-- The tables of a new store. -/
def Tables.empty : Tables := ⟨∅, [], ∅, ∅⟩

structure ScopeSnapshot where
  key : String
  target : GitlabTarget

/-- The fleet that an operation acts for, and the scope it is found to have. -/
structure Caller where
  fleet : String
  incarnation : String
  current : StoreResult (Option ScopeSnapshot)

def toI64 (id : Nat) : StoreResult Int := do
  ensure (0 < id ∧ id < 2 ^ 63) (.corrupt "invalid GitLab identity")
  return id

/-! ## Readings -/

variable (extend : String → List String → Option String)

/-- The result after a reading: the recorded one, or the terminal status that was read. -/
def readResult (previous : Option Row) (r : Reading) (now : Int) : Option GitlabJobResult :=
  (previous.bind (·.gitlab.result)).or
    ((GitlabJobConclusion.parse r.status).map fun status => ⟨status, now⟩)

def readSummary (previous : Option Row) (r : Reading) (now : Int) : JobSummary :=
  let result := readResult previous r now
  { metadata := { JobMetadata.empty with jobDisplayName := some r.name }
    observedStatus := if result.isSome then .completed else gitlabObservedStatus r.status
    reportedResult := result.map (·.status.asStr)
    associationStatus := .verified
    createdAt := (previous.map (·.summary.createdAt)).getD now
    updatedAt := (previous.map fun old => max now old.summary.updatedAt).getD now }

/-- The row after a reading; a row that was there keeps its scope, fleet and creation time. -/
def readRow (c : Caller) (scope : ScopeSnapshot) (previous : Option Row) (r : Reading)
    (webUrl : String) (now : Int) : Row :=
  let summary := readSummary previous r now
  { scopeKey := scope.key
    fleetKey := (previous.map (·.fleetKey)).getD c.fleet
    fleetIncarnation := (previous.map (·.fleetIncarnation)).getD c.incarnation
    protocolJobId := r.protocolId
    summary
    gitlab :=
      { target := scope.target
        projectId := r.projectId
        projectPath := r.projectPath
        jobId := r.jobId
        pipelineId := r.pipelineId
        jobName := r.name
        webUrl
        lastReportedStatus := r.status
        lastObservedAt := now
        listed := true
        result := readResult previous r now
        enrichmentAttemptedAt := previous.bind (·.gitlab.enrichmentAttemptedAt) }
    status := summary.observedStatus
    repository := some r.projectPath
    jobName := some r.name
    createdAt := (previous.map (·.createdAt)).getD summary.createdAt
    updatedAt := summary.updatedAt }

/-- Whether a reading says anything new. -/
def changed (previous : Option Row) (r : Reading) : Bool :=
  previous.all fun old => !old.gitlab.listed || old.gitlab.lastReportedStatus ≠ r.status

namespace Tables

/-- The record of a job in a scope. -/
def record (s : Tables) (scope : String) (id : ProtocolId) : Option (String × Row) :=
  s.jobs.rows.find? fun e => e.2.scopeKey = scope ∧ e.2.protocolJobId = id

/-- The id a record is written under: its own, or a drawn one that is free. -/
def recordId (s : Tables) (previous : Option (String × Row)) (drawn : String) :
    StoreResult String :=
  match previous with
  | some (id, _) => .ok id
  | none => if (s.jobs.find drawn).isSome then .error .unavailable else .ok drawn

/-- Writes the record of a reading. -/
def apply (s : Tables) (c : Caller) (scope : ScopeSnapshot) (previous : Option (String × Row))
    (r : Reading) (drawn : String) (now : Int) : StoreResult (Tables × String) := do
  r.validate
  let webUrl ← okOr (jobUrl extend scope.target r.projectPath r.jobId)
    (.corrupt "invalid GitLab project path")
  let prior := previous.map (·.2)
  -- A job's pipeline never changes; a different one is another identity.
  ensure (∀ old ∈ prior, old.gitlab.pipelineId = r.pipelineId)
    (.corrupt "GitLab job identity changed")
  let id ← s.recordId previous drawn
  return ({ s with
    jobs := s.jobs.put id (readRow c scope prior r webUrl now)
    observations := s.observations ++
      if changed prior r then [⟨id, some r.status, r.source, r.runnerId, now⟩] else [] }, id)

end Tables

/-- A record whose job an exact read no longer finds. -/
def Row.unlisted (row : Row) (now : Int) : Row :=
  { row with
    summary :=
      { row.summary with observedStatus := .unknown, updatedAt := max row.summary.updatedAt now }
    gitlab := { row.gitlab with listed := false }
    status := .unknown
    updatedAt := max row.summary.updatedAt now }

namespace Tables

/-- The exact read no longer finds the job; absence is never a result. -/
def unlisted (s : Tables) (id : String) (row : Row) (now : Int) : Tables :=
  if row.gitlab.result.isSome ∨ row.gitlab.listed = false then s
  else
    { s with
      jobs := s.jobs.put id (row.unlisted now)
      observations := s.observations ++ [⟨id, none, .jobRead, none, now⟩] }

/-- Whether a running job leaves its record as it is: a newer read or a recorded result wins. -/
def settledSince (row : Row) (now : Int) : Bool :=
  now < row.summary.updatedAt || row.gitlab.result.isSome

/-- The record of a running job. -/
def runningRecord (s : Tables) (c : Caller) (scope : ScopeSnapshot) (r : Reading) (drawn : String)
    (now : Int) : StoreResult (Tables × String) :=
  let previous := s.record scope.key r.protocolId
  match previous.filter fun e => settledSince e.2 now with
  | some (id, _) => .ok (s, id)
  | none => s.apply extend c scope previous r drawn now

/-- Stores a job that a generation's registration runs, once the claim is found. -/
def observeGitlabRunning (s : Tables) (c : Caller) (claimed : StoreResult Bool)
    (generationId : String) (runnerId : Nat) (job : GitlabRunningJob) (drawn : String) (now : Int) :
    StoreResult (Tables × Bool) := do
  match ← c.current with
  | none => return (s, false)
  | some scope =>
    if (← claimed) = false then return (s, false)
    else
      let (s, id) ← s.runningRecord extend c scope (job.reading runnerId) drawn now
      let runner ← toI64 runnerId
      return ({ s with links := s.links.createIfAbsent (id, generationId) ⟨runner, now⟩ }, true)

/-! ## Exact reads -/

/-- Takes a scope's turn to read, unless it had one in the last thirty seconds. -/
def reserve (s : Tables) (scope : String) (now : Int) : Option Tables :=
  if (s.polls.find scope).all fun attempted => attempted ≤ saturatingSub now 30000 then
    some { s with polls := s.polls.put scope now }
  else none

/-- The records of a scope that are not completed. -/
def candidates (s : Tables) (scope : String) : List (String × Row) :=
  inTurn (·.gitlab.enrichmentAttemptedAt) (·.createdAt)
    (fun row => row.scopeKey = scope ∧ row.status ≠ .completed) 20 s.jobs

/-- Notes that a record was asked for. -/
def ask (s : Tables) (id : String) (row : Row) (now : Int) : Tables :=
  { s with
    jobs := s.jobs.put id { row with
      gitlab := { row.gitlab with enrichmentAttemptedAt := some now } } }

/-- Selects a record to ask for. -/
def selectOne (now : Int) (state : Tables × List GitlabJobLookup) (e : String × Row) :
    StoreResult (Tables × List GitlabJobLookup) := do
  let projectId ← decimalId "invalid GitLab job identity" e.2.gitlab.projectId
  let jobId ← decimalId "invalid GitLab job identity" e.2.gitlab.jobId
  return (state.1.ask e.1 e.2 now, state.2 ++ [⟨e.1, projectId, jobId⟩])

/-- The records to read. -/
def pendingGitlabReads (s : Tables) (c : Caller) (now : Int) :
    StoreResult (Tables × List GitlabJobLookup) := do
  match ← c.current with
  | none => return (s, [])
  | some scope =>
    match s.reserve scope.key now with
    | none => return (s, [])
    | some reserved => (s.candidates scope.key).foldlM (selectOne now) (reserved, [])

/-- Whether the registration that was read is another than a linked one. -/
def contradicts (s : Tables) (id : String) (runnerId : Option Nat) : StoreResult Bool :=
  match runnerId with
  | none => return false
  | some runner => do
    let runner ← toI64 runner
    return (s.links.rows.filter fun e => e.1.1 = id).any fun e => e.2.runnerId ≠ runner

/-- Applies an exact read to its record, where it may be applied. -/
def applyRead (s : Tables) (c : Caller) (scope : ScopeSnapshot) (id : String) (row : Row)
    (read : GitlabJobDetail) (now : Int) : StoreResult (Tables × Bool) :=
  match row.gitlab.result with
  | some previous => return (s, previous.status.asStr = read.status)
  | none => do
    if (← s.contradicts id read.runnerId) = true then return (s, false)
    else
      let (s, _) ← s.apply extend c scope (some (id, row)) read.reading id now
      return (s, true)

/-- Applies the answer to an exact read; without one the job was not found. -/
def applyGitlabRead (s : Tables) (c : Caller) (lookup : GitlabJobLookup)
    (read : Option GitlabJobDetail) (now : Int) : StoreResult (Tables × Bool) :=
  if (read.any fun r => r.id ≠ lookup.jobId ∨ r.projectId ≠ lookup.projectId) = true then
    .ok (s, false)
  else do
    match ← c.current with
    | none => return (s, false)
    | some scope =>
      match s.record scope.key ⟨lookup.projectId, lookup.jobId⟩ with
      | none => return (s, false)
      | some (id, row) =>
        if id ≠ lookup.recordId ∨ now < row.summary.updatedAt then return (s, false)
        else
          match read with
          | none => return (s.unlisted id row now, true)
          | some read => s.applyRead extend c scope id row read now

end Tables

/-! ## Operations -/

inductive Op where
  | running (c : Caller) (claimed : StoreResult Bool) (generationId : String) (runnerId : Nat)
    (job : GitlabRunningJob) (drawn : String) (now : Int)
  | pending (c : Caller) (now : Int)
  | read (c : Caller) (lookup : GitlabJobLookup) (detail : Option GitlabJobDetail) (now : Int)

/-- Runs an operation; a failing one is rolled back. -/
def Op.run (s : Tables) : Op → Tables
  | running c claimed generationId runnerId job drawn now =>
    ((s.observeGitlabRunning extend c claimed generationId runnerId job drawn now).toOption.map
      (·.1)).getD s
  | pending c now => ((s.pendingGitlabReads c now).toOption.map (·.1)).getD s
  | read c lookup detail now =>
    ((s.applyGitlabRead extend c lookup detail now).toOption.map (·.1)).getD s

/-! ## Records -/

/-- What a record speaks of: a job. -/
structure Subject where
  scopeKey : String
  job : ProtocolId

def Row.finding (row : Row) : Finding Subject GitlabJobResult :=
  ⟨⟨row.scopeKey, row.protocolJobId⟩, row.gitlab.result⟩

def Tables.view (s : Tables) (id : String) : Option (Finding Subject GitlabJobResult) :=
  (s.jobs.find id).map (·.finding)

/-- A terminal reading of a job. -/
def Reads (c : Caller) (r : Reading) (now : Int) (subject : Subject) (verdict : GitlabJobResult) :
    Prop :=
  ∃ scope, c.current = .ok (some scope) ∧ scope.key = subject.scopeKey ∧
    r.protocolId = subject.job ∧ GitlabJobConclusion.parse r.status = some verdict.status ∧
    verdict.observedAt = now

/-- The operations that report a result for exactly the record's job. -/
def Op.reports (subject : Subject) (verdict : GitlabJobResult) : Op → Prop
  | running c _ _ runnerId job _ now => Reads c (job.reading runnerId) now subject verdict
  | read c _ (some detail) now => Reads c detail.reading now subject verdict
  | _ => False

/-- A record is completed exactly when it has a result. -/
structure Row.Valid (row : Row) : Prop where
  status : row.summary.observedStatus = row.status
  completed : row.status = .completed ↔ row.gitlab.result.isSome = true

def Tables.Valid (s : Tables) : Prop := ∀ id row, s.jobs.find id = some row → row.Valid

theorem Tables.valid_empty : Tables.empty.Valid := by
  intro id row h
  cases h

theorem Tables.Valid.put {s : Tables} (h : s.Valid) {id : String} {row : Row} (hrow : row.Valid) :
    ∀ id' row', (s.jobs.put id row).find id' = some row' → row'.Valid := by
  intro id' row' hfind
  rw [Table.find_put] at hfind
  by_cases hid : id' = id
  · rw [if_pos hid] at hfind
    cases hfind
    exact hrow
  · rw [if_neg hid] at hfind
    exact h _ _ hfind

section

variable {extend} {c : Caller} {scope : ScopeSnapshot} {s t : Tables} {r : Reading} {id : String}
  {now : Int} {row : Row}

theorem Tables.record_eq_some {key : String} {pid : ProtocolId}
    (h : s.record key pid = some (id, row)) :
    s.jobs.find id = some row ∧ row.scopeKey = key ∧ row.protocolJobId = pid := by
  have hmem := Table.mem_rows.mp (List.mem_of_find?_eq_some h)
  have hkey := List.find?_some h
  simp only [decide_eq_true_eq] at hkey
  exact ⟨hmem, hkey⟩

theorem gitlabObservedStatus_ne_completed {status : String}
    (h : GitlabJobConclusion.parse status = none) : gitlabObservedStatus status ≠ .completed := by
  unfold gitlabObservedStatus
  rw [h]
  split_ifs <;> simp_all

theorem readRow_valid (previous : Option Row) (webUrl : String) :
    (readRow c scope previous r webUrl now).Valid := by
  constructor
  · rfl
  · change (if (readResult previous r now).isSome = true then ObservedStatus.completed
        else gitlabObservedStatus r.status) = _ ↔ (readResult previous r now).isSome = true
    by_cases hresult : (readResult previous r now).isSome = true
    · simp [hresult]
    · have hparse : GitlabJobConclusion.parse r.status = none := by
        simp only [readResult, Option.isSome_or, Option.isSome_map, Bool.or_eq_true, not_or] at hresult
        simpa using hresult.2
      simp [hresult, gitlabObservedStatus_ne_completed hparse]

/-- A reading keeps a recorded result, and records a terminal status otherwise. -/
theorem readRow_moves {previous : Option Row} {webUrl : String}
    {reports : String → Subject → GitlabJobResult → Prop}
    (hprevious : ∀ old ∈ previous, old.scopeKey = scope.key ∧ old.protocolJobId = r.protocolId)
    (hreports : ∀ verdict, GitlabJobConclusion.parse r.status = some verdict.status →
      verdict.observedAt = now → reports id ⟨scope.key, r.protocolId⟩ verdict) :
    Verdict.Moves (fun _ _ => False) reports id (previous.map (·.finding))
      (some (readRow c scope previous r webUrl now).finding) := by
  have hafter : (readRow c scope previous r webUrl now).finding =
      ⟨⟨scope.key, r.protocolId⟩, readResult previous r now⟩ := rfl
  rw [hafter]
  cases previous with
  | none =>
    cases hparse : GitlabJobConclusion.parse r.status with
    | none =>
      have hnone : readResult none r now = none := by simp [readResult, hparse]
      rw [hnone]
      exact .opened _
    | some status =>
      have hsome : readResult none r now = some ⟨status, now⟩ := by simp [readResult, hparse]
      rw [hsome]
      exact .openedWith (hreports _ hparse rfl)
  | some old =>
    obtain ⟨hscope, hjob⟩ := hprevious old rfl
    have hbefore : old.finding = ⟨⟨scope.key, r.protocolId⟩, old.gitlab.result⟩ := by
      rw [Row.finding, hscope, hjob]
    rw [Option.map_some, hbefore]
    cases hresult : old.gitlab.result with
    | some verdict =>
      have hkept : readResult (some old) r now = some verdict := by simp [readResult, hresult]
      rw [hkept]
      exact .same _
    | none =>
      cases hparse : GitlabJobConclusion.parse r.status with
      | none =>
        have hnone : readResult (some old) r now = none := by simp [readResult, hresult, hparse]
        rw [hnone]
        exact .same _
      | some status =>
        have hsome : readResult (some old) r now = some ⟨status, now⟩ := by
          simp [readResult, hresult, hparse]
        rw [hsome]
        exact .settled (hreports _ hparse rfl)

/-- A written reading concerns one record. -/
theorem Tables.apply_moves {previous : Option (String × Row)} {drawn : String}
    {reports : String → Subject → GitlabJobResult → Prop} (hs : s.Valid)
    (hprevious : ∀ e ∈ previous, s.jobs.find e.1 = some e.2 ∧ e.2.scopeKey = scope.key ∧
      e.2.protocolJobId = r.protocolId)
    (hreports : ∀ id verdict, GitlabJobConclusion.parse r.status = some verdict.status →
      verdict.observedAt = now → reports id ⟨scope.key, r.protocolId⟩ verdict)
    (h : s.apply extend c scope previous r drawn now = .ok (t, id)) :
    t.Valid ∧ t.links = s.links ∧
      ∀ k, Verdict.Moves (fun _ _ => False) reports k (s.view k) (t.view k) := by
  simp only [Tables.apply, bind_eq_ok, pure_eq_ok, Prod.mk.injEq] at h
  obtain ⟨⟨⟩, -, webUrl, -, ⟨⟩, -, id', hid, rfl, rfl⟩ := h
  have hbefore : s.jobs.find id' = previous.map (·.2) := by
    unfold Tables.recordId at hid
    split at hid
    · next old =>
      cases hid
      exact (hprevious _ rfl).1
    · split_ifs at hid with htaken
      cases hid
      simpa using htaken
  refine ⟨hs.put (readRow_valid _ _), rfl, fun k => ?_⟩
  unfold Tables.view
  rw [Table.find_put]
  by_cases hk : k = id'
  · subst hk
    rw [if_pos rfl, hbefore, Option.map_some]
    refine readRow_moves ?_ fun verdict => hreports k verdict
    intro old hold
    obtain ⟨e, he, rfl⟩ := Option.mem_map.mp hold
    exact (hprevious e he).2
  · rw [if_neg hk]
    exact .same _

variable (now) in
theorem Tables.unlisted_keeps (hs : s.Valid) (hfind : s.jobs.find id = some row) :
    (s.unlisted id row now).Valid ∧ (s.unlisted id row now).links = s.links ∧
      ∀ k, (s.unlisted id row now).view k = s.view k := by
  unfold Tables.unlisted
  split_ifs with hkept
  · exact ⟨hs, rfl, fun _ => rfl⟩
  · have hnone : row.gitlab.result = none := by
      rw [not_or] at hkept
      simpa using hkept.1
    refine ⟨hs.put ⟨rfl, ?_⟩, rfl, fun k => ?_⟩
    · simp [Row.unlisted, hnone]
    · unfold Tables.view
      rw [Table.find_put]
      by_cases hk : k = id
      · subst hk
        rw [if_pos rfl, hfind]
        rfl
      · rw [if_neg hk]

variable (now) in
theorem Tables.ask_keeps (hs : s.Valid) (hfind : s.jobs.find id = some row) :
    (s.ask id row now).Valid ∧ (s.ask id row now).links = s.links ∧
      ∀ k, (s.ask id row now).view k = s.view k := by
  have hrow := hs _ _ hfind
  refine ⟨hs.put ⟨hrow.status, hrow.completed⟩, rfl, fun k => ?_⟩
  unfold Tables.view Tables.ask
  rw [Table.find_put]
  by_cases hk : k = id
  · subst hk
    rw [if_pos rfl, hfind]
    rfl
  · rw [if_neg hk]

theorem Tables.selectAll_keeps {rows : List (String × Row)}
    {selected selected' : List GitlabJobLookup} (hs : s.Valid)
    (hrows : ∀ e ∈ rows, s.jobs.find e.1 = some e.2) (hnodup : (rows.map (·.1)).Nodup)
    (h : rows.foldlM (Tables.selectOne now) (s, selected) = .ok (t, selected')) :
    t.Valid ∧ t.links = s.links ∧ ∀ k, t.view k = s.view k := by
  induction rows generalizing s selected with
  | nil =>
    cases h
    exact ⟨hs, rfl, fun _ => rfl⟩
  | cons e rest ih =>
    obtain ⟨hfirst, hrest⟩ := List.forall_mem_cons.mp hrows
    obtain ⟨hnew, hnodup⟩ := List.nodup_cons.mp hnodup
    simp only [List.foldlM_cons, Tables.selectOne, bind_eq_ok, pure_eq_ok] at h
    obtain ⟨state, ⟨projectId, -, jobId, -, rfl⟩, h⟩ := h
    obtain ⟨hasked, hlinks, hview⟩ := Tables.ask_keeps now hs hfirst
    have hothers : ∀ e' ∈ rest, (s.ask e.1 e.2 now).jobs.find e'.1 = some e'.2 := by
      intro e' he'
      unfold Tables.ask
      rw [Table.find_put, if_neg]
      · exact hrest e' he'
      · intro hid
        exact hnew (List.mem_map.mpr ⟨e', he', hid⟩)
    obtain ⟨ht, hsame, hlater⟩ := ih hasked hothers hnodup h
    exact ⟨ht, hsame.trans hlinks, fun k => (hlater k).trans (hview k)⟩

theorem Tables.pendingGitlabReads_keeps {selected : List GitlabJobLookup} (hs : s.Valid)
    (h : s.pendingGitlabReads c now = .ok (t, selected)) :
    t.Valid ∧ t.links = s.links ∧ ∀ k, t.view k = s.view k := by
  simp only [Tables.pendingGitlabReads, bind_eq_ok] at h
  obtain ⟨current, -, h⟩ := h
  split at h
  · simp only [pure_eq_ok, Prod.mk.injEq] at h
    obtain ⟨rfl, -⟩ := h
    exact ⟨hs, rfl, fun _ => rfl⟩
  · next scope =>
    split at h
    · simp only [pure_eq_ok, Prod.mk.injEq] at h
      obtain ⟨rfl, -⟩ := h
      exact ⟨hs, rfl, fun _ => rfl⟩
    · next reserved hreserve =>
      have hsame : reserved.jobs = s.jobs ∧ reserved.links = s.links := by
        unfold Tables.reserve at hreserve
        split_ifs at hreserve
        cases hreserve
        exact ⟨rfl, rfl⟩
      obtain ⟨hjobs, hlinks⟩ := hsame
      have hvalid : reserved.Valid := fun id row hrow => hs id row (hjobs ▸ hrow)
      obtain ⟨ht, hkept, hview⟩ :=
        Tables.selectAll_keeps hvalid (hjobs ▸ inTurn_spec.1) inTurn_spec.2 h
      refine ⟨ht, hkept.trans hlinks, fun k => (hview k).trans ?_⟩
      rw [Tables.view, hjobs]
      rfl

/-- A running job is stored with its link, which no earlier link gives way to. -/
theorem Tables.observeGitlabRunning_moves {claimed : StoreResult Bool} {generationId drawn : String}
    {runnerId : Nat} {job : GitlabRunningJob} {answer : Bool} (hs : s.Valid)
    (h : s.observeGitlabRunning extend c claimed generationId runnerId job drawn now =
      .ok (t, answer)) :
    t.Valid ∧ (∀ k l, s.links.find k = some l → t.links.find k = some l) ∧
      ∀ k, Verdict.Moves (fun _ _ => False)
        (fun _ subject verdict =>
          Op.reports subject verdict (.running c claimed generationId runnerId job drawn now)) k
        (s.view k) (t.view k) := by
  simp only [Tables.observeGitlabRunning, bind_eq_ok] at h
  obtain ⟨current, hcurrent, h⟩ := h
  split at h
  · simp only [pure_eq_ok, Prod.mk.injEq] at h
    obtain ⟨rfl, -⟩ := h
    exact ⟨hs, fun _ _ hl => hl, fun _ => .same _⟩
  · next scope =>
    simp only [bind_eq_ok] at h
    obtain ⟨claim, -, h⟩ := h
    split_ifs at h
    · simp only [pure_eq_ok, Prod.mk.injEq] at h
      obtain ⟨rfl, -⟩ := h
      exact ⟨hs, fun _ _ hl => hl, fun _ => .same _⟩
    · simp only [bind_eq_ok, pure_eq_ok, Prod.mk.injEq] at h
      obtain ⟨⟨u, id⟩, hrecord, runner, -, rfl, -⟩ := h
      have hu : u.Valid ∧ u.links = s.links ∧ ∀ k, Verdict.Moves (fun _ _ => False)
          (fun _ subject verdict =>
            Op.reports subject verdict (.running c claimed generationId runnerId job drawn now)) k
          (s.view k) (u.view k) := by
        unfold Tables.runningRecord at hrecord
        dsimp only at hrecord
        split at hrecord
        · cases hrecord
          exact ⟨hs, rfl, fun _ => .same _⟩
        · refine Tables.apply_moves hs (fun e he => ?_) (fun k verdict hparse hat => ?_) hrecord
          · exact Tables.record_eq_some he
          · exact ⟨scope, hcurrent, rfl, rfl, hparse, hat⟩
      obtain ⟨hvalid, hlinks, hmoves⟩ := hu
      refine ⟨hvalid, fun k l hl => ?_, hmoves⟩
      rw [Table.find_createIfAbsent, hlinks, hl]
      rfl

/-- An exact read is written where the record has no result. -/
theorem Tables.applyRead_moves {read : GitlabJobDetail} {answer : Bool}
    {reports : String → Subject → GitlabJobResult → Prop} (hs : s.Valid)
    (hfind : s.jobs.find id = some row) (hscope : row.scopeKey = scope.key)
    (hjob : row.protocolJobId = read.reading.protocolId)
    (hreports : ∀ verdict, GitlabJobConclusion.parse read.reading.status = some verdict.status →
      verdict.observedAt = now → ∀ k, reports k ⟨scope.key, read.reading.protocolId⟩ verdict)
    (h : s.applyRead extend c scope id row read now = .ok (t, answer)) :
    t.Valid ∧ t.links = s.links ∧
      ∀ k, Verdict.Moves (fun _ _ => False) reports k (s.view k) (t.view k) := by
  unfold Tables.applyRead at h
  split at h
  · simp only [pure_eq_ok, Prod.mk.injEq] at h
    obtain ⟨rfl, -⟩ := h
    exact ⟨hs, rfl, fun _ => .same _⟩
  · simp only [bind_eq_ok] at h
    obtain ⟨contradicted, -, h⟩ := h
    split_ifs at h
    · simp only [pure_eq_ok, Prod.mk.injEq] at h
      obtain ⟨rfl, -⟩ := h
      exact ⟨hs, rfl, fun _ => .same _⟩
    · simp only [bind_eq_ok, pure_eq_ok, Prod.mk.injEq] at h
      obtain ⟨⟨u, id'⟩, happly, rfl, -⟩ := h
      refine Tables.apply_moves hs ?_ (fun k verdict hparse hat => hreports verdict hparse hat k)
        happly
      rintro e ⟨⟩
      exact ⟨hfind, hscope, hjob⟩

theorem Tables.applyGitlabRead_moves {lookup : GitlabJobLookup} {detail : Option GitlabJobDetail}
    {answer : Bool} (hs : s.Valid)
    (h : s.applyGitlabRead extend c lookup detail now = .ok (t, answer)) :
    t.Valid ∧ t.links = s.links ∧ ∀ k, Verdict.Moves (fun _ _ => False)
      (fun _ subject verdict => Op.reports subject verdict (.read c lookup detail now)) k
      (s.view k) (t.view k) := by
  have hunchanged : s.Valid ∧ s.links = s.links ∧ ∀ k, Verdict.Moves (fun _ _ => False)
      (fun _ subject verdict => Op.reports subject verdict (.read c lookup detail now)) k
      (s.view k) (s.view k) := ⟨hs, rfl, fun _ => .same _⟩
  unfold Tables.applyGitlabRead at h
  split_ifs at h with hlookup
  · cases h
    exact hunchanged
  · simp only [bind_eq_ok] at h
    obtain ⟨current, hcurrent, h⟩ := h
    split at h
    · simp only [pure_eq_ok, Prod.mk.injEq] at h
      exact h.1 ▸ hunchanged
    · next scope =>
      split at h
      · simp only [pure_eq_ok, Prod.mk.injEq] at h
        exact h.1 ▸ hunchanged
      · next id row hrecord =>
        obtain ⟨hfind, hscope, hjob⟩ := Tables.record_eq_some hrecord
        split_ifs at h
        · simp only [pure_eq_ok, Prod.mk.injEq] at h
          exact h.1 ▸ hunchanged
        · split at h
          · simp only [pure_eq_ok, Prod.mk.injEq] at h
            obtain ⟨rfl, -⟩ := h
            obtain ⟨ht, hlinks, hview⟩ := Tables.unlisted_keeps now hs hfind
            exact ⟨ht, hlinks, fun k => hview k ▸ .same _⟩
          · next read =>
            refine Tables.applyRead_moves hs hfind hscope ?_ (fun verdict hparse hat k => ?_) h
            · rw [hjob]
              simp only [Option.any_some, decide_eq_true_eq, not_or, not_not] at hlookup
              simp [GitlabJobDetail.reading, Reading.protocolId, hlookup.1, hlookup.2]
            · exact ⟨scope, hcurrent, rfl, rfl, hparse, hat⟩

/-- Every operation keeps the records valid and the links it finds, turns no record away from its
job, and settles only records that it has a terminal reading of. -/
theorem Op.run_moves (op : Op) (hs : s.Valid) :
    (op.run extend s).Valid ∧
      (∀ k l, s.links.find k = some l → (op.run extend s).links.find k = some l) ∧
      ∀ k, Verdict.Moves (fun _ _ => False) (fun _ subject verdict => op.reports subject verdict) k
        (s.view k) ((op.run extend s).view k) := by
  cases op with
  | running c claimed generationId runnerId job drawn now =>
    rw [Op.run]
    cases hrun : s.observeGitlabRunning extend c claimed generationId runnerId job drawn now with
    | error e => exact ⟨hs, fun _ _ hl => hl, fun _ => .same _⟩
    | ok result => exact Tables.observeGitlabRunning_moves hs hrun
  | pending c now =>
    rw [Op.run]
    cases hrun : s.pendingGitlabReads c now with
    | error e => exact ⟨hs, fun _ _ hl => hl, fun _ => .same _⟩
    | ok result =>
      obtain ⟨ht, hlinks, hview⟩ := Tables.pendingGitlabReads_keeps hs hrun
      refine ⟨ht, fun k l hl => ?_, fun k => ?_⟩
      · simp only [Except.toOption, Option.map_some, Option.getD_some]
        rw [hlinks]
        exact hl
      · have hk := hview k
        simp only [Except.toOption, Option.map_some, Option.getD_some]
        rw [hk]
        exact .same _
  | read c lookup detail now =>
    rw [Op.run]
    cases hrun : s.applyGitlabRead extend c lookup detail now with
    | error e => exact ⟨hs, fun _ _ hl => hl, fun _ => .same _⟩
    | ok result =>
      obtain ⟨ht, hlinks, hmoves⟩ := Tables.applyGitlabRead_moves hs hrun
      refine ⟨ht, fun k l hl => ?_, hmoves⟩
      simp only [Except.toOption, Option.map_some, Option.getD_some]
      rw [hlinks]
      exact hl

end

end Gitlab

end Jobs

end Shaula
