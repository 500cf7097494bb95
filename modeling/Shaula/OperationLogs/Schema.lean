import Shaula.Core.Records
import Shaula.Library.Table
import Mathlib.Algebra.GroupWithZero.Nat
import Mathlib.Data.List.Sort

/-! # Operation log records

The log of one invocation of the template engine: what is known of the invocation, the commands it
ran, and the chunks of sanitized text its pipes released.
-/

namespace Shaula.OperationLogs

open Core Library

/-! ## Limits -/

structure LogConfig where
  invocationBytes : Nat
  quotaBytes : Nat
  retentionDays : Nat
  metadataRetentionDays : Nat
  deriving DecidableEq

def LogConfig.validate (c : LogConfig) : Except String Unit :=
  if ¬ (128 * 1024 ≤ c.invocationBytes ∧ c.invocationBytes ≤ 256 * 1024 * 1024) ∨
      c.quotaBytes < c.invocationBytes ∨ c.quotaBytes > 2 ^ 63 - 1 ∨
      ¬ (1 ≤ c.retentionDays ∧ c.retentionDays ≤ 365) ∨
      ¬ (c.retentionDays ≤ c.metadataRetentionDays ∧ c.metadataRetentionDays ≤ 3650) then
    .error "operation log limits are outside supported bounds"
  else .ok ()

/-- Limits that an archive was opened with. -/
structure Limits extends LogConfig where
  valid : toLogConfig.validate = .ok ()

theorem Limits.invocationBytes_ge (c : Limits) : 128 * 1024 ≤ c.invocationBytes := by
  have h := c.valid
  unfold LogConfig.validate at h
  split at h
  · cases h
  · next hbounds =>
    have hrange := not_or.mp hbounds
    exact (not_not.mp hrange.1).1

/-! ## Errors -/

inductive ReasonCode where
  | storageUnavailable
  | specInvalid
  | targetHiddenOrNotFound
  deriving DecidableEq, Repr

structure CoreError where
  code : ReasonCode
  summary : String
  deriving DecidableEq

def unavailable : CoreError := ⟨.storageUnavailable, "operation log storage unavailable"⟩

def invalid : CoreError := ⟨.specInvalid, "invalid operation log request"⟩

def missing : CoreError := ⟨.targetHiddenOrNotFound, "operation log not found"⟩

/-! ## Requests -/

def phases : List String := ["init", "plan", "apply"]

def streams : List String := ["stdout", "stderr"]

def operations : List String := ["Create", "Destroy"]

def terminations : List String :=
  ["running", "exited", "not_spawned", "interrupted", "reader_error", "timed_out"]

def outcomes : List String := ["succeeded", "failed", "interrupted", "unknown", "skipped"]

structure BeginInvocation where
  generationId : Uuid
  operation : String
  startedAt : Int
  deriving DecidableEq

/-- Text that has already crossed the sanitization boundary. -/
structure AppendLog where
  invocationId : Uuid
  commandOrdinal : Nat
  phase : String
  stream : String
  sequence : Nat
  text : String
  observedAt : Int
  withheld : Bool
  deriving DecidableEq

/-- `text.len()`. -/
def AppendLog.bytes (c : AppendLog) : Nat := c.text.utf8ByteSize

structure LogCommand where
  invocationId : Uuid
  ordinal : Nat
  phase : String
  startedAt : Int
  endedAt : Option Int
  exitCode : Option Int
  termination : String
  effectAttemptId : Option String
  capturePartial : Bool
  lostBytes : Nat
  deriving DecidableEq

structure FinishInvocation where
  invocationId : Uuid
  executionOutcome : String
  endedAt : Int
  lostBytes : Nat
  incomplete : Bool
  deriving DecidableEq

/-! ## Rows -/

inductive CaptureStatus where
  | capturing
  | complete
  | incomplete
  | expired
  | unavailable
  | withheld
  deriving DecidableEq, Repr

structure Invocation where
  id : Uuid
  generationId : Uuid
  fleetKey : String
  fleetIncarnation : Option String
  templateProfileKey : String
  templateRevision : Nat
  templateArtifactDigest : String
  operation : String
  ordinal : Nat
  effectAttemptId : Option String
  startedAt : Int
  endedAt : Option Int
  captureSealedAt : Option Int
  executionOutcome : String
  captureStatus : CaptureStatus
  reason : Option String
  contentVersion : Uuid
  policyVersion : String
  retainedBytes : Nat
  lostBytes : Nat
  commands : List LogCommand
  deriving DecidableEq

/-- A row of `operation_log_invocations`. -/
structure InvocationRow where
  record : Invocation
  sealedAt : Option Int
  retainedBytes : Nat
  deriving DecidableEq

inductive FileName where
  | chunk (sequence : Nat)
  | temporary (id : Uuid)
  deriving DecidableEq

/-- A row of `operation_log_chunks`, less the invocation it belongs to. -/
structure ChunkRow where
  sequence : Nat
  commandOrdinal : Nat
  phase : String
  stream : String
  observedAt : Int
  bytes : Nat
  digest : String
  fileName : FileName
  deriving DecidableEq

/-- The columns of a runner generation that an invocation freezes. -/
structure GenerationFacts where
  fleetKey : String
  templateProfileKey : String
  templateRevision : Nat
  templateArtifactDigest : String
  fleetIncarnation : Option String
  deriving DecidableEq

def sanitizationPolicy : String := "shaula.operation-text/v3"

/-- Earlier sanitized archives remain readable; an unknown policy fails closed. -/
def supportedSanitizationPolicy (policy : String) : Bool :=
  policy ∈ ["shaula.operation-text/v1", "shaula.operation-text/v2", sanitizationPolicy]

/-! ## Pages -/

structure LogQuery where
  cursor : Option String
  phase : Option String
  stream : Option String
  limitBytes : Option Nat
  deriving DecidableEq

structure LogEntry where
  commandOrdinal : Nat
  phase : String
  stream : String
  sequence : Nat
  text : String
  observedAt : Int
  deriving DecidableEq

structure LogPage where
  invocationId : Uuid
  contentVersion : Uuid
  captureStatus : CaptureStatus
  entries : List LogEntry
  nextCursor : Option String
  hasGap : Bool
  lostBytes : Nat
  deriving DecidableEq

structure Cursor where
  id : Uuid
  version : Uuid
  phase : Option String
  stream : Option String
  after : Int
  deriving DecidableEq

/-! ## The database -/

/-- The two tables of the archive; the chunk rows of an invocation stand in the order of their
primary key. -/
structure Database where
  invocations : Table Uuid InvocationRow
  chunks : Uuid → List ChunkRow

/-- `SUM(bytes)`. -/
def retained (rows : List ChunkRow) : Nat := (rows.map (·.bytes)).sum

@[simp] theorem retained_nil : retained [] = 0 := rfl

@[simp] theorem retained_cons (row : ChunkRow) (rows : List ChunkRow) :
    retained (row :: rows) = row.bytes + retained rows := rfl

@[simp] theorem retained_append (rows rows' : List ChunkRow) :
    retained (rows ++ rows') = retained rows + retained rows' := by
  simp [retained]

namespace Database

variable (db : Database)

def record (id : Uuid) : Option Invocation := (db.invocations.find id).map (·.record)

/-- `INSERT INTO operation_log_invocations`. -/
def begin (record : Invocation) : Option Database :=
  if db.invocations.rows.any fun e => e.2.record.generationId = record.generationId ∧
      e.2.record.operation = record.operation ∧ e.2.record.ordinal = record.ordinal then none
  else (db.invocations.create record.id { record, sealedAt := none, retainedBytes := 0 }).map
    fun invocations => { db with invocations }

/-- `UPDATE operation_log_invocations SET record_json, sealed_at, retained_bytes WHERE id`. -/
def save (record : Invocation) : Database :=
  { db with
    invocations := db.invocations.update (fun id _ => id = record.id)
      fun _ => ⟨record, record.captureSealedAt, record.retainedBytes⟩ }

/-- `INSERT INTO operation_log_chunks`. -/
def insert (id : Uuid) (row : ChunkRow) : Option Database :=
  if (db.chunks id).any (·.sequence = row.sequence) then none
  else some { db with
    chunks := Function.update db.chunks id
      ((db.chunks id).orderedInsert (·.sequence ≤ ·.sequence) row) }

/-- `DELETE FROM operation_log_chunks WHERE invocation_id AND sequence`. -/
def delete (id : Uuid) (sequence : Nat) : Database :=
  { db with
    chunks := Function.update db.chunks id ((db.chunks id).filter (·.sequence ≠ sequence)) }

/-- `UPDATE operation_log_invocations SET retained_bytes = (SELECT SUM(bytes) ..)`. -/
def recount : Database :=
  { db with
    invocations := ⟨db.invocations.entries.map (Sigma.map id fun id row =>
      { row with retainedBytes := retained (db.chunks id) }),
      List.NodupKeys.map₂ _ _ db.invocations.nodupKeys⟩ }

/-- The sealed invocations that retain something, the first sealed one first. -/
def expirable : List (Uuid × Int) :=
  (((db.invocations.rows.filter fun e => 0 < e.2.retainedBytes).filterMap fun e =>
    e.2.sealedAt.map fun at_ => (e.1, at_)).insertionSort fun a b => a.2 < b.2 ∨
      a.2 = b.2 ∧ a.1.bits.toNat ≤ b.1.bits.toNat)

/-- The records of the invocations that were never sealed. -/
def unsealed : List Invocation :=
  (db.invocations.rows.filter fun e => e.2.sealedAt.isNone).map (·.2.record)

/-- `COALESCE(MAX(ordinal), 0)`. -/
def lastOrdinal (generationId : Uuid) (operation : String) : Nat :=
  ((db.invocations.rows.filter fun e => e.2.record.generationId = generationId ∧
    e.2.record.operation = operation).map (·.2.record.ordinal)).foldl max 0

end Database

end Shaula.OperationLogs
