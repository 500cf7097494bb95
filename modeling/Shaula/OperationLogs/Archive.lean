import Shaula.OperationLogs.Schema
import Shaula.Library.Execution

/-! # The operation log archive

Chunk text lives in files, and rows carry the sanitized record and its integrity metadata.  Each
operation of the archive is a program of database statements, file operations and accesses to the
counter of reserved disk space; an archive runs one operation at a time.
-/

namespace Shaula.OperationLogs

open Core Library Library.Program

/-! ## Effects -/

/-- What `symlink_metadata` says of a directory. -/
inductive DirectoryStat where
  | directory
  | other
  | absent
  | failed
  deriving DecidableEq

/-- What `symlink_metadata` says of a file. -/
inductive FileStat where
  | file (length : Nat)
  | other
  | absent
  | failed
  deriving DecidableEq

inductive LogEffect where
  | now
  | freshId
  | generation (id : Uuid)
  | lastOrdinal (generationId : Uuid) (operation : String)
  | record (id : Uuid)
  | retained (id : Uuid)
  | chunks (id : Uuid)
  | begin (record : Invocation)
  | save (record : Invocation)
  | insertChunk (id : Uuid) (row : ChunkRow)
  | deleteChunk (id : Uuid) (sequence : Nat)
  | expirable
  | unsealed
  | recount
  | deleteMetadata (cutoff : Int)
  | registered
  | directoryStat (id : Uuid)
  | createDirectory (id : Uuid)
  | stat (id : Uuid) (name : FileName)
  | createFile (id : Uuid) (name : FileName)
  | writeAll (id : Uuid) (name : FileName) (bytes : ByteArray)
  | syncFile (id : Uuid) (name : FileName)
  | rename (id : Uuid) (source target : FileName)
  | syncDirectory (id : Uuid)
  | read (id : Uuid) (name : FileName)
  | removeFile (id : Uuid) (name : FileName)
  | scan
  | reap (registered : List (Uuid × FileName))
  | usage
  | reserve (bytes : Nat)
  | release (bytes : Nat)
  | setUsage (bytes : Nat)
  | raiseUsage (bytes : Nat)

abbrev LogEffect.Answer : LogEffect → Type
  | now => Int
  | freshId => Uuid
  | generation _ => Option GenerationFacts
  | lastOrdinal _ _ => Nat
  | record _ => Option Invocation
  | retained _ => Nat
  | chunks _ => List ChunkRow
  | expirable => List (Uuid × Int)
  | unsealed => List Invocation
  | registered => List (Uuid × FileName)
  | directoryStat _ => DirectoryStat
  | createDirectory _ => Bool
  | stat _ _ => FileStat
  | read _ _ => Option ByteArray
  | scan => Nat
  | reap _ => Nat × Bool
  | usage => Nat
  | _ => Unit

abbrev archiveEffects : Interface where
  Op := LogEffect
  Answer := LogEffect.Answer

abbrev Archived (α : Type) := Program archiveEffects CoreError α

/-- Perform one effect. -/
abbrev ask (op : LogEffect) : Archived op.Answer := lift (F := archiveEffects) op

/-! ## Records -/

def load (id : Uuid) : Archived Invocation := do
  let record ← okOr (← ask (.record id)) missing
  let total ← ask (.retained id)
  pure { record with retainedBytes := total }

def save (record : Invocation) : Archived Unit := do
  ensure (record.retainedBytes < 2 ^ 63) invalid
  ask (.save record)

/-! ## Files -/

def privateDirectory (id : Uuid) : Archived (Except CoreError Unit) := do
  match ← ask (.directoryStat id) with
  | .other => pure (.error invalid)
  | .directory => pure (.ok ())
  | .absent =>
    if ← ask (.createDirectory id) then pure (.ok ()) else pure (.error unavailable)
  | .failed => pure (.error unavailable)

/-- The final path of the chunk is taken. -/
def FileStat.present : FileStat → Bool
  | .file _ | .other => true
  | .absent | .failed => false

def publish (id : Uuid) (sequence : Nat) (text : String) : Archived FileName := do
  ofExcept (← privateDirectory id)
  let name := FileName.chunk sequence
  let present ← ask (.stat id name)
  ensure (present.present = false) invalid
  let temporary := FileName.temporary (← ask .freshId)
  ask (.createFile id temporary)
  ask (.writeAll id temporary text.toUTF8)
  ask (.syncFile id temporary)
  ask (.rename id temporary name)
  ask (.syncDirectory id)
  pure name

/-- Remove the file of a chunk where it is a file, and give back the space reserved for it. -/
def removeFile (id : Uuid) (name : FileName) : FileStat → Archived Unit
  | .file length => do
    ask (.removeFile id name)
    ask (.release length)
  | .absent => pure ()
  | .other | .failed => fail unavailable

def clearFile (id : Uuid) (name : FileName) : Archived Unit := do
  ofExcept (← privateDirectory id)
  removeFile id name (← ask (.stat id name))

def removeChunk (id : Uuid) (row : ChunkRow) : Archived Unit := do
  clearFile id (.chunk row.sequence)
  ask (.deleteChunk id row.sequence)

def removeChunks (id : Uuid) : List ChunkRow → Archived Unit
  | [] => pure ()
  | row :: rows => do
    removeChunk id row
    removeChunks id rows

def reapOrphans : Archived Unit := do
  let (removed, outcome) ← ask (.reap (← ask .registered))
  ask (.release removed)
  ensure (outcome = true) unavailable

/-! ## Pruning -/

def millisPerDay : Int := 86400000

def expire (record : Invocation) (reason : String) : Invocation :=
  { record with retainedBytes := 0, captureStatus := .expired, reason := some reason }

section Config

variable (C : LogConfig)

def pruneRows (cutoff : Int) (incoming : Nat) : List (Uuid × Int) → Nat → Archived Unit
  | [], _ => pure ()
  | (id, sealedAt) :: rows, used =>
    if sealedAt > cutoff ∧ used + incoming ≤ C.quotaBytes then pruneRows cutoff incoming rows used
    else do
      let record ← load id
      let chunks ← ask (.chunks id)
      removeChunks id chunks
      let used ← ask .usage
      save (expire record (if sealedAt ≤ cutoff then "retention_expired" else "quota_evicted"))
      pruneRows cutoff incoming rows used

def pruneLocked (incoming : Nat) : Archived Unit := do
  let cutoff := (← ask .now) - C.retentionDays * millisPerDay
  let rows ← ask .expirable
  let used ← ask .usage
  pruneRows C cutoff incoming rows used

def pruneMetadata : Archived Unit := do
  ask (.deleteMetadata ((← ask .now) - C.metadataRetentionDays * millisPerDay))

def maintenance : Archived Unit := do
  reapOrphans
  ask (.raiseUsage (← ask .scan))
  pruneLocked C 0
  pruneMetadata C

/-- A writer that was interrupted left the record open. -/
def interrupt (record : Invocation) (now : Int) : Invocation :=
  { record with
    captureStatus := .incomplete
    executionOutcome := "unknown"
    reason := some "writer_interrupted"
    captureSealedAt := some now }

def sealInterrupted : List Invocation → Archived Unit
  | [] => pure ()
  | record :: records => do
    let loaded ← load record.id
    save (interrupt { record with retainedBytes := loaded.retainedBytes } (← ask .now))
    sealInterrupted records

/-- Recovery when the archive is opened, before there are new log writers. -/
def recover : Archived Unit := do
  ask .recount
  sealInterrupted (← ask .unsealed)
  reapOrphans
  ask (.setUsage (← ask .scan))
  pruneLocked C 0

/-! ## The sink -/

def begin (request : BeginInvocation) : Archived Uuid := do
  ensure (request.operation ∈ operations) invalid
  pruneLocked C 0
  let facts ← okOr (← ask (.generation request.generationId)) missing
  let last ← ask (.lastOrdinal request.generationId request.operation)
  let record : Invocation :=
    { id := ← ask .freshId
      generationId := request.generationId
      fleetKey := facts.fleetKey
      fleetIncarnation := facts.fleetIncarnation
      templateProfileKey := facts.templateProfileKey
      templateRevision := facts.templateRevision
      templateArtifactDigest := facts.templateArtifactDigest
      operation := request.operation
      ordinal := last + 1
      effectAttemptId := none
      startedAt := request.startedAt
      endedAt := none
      captureSealedAt := none
      executionOutcome := "running"
      captureStatus := .capturing
      reason := none
      contentVersion := ← ask .freshId
      policyVersion := sanitizationPolicy
      retainedBytes := 0
      lostBytes := 0
      commands := [] }
  ask (.begin record)
  pure record.id

/-- The record after a chunk gave way to the invocation limit. -/
def Invocation.evicted (record : Invocation) (size : Nat) : Invocation :=
  { record with
    retainedBytes := record.retainedBytes - size
    lostBytes := record.lostBytes + size
    reason := some "invocation_limit" }

/-- Make room for `bytes` more: the head of the log stays, up to half of the limit. -/
def evict (bytes : Nat) : List ChunkRow → Nat → Invocation → Archived Invocation
  | [], _, record => pure record
  | row :: rows, headUsed, record =>
    if record.retainedBytes + bytes ≤ C.invocationBytes then pure record
    else if headUsed + row.bytes ≤ C.invocationBytes / 2 then
      evict bytes rows (headUsed + row.bytes) record
    else do
      removeChunk record.id row
      evict bytes rows headUsed (record.evicted row.bytes)

def Invocation.refused (record : Invocation) (bytes : Nat) : Invocation :=
  { record with lostBytes := record.lostBytes + bytes, reason := some "quota_exceeded" }

def Invocation.kept (record : Invocation) (bytes : Nat) (withheld : Bool) : Invocation :=
  { record with
    retainedBytes := record.retainedBytes + bytes
    reason := if withheld then record.reason.or (some "filtered_content") else record.reason }

variable (sha256 : ByteArray → String)

/-- The row a chunk is kept as. -/
def AppendLog.row (chunk : AppendLog) (name : FileName) : ChunkRow where
  sequence := chunk.sequence
  commandOrdinal := chunk.commandOrdinal
  phase := chunk.phase
  stream := chunk.stream
  observedAt := chunk.observedAt
  bytes := chunk.bytes
  digest := sha256 chunk.text.toUTF8
  fileName := name

/-- A retained row is that of this chunk. -/
def AppendLog.isRow (chunk : AppendLog) (existing : ChunkRow) : Bool :=
  existing.digest = sha256 chunk.text.toUTF8 ∧ existing.phase = chunk.phase ∧
    existing.stream = chunk.stream ∧ existing.commandOrdinal = chunk.commandOrdinal

/-- Keep a chunk there is room for in the invocation. -/
def keep (chunk : AppendLog) (record : Invocation) : Archived Unit := do
  pruneLocked C chunk.bytes
  let used ← ask .usage
  if used + chunk.bytes > C.quotaBytes then save (record.refused chunk.bytes)
  else do
    -- Reserved before a cancellable file operation; failure keeps an upper bound.
    ask (.reserve chunk.bytes)
    let name ← publish record.id chunk.sequence chunk.text
    ask (.insertChunk record.id (chunk.row sha256 name))
    save (record.kept chunk.bytes chunk.withheld)

def append (chunk : AppendLog) : Archived Unit := do
  ensure (chunk.phase ∈ phases ∧ chunk.stream ∈ streams ∧ chunk.bytes ≤ 65536) invalid
  ensure (chunk.sequence < 2 ^ 63) invalid
  let record ← load chunk.invocationId
  let rows ← ask (.chunks record.id)
  match rows.find? fun row => row.sequence = chunk.sequence with
  | some existing => ensure (chunk.isRow sha256 existing = true) invalid
  | none => do
    ensure (record.captureSealedAt = none) invalid
    -- A replay of an evicted historical chunk must never append it again.
    ensure (rows.getLast?.any (fun row => chunk.sequence ≤ row.sequence) = false) invalid
    let record ← evict C chunk.bytes rows 0 record
    keep C sha256 chunk record

/-- The commands of a record with one command put in, `none` when it is there already. -/
def placeCommand (commands : List LogCommand) (command : LogCommand) :
    Except CoreError (Option (List LogCommand)) :=
  match commands.find? fun c => c.ordinal = command.ordinal with
  | some previous =>
    if previous.phase = command.phase ∧ previous.endedAt = none then
      .ok (some (commands.replaceF fun c =>
        if c.ordinal = command.ordinal then some command else none))
    else if previous = command then .ok none
    else .error invalid
  | none =>
    if commands.length < 64 then .ok (some (commands ++ [command])) else .error invalid

def Invocation.bindEffect (record : Invocation) (effectAttemptId : Option String) : Invocation :=
  { record with effectAttemptId := effectAttemptId.or record.effectAttemptId }

def command (command : LogCommand) : Archived Unit := do
  ensure (command.phase ∈ phases ∧ command.termination ∈ terminations) invalid
  let record ← load command.invocationId
  ensure (record.captureSealedAt = none) invalid
  match ← ofExcept (placeCommand record.commands command) with
  | none => pure ()
  | some commands =>
    save { record.bindEffect command.effectAttemptId with commands }

def LogCommand.interrupted (command : LogCommand) : LogCommand :=
  if command.endedAt = none then { command with termination := "interrupted" } else command

/-- The sealed record. -/
def Invocation.finish (record : Invocation) (result : FinishInvocation) (now : Int) : Invocation :=
  let lostBytes := record.lostBytes + result.lostBytes
  let incomplete := result.incomplete ∨ lostBytes > 0
  { record with
    executionOutcome := result.executionOutcome
    endedAt := some result.endedAt
    captureSealedAt := some now
    lostBytes
    captureStatus := if incomplete then .incomplete else .complete
    reason :=
      if incomplete then record.reason.or (some "capture_interrupted") else record.reason
    commands := record.commands.map (·.interrupted) }

def finish (result : FinishInvocation) : Archived Unit := do
  ensure (result.executionOutcome ∈ outcomes) invalid
  let record ← load result.invocationId
  if record.captureSealedAt.isSome then pure ()
  else save (record.finish result (← ask .now))

/-! ## The read port -/

/-- The text of a file that is the chunk's. -/
def chunkOf (row : ChunkRow) (bytes : ByteArray) : Except CoreError String :=
  if sha256 bytes ≠ row.digest then .error unavailable
  else match String.fromUTF8? bytes with
    | some text => .ok text
    | none => .error unavailable

def chunkText (id : Uuid) (row : ChunkRow) : Archived (Except CoreError String) := do
  match ← privateDirectory id with
  | .error e => pure (.error e)
  | .ok () =>
    match ← ask (.stat id (.chunk row.sequence)) with
    | .file length =>
      if length > 65536 then pure (.error unavailable)
      else match ← ask (.read id (.chunk row.sequence)) with
        | some bytes => pure (chunkOf sha256 row bytes)
        | none => pure (.error unavailable)
    | _ => pure (.error unavailable)

/-- Cursors as clients carry them, in hexadecimal digits of a JSON document. -/
structure CursorCodec where
  encode : Cursor → String
  decode : String → Option Cursor
  decode_encode : ∀ cursor, decode (encode cursor) = some cursor

/-- The row passes the filter. -/
def LogQuery.selects (query : LogQuery) (row : ChunkRow) : Bool :=
  query.phase.all (· = row.phase) ∧ query.stream.all (· = row.stream)

def LogEntry.of (row : ChunkRow) (text : String) : LogEntry where
  commandOrdinal := row.commandOrdinal
  phase := row.phase
  stream := row.stream
  sequence := row.sequence
  text := text
  observedAt := row.observedAt

/-- How the reading of a page's rows ended: a file could not be read, or there are these entries, the
last of them at `after`, and there may be more. -/
inductive Collected where
  | unreadable
  | entries (entries : List LogEntry) (after : Int) (more : Bool)

def collect (id : Uuid) (query : LogQuery) (limit : Nat) :
    List ChunkRow → Int → Nat → List LogEntry → Archived Collected
  | [], after, _, entries => pure (.entries entries after false)
  | row :: rows, after, used, entries =>
    if row.sequence ≤ after then collect id query limit rows after used entries
    else if query.selects row = false then collect id query limit rows after used entries
    else if used + row.bytes > limit then pure (.entries entries after true)
    else do
      match ← chunkText sha256 id row with
      | .error _ => pure .unreadable
      | .ok text =>
        collect id query limit rows row.sequence (used + text.utf8ByteSize)
          (entries ++ [.of row text])

variable (codec : CursorCodec)

/-- Where the rows of a page begin. -/
def position (id : Uuid) (query : LogQuery) (record : Invocation) : Except CoreError Int :=
  match query.cursor with
  | none => .ok (-1)
  | some raw =>
    if raw.utf8ByteSize > 2048 then .error invalid
    else match codec.decode raw with
      | none => .error invalid
      | some cursor =>
        if cursor.id ≠ id ∨ cursor.version ≠ record.contentVersion ∨
            cursor.phase ≠ query.phase ∨ cursor.stream ≠ query.stream ∨ cursor.after < -1 then
          .error invalid
        else .ok cursor.after

def emptyPage (id : Uuid) (record : Invocation) : LogPage where
  invocationId := id
  contentVersion := record.contentVersion
  captureStatus := record.captureStatus
  entries := []
  nextCursor := none
  hasGap := record.lostBytes > 0
  lostBytes := record.lostBytes

/-- The page of what was collected; a live cursor remains useful even when no new durable output
exists. -/
def pageOf (id : Uuid) (query : LogQuery) (record : Invocation) : Collected → LogPage
  | .unreadable =>
    { emptyPage id record with captureStatus := .unavailable, hasGap := true }
  | .entries entries after more =>
    { emptyPage id record with
      entries
      nextCursor :=
        if more ∨ record.captureSealedAt = none then
          some (codec.encode ⟨id, record.contentVersion, query.phase, query.stream, after⟩)
        else none }

def readPage (id : Uuid) (query : LogQuery) : Archived LogPage := do
  ensure (query.phase.all (· ∈ phases) ∧ query.stream.all (· ∈ streams)) invalid
  let limit := query.limitBytes.getD (256 * 1024)
  ensure (65536 ≤ limit ∧ limit ≤ 1024 * 1024) invalid
  let record ← load id
  let after ← ofExcept (position codec id query record)
  if supportedSanitizationPolicy record.policyVersion = false then
    pure { emptyPage id record with captureStatus := .withheld }
  else if record.captureStatus ∈ [.expired, .unavailable, .withheld] then
    pure (emptyPage id record)
  else do
    let rows ← ask (.chunks id)
    let collected ← collect sha256 id query limit rows after 0 []
    pure (pageOf codec id query record collected)

end Config

end Shaula.OperationLogs
