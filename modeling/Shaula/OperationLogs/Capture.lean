import Shaula.OperationLogs.Writes

/-! # Capture of an invocation's output

Pipes hand sanitized text to a bounded queue without waiting, and one writer for each invocation
takes it from there to the archive.  What does not fit, and what the archive does not confirm, is
counted as lost.
-/

namespace Shaula.OperationLogs

open Core Library

/-- The bytes of some chunks. -/
def volume (chunks : List AppendLog) : Nat := (chunks.map (·.bytes)).sum

@[simp] theorem volume_nil : volume [] = 0 := rfl

@[simp] theorem volume_cons (chunk : AppendLog) (chunks : List AppendLog) :
    volume (chunk :: chunks) = chunk.bytes + volume chunks := rfl

@[simp] theorem volume_append (chunks chunks' : List AppendLog) :
    volume (chunks ++ chunks') = volume chunks + volume chunks' := by
  simp [volume]

/-! ## A capture -/

/-- `QUEUE_CHUNKS` -/
def queueChunks : Nat := 64

inductive CaptureEvent where
  | text (chunk : AppendLog)
  | command (command : LogCommand)
  | flush
  | finish (outcome : String)
  deriving DecidableEq

/-- Where the writer is in its loop. -/
inductive Writer where
  | receiving
  | writing (call : ArchiveCall)
  | ended (outcome : String)
  | finishing (result : FinishInvocation)
  deriving DecidableEq

/-- The capture of an invocation and its writer. -/
structure Capture where
  queue : List CaptureEvent
  writer : Writer
  lost : Nat
  incomplete : Bool
  sequence : Nat
  /-- The last event was sent, or there is nobody left to send one. -/
  finished : Bool
  deriving DecidableEq

namespace Capture

/-- A capture that was just begun. -/
def new : Capture where
  queue := []
  writer := .receiving
  lost := 0
  incomplete := false
  sequence := 0
  finished := false

variable (c : Capture)

/-- `Capture::event`: send without waiting for room. -/
def event (event : CaptureEvent) (bytes : Nat) : Capture :=
  if c.queue.length < queueChunks then { c with queue := c.queue ++ [event] }
  else { c with lost := c.lost + bytes, incomplete := true }

/-- The chunk that `PipeCapture::flush` makes of the text that is pending. -/
def chunk (invocationId : Uuid) (ordinal : Nat) (phase stream text : String) (observedAt : Int)
    (withheld : Bool) : AppendLog where
  invocationId := invocationId
  commandOrdinal := ordinal
  phase := phase
  stream := stream
  sequence := c.sequence
  text := text
  observedAt := observedAt
  withheld := withheld

/-- `PipeCapture::flush`, with text pending. -/
def flush (chunk : AppendLog) : Capture :=
  { c with sequence := c.sequence + 1 }.event (.text chunk) chunk.bytes

/-- The command as the writer passes it on. -/
def noted (command : LogCommand) : LogCommand :=
  { command with
    capturePartial := command.capturePartial || c.incomplete
    lostBytes := c.lost }

/-- The writer receives the next event. -/
def take : Option Capture :=
  match c.writer, c.queue with
  | .receiving, event :: queue => some { c with
      queue
      writer := match event with
        | .text chunk => .writing (.append chunk)
        | .command command => .writing (.command (c.noted command))
        | .flush => .receiving
        | .finish outcome => .ended outcome }
  | _, _ => none

/-- The text that a call carries. -/
def textOf : ArchiveCall → List AppendLog
  | .append chunk => [chunk]
  | _ => []

/-- The bytes of text that a call carries. -/
def bytesOf (call : ArchiveCall) : Nat := volume (textOf call)

/-- The writer goes on after a call, which was confirmed or not. -/
def wrote (call : ArchiveCall) (confirmed : Bool) : Capture :=
  if confirmed then { c with writer := .receiving }
  else { c with writer := .receiving, lost := c.lost + bytesOf call, incomplete := true }

/-- What the writer reports at the end. -/
def report (invocationId : Uuid) (outcome : String) (endedAt : Int) : FinishInvocation where
  invocationId := invocationId
  executionOutcome := outcome
  endedAt := endedAt
  lostBytes := c.lost
  incomplete := c.incomplete || outcome = "interrupted"

/-- The writer waits for a chunk or a command to be confirmed. -/
def writes : Bool :=
  match c.writer with
  | .writing _ => true
  | _ => false

/-- The call that the writer waits for. -/
def underWay : List ArchiveCall :=
  match c.writer with
  | .writing call => [call]
  | .finishing result => [.finish result]
  | _ => []

end Capture

/-! ## Captures and their archive -/

/-- The tables of the archive, the captures that go on, and the calls that nobody waits for any more
but that may still arrive.  Three ghosts beside them: the ids that invocations were given, the chunks
that were released for each of them before its last event, and those of which an append or a command
was not confirmed. -/
structure LogWorld where
  db : Database
  captures : Uuid → Option Capture
  inFlight : List ArchiveCall
  seen : Uuid → Prop
  released : Uuid → List AppendLog
  stumbled : Uuid → Prop

namespace LogWorld

def initial : LogWorld where
  db := .empty
  captures _ := none
  inFlight := []
  seen _ := False
  released _ := []
  stumbled _ := False

variable (w : LogWorld)

def setCapture (id : Uuid) (c : Option Capture) : LogWorld :=
  { w with captures := Function.update w.captures id c }

theorem captures_setCapture (id : Uuid) (c : Option Capture) :
    (w.setCapture id c).captures id = c :=
  Function.update_self ..

/-- The tables after a call, and the ids that it gave out. -/
def answered (db : Database) : LogWorld :=
  { w with db, seen := fun id => w.seen id ∨ (db.record id).isSome }

/-- The calls of a capture that was given up. -/
def abandon (id : Uuid) (c : Capture) : LogWorld :=
  { w with
    inFlight := w.inFlight ++ c.underWay
    stumbled := fun id' => w.stumbled id' ∨ (id' = id ∧ c.writes = true) }

/-- A call that the writer did not hear of, or heard that it failed. -/
def stumble (id : Uuid) (confirmed : Bool) : LogWorld :=
  { w with stumbled := fun id' => w.stumbled id' ∨ (id' = id ∧ confirmed = false) }

/-- A chunk is released for an invocation, unless its last event was sent before. -/
def release (id : Uuid) (c : Capture) (chunk : AppendLog) : LogWorld :=
  if c.finished then w
  else { w with released := Function.update w.released id (w.released id ++ [chunk]) }

end LogWorld

inductive LogEvent where
  | begun (request : BeginInvocation)
  | flushed (id : Uuid) (chunk : AppendLog)
  | commanded (id : Uuid) (command : LogCommand)
  | flagged (id : Uuid)
  | barred (id : Uuid)
  | finishing (id : Uuid) (outcome : String)
  | hungUp (id : Uuid)
  | taken (id : Uuid)
  | wrote (id : Uuid) (confirmed : Bool)
  | settled (id : Uuid)
  | sealed (id : Uuid)
  | abandoned (id : Uuid)
  | arrived (call : ArchiveCall)
  | upkept (call : ArchiveCall)

section Step

variable (C : LogConfig) (sha256 : ByteArray → String) (codec : CursorCodec)

/-- One step of the pipes, of a writer, of a late call or of the archive's upkeep.  An id is given to
one invocation only. -/
inductive LogStep : LogWorld → LogEvent → LogWorld → Prop
  | begun {w : LogWorld} {request : BeginInvocation} {reply : Option (Except CoreError ArchiveReply)}
      {db : Database} : Serves C sha256 codec w.db (.begin request, reply) db →
      (∀ id record, w.seen id → db.record id = some record → record.captureSealedAt = none →
        w.db.record id = some record) →
      LogStep w (.begun request) (match reply with
        | some (.ok (.begun id)) => (w.answered db).setCapture id (some .new)
        | _ => w.answered db)
  | flushed {w : LogWorld} {id : Uuid} {c : Capture} {ordinal : Nat} {phase stream text : String}
      {observedAt : Int} {withheld : Bool} : w.captures id = some c → text ≠ "" →
      LogStep w (.flushed id (c.chunk id ordinal phase stream text observedAt withheld))
        ((w.release id c (c.chunk id ordinal phase stream text observedAt withheld)).setCapture id
          (some (c.flush (c.chunk id ordinal phase stream text observedAt withheld))))
  | commanded {w : LogWorld} {id : Uuid} {c : Capture} {command : LogCommand} :
      w.captures id = some c → command.invocationId = id →
      LogStep w (.commanded id command) (w.setCapture id (some (c.event (.command command) 0)))
  | flagged {w : LogWorld} {id : Uuid} {c : Capture} : w.captures id = some c →
      LogStep w (.flagged id) (w.setCapture id (some { c with incomplete := true }))
  | barred {w : LogWorld} {id : Uuid} {c : Capture} : w.captures id = some c →
      c.queue.length < queueChunks →
      LogStep w (.barred id) (w.setCapture id (some { c with queue := c.queue ++ [.flush] }))
  | finishing {w : LogWorld} {id : Uuid} {c : Capture} {outcome : String} :
      w.captures id = some c → c.finished = false → c.queue.length < queueChunks →
      LogStep w (.finishing id outcome) (w.setCapture id
        (some { c with queue := c.queue ++ [.finish outcome], finished := true }))
  | hungUp {w : LogWorld} {id : Uuid} {c : Capture} : w.captures id = some c →
      c.writer = .receiving → c.queue = [] →
      LogStep w (.hungUp id) (w.setCapture id
        (some { c with writer := .ended "interrupted", finished := true }))
  | taken {w : LogWorld} {id : Uuid} {c c' : Capture} : w.captures id = some c →
      c.take = some c' → LogStep w (.taken id) (w.setCapture id (some c'))
  | wrote {w : LogWorld} {id : Uuid} {c : Capture} {call : ArchiveCall}
      {reply : Option (Except CoreError ArchiveReply)} {db : Database} {confirmed : Bool} :
      w.captures id = some c → c.writer = .writing call →
      Serves C sha256 codec w.db (call, reply) db →
      (confirmed = true → reply = some (.ok .done)) →
      LogStep w (.wrote id confirmed)
        (((w.answered db).stumble id confirmed).setCapture id (some (c.wrote call confirmed)))
  | settled {w : LogWorld} {id : Uuid} {c : Capture} {outcome : String} {endedAt : Int} :
      w.captures id = some c → c.writer = .ended outcome →
      LogStep w (.settled id) (w.setCapture id
        (some { c with writer := .finishing (c.report id outcome endedAt) }))
  | sealed {w : LogWorld} {id : Uuid} {c : Capture} {result : FinishInvocation}
      {reply : Option (Except CoreError ArchiveReply)} {db : Database} :
      w.captures id = some c → c.writer = .finishing result →
      Serves C sha256 codec w.db (.finish result, reply) db →
      LogStep w (.sealed id) ((w.answered db).setCapture id none)
  | gaveUp {w : LogWorld} {id : Uuid} {c : Capture} {call : ArchiveCall} :
      w.captures id = some c → c.writer = .writing call →
      LogStep w (.wrote id false)
        ((w.abandon id c).setCapture id (some (c.wrote call false)))
  | abandoned {w : LogWorld} {id : Uuid} {c : Capture} : w.captures id = some c →
      LogStep w (.abandoned id) ((w.abandon id c).setCapture id none)
  | arrived {w : LogWorld} {call : ArchiveCall} {reply : Option (Except CoreError ArchiveReply)}
      {db : Database} {before after : List ArchiveCall} : w.inFlight = before ++ call :: after →
      Serves C sha256 codec w.db (call, reply) db →
      LogStep w (.arrived call) ({ w with inFlight := before ++ after }.answered db)
  | upkept {w : LogWorld} {call : ArchiveCall} {reply : Option (Except CoreError ArchiveReply)}
      {db : Database} : (call = .recover ∨ call = .maintenance ∨ ∃ id query, call = .readPage id query) →
      Serves C sha256 codec w.db (call, reply) db →
      LogStep w (.upkept call) (w.answered db)

end Step

end Shaula.OperationLogs
