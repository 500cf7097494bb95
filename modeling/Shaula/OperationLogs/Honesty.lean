import Shaula.OperationLogs.Capture
import Shaula.OperationLogs.Paging

/-! # What a log says of its capture

A log that says it is complete holds every chunk that was released for its invocation, and a sealed
log of which every append was confirmed counts the bytes it does not hold.
-/

namespace Shaula.OperationLogs

open Shaula.Core Library Library.Program

variable {C : LogConfig} {sha256 : ByteArray → String} {codec : CursorCodec} {db db' : Database}
  {id : Uuid} {w w' : LogWorld} {c c' : Capture} {released : List AppendLog} {stumbled : Prop}

/-! ## Queues -/

/-- The last event is in the queue. -/
def ends : List CaptureEvent → Bool
  | [] => false
  | .finish _ :: _ => true
  | .text _ :: queue | .command _ :: queue | .flush :: queue => ends queue

/-- The texts before the last event. -/
def queued : List CaptureEvent → List AppendLog
  | [] => []
  | .finish _ :: _ => []
  | .text chunk :: queue => chunk :: queued queue
  | .command _ :: queue | .flush :: queue => queued queue

theorem ends_append (queue queue' : List CaptureEvent) :
    ends (queue ++ queue') = (ends queue || ends queue') := by
  induction queue with
  | nil => rfl
  | cons event queue ih =>
    cases event with
    | finish => rfl
    | text | command | flush => exact ih

theorem queued_append (queue queue' : List CaptureEvent) :
    queued (queue ++ queue') = queued queue ++ if ends queue then [] else queued queue' := by
  induction queue with
  | nil => rfl
  | cons event queue ih =>
    cases event with
    | finish => rfl
    | text chunk => exact congrArg (chunk :: ·) ih
    | command | flush => exact ih

namespace Capture

/-- The writer will come to what is put into the queue. -/
def listens (c : Capture) : Bool :=
  match c.writer with
  | .receiving | .writing _ => !ends c.queue
  | .ended _ | .finishing _ => false

/-- The texts that are still to be written. -/
def upcoming (c : Capture) : List AppendLog :=
  match c.writer with
  | .receiving => queued c.queue
  | .writing call => textOf call ++ queued c.queue
  | .ended _ | .finishing _ => []

/-- The bytes that are written or reported as lost from here on. -/
def owed (c : Capture) : Nat :=
  match c.writer with
  | .finishing result => result.lostBytes
  | .receiving | .writing _ | .ended _ => c.lost + volume c.upcoming

/-- An event is put into the queue. -/
def push (c : Capture) (event : CaptureEvent) : Capture :=
  { c with queue := c.queue ++ [event] }

/-- There was no room for an event. -/
def overflow (c : Capture) (bytes : Nat) : Capture :=
  { c with lost := c.lost + bytes, incomplete := true }

theorem event_eq (event : CaptureEvent) (bytes : Nat) :
    c.event event bytes = c.push event ∨ c.event event bytes = c.overflow bytes := by
  unfold Capture.event
  split
  · exact .inl rfl
  · exact .inr rfl

theorem upcoming_push (event : CaptureEvent) :
    (c.push event).upcoming = c.upcoming ++ if c.listens then queued [event] else [] := by
  obtain ⟨queue, writer, lost, incomplete, sequence, finished⟩ := c
  cases writer with
  | receiving | writing =>
    simp only [push, upcoming, listens, queued_append, List.append_assoc]
    by_cases h : ends queue = true <;> simp [h]
  | ended | finishing => rfl

theorem listens_push (event : CaptureEvent) :
    (c.push event).listens = (c.listens && !ends [event]) := by
  obtain ⟨queue, writer, lost, incomplete, sequence, finished⟩ := c
  cases writer with
  | receiving | writing => simp only [push, listens, ends_append, Bool.not_or]
  | ended | finishing => rfl

theorem owed_push (event : CaptureEvent) : (c.push event).owed =
    c.owed + volume (if c.listens then queued [event] else []) := by
  obtain ⟨queue, writer, lost, incomplete, sequence, finished⟩ := c
  cases writer with
  | receiving | writing =>
    show lost + volume (push _ _).upcoming = lost + volume (upcoming _) + _
    rw [upcoming_push, volume_append, Nat.add_assoc]
  | ended | finishing => rfl

theorem owed_overflow (bytes : Nat) :
    c.owed + (if c.listens then bytes else 0) ≤ (c.overflow bytes).owed := by
  obtain ⟨queue, writer, lost, incomplete, sequence, finished⟩ := c
  cases writer with
  | receiving | writing =>
    show lost + volume (upcoming _) + (if _ then _ else _) ≤ lost + bytes + volume (upcoming _)
    rw [show ∀ c : Capture, (c.overflow bytes).upcoming = c.upcoming from fun _ => rfl]
    split <;> omega
  | ended =>
    show lost + 0 + 0 ≤ lost + bytes + 0
    omega
  | finishing => exact Nat.le_refl _

theorem flush_eq (chunk : AppendLog) :
    c.flush chunk = { c.push (.text chunk) with sequence := c.sequence + 1 } ∨
      c.flush chunk = { c.overflow chunk.bytes with sequence := c.sequence + 1 } :=
  event_eq _ _

theorem upcoming_flush {chunk later : AppendLog} (h : later ∈ (c.flush chunk).upcoming) :
    later ∈ c.upcoming ∨ later = chunk := by
  rcases flush_eq (c := c) chunk with hc' | hc' <;> rw [hc'] at h
  · change later ∈ (c.push (.text chunk)).upcoming at h
    rw [upcoming_push] at h
    rcases List.mem_append.mp h with hold | hnew
    · exact .inl hold
    · split at hnew
      · exact .inr (List.mem_singleton.mp hnew)
      · cases hnew
  · exact .inl h

theorem owed_flush (chunk : AppendLog) :
    c.owed + volume (if c.listens then [chunk] else []) ≤ (c.flush chunk).owed := by
  rcases flush_eq (c := c) chunk with hc' | hc' <;> rw [hc']
  · exact (owed_push (.text chunk)).ge
  · show c.owed + volume (if c.listens then [chunk] else []) ≤ (c.overflow chunk.bytes).owed
    refine le_of_eq_of_le ?_ (owed_overflow chunk.bytes)
    cases c.listens <;> rfl

/-- The call under way is the next of what is still to be written. -/
theorem upcoming_wrote {call : ArchiveCall} (h : c.writer = .writing call) (confirmed : Bool) :
    c.upcoming = textOf call ++ (c.wrote call confirmed).upcoming := by
  cases confirmed <;> simp [upcoming, wrote, h]

theorem owed_wrote {call : ArchiveCall} (h : c.writer = .writing call) (confirmed : Bool) :
    c.owed ≤ (c.wrote call confirmed).owed + if confirmed then volume (textOf call) else 0 := by
  cases confirmed with
  | true =>
    simp only [owed, upcoming, wrote, h, volume_append, if_true]
    omega
  | false =>
    simp only [owed, upcoming, wrote, h, volume_append, bytesOf]
    simp only [Bool.false_eq_true, if_false]
    omega

theorem take_eq_some (h : c.take = some c') : c.writer = .receiving ∧
    ∃ event, c.queue = event :: c'.queue ∧ c' = { c with
      queue := c'.queue
      writer := match event with
        | .text chunk => .writing (.append chunk)
        | .command command => .writing (.command (c.noted command))
        | .flush => .receiving
        | .finish outcome => .ended outcome } := by
  unfold take at h
  split at h
  · next event queue hwriter hqueue =>
    cases h
    exact ⟨hwriter, event, hqueue, rfl⟩
  · cases h

theorem upcoming_take (h : c.take = some c') : c'.upcoming = c.upcoming := by
  obtain ⟨hwriter, event, hqueue, hc'⟩ := take_eq_some h
  rw [hc']
  simp only [upcoming, hwriter, hqueue]
  cases event <;> rfl

theorem listens_take (h : c.take = some c') : c'.listens = c.listens := by
  obtain ⟨hwriter, event, hqueue, hc'⟩ := take_eq_some h
  rw [hc']
  simp only [listens, hwriter, hqueue]
  cases event <;> rfl

theorem owed_take (h : c.take = some c') : c'.owed = c.owed := by
  have hupcoming := upcoming_take h
  obtain ⟨hwriter, event, hqueue, hc'⟩ := take_eq_some h
  have hlost : c'.lost = c.lost := by rw [hc']
  have howed : c.owed = c.lost + volume c.upcoming := by simp only [owed, hwriter]
  have howed' : c'.owed = c'.lost + volume c'.upcoming := by
    rw [hc']
    cases event <;> rfl
  rw [howed, howed', hupcoming, hlost]

end Capture

/-! ## What a capture keeps -/

/-- The chunks released for an invocation, in the order of their numbers. -/
structure Numbered (id : Uuid) (released : List AppendLog) : Prop where
  ascending : released.Pairwise (·.sequence < ·.sequence)
  owned : ∀ chunk ∈ released, chunk.invocationId = id ∧ 0 < chunk.bytes

/-- The report of a capture says that something is missing if something may be. -/
structure FinishInvocation.Candid (result : FinishInvocation) (id : Uuid) (stumbled : Prop) :
    Prop where
  named : result.invocationId = id
  flagged : stumbled → result.incomplete = true
  counted : result.incomplete = false → result.lostBytes = 0

/-- A capture for which these chunks were released, and of which a write may have stumbled. -/
structure Capture.Proper (id : Uuid) (released : List AppendLog) (stumbled : Prop) (c : Capture) :
    Prop where
  numbers : ∀ chunk ∈ released, chunk.sequence < c.sequence
  upcoming : c.upcoming.Sublist released
  listens : c.finished = !c.listens
  commands : ∀ command, .command command ∈ c.queue → command.invocationId = id
  writing : ∀ call, c.writer = .writing call → (∃ chunk, call = .append chunk) ∨
    ∃ command, call = .command command ∧ command.invocationId = id
  flagged : stumbled → c.incomplete = true
  counted : c.incomplete = false → c.lost = 0
  reporting : ∀ result, c.writer = .finishing result → result.Candid id stumbled

namespace Capture.Proper

theorem new (hstumbled : ¬ stumbled) : Capture.new.Proper id [] stumbled where
  numbers _ h := by cases h
  upcoming := .refl _
  listens := rfl
  commands _ h := by cases h
  writing _ h := by cases h
  flagged h := absurd h hstumbled
  counted _ := rfl
  reporting _ h := by cases h

theorem overflow (h : c.Proper id released stumbled) (bytes : Nat) :
    (c.overflow bytes).Proper id released stumbled where
  numbers := h.numbers
  upcoming := h.upcoming
  listens := h.listens
  commands := h.commands
  writing := h.writing
  flagged _ := rfl
  counted hflag := by cases hflag
  reporting := h.reporting

/-- An event is put into the queue; of a text for which the writer listens it is released. -/
theorem push (h : c.Proper id released stumbled) (event : CaptureEvent) (sequence : Nat)
    (hcommand : ∀ command, event = .command command → command.invocationId = id)
    (hsequence : c.sequence ≤ sequence) (hnew : ∀ chunk ∈ queued [event], chunk.sequence < sequence) :
    { c.push event with sequence, finished := c.finished || ends [event] }.Proper id
      (released ++ if c.listens then queued [event] else []) stumbled where
  numbers chunk hchunk := by
    rcases List.mem_append.mp hchunk with hold | hchunk
    · exact (h.numbers chunk hold).trans_le hsequence
    · split at hchunk
      · exact hnew chunk hchunk
      · cases hchunk
  upcoming := by
    show (c.push event).upcoming.Sublist _
    rw [Capture.upcoming_push]
    exact h.upcoming.append (.refl _)
  listens := by
    show (c.finished || ends [event]) = !(c.push event).listens
    rw [Capture.listens_push, h.listens]
    cases c.listens <;> simp
  commands command hmem := by
    rcases List.mem_append.mp hmem with hold | hmem
    · exact h.commands command hold
    · exact hcommand command (List.mem_singleton.mp hmem).symm
  writing := h.writing
  flagged := h.flagged
  counted := h.counted
  reporting := h.reporting

/-- An event that is no text is put into the queue, and it is not the last one. -/
theorem note (h : c.Proper id released stumbled) (event : CaptureEvent)
    (hcommand : ∀ command, event = .command command → command.invocationId = id)
    (hqueued : queued [event] = []) (hends : ends [event] = false) :
    (c.push event).Proper id released stumbled := by
  have hpushed := h.push event c.sequence hcommand (Nat.le_refl _)
    (by rw [hqueued]; exact fun _ h => by cases h)
  rw [hqueued, ite_self, List.append_nil] at hpushed
  simp only [hends, Bool.or_false] at hpushed
  exact hpushed

/-- A text is put into the queue where there is room for it, and released if the writer listens. -/
theorem flush {chunk : AppendLog} (h : c.Proper id released stumbled)
    (hsequence : chunk.sequence = c.sequence) :
    (c.flush chunk).Proper id (released ++ if c.listens then [chunk] else []) stumbled := by
  rcases Capture.flush_eq (c := c) chunk with hc' | hc' <;> rw [hc']
  · have hpushed := h.push (.text chunk) (c.sequence + 1) (fun _ h => by cases h) (Nat.le_succ _) (by
      intro chunk' hchunk'
      rw [List.mem_singleton.mp hchunk', hsequence]
      exact Nat.lt_succ_self _)
    rw [show ends [.text chunk] = false from rfl, Bool.or_false] at hpushed
    exact hpushed
  · have hover := h.overflow chunk.bytes
    refine ⟨fun chunk' hchunk' => ?_, hover.upcoming.trans (List.sublist_append_left _ _),
      hover.listens, hover.commands, hover.writing, hover.flagged, hover.counted, hover.reporting⟩
    rcases List.mem_append.mp hchunk' with hold | hnew
    · exact (h.numbers chunk' hold).trans (Nat.lt_succ_self _)
    · split at hnew
      · rw [List.mem_singleton.mp hnew, hsequence]
        exact Nat.lt_succ_self _
      · cases hnew

theorem take (h : c.Proper id released stumbled) (htake : c.take = some c') :
    c'.Proper id released stumbled := by
  have hupcoming := Capture.upcoming_take htake
  have hlistens := Capture.listens_take htake
  obtain ⟨hwriter, event, hqueue, hc'⟩ := Capture.take_eq_some htake
  have hsame : c'.sequence = c.sequence ∧ c'.finished = c.finished ∧
      c'.incomplete = c.incomplete ∧ c'.lost = c.lost := by
    rw [hc']
    exact ⟨rfl, rfl, rfl, rfl⟩
  obtain ⟨hsequence, hfinished, hincomplete, hlost⟩ := hsame
  refine ⟨hsequence ▸ h.numbers, hupcoming ▸ h.upcoming, ?_, fun command hmem => ?_,
    fun call hcall => ?_, hincomplete ▸ h.flagged, ?_, fun result hresult => ?_⟩
  · rw [hfinished, hlistens]
    exact h.listens
  · exact h.commands command (hqueue ▸ List.mem_cons_of_mem _ hmem)
  · rw [hc'] at hcall
    cases event with
    | text chunk =>
      cases hcall
      exact .inl ⟨chunk, rfl⟩
    | command command =>
      cases hcall
      exact .inr ⟨_, rfl, h.commands command (hqueue ▸ List.mem_cons_self)⟩
    | flush | finish => cases hcall
  · rw [hincomplete, hlost]
    exact h.counted
  · rw [hc'] at hresult
    cases event <;> cases hresult

/-- The writer goes on after a call. -/
theorem wrote {call : ArchiveCall} {confirmed : Bool} {stumbled' : Prop}
    (h : c.Proper id released stumbled) (hwriter : c.writer = .writing call)
    (hstumbled : stumbled' → stumbled ∨ confirmed = false) :
    (c.wrote call confirmed).Proper id released stumbled' := by
  have hupcoming := Capture.upcoming_wrote hwriter confirmed
  have hlistens : (c.wrote call confirmed).listens = c.listens := by
    cases confirmed <;> simp [Capture.wrote, Capture.listens, hwriter]
  refine ⟨?_, (List.sublist_append_right _ _).trans (hupcoming ▸ h.upcoming), ?_, ?_, ?_, ?_, ?_, ?_⟩
  · cases confirmed <;> exact h.numbers
  · rw [hlistens]
    cases confirmed <;> exact h.listens
  · cases confirmed <;> exact h.commands
  · intro call' hcall'
    cases confirmed <;> cases hcall'
  · intro hstumbled'
    cases confirmed with
    | true => exact h.flagged ((hstumbled hstumbled').resolve_right (by simp))
    | false => rfl
  · intro hflag
    cases confirmed with
    | true => exact h.counted hflag
    | false => cases hflag
  · intro result hresult
    cases confirmed <;> cases hresult

/-- The writer has nobody left to hear from. -/
theorem hungUp (h : c.Proper id released stumbled) (outcome : String) :
    { c with writer := .ended outcome, finished := true }.Proper id released stumbled where
  numbers := h.numbers
  upcoming := List.nil_sublist _
  listens := rfl
  commands := h.commands
  writing _ hcall := by cases hcall
  flagged := h.flagged
  counted := h.counted
  reporting _ hresult := by cases hresult

theorem settle {outcome : String} (h : c.Proper id released stumbled)
    (hwriter : c.writer = .ended outcome) (endedAt : Int) :
    { c with writer := .finishing (c.report id outcome endedAt) }.Proper id released stumbled where
  numbers := h.numbers
  upcoming := List.nil_sublist _
  listens := by
    have hlistens := h.listens
    simp only [Capture.listens, hwriter] at hlistens
    exact hlistens
  commands := h.commands
  writing _ hcall := by cases hcall
  flagged := h.flagged
  counted := h.counted
  reporting result hresult := by
    cases hresult
    refine ⟨rfl, fun hstumbled => ?_, fun hincomplete => ?_⟩
    · show (c.incomplete || _) = true
      rw [h.flagged hstumbled, Bool.true_or]
    · exact h.counted (Bool.or_eq_false_iff.mp hincomplete).1

end Capture.Proper

/-! ## What a call may do to an open log -/

theorem Database.record_saved {record stored : Invocation} (hid : record.id = id)
    (h : db.record id = some stored) : (db.save record).record id = some record := by
  rw [Database.record_save, if_pos hid.symm, h]
  rfl

/-- A call that seals nothing: rows of these chunks may come, and of an open log each byte stays
accounted for when the call is accepted. -/
structure Extends (sha256 : ByteArray → String) (id : Uuid) (chunks : List AppendLog)
    (accepted : Prop) (db db' : Database) : Prop where
  rows : ∀ row ∈ db'.chunks id, row ∈ db.chunks id ∨
    ∃ chunk ∈ chunks, row = chunk.row sha256 (.chunk chunk.sequence)
  running : ∀ record', db'.record id = some record' → record'.captureSealedAt = none →
    ∃ record, db.record id = some record ∧ record.Continues record' ∧
      record.captureSealedAt = none ∧ (accepted →
        retained (db'.chunks id) + record'.lostBytes =
          retained (db.chunks id) + record.lostBytes + volume chunks)
  settled : ∀ record, db'.record id = some record → record.Settled → db.record id = some record

theorem Ages.extends (h : Ages id db db') : Extends sha256 id [] True db db' where
  rows row hrow := .inl (h.chunks.subset hrow)
  running record hrecord hopen := by
    obtain ⟨hbefore, hchunks⟩ := h.writing record hrecord hopen
    exact ⟨record, hbefore, ⟨hopen, rfl⟩, hopen, fun _ => by rw [hchunks]; rfl⟩
  settled := h.settled

def ArchiveCall.invocation : ArchiveCall → Option Uuid
  | .append chunk => some chunk.invocationId
  | .command cmd => some cmd.invocationId
  | .finish result => some result.invocationId
  | .recover | .maintenance | .begin _ | .readPage _ _ => none

/-- A call leaves the logs of the other invocations as they are. -/
theorem Serves.ages {call : ArchiveCall} {reply : Option (Except CoreError ArchiveReply)}
    (hlimit : 128 * 1024 ≤ C.invocationBytes) (hdb : db.WellFormed C)
    (h : Serves C sha256 codec db (call, reply) db') (hbegin : ∀ request, call ≠ .begin request)
    (hid : call.invocation ≠ some id) : Ages id db db' := by
  obtain ⟨ops, h⟩ := h
  cases call with
  | recover =>
    obtain ⟨_, h, -⟩ := Runs.of_map h
    exact recover_ages hdb h id
  | maintenance =>
    obtain ⟨_, h, -⟩ := Runs.of_map h
    exact (maintenance_tidy hdb h id).toAges
  | begin request => exact absurd rfl (hbegin request)
  | append chunk =>
    obtain ⟨_, h, -⟩ := Runs.of_map h
    rcases append_executes hlimit hdb h with ⟨rfl, -⟩ | ⟨_, happends, -⟩
    · exact .refl id _
    · exact (happends.others id fun heq => hid (heq ▸ rfl)).toAges
  | command cmd =>
    obtain ⟨_, h, -⟩ := Runs.of_map h
    rcases command_executes h with rfl | ⟨stored, commands, effect, hstored, -, rfl⟩
    · exact .refl id _
    · refine (Tidy.save_other fun heq => hid ?_).toAges
      exact congrArg some ((hdb.name hstored).symm.trans heq.symm)
  | finish result =>
    obtain ⟨_, h, -⟩ := Runs.of_map h
    rcases finish_executes h with rfl | ⟨stored, now, hstored, -, rfl⟩
    · exact .refl id _
    · refine (Tidy.save_other fun heq => hid ?_).toAges
      exact congrArg some ((hdb.name hstored).symm.trans heq.symm)
  | readPage =>
    obtain ⟨_, h, -⟩ := Runs.of_map h
    cases quiet_executes readPage_quiet h
    exact .refl id _

/-- A text that comes after all that is retained. -/
theorem Serves.append_extends {chunk : AppendLog} {reply : Option (Except CoreError ArchiveReply)}
    (hlimit : 128 * 1024 ≤ C.invocationBytes) (hdb : db.WellFormed C)
    (h : Serves C sha256 codec db (.append chunk, reply) db') :
    Extends sha256 chunk.invocationId [chunk] (reply = some (.ok .done) ∧
      ∀ row ∈ db.chunks chunk.invocationId, row.sequence < chunk.sequence) db db' := by
  obtain ⟨ops, h⟩ := h
  obtain ⟨r, h, hr⟩ := Runs.of_map h
  have hok : reply = some (.ok .done) → r = some (.ok ()) := by
    rintro rfl
    rcases r with - | e | ⟨⟩
    · cases hr
    · cases hr
    · rfl
  rcases append_executes hlimit hdb h with ⟨rfl, hreplayed⟩ | ⟨stored, happends, -⟩
  · refine ⟨fun row hrow => .inl hrow, fun record hrecord hopen =>
      ⟨record, hrecord, ⟨hopen, rfl⟩, hopen, fun ⟨hreply, hlast⟩ => ?_⟩, fun _ hrecord _ => hrecord⟩
    obtain ⟨row, hrow, hsame⟩ := hreplayed (hok hreply)
    exact absurd hsame (hlast row hrow).ne
  · obtain ⟨after, hafter, hcontinues, hcounted⟩ := happends.after
    refine ⟨fun row hrow => ?_, fun record hrecord _ => ?_, fun record hrecord hsettled => ?_⟩
    · rcases happends.rows row hrow with hold | hnew
      · exact .inl hold
      · exact .inr ⟨chunk, List.mem_singleton_self chunk, hnew⟩
    · cases hafter.symm.trans hrecord
      exact ⟨stored, happends.before, hcontinues, happends.running,
        fun haccepted => hcounted (hok haccepted.1)⟩
    · cases hafter.symm.trans hrecord
      have hsealed := hsettled.sealed
      rw [hcontinues.running] at hsealed
      cases hsealed

theorem Serves.command_extends {cmd : LogCommand} {reply : Option (Except CoreError ArchiveReply)}
    (hdb : db.WellFormed C) (h : Serves C sha256 codec db (.command cmd, reply) db') :
    Extends sha256 cmd.invocationId [] True db db' := by
  obtain ⟨ops, h⟩ := h
  obtain ⟨_, h, -⟩ := Runs.of_map h
  rcases command_executes h with rfl | ⟨stored, commands, effect, hstored, hopen, rfl⟩
  · exact (Ages.refl _ _).extends
  · have hname := hdb.name hstored
    have hafter := Database.record_saved (show ({ stored with
      retainedBytes := retained (db.chunks cmd.invocationId)
      effectAttemptId := effect
      commands := commands } : Invocation).id = cmd.invocationId from hname) hstored
    refine ⟨fun row hrow => .inl hrow, fun record hrecord _ => ?_, fun record hrecord hsettled => ?_⟩
    · cases hafter.symm.trans hrecord
      exact ⟨stored, hstored, ⟨hopen, rfl⟩, hopen, fun _ => rfl⟩
    · cases hafter.symm.trans hrecord
      have hsealed : stored.captureSealedAt.isSome := hsettled.sealed
      rw [hopen] at hsealed
      cases hsealed

/-- A write of the invocation: an append is accepted when it is confirmed and its text comes after
all that is retained. -/
theorem Serves.write_extends {call : ArchiveCall} {reply : Option (Except CoreError ArchiveReply)}
    (hlimit : 128 * 1024 ≤ C.invocationBytes) (hdb : db.WellFormed C)
    (hwrite : (∃ chunk, call = .append chunk) ∨ ∃ cmd, call = .command cmd)
    (hid : call.invocation = some id) (h : Serves C sha256 codec db (call, reply) db') :
    Extends sha256 id (Capture.textOf call) (∀ chunk ∈ Capture.textOf call,
      reply = some (.ok .done) ∧ ∀ row ∈ db.chunks id, row.sequence < chunk.sequence) db db' := by
  rcases hwrite with ⟨chunk, rfl⟩ | ⟨cmd, rfl⟩
  · cases hid
    have hextends := h.append_extends hlimit hdb
    refine ⟨hextends.rows, fun record hrecord hopen => ?_, hextends.settled⟩
    obtain ⟨before, hbefore, hcontinues, hopen', hcounted⟩ := hextends.running record hrecord hopen
    exact ⟨before, hbefore, hcontinues, hopen', fun haccepted =>
      hcounted (haccepted chunk (List.mem_singleton_self chunk))⟩
  · cases hid
    have hextends := h.command_extends hdb
    refine ⟨hextends.rows, fun record hrecord hopen => ?_, hextends.settled⟩
    obtain ⟨before, hbefore, hcontinues, hopen', hcounted⟩ := hextends.running record hrecord hopen
    exact ⟨before, hbefore, hcontinues, hopen', fun _ => hcounted trivial⟩

/-! ## Fair logs -/

theorem Capture.Proper.invocation {call : ArchiveCall} (h : c.Proper id released stumbled)
    (hnumbered : Numbered id released) (hwriter : c.writer = .writing call) :
    ((∃ chunk, call = .append chunk) ∨ ∃ cmd, call = .command cmd) ∧
      call.invocation = some id := by
  rcases h.writing call hwriter with ⟨chunk, rfl⟩ | ⟨cmd, rfl, hid⟩
  · refine ⟨.inl ⟨chunk, rfl⟩, congrArg some (hnumbered.owned chunk (h.upcoming.subset ?_)).1⟩
    rw [Capture.upcoming_wrote hwriter true]
    exact List.mem_cons_self
  · exact ⟨.inr ⟨cmd, rfl⟩, congrArg some hid⟩

/-- Of an open log no byte is missing but what is still owed. -/
def Balanced (w : LogWorld) (id : Uuid) (owed : Nat) : Prop :=
  ∀ record, w.db.record id = some record → record.captureSealedAt = none → ¬ w.stumbled id →
    volume (w.released id) ≤ retained (w.db.chunks id) + record.lostBytes + owed

/-- A call for an invocation that may arrive at any time. -/
inductive Stray (w : LogWorld) (id : Uuid) : ArchiveCall → Prop
  | append {chunk : AppendLog} : chunk ∈ w.released id → w.stumbled id →
      (∀ c, w.captures id = some c → ∀ later ∈ c.upcoming, chunk.sequence < later.sequence) →
      Stray w id (.append chunk)
  | command {command : LogCommand} : Stray w id (.command command)
  | finish {result : FinishInvocation} : w.captures id = none → w.seen id →
      result.Candid id (w.stumbled id) → Balanced w id result.lostBytes → Stray w id (.finish result)

structure Custody (w : LogWorld) (id : Uuid) (c : Capture) : Prop where
  proper : c.Proper id (w.released id) (w.stumbled id)
  later : ∀ row ∈ w.db.chunks id, ∀ chunk ∈ c.upcoming, row.sequence < chunk.sequence
  balanced : Balanced w id c.owed

/-- What a sealed log says is so. -/
structure Told (w : LogWorld) (id : Uuid) (record : Invocation) : Prop where
  silent : w.captures id = none
  counted : ¬ w.stumbled id → volume (w.released id) ≤ record.retainedBytes + record.lostBytes
  within : record.retainedBytes ≤ volume (w.released id)
  complete : record.captureStatus = .complete → ¬ w.stumbled id ∧ record.lostBytes = 0

/-- **What holds of the log of an invocation between any two steps.** -/
structure Fair (sha256 : ByteArray → String) (w : LogWorld) (id : Uuid) : Prop where
  numbered : Numbered id (w.released id)
  rows : ∀ row ∈ w.db.chunks id,
    ∃ chunk ∈ w.released id, row = chunk.row sha256 (.chunk chunk.sequence)
  unseen : ¬ w.seen id → w.captures id = none ∧ w.released id = [] ∧ ¬ w.stumbled id
  custody : ∀ c, w.captures id = some c → Custody w id c
  stray : ∀ call ∈ w.inFlight, call.invocation = some id → Stray w id call
  running : ∀ record, w.db.record id = some record → record.captureSealedAt = none →
    record.captureStatus ≠ .complete
  told : ∀ record, w.db.record id = some record → record.Settled → Told w id record

theorem Balanced.extends {chunks : List AppendLog} {accepted : Prop} {owed owed' : Nat}
    (h : Balanced w id owed) (hdb : Extends sha256 id chunks accepted w.db w'.db)
    (hfair : ¬ w'.stumbled id → accepted ∧ ¬ w.stumbled id ∧
      volume (w'.released id) + owed ≤ volume (w.released id) + owed' + volume chunks) :
    Balanced w' id owed' := by
  intro record' hrecord' hopen' hstumbled'
  obtain ⟨record, hrecord, -, hopen, hcounted⟩ := hdb.running record' hrecord' hopen'
  obtain ⟨haccepted, hstumbled, hreleased⟩ := hfair hstumbled'
  have hbefore := h record hrecord hopen hstumbled
  have hafter := hcounted haccepted
  omega

/-- The rows of chunks that are all retained. -/
def rowsOf (sha256 : ByteArray → String) (chunks : List AppendLog) : List ChunkRow :=
  chunks.map fun chunk => chunk.row sha256 (.chunk chunk.sequence)

theorem retained_rowsOf (chunks : List AppendLog) : retained (rowsOf sha256 chunks) = volume chunks := by
  unfold retained volume rowsOf
  rw [List.map_map]
  rfl

/-- The rows of a log are those of released chunks, in their order. -/
theorem Fair.rows_sublist (h : Fair sha256 w id) (hdb : w.db.WellFormed C) :
    (w.db.chunks id).Sublist (rowsOf sha256 (w.released id)) := by
  have hascending : (rowsOf sha256 (w.released id)).Pairwise (·.sequence < ·.sequence) :=
    List.pairwise_map.mpr h.numbered.ascending
  have hirrefl : ∀ row : ChunkRow, ¬ row.sequence < row.sequence := fun _ => Nat.lt_irrefl _
  have hnodup : (w.db.chunks id).Pairwise (· ≠ ·) := by
    refine (hdb.ascending id).imp ?_
    rintro row _ hlt rfl
    exact hirrefl row hlt
  have hsubset : w.db.chunks id ⊆ rowsOf sha256 (w.released id) := by
    intro row hrow
    obtain ⟨chunk, hchunk, rfl⟩ := h.rows row hrow
    exact List.mem_map.mpr ⟨chunk, hchunk, rfl⟩
  have : Std.Antisymm (α := ChunkRow) (·.sequence < ·.sequence) :=
    ⟨fun a b hab hba => absurd (hab.trans hba) (hirrefl a)⟩
  exact List.sublist_of_subperm_of_pairwise (List.subperm_of_subset hnodup hsubset) (hdb.ascending id) hascending

theorem Fair.retained_le (h : Fair sha256 w id) (hdb : w.db.WellFormed C) :
    retained (w.db.chunks id) ≤ volume (w.released id) :=
  (retained_le_of_sublist (h.rows_sublist hdb)).trans (retained_rowsOf _).le

namespace Fair

theorem seen (h : Fair sha256 w id) (hcapture : w.captures id = some c) : w.seen id := by
  by_contra hunseen
  rw [(h.unseen hunseen).1] at hcapture
  cases hcapture

theorem unsettled (h : Fair sha256 w id) (hcapture : w.captures id = some c) {record : Invocation}
    (hrecord : w.db.record id = some record) : ¬ record.Settled := by
  intro hsettled
  rw [(h.told record hrecord hsettled).silent] at hcapture
  cases hcapture

/-- The capture goes on, and with it its log. -/
theorem held {chunks : List AppendLog} {accepted : Prop} (h : Fair sha256 w id)
    (hdb : Extends sha256 id chunks accepted w.db w'.db)
    (hchunks : ∀ chunk ∈ chunks, chunk ∈ w.released id)
    (hcapture : w.captures id = some c) (hcapture' : w'.captures id = some c')
    (hproper : c'.Proper id (w'.released id) (w'.stumbled id))
    (hnumbered : Numbered id (w'.released id)) (hreleased : w.released id ⊆ w'.released id)
    (hseen : w.seen id → w'.seen id) (hstumbled : w.stumbled id → w'.stumbled id)
    (hupcoming : ∀ later ∈ c'.upcoming,
      (later ∈ c.upcoming ∧ ∀ chunk ∈ chunks, chunk.sequence < later.sequence) ∨
        ∀ chunk ∈ w.released id, chunk.sequence < later.sequence)
    (hfair : ¬ w'.stumbled id → accepted ∧ ¬ w.stumbled id ∧
      volume (w'.released id) + c.owed ≤ volume (w.released id) + c'.owed + volume chunks)
    (hflight : ∀ call ∈ w'.inFlight, call.invocation = some id →
      call ∈ w.inFlight ∨ Stray w' id call) : Fair sha256 w' id where
  numbered := hnumbered
  rows row hrow := by
    rcases hdb.rows row hrow with hold | ⟨chunk, hchunk, rfl⟩
    · obtain ⟨chunk, hchunk, rfl⟩ := h.rows row hold
      exact ⟨chunk, hreleased hchunk, rfl⟩
    · exact ⟨chunk, hreleased (hchunks chunk hchunk), rfl⟩
  unseen hunseen := absurd (hseen (h.seen hcapture)) hunseen
  custody c₁ hc₁ := by
    cases hcapture'.symm.trans hc₁
    have hcustody := h.custody c hcapture
    refine ⟨hproper, fun row hrow later hlater => ?_, hcustody.balanced.extends hdb hfair⟩
    rcases hdb.rows row hrow with hold | ⟨chunk, hchunk, rfl⟩
    · rcases hupcoming later hlater with ⟨hmem, -⟩ | habove
      · exact hcustody.later row hold later hmem
      · obtain ⟨chunk, hchunk, rfl⟩ := h.rows row hold
        exact habove chunk hchunk
    · rcases hupcoming later hlater with ⟨-, habove⟩ | habove
      · exact habove chunk hchunk
      · exact habove chunk (hchunks chunk hchunk)
  stray call hcall hid := by
    rcases hflight call hcall hid with hold | hnew
    · cases h.stray call hold hid with
      | append hchunk hflag hlater =>
        refine .append (hreleased hchunk) (hstumbled hflag) fun c₁ hc₁ later hmem => ?_
        cases hcapture'.symm.trans hc₁
        rcases hupcoming later hmem with ⟨hold, -⟩ | habove
        · exact hlater c hcapture later hold
        · exact habove _ hchunk
      | command => exact .command
      | finish hnone => exact absurd (hcapture.symm.trans hnone) (by simp)
    · exact hnew
  running record hrecord hopen := by
    obtain ⟨before, hbefore, hcontinues, hopen', -⟩ := hdb.running record hrecord hopen
    rw [hcontinues.status]
    exact h.running before hbefore hopen'
  told record hrecord hsettled :=
    absurd hsettled (h.unsettled hcapture (hdb.settled record hrecord hsettled))

/-- The log of an invocation that has no capture, or one that does nothing. -/
theorem frame {chunks : List AppendLog} {accepted : Prop} (h : Fair sha256 w id)
    (hdb : Extends sha256 id chunks accepted w.db w'.db)
    (hchunks : ∀ chunk ∈ chunks, Stray w id (.append chunk)) (haccepted : ¬ w.stumbled id → accepted)
    (hcaptures : w'.captures id = w.captures id) (hreleased : w'.released id = w.released id)
    (hstumbled : w'.stumbled id ↔ w.stumbled id) (hseen : w.seen id → w'.seen id)
    (hflight : ∀ call ∈ w'.inFlight, call.invocation = some id → call ∈ w.inFlight) :
    Fair sha256 w' id := by
  have hmem : ∀ chunk ∈ chunks, chunk ∈ w.released id := by
    intro chunk hchunk
    cases hchunks chunk hchunk with
    | append hmem => exact hmem
  have hnone : ¬ w.stumbled id → chunks = [] := by
    intro hflag
    refine List.eq_nil_iff_forall_not_mem.mpr fun chunk hchunk => ?_
    cases hchunks chunk hchunk with
    | append _ hstumbled => exact hflag hstumbled
  have hfair : ∀ owed, ¬ w'.stumbled id → accepted ∧ ¬ w.stumbled id ∧
      volume (w'.released id) + owed ≤ volume (w.released id) + owed + volume chunks := by
    intro owed hflag
    have hflag' := mt hstumbled.mpr hflag
    refine ⟨haccepted hflag', hflag', ?_⟩
    rw [hreleased, hnone hflag']
    exact Nat.le_refl _
  cases hcapture : w.captures id with
  | some c =>
    have hcustody := h.custody c hcapture
    refine h.held hdb hmem hcapture (hcaptures.trans hcapture) ?_ (hreleased ▸ h.numbered)
      (by rw [hreleased]; exact fun _ h => h) hseen hstumbled.mpr (fun later hlater => .inl ⟨hlater, ?_⟩)
      (hfair c.owed) fun call hcall hid => .inl (hflight call hcall hid)
    · rw [hreleased, hstumbled]
      exact hcustody.proper
    · intro chunk hchunk
      cases hchunks chunk hchunk with
      | append _ _ habove => exact habove c hcapture later hlater
  | none =>
    have hcapture' := hcaptures.trans hcapture
    refine ⟨hreleased ▸ h.numbered, fun row hrow => ?_, fun hunseen => ?_, fun c hc => ?_,
      fun call hcall hid => ?_, fun record hrecord hopen => ?_, fun record hrecord hsettled => ?_⟩
    · rw [hreleased]
      rcases hdb.rows row hrow with hold | ⟨chunk, hchunk, rfl⟩
      · exact h.rows row hold
      · exact ⟨chunk, hmem chunk hchunk, rfl⟩
    · rw [hcaptures, hreleased, hstumbled]
      exact h.unseen (mt hseen hunseen)
    · cases hcapture'.symm.trans hc
    · cases h.stray call (hflight call hcall hid) hid with
      | append hchunk hflag hlater =>
        refine .append (hreleased ▸ hchunk) (hstumbled.mpr hflag) ?_
        rwa [hcaptures]
      | command => exact .command
      | finish _ hsaw hcandid hbalanced =>
        refine .finish hcapture' (hseen hsaw) ?_ (hbalanced.extends hdb (hfair _))
        rwa [hstumbled]
    · obtain ⟨before, hbefore, hcontinues, hopen', -⟩ := hdb.running record hrecord hopen
      rw [hcontinues.status]
      exact h.running before hbefore hopen'
    · obtain ⟨-, hcounted, hwithin, hcomplete⟩ :=
        h.told record (hdb.settled record hrecord hsettled) hsettled
      refine ⟨hcapture', ?_, ?_, ?_⟩
      · rwa [hreleased, hstumbled]
      · rwa [hreleased]
      · rwa [hstumbled]

theorem invocation_of_underWay (h : Fair sha256 w id) (hcapture : w.captures id = some c)
    {call : ArchiveCall} (hcall : call ∈ c.underWay) : call.invocation = some id := by
  have hproper := (h.custody c hcapture).proper
  unfold Capture.underWay at hcall
  split at hcall
  · next call' hwriter =>
    rw [List.mem_singleton.mp hcall]
    exact (hproper.invocation h.numbered hwriter).2
  · next result hwriter =>
    rw [List.mem_singleton.mp hcall]
    exact congrArg some (hproper.reporting result hwriter).named
  · cases hcall

/-- The call under way may arrive after its writer was given up. -/
theorem stray_of_underWay (h : Fair sha256 w id) (hcapture : w.captures id = some c)
    {call : ArchiveCall} (hcall : call ∈ c.underWay) (hdb : w'.db = w.db)
    (hreleased : w'.released id = w.released id) (hseen : w.seen id → w'.seen id)
    (hstumbled : w'.stumbled id ↔ w.stumbled id ∨ c.writes = true)
    (hnext : ∀ c', w'.captures id = some c' → c.upcoming = Capture.textOf call ++ c'.upcoming)
    (hlast : (∃ result, c.writer = .finishing result) → w'.captures id = none) :
    Stray w' id call := by
  have hcustody := h.custody c hcapture
  unfold Capture.underWay at hcall
  split at hcall
  · next call' hwriter =>
    cases List.mem_singleton.mp hcall
    rcases (hcustody.proper.invocation h.numbered hwriter).1 with ⟨chunk, rfl⟩ | ⟨cmd, rfl⟩
    · have hmem : chunk ∈ w.released id := by
        refine hcustody.proper.upcoming.subset ?_
        rw [Capture.upcoming_wrote hwriter true]
        exact List.mem_cons_self
      have hwrites : c.writes = true := by simp only [Capture.writes, hwriter]
      refine .append (hreleased ▸ hmem) (hstumbled.mpr (.inr hwrites)) fun c' hc' later hlater => ?_
      have hascending := h.numbered.ascending.sublist hcustody.proper.upcoming
      rw [hnext c' hc'] at hascending
      exact (List.pairwise_cons.mp hascending).1 later hlater
    · exact .command
  · next result hwriter =>
    cases List.mem_singleton.mp hcall
    have hcandid := hcustody.proper.reporting result hwriter
    have hflag : w'.stumbled id ↔ w.stumbled id :=
      hstumbled.trans (or_iff_left (by simp [Capture.writes, hwriter]))
    refine .finish (hlast ⟨result, hwriter⟩) (hseen (h.seen hcapture)) (by rwa [hflag]) ?_
    have hbalanced := hcustody.balanced
    rw [show c.owed = result.lostBytes by simp only [Capture.owed, hwriter]] at hbalanced
    unfold Balanced
    rw [hdb, hreleased, hflag]
    exact hbalanced
  · cases hcall

theorem stumbled_abandon : (w.abandon id c).stumbled id ↔ w.stumbled id ∨ c.writes = true := by
  simp [LogWorld.abandon]

/-- The writer of the invocation is given up. -/
theorem abandon (h : Fair sha256 w id) (hcapture : w.captures id = some c) :
    Fair sha256 ((w.abandon id c).setCapture id none) id := by
  have hnone : ((w.abandon id c).setCapture id none).captures id = none :=
    Function.update_self ..
  refine ⟨h.numbered, h.rows, fun hunseen => absurd (h.seen hcapture) hunseen, fun c₁ hc₁ => ?_,
    fun call hcall hid => ?_, h.running,
    fun record hrecord hsettled => absurd hsettled (h.unsettled hcapture hrecord)⟩
  · cases hnone.symm.trans hc₁
  · rcases List.mem_append.mp hcall with hold | hnew
    · cases h.stray call hold hid with
      | append hchunk hflag _ =>
        refine .append hchunk (.inl hflag) fun c₁ hc₁ => ?_
        cases hnone.symm.trans hc₁
      | command => exact .command
      | finish hnone => exact absurd (hcapture.symm.trans hnone) (by simp)
    · refine h.stray_of_underWay hcapture hnew rfl rfl (fun h => h) stumbled_abandon ?_
        fun _ => hnone
      intro c' hc'
      cases hnone.symm.trans hc'

/-- The log of the invocation is sealed by its own report. -/
theorem close {result : FinishInvocation} {reply : Option (Except CoreError ArchiveReply)}
    (h : Fair sha256 w id) (hdb : w.db.WellFormed C) (hcandid : result.Candid id (w.stumbled id))
    (hbalanced : Balanced w id result.lostBytes)
    (hserves : Serves C sha256 codec w.db (.finish result, reply) w'.db)
    (hcaptures : w'.captures id = none) (hreleased : w'.released id = w.released id)
    (hstumbled : w'.stumbled id ↔ w.stumbled id) (hseen : w'.seen id)
    (hflight : ∀ call ∈ w'.inFlight, call.invocation = some id → call ∈ w.inFlight) :
    Fair sha256 w' id := by
  obtain ⟨ops, hserves⟩ := hserves
  obtain ⟨_, hserves, -⟩ := Runs.of_map hserves
  -- The record as it was, or sealed with what the log and the report count.
  have hends : w'.db = w.db ∨ ∃ stored now, w.db.record id = some stored ∧
      stored.captureSealedAt = none ∧ w'.db.chunks = w.db.chunks ∧ w'.db.record id = some
        (Invocation.finish { stored with retainedBytes := retained (w.db.chunks id) } result now) := by
    rcases finish_executes hserves with hsame | ⟨stored, now, hstored, hopen, hsaved⟩
    · exact .inl hsame
    · rw [hcandid.named] at hstored hsaved
      refine .inr ⟨stored, now, hstored, hopen, ?_, ?_⟩
      · rw [hsaved]
        rfl
      · rw [hsaved]
        exact Database.record_saved (hdb.name hstored :) hstored
  have hchunks : w'.db.chunks = w.db.chunks := by
    rcases hends with hsame | ⟨-, -, -, -, hchunks, -⟩
    · rw [hsame]
    · exact hchunks
  have hstill : ∀ record, w'.db.record id = some record → record.captureSealedAt = none →
      w'.db = w.db := by
    intro record hrecord hopen
    rcases hends with hsame | ⟨stored, now, -, -, -, hsealed⟩
    · exact hsame
    · cases hsealed.symm.trans hrecord
      cases hopen
  have hbalanced' : ∀ owed, Balanced w id owed → Balanced w' id owed := by
    intro owed hbefore record hrecord hopen hflag
    have hsame := hstill record hrecord hopen
    rw [hsame, hreleased]
    exact hbefore record (hsame ▸ hrecord) hopen (mt hstumbled.mpr hflag)
  refine ⟨hreleased ▸ h.numbered, ?_, fun hunseen => absurd hseen hunseen, fun c hc => ?_,
    fun call hcall hid => ?_, fun record hrecord hopen => ?_, fun record hrecord hsettled => ?_⟩
  · rw [hchunks, hreleased]
    exact h.rows
  · cases hcaptures.symm.trans hc
  · cases h.stray call (hflight call hcall hid) hid with
    | append hchunk hflag _ =>
      refine .append (hreleased ▸ hchunk) (hstumbled.mpr hflag) fun c hc => ?_
      cases hcaptures.symm.trans hc
    | command => exact .command
    | finish _ _ hcandid' hbefore =>
      exact .finish hcaptures hseen (by rwa [hstumbled]) (hbalanced' _ hbefore)
  · exact h.running record (hstill record hrecord hopen ▸ hrecord) hopen
  · rcases hends with hsame | ⟨stored, now, hstored, hopen, -, hsealed⟩
    · obtain ⟨-, hcounted, hwithin, hcomplete⟩ := h.told record (hsame ▸ hrecord) hsettled
      refine ⟨hcaptures, ?_, ?_, ?_⟩
      · rwa [hreleased, hstumbled]
      · rwa [hreleased]
      · rwa [hstumbled]
    · cases hsealed.symm.trans hrecord
      refine ⟨hcaptures, fun hflag => ?_, ?_, fun hcomplete => ?_⟩
      · have hcounted := hbalanced stored hstored hopen (mt hstumbled.mpr hflag)
        rw [hreleased]
        show _ ≤ retained (w.db.chunks id) + (stored.lostBytes + result.lostBytes)
        omega
      · rw [hreleased]
        exact h.retained_le hdb
      · have hfalse : ¬ (result.incomplete = true ∨ stored.lostBytes + result.lostBytes > 0) := by
          intro hincomplete
          change (if result.incomplete = true ∨ stored.lostBytes + result.lostBytes > 0 then _
            else _) = _ at hcomplete
          rw [if_pos hincomplete] at hcomplete
          cases hcomplete
        obtain ⟨hincomplete, hlost⟩ := not_or.mp hfalse
        refine ⟨fun hflag => hincomplete (hcandid.flagged (hstumbled.mp hflag)), ?_⟩
        show stored.lostBytes + result.lostBytes = 0
        omega

end Fair

/-! ## Steps -/

/-- **What holds between any two steps.** -/
structure Sound (C : LogConfig) (sha256 : ByteArray → String) (w : LogWorld) : Prop where
  wellFormed : w.db.WellFormed C
  addressed : ∀ call ∈ w.inFlight, ∃ id, call.invocation = some id
  fair : ∀ id, Fair sha256 w id

theorem Sound.initial : Sound C sha256 .initial where
  wellFormed := Database.empty_wellFormed
  addressed _ h := by cases h
  fair id :=
    { numbered := ⟨.nil, fun _ h => by cases h⟩
      rows := fun _ h => by cases h
      unseen := fun _ => ⟨rfl, rfl, fun h => h⟩
      custody := fun _ h => by cases h
      stray := fun _ h => by cases h
      running := fun _ h => by cases h
      told := fun _ h => by cases h }

/-- Nothing happens to the log of another invocation. -/
theorem Fair.other (h : Fair sha256 w id) (hdb : Ages id w.db w'.db)
    (hcaptures : w'.captures id = w.captures id) (hreleased : w'.released id = w.released id)
    (hstumbled : w'.stumbled id ↔ w.stumbled id) (hseen : w.seen id → w'.seen id)
    (hflight : ∀ call ∈ w'.inFlight, call.invocation = some id → call ∈ w.inFlight) :
    Fair sha256 w' id :=
  h.frame hdb.extends (fun _ h => by cases h) (fun _ => trivial) hcaptures hreleased hstumbled hseen
    hflight

/-- A capture goes on while the archive rests. -/
theorem Sound.onward {id₀ : Uuid} (h : Sound C sha256 w) (hcapture : w.captures id₀ = some c)
    (hproper : ∀ {stumbled}, c.Proper id₀ (w.released id₀) stumbled →
      c'.Proper id₀ (w.released id₀) stumbled)
    (hupcoming : c'.upcoming ⊆ c.upcoming) (howed : c.owed ≤ c'.owed) :
    Sound C sha256 (w.setCapture id₀ (some c')) := by
  refine ⟨h.wellFormed, h.addressed, fun id => ?_⟩
  by_cases hid : id = id₀
  · subst hid
    refine (h.fair id).held (Ages.refl id _).extends (fun _ h => by cases h) hcapture
      (Function.update_self ..) (hproper ((h.fair id).custody c hcapture).proper) (h.fair id).numbered
      (fun _ h => h) (fun h => h) (fun h => h) (fun later hlater => .inl ⟨hupcoming hlater, ?_⟩)
      (fun hflag => ⟨trivial, hflag, Nat.add_le_add_left howed _⟩) (fun call hcall _ => .inl hcall)
    exact fun _ h => by cases h
  · exact (h.fair id).other (.refl id _) (Function.update_of_ne hid ..) rfl .rfl (fun h => h)
      fun call hcall _ => hcall

/-- An event that is no text is put into the queue. -/
theorem Sound.noted (h : Sound C sha256 w) (hcapture : w.captures id = some c) (event : CaptureEvent)
    (hcommand : ∀ command, event = .command command → command.invocationId = id)
    (hqueued : queued [event] = []) (hends : ends [event] = false) :
    Sound C sha256 (w.setCapture id (some (c.push event))) := by
  refine h.onward hcapture (fun hproper => hproper.note event hcommand hqueued hends) ?_ ?_
  · rw [Capture.upcoming_push, hqueued, ite_self, List.append_nil]
    exact fun _ h => h
  · rw [Capture.owed_push]
    exact Nat.le_add_right _ _

theorem Sound.overflowed (h : Sound C sha256 w) (hcapture : w.captures id = some c) (bytes : Nat) :
    Sound C sha256 (w.setCapture id (some (c.overflow bytes))) :=
  h.onward hcapture (fun hproper => hproper.overflow bytes) (fun _ h => h)
    ((Nat.le_add_right _ _).trans (Capture.owed_overflow bytes))

theorem Numbered.append {chunk : AppendLog} (h : Numbered id released)
    (hid : chunk.invocationId = id) (hbytes : 0 < chunk.bytes)
    (hlast : ∀ chunk' ∈ released, chunk'.sequence < chunk.sequence) :
    Numbered id (released ++ [chunk]) := by
  refine ⟨List.pairwise_append.mpr ⟨h.ascending, List.pairwise_singleton _ _, fun a ha b hb => ?_⟩,
    fun chunk' hchunk' => ?_⟩
  · rw [List.mem_singleton.mp hb]
    exact hlast a ha
  · rcases List.mem_append.mp hchunk' with hold | hnew
    · exact h.owned chunk' hold
    · rw [List.mem_singleton.mp hnew]
      exact ⟨hid, hbytes⟩

/-- The pipes release a text, and there may be no room for it. -/
theorem Sound.flushed {id₀ : Uuid} {chunk : AppendLog} (h : Sound C sha256 w)
    (hcapture : w.captures id₀ = some c) (hid : chunk.invocationId = id₀)
    (hsequence : chunk.sequence = c.sequence) (hbytes : 0 < chunk.bytes) :
    Sound C sha256 ((w.release id₀ c chunk).setCapture id₀ (some (c.flush chunk))) := by
  have hproper := ((h.fair id₀).custody c hcapture).proper
  obtain ⟨extra, hextra⟩ : ∃ extra, extra = if c.listens then [chunk] else [] := ⟨_, rfl⟩
  have hrelease : w.release id₀ c chunk =
      { w with released := Function.update w.released id₀ (w.released id₀ ++ extra) } := by
    unfold LogWorld.release
    rw [hproper.listens, hextra]
    cases c.listens with
    | true => rfl
    | false => simp
  obtain ⟨w', hw'⟩ : ∃ w', w' = (w.release id₀ c chunk).setCapture id₀ (some (c.flush chunk)) :=
    ⟨_, rfl⟩
  rw [← hw']
  rw [hrelease] at hw'
  have hdb : w'.db = w.db := by rw [hw']; rfl
  have hflight : w'.inFlight = w.inFlight := by rw [hw']; rfl
  have hseen : w'.seen = w.seen := by rw [hw']; rfl
  have hstumbled : w'.stumbled = w.stumbled := by rw [hw']; rfl
  have hcaptures : w'.captures = Function.update w.captures id₀ (some (c.flush chunk)) := by
    rw [hw']
    rfl
  have hreleased : w'.released = Function.update w.released id₀ (w.released id₀ ++ extra) := by
    rw [hw']
    rfl
  refine ⟨hdb ▸ h.wellFormed, hflight ▸ h.addressed, fun id => ?_⟩
  have hages : Ages id w.db w'.db := hdb ▸ .refl id _
  by_cases hid' : id = id₀
  · subst hid'
    have hreleased' : w'.released id = w.released id ++ extra := by
      rw [hreleased, Function.update_self]
    refine (h.fair id).held hages.extends (fun _ h => by cases h) hcapture
      (by rw [hcaptures, Function.update_self]) ?_ ?_ ?_ (by rw [hseen]; exact fun h => h)
      (by rw [hstumbled]; exact fun h => h) (fun later hlater => ?_) (fun hflag => ?_)
      (fun call hcall _ => .inl (hflight ▸ hcall))
    · rw [hreleased', hstumbled, hextra]
      exact hproper.flush hsequence
    · rw [hreleased', hextra]
      split
      · exact (h.fair id).numbered.append hid hbytes (hsequence ▸ hproper.numbers)
      · rw [List.append_nil]
        exact (h.fair id).numbered
    · rw [hreleased']
      exact List.subset_append_left _ _
    · rcases Capture.upcoming_flush hlater with hold | rfl
      · exact .inl ⟨hold, fun _ h => by cases h⟩
      · exact .inr (hsequence ▸ hproper.numbers)
    · have howed := Capture.owed_flush (c := c) chunk
      rw [← hextra] at howed
      rw [hstumbled] at hflag
      refine ⟨trivial, hflag, ?_⟩
      rw [hreleased', volume_append, volume_nil]
      omega
  · refine (h.fair id).other hages ?_ ?_ (by rw [hstumbled]) (by rw [hseen]; exact fun h => h)
      fun call hcall _ => hflight ▸ hcall
    · rw [hcaptures, Function.update_of_ne hid']
    · rw [hreleased, Function.update_of_ne hid']

/-- The last event is sent. -/
theorem Sound.finishing {outcome : String} (h : Sound C sha256 w)
    (hcapture : w.captures id = some c) :
    Sound C sha256 (w.setCapture id
      (some { c with queue := c.queue ++ [.finish outcome], finished := true })) := by
  refine h.onward hcapture (fun hproper => ?_) ?_ ?_
  · have hpushed := hproper.push (.finish outcome) c.sequence (fun _ h => by cases h)
      (Nat.le_refl _) (fun _ h => by cases h)
    rw [show queued [.finish outcome] = [] from rfl, ite_self, List.append_nil,
      show ends [.finish outcome] = true from rfl, Bool.or_true] at hpushed
    exact hpushed
  · show (c.push (.finish outcome)).upcoming ⊆ _
    rw [Capture.upcoming_push, show queued [.finish outcome] = [] from rfl, ite_self, List.append_nil]
    exact fun _ h => h
  · show _ ≤ (c.push (.finish outcome)).owed
    rw [Capture.owed_push]
    exact Nat.le_add_right _ _

theorem Sound.hungUp (h : Sound C sha256 w) (hcapture : w.captures id = some c)
    (hwriter : c.writer = .receiving) (hqueue : c.queue = []) :
    Sound C sha256 (w.setCapture id
      (some { c with writer := .ended "interrupted", finished := true })) := by
  refine h.onward hcapture (fun hproper => hproper.hungUp _) (List.nil_subset _) ?_
  show c.owed ≤ c.lost + 0
  simp [Capture.owed, Capture.upcoming, hwriter, hqueue, queued]

theorem Sound.settled {outcome : String} (h : Sound C sha256 w)
    (hcapture : w.captures id = some c) (hwriter : c.writer = .ended outcome) (endedAt : Int) :
    Sound C sha256 (w.setCapture id
      (some { c with writer := .finishing (c.report id outcome endedAt) })) := by
  refine h.onward hcapture (fun hproper => hproper.settle hwriter endedAt) (List.nil_subset _) ?_
  show c.owed ≤ c.lost
  simp [Capture.owed, Capture.upcoming, hwriter]

/-- The writer goes on after a call. -/
theorem Sound.wrote {id₀ : Uuid} {call : ArchiveCall}
    {reply : Option (Except CoreError ArchiveReply)} {confirmed : Bool}
    (hlimit : 128 * 1024 ≤ C.invocationBytes) (h : Sound C sha256 w)
    (hcapture : w.captures id₀ = some c) (hwriter : c.writer = .writing call)
    (hserves : Serves C sha256 codec w.db (call, reply) db)
    (hconfirmed : confirmed = true → reply = some (.ok .done)) :
    Sound C sha256 (((w.answered db).stumble id₀ confirmed).setCapture id₀
      (some (c.wrote call confirmed))) := by
  have hcustody := (h.fair id₀).custody c hcapture
  obtain ⟨hwrite, hinvocation⟩ := hcustody.proper.invocation (h.fair id₀).numbered hwriter
  have hupcoming := Capture.upcoming_wrote hwriter confirmed
  refine ⟨hserves.wellFormed hlimit h.wellFormed, h.addressed, fun id => ?_⟩
  by_cases hid : id = id₀
  · subst hid
    have hchunks : ∀ chunk ∈ Capture.textOf call, chunk ∈ c.upcoming := by
      rw [hupcoming]
      exact fun chunk hchunk => List.mem_append_left _ hchunk
    have hascending := (h.fair id).numbered.ascending.sublist hcustody.proper.upcoming
    rw [hupcoming] at hascending
    refine (h.fair id).held (hserves.write_extends hlimit h.wellFormed hwrite hinvocation)
      (fun chunk hchunk => hcustody.proper.upcoming.subset (hchunks chunk hchunk)) hcapture
      (Function.update_self ..) (hcustody.proper.wrote hwriter ?_) (h.fair id).numbered
      (fun _ h => h) .inl .inl (fun later hlater => .inl ⟨?_, fun chunk hchunk => ?_⟩)
      (fun hflag => ?_) (fun call hcall _ => .inl hcall)
    · rintro (hold | ⟨-, hfalse⟩)
      · exact .inl hold
      · exact .inr hfalse
    · rw [hupcoming]
      exact List.mem_append_right _ hlater
    · exact (List.pairwise_append.mp hascending).2.2 chunk hchunk later hlater
    · obtain ⟨hflag, hnow⟩ := not_or.mp hflag
      refine ⟨fun chunk hchunk => ⟨hconfirmed ?_, fun row hrow => ?_⟩, hflag, ?_⟩
      · rw [← Bool.not_eq_false]
        exact fun hfalse => hnow ⟨rfl, hfalse⟩
      · exact hcustody.later row hrow chunk (hchunks chunk hchunk)
      · have howed := Capture.owed_wrote hwriter confirmed
        show volume (w.released id) + c.owed ≤ volume (w.released id) + _ + _
        split at howed <;> omega
  · refine (h.fair id).other (hserves.ages hlimit h.wellFormed ?_ ?_) (Function.update_of_ne hid ..)
      rfl ?_ .inl (fun call hcall _ => hcall)
    · rintro request rfl
      cases hinvocation
    · rw [hinvocation]
      exact fun hsame => hid (Option.some.inj hsame).symm
    · exact or_iff_left fun hnow => hid hnow.1

/-- The writer goes on after a call that it gave up, and that may still arrive. -/
theorem Sound.gaveUp {id₀ : Uuid} {call : ArchiveCall} (h : Sound C sha256 w)
    (hcapture : w.captures id₀ = some c) (hwriter : c.writer = .writing call) :
    Sound C sha256 ((w.abandon id₀ c).setCapture id₀ (some (c.wrote call false))) := by
  have hcustody := (h.fair id₀).custody c hcapture
  have hupcoming := Capture.upcoming_wrote hwriter false
  have hunder : c.underWay = [call] := by simp only [Capture.underWay, hwriter]
  obtain ⟨-, hinvocation⟩ := hcustody.proper.invocation (h.fair id₀).numbered hwriter
  refine ⟨h.wellFormed, fun call' hcall' => ?_, fun id => ?_⟩
  · rcases List.mem_append.mp hcall' with hold | hnew
    · exact h.addressed call' hold
    · rw [hunder, List.mem_singleton] at hnew
      exact ⟨id₀, hnew ▸ hinvocation⟩
  by_cases hid : id = id₀
  · subst hid
    refine (h.fair id).held (Ages.refl id _).extends (fun _ h => by cases h) hcapture
      (Function.update_self ..) (hcustody.proper.wrote hwriter fun _ => .inr rfl)
      (h.fair id).numbered (fun _ h => h) (fun h => h) .inl
      (fun later hlater => .inl ⟨?_, fun _ h => by cases h⟩) (fun hflag => ?_)
      (fun call' hcall' _ => ?_)
    · rw [hupcoming]
      exact List.mem_append_right _ hlater
    · have howed := Capture.owed_wrote hwriter false
      exact ⟨trivial, (not_or.mp hflag).1, Nat.add_le_add_left howed _⟩
    · rcases List.mem_append.mp hcall' with hold | hnew
      · exact .inl hold
      · rw [hunder, List.mem_singleton] at hnew
        subst hnew
        have hmem : call' ∈ c.underWay := hunder ▸ List.mem_singleton_self call'
        refine .inr ((h.fair id).stray_of_underWay hcapture hmem rfl rfl (fun h => h)
          Fair.stumbled_abandon (fun c' hc' => ?_) fun ⟨result, hresult⟩ => ?_)
        · cases (Function.update_self ..).symm.trans hc'
          exact hupcoming
        · cases hwriter.symm.trans hresult
  · refine (h.fair id).other (.refl id _) (Function.update_of_ne hid ..) rfl
      (or_iff_left fun hnow => hid hnow.1) (fun h => h) fun call' hcall' hid' => ?_
    rcases List.mem_append.mp hcall' with hold | hnew
    · exact hold
    · rw [hunder, List.mem_singleton] at hnew
      subst hnew
      exact absurd (Option.some.inj (hid'.symm.trans hinvocation)) hid

theorem Sound.abandoned {id₀ : Uuid} (h : Sound C sha256 w) (hcapture : w.captures id₀ = some c) :
    Sound C sha256 ((w.abandon id₀ c).setCapture id₀ none) := by
  have haddressed : ∀ call ∈ c.underWay, call.invocation = some id₀ := fun call =>
    (h.fair id₀).invocation_of_underWay hcapture
  refine ⟨h.wellFormed, fun call hcall => ?_, fun id => ?_⟩
  · rcases List.mem_append.mp hcall with hold | hnew
    · exact h.addressed call hold
    · exact ⟨id₀, haddressed call hnew⟩
  by_cases hid : id = id₀
  · subst hid
    exact (h.fair id).abandon hcapture
  · refine (h.fair id).other (.refl id _) (Function.update_of_ne hid ..) rfl
      (or_iff_left fun hnow => hid hnow.1) (fun h => h) fun call hcall hid' => ?_
    rcases List.mem_append.mp hcall with hold | hnew
    · exact hold
    · exact absurd (Option.some.inj (hid'.symm.trans (haddressed call hnew))) hid

/-- The writer's report is served. -/
theorem Sound.sealed {id₀ : Uuid} {result : FinishInvocation}
    {reply : Option (Except CoreError ArchiveReply)} (hlimit : 128 * 1024 ≤ C.invocationBytes)
    (h : Sound C sha256 w) (hcapture : w.captures id₀ = some c)
    (hwriter : c.writer = .finishing result)
    (hserves : Serves C sha256 codec w.db (.finish result, reply) db) :
    Sound C sha256 ((w.answered db).setCapture id₀ none) := by
  have hcustody := (h.fair id₀).custody c hcapture
  have hcandid := hcustody.proper.reporting result hwriter
  have hbalanced := hcustody.balanced
  rw [show c.owed = result.lostBytes by simp only [Capture.owed, hwriter]] at hbalanced
  refine ⟨hserves.wellFormed hlimit h.wellFormed, h.addressed, fun id => ?_⟩
  by_cases hid : id = id₀
  · subst hid
    exact (h.fair id).close h.wellFormed hcandid hbalanced hserves (Function.update_self ..) rfl .rfl
      (.inl ((h.fair id).seen hcapture)) fun call hcall _ => hcall
  · refine (h.fair id).other (hserves.ages hlimit h.wellFormed (fun _ h => by cases h) fun hsame => ?_)
      (Function.update_of_ne hid ..) rfl .rfl .inl (fun call hcall _ => hcall)
    exact hid ((Option.some.inj hsame).symm.trans hcandid.named)

/-- A call arrives that nobody waits for any more. -/
theorem Sound.arrived {call : ArchiveCall} {reply : Option (Except CoreError ArchiveReply)}
    {before after : List ArchiveCall} (hlimit : 128 * 1024 ≤ C.invocationBytes)
    (h : Sound C sha256 w) (hflight : w.inFlight = before ++ call :: after)
    (hserves : Serves C sha256 codec w.db (call, reply) db) :
    Sound C sha256 ({ w with inFlight := before ++ after }.answered db) := by
  have hsub : ∀ call' ∈ before ++ after, call' ∈ w.inFlight := by
    rw [hflight]
    exact fun call' hcall' => ((List.sublist_cons_self call after).append_left before).subset hcall'
  have hcall : call ∈ w.inFlight := by
    rw [hflight]
    exact List.mem_append_right _ List.mem_cons_self
  obtain ⟨id₀, hinvocation⟩ := h.addressed call hcall
  refine ⟨hserves.wellFormed hlimit h.wellFormed, fun call' hcall' => h.addressed call' (hsub _ hcall'),
    fun id => ?_⟩
  have hstay : ∀ call' ∈ before ++ after, call'.invocation = some id → call' ∈ w.inFlight :=
    fun call' hcall' _ => hsub call' hcall'
  by_cases hid : id = id₀
  · subst hid
    have hstray := (h.fair id).stray call hcall hinvocation
    cases hstray with
    | append hchunk hflag hlater =>
      refine (h.fair id).frame
        (hserves.write_extends hlimit h.wellFormed (.inl ⟨_, rfl⟩) hinvocation)
        (fun chunk hchunk => ?_) (absurd hflag) rfl rfl .rfl .inl hstay
      rw [List.mem_singleton.mp hchunk]
      exact (h.fair id).stray _ hcall hinvocation
    | command =>
      exact (h.fair id).frame
        (hserves.write_extends hlimit h.wellFormed (.inr ⟨_, rfl⟩) hinvocation)
        (fun _ h => by cases h) (fun _ _ h => by cases h) rfl rfl .rfl .inl hstay
    | finish hnone hseen hcandid hbalanced =>
      exact (h.fair id).close h.wellFormed hcandid hbalanced hserves hnone rfl .rfl (.inl hseen) hstay
  · refine (h.fair id).other (hserves.ages hlimit h.wellFormed ?_ ?_) rfl rfl .rfl .inl hstay
    · rintro request rfl
      cases hinvocation
    · rw [hinvocation]
      exact fun hsame => hid (Option.some.inj hsame).symm

theorem Sound.upkept {call : ArchiveCall} {reply : Option (Except CoreError ArchiveReply)}
    (hlimit : 128 * 1024 ≤ C.invocationBytes) (h : Sound C sha256 w)
    (hcall : call = .recover ∨ call = .maintenance ∨ ∃ id query, call = .readPage id query)
    (hserves : Serves C sha256 codec w.db (call, reply) db) : Sound C sha256 (w.answered db) := by
  refine ⟨hserves.wellFormed hlimit h.wellFormed, h.addressed, fun id => ?_⟩
  have hages : Ages id w.db db := by
    refine hserves.ages hlimit h.wellFormed ?_ ?_
    · rcases hcall with rfl | rfl | ⟨_, _, rfl⟩ <;> exact fun _ h => by cases h
    · rcases hcall with rfl | rfl | ⟨_, _, rfl⟩ <;> exact fun h => by cases h
  exact (h.fair id).other hages rfl rfl .rfl .inl fun call hcall _ => hcall

/-- A log is opened under an id that no invocation had. -/
theorem Fair.begun {record : Invocation} (h : Fair sha256 w id) (hunseen : ¬ w.seen id)
    (hchunks : (w'.db.chunks id).Sublist (w.db.chunks id)) (hrecord : w'.db.record id = some record)
    (hfresh : record.Fresh) (hcaptures : ∀ c, w'.captures id = some c → c = .new)
    (hreleased : w'.released = w.released) (hstumbled : w'.stumbled = w.stumbled)
    (hflight : w'.inFlight = w.inFlight) (hseen : w'.seen id) : Fair sha256 w' id := by
  obtain ⟨-, hempty, hsteady⟩ := h.unseen hunseen
  have hreleased' : w'.released id = [] := by rw [hreleased, hempty]
  have hsteady' : ¬ w'.stumbled id := by rwa [hstumbled]
  have hrows : w'.db.chunks id = [] := by
    refine List.eq_nil_iff_forall_not_mem.mpr fun row hrow => ?_
    obtain ⟨chunk, hchunk, -⟩ := h.rows row (hchunks.subset hrow)
    rw [hempty] at hchunk
    cases hchunk
  refine ⟨?_, ?_, fun hfalse => absurd hseen hfalse, fun c hc => ?_, fun call hcall hid => ?_,
    fun record' hrecord' _ => ?_, fun record' hrecord' hsettled => ?_⟩
  · rw [hreleased']
    exact ⟨.nil, fun _ h => by cases h⟩
  · rw [hrows]
    exact fun _ h => by cases h
  · cases hcaptures c hc
    refine ⟨?_, ?_, fun _ _ _ _ => ?_⟩
    · rw [hreleased']
      exact .new hsteady'
    · rw [hrows]
      exact fun _ h => by cases h
    · rw [hreleased']
      exact Nat.zero_le _
  · cases h.stray call (hflight ▸ hcall) hid with
    | append _ hflag => exact absurd hflag hsteady
    | command => exact .command
    | finish _ hsaw => exact absurd hsaw hunseen
  · cases hrecord.symm.trans hrecord'
    rw [hfresh.status]
    exact fun h => by cases h
  · cases hrecord.symm.trans hrecord'
    have hsealed := hsettled.sealed
    rw [hfresh.running] at hsealed
    cases hsealed

theorem Sound.begun {request : BeginInvocation} {r : Option (Except CoreError Uuid)}
    {ops : List LogEffect} (h : Sound C sha256 w)
    (hbegin : Executes (begin C request) w.db ops r w'.db)
    (honce : ∀ id record, w.seen id → w'.db.record id = some record →
      record.captureSealedAt = none → w.db.record id = some record)
    (hopened : ∀ id, r = some (.ok id) → w'.captures = Function.update w.captures id (some .new))
    (hrefused : (∀ id, r ≠ some (.ok id)) → w'.captures = w.captures)
    (hreleased : w'.released = w.released) (hstumbled : w'.stumbled = w.stumbled)
    (hflight : w'.inFlight = w.inFlight)
    (hseen : ∀ id, w'.seen id ↔ w.seen id ∨ (w'.db.record id).isSome) : Sound C sha256 w' := by
  refine ⟨plain_executes begin_plain hbegin h.wellFormed, hflight ▸ h.addressed, fun id => ?_⟩
  have hstay : ∀ call ∈ w'.inFlight, call.invocation = some id → call ∈ w.inFlight :=
    fun call hcall _ => hflight ▸ hcall
  obtain ⟨db₁, htidy, ⟨hsame, hne⟩ | ⟨record, hfresh, hinsert, hnamed⟩⟩ :=
    begin_executes h.wellFormed hbegin
  · exact (h.fair id).other (hsame ▸ (htidy id).toAges) (by rw [hrefused hne]) (by rw [hreleased])
      (by rw [hstumbled]) (fun hsaw => (hseen id).mpr (.inl hsaw)) hstay
  · have hrecord := Database.record_begin hinsert id
    have hchunks := Database.chunks_begin hinsert
    by_cases hid : id = record.id
    · rw [if_pos hid] at hrecord
      have hnone : db₁.record id = none := by
        rw [hid]
        exact congrArg (Option.map _) (Database.begin_eq_some hinsert).1
      have hunseen : ¬ w.seen id := by
        -- An open record of before would still be there.
        intro hsaw
        have hold := honce id record hsaw hrecord hfresh.running
        rw [((htidy id).untouched record hold hfresh.running).1] at hnone
        cases hnone
      refine (h.fair id).begun hunseen ?_ hrecord hfresh (fun c hc => ?_) hreleased hstumbled
        hflight ((hseen id).mpr (.inr ?_))
      · rw [hchunks]
        exact (htidy id).chunks
      · have hbefore : w.captures id = none := ((h.fair id).unseen hunseen).1
        by_cases hr : r = some (.ok id)
        · rw [hopened id hr, Function.update_self] at hc
          exact (Option.some.inj hc).symm
        · rw [hrefused fun id' hr' => hr ?_] at hc
          · cases hbefore.symm.trans hc
          · rw [hr', hnamed id' hr', hid]
      · rw [hrecord]
        rfl
    · rw [if_neg hid] at hrecord
      refine (h.fair id).other ((htidy id).toAges.trans (.of_same hrecord (by rw [hchunks]))) ?_
        (by rw [hreleased]) (by rw [hstumbled]) (fun hsaw => (hseen id).mpr (.inl hsaw)) hstay
      by_cases hr : r = some (.ok record.id)
      · rw [hopened _ hr, Function.update_of_ne hid]
      · rw [hrefused fun id' hr' => hr ?_]
        rw [hr', hnamed id' hr']

/-- **Step lemma.** -/
theorem LogStep.sound {event : LogEvent} (hlimit : 128 * 1024 ≤ C.invocationBytes)
    (h : Sound C sha256 w) (hstep : LogStep C sha256 codec w event w') : Sound C sha256 w' := by
  cases hstep with
  | begun hserves honce =>
    obtain ⟨ops, hserves⟩ := hserves
    obtain ⟨r, hbegin, hreply⟩ := Runs.of_map hserves
    cases hreply
    rcases r with - | e | id
    · exact h.begun hbegin honce (fun _ hr => by cases hr) (fun _ => rfl) rfl rfl rfl fun _ => .rfl
    · exact h.begun hbegin honce (fun _ hr => by cases hr) (fun _ => rfl) rfl rfl rfl fun _ => .rfl
    · exact h.begun hbegin honce (fun _ hr => by cases hr; rfl)
        (fun hne => absurd rfl (hne id)) rfl rfl rfl fun _ => .rfl
  | flushed hcapture htext =>
    exact h.flushed hcapture rfl rfl (Nat.pos_of_ne_zero fun hzero =>
      htext (String.utf8ByteSize_eq_zero_iff.mp hzero))
  | commanded hcapture hid =>
    rcases Capture.event_eq (.command _) 0 with hc' | hc' <;> rw [hc']
    · exact h.noted hcapture _ (fun _ hcommand => by cases hcommand; exact hid) rfl rfl
    · exact h.overflowed hcapture 0
  | flagged hcapture => exact h.overflowed hcapture 0
  | barred hcapture _ => exact h.noted hcapture .flush (fun _ h => by cases h) rfl rfl
  | finishing hcapture _ _ => exact h.finishing hcapture
  | hungUp hcapture hwriter hqueue => exact h.hungUp hcapture hwriter hqueue
  | taken hcapture htake =>
    exact h.onward hcapture (fun hproper => hproper.take htake)
      (by rw [Capture.upcoming_take htake]; exact fun _ h => h) (Capture.owed_take htake).ge
  | wrote hcapture hwriter hserves hconfirmed =>
    exact h.wrote hlimit hcapture hwriter hserves hconfirmed
  | settled hcapture hwriter => exact h.settled hcapture hwriter _
  | sealed hcapture hwriter hserves => exact h.sealed hlimit hcapture hwriter hserves
  | gaveUp hcapture hwriter => exact h.gaveUp hcapture hwriter
  | abandoned hcapture => exact h.abandoned hcapture
  | arrived hflight hserves => exact h.arrived hlimit hflight hserves
  | upkept hcall hserves => exact h.upkept hlimit hcall hserves

/-- **Run lemma.** -/
theorem sound_of_steps {trace : List (LogWorld × LogEvent × LogWorld)}
    (hlimit : 128 * 1024 ≤ C.invocationBytes)
    (hrun : Run (LogStep C sha256 codec) .initial trace w) : Sound C sha256 w :=
  hrun.invariant (fun _ _ _ h hstep => hstep.sound hlimit h) .initial

/-! ## What logs say -/

/-- A log holds chunks that were released for its invocation, each of them once and in their
order. -/
structure HoldsReleased (sha256 : ByteArray → String) (w : LogWorld) (id : Uuid) : Prop where
  rows : (w.db.chunks id).Sublist (rowsOf sha256 (w.released id))
  once : (w.released id).Pairwise (·.sequence < ·.sequence)
  own : ∀ chunk ∈ w.released id, chunk.invocationId = id

namespace Sample

/-- A call that is answered for certain, by an archive that has used some bytes. -/
def after (used : Nat) (db : Database) (call : ArchiveCall) :
    Database × Option (Except CoreError ArchiveReply) :=
  let played := (serve limits.toLogConfig Sample.sha256 Sample.codec call).play (F := archiveEffects)
    (answerWith used) db
  (played.1, played.2.ended)

theorem after_serves (used : Nat) (db : Database) (call : ArchiveCall) :
    Serves limits.toLogConfig Sample.sha256 Sample.codec db (call, (after used db call).2)
      (after used db call).1 :=
  runs_play answerWith_acts (serve limits.toLogConfig Sample.sha256 Sample.codec call) db

def opened := after 0 .empty (.begin ⟨⟨2⟩, "Create", 0⟩)
def written := after 0 opened.1 (.append chunk)
def ended := after 0 written.1 (.finish ⟨⟨1⟩, "succeeded", 0, 0, false⟩)

/-- There is no room for the second chunk. -/
def full := after (1024 * 1024) written.1 (.append later)
def endedFull := after 0 full.1 (.finish ⟨⟨1⟩, "succeeded", 0, 0, false⟩)

theorem replies : opened.2 = some (.ok (.begun ⟨1⟩)) ∧ written.2 = some (.ok .done) ∧
    (ended.1.record ⟨1⟩).map (fun record => (record.captureStatus, record.captureSealedAt.isSome)) =
      some (.complete, true) ∧ full.2 = some (.ok .done) ∧
    (endedFull.1.record ⟨1⟩).map (fun record => (record.captureStatus, record.reason,
      record.captureSealedAt.isSome, record.retainedBytes, record.lostBytes)) =
        some (.incomplete, some "quota_exceeded", true, 1, 1) ∧
    (written.1.chunks ⟨1⟩).length = 1 := by
  decide +kernel

abbrev Steps : LogWorld → List (LogWorld × LogEvent × LogWorld) → LogWorld → Prop :=
  Run (LogStep limits.toLogConfig Sample.sha256 Sample.codec)

/-- An invocation begins. -/
theorem begins {db : Database} (hopened : Serves limits.toLogConfig Sample.sha256 Sample.codec .empty
    (.begin ⟨⟨2⟩, "Create", 0⟩, some (.ok (.begun ⟨1⟩))) db) :
    ∃ trace w, Steps .initial trace w ∧ w.captures ⟨1⟩ = some .new ∧ w.db = db ∧
      w.released ⟨1⟩ = [] ∧ ¬ w.stumbled ⟨1⟩ ∧ w.inFlight = [] :=
  ⟨_, _, .single (.begun hopened fun _ _ hsaw => hsaw.elim),
    LogWorld.captures_setCapture _ ⟨1⟩ _, rfl, rfl, fun h => h, rfl⟩

/-- A chunk is released, written and confirmed. -/
theorem writes (text : AppendLog) {w : LogWorld} {n : Nat} {db : Database}
    (hcapture : w.captures ⟨1⟩ = some ⟨[], .receiving, 0, false, n, false⟩)
    (htext : text = ⟨⟨1⟩, 0, "plan", "stdout", n, "a", 0, false⟩)
    (hserves : Serves limits.toLogConfig Sample.sha256 Sample.codec w.db
      (.append text, some (.ok .done)) db) :
    ∃ trace w', Steps w trace w' ∧
      w'.captures ⟨1⟩ = some ⟨[], .receiving, 0, false, n + 1, false⟩ ∧ w'.db = db ∧
      w'.released ⟨1⟩ = w.released ⟨1⟩ ++ [text] ∧ (w'.stumbled ⟨1⟩ ↔ w.stumbled ⟨1⟩) := by
  subst htext
  have hset := fun w => LogWorld.captures_setCapture w ⟨1⟩
  refine ⟨_, _, .cons (show LogStep _ _ _ _ (.flushed ⟨1⟩ ⟨⟨1⟩, 0, "plan", "stdout", n, "a", 0, false⟩)
    _ from .flushed hcapture (by decide)) <| .cons (.taken (hset _ _) rfl) <|
    .cons (show LogStep _ _ _ _ (.wrote ⟨1⟩ true) _ from
      .wrote (hset _ _) rfl hserves fun _ => rfl) <| .nil _, hset _ _, rfl, ?_, ?_⟩
  · show Function.update w.released ⟨1⟩ (w.released ⟨1⟩ ++ [_]) ⟨1⟩ = _
    exact Function.update_self ..
  · exact or_iff_left (by simp)

/-- The last event, and the report of a writer that lost nothing. -/
theorem finishes {w : LogWorld} {n : Nat} {db : Database} {reply : Option (Except CoreError ArchiveReply)}
    (hcapture : w.captures ⟨1⟩ = some ⟨[], .receiving, 0, false, n, false⟩)
    (hserves : Serves limits.toLogConfig Sample.sha256 Sample.codec w.db
      (.finish ⟨⟨1⟩, "succeeded", 0, 0, false⟩, reply) db) :
    ∃ trace w', Steps w trace w' ∧ w'.db = db ∧ w'.released = w.released ∧
      w'.stumbled = w.stumbled := by
  have hset := fun w => LogWorld.captures_setCapture w ⟨1⟩
  exact ⟨_, _, .cons (show LogStep _ _ _ _ (.finishing ⟨1⟩ "succeeded") _ from
      .finishing hcapture rfl (by simp [queueChunks])) <|
    .cons (.taken (hset _ _) rfl) <| .cons (.settled (hset _ _) rfl) <|
    .cons (.sealed (hset _ _) rfl hserves) <| .nil _, rfl, rfl, rfl⟩

/-- The log of this run says that it is complete. -/
theorem captured_complete : ∃ trace w record, Steps .initial trace w ∧
    w.db.record ⟨1⟩ = some record ∧ record.captureStatus = .complete ∧
    w.released ⟨1⟩ = [chunk] := by
  obtain ⟨hopened, hwritten, hended, -⟩ := replies
  obtain ⟨record, hrecord, hcomplete⟩ := Option.map_eq_some_iff.mp hended
  obtain ⟨hstatus, -⟩ := Prod.mk.inj hcomplete
  obtain ⟨first, w₁, hbegun, hcapture₁, hdb₁, hreleased₁, -⟩ :=
    begins (hopened ▸ after_serves 0 .empty (.begin ⟨⟨2⟩, "Create", 0⟩))
  obtain ⟨second, w₂, hwrote, hcapture₂, hdb₂, hreleased₂, -⟩ := writes chunk hcapture₁ rfl
    (by rw [hdb₁]; exact hwritten ▸ after_serves 0 opened.1 (.append chunk))
  obtain ⟨third, w₃, hended, hdb₃, hreleased₃, -⟩ := finishes hcapture₂
    (by rw [hdb₂]; exact after_serves 0 written.1 (.finish ⟨⟨1⟩, "succeeded", 0, 0, false⟩))
  refine ⟨_, w₃, record, hbegun.append (hwrote.append hended), ?_, hstatus, ?_⟩
  · rw [hdb₃]
    exact hrecord
  · rw [hreleased₃, hreleased₂, hreleased₁]
    rfl

/-- There was no room for the second chunk of this one. -/
theorem captured_lossy : ∃ trace w record, Steps .initial trace w ∧
    w.db.record ⟨1⟩ = some record ∧ record.Settled ∧ record.retainedBytes = 1 ∧
    record.lostBytes = 1 ∧ w.released ⟨1⟩ = [chunk, later] ∧ ¬ w.stumbled ⟨1⟩ := by
  obtain ⟨hopened, hwritten, -, hfull, hended, -⟩ := replies
  obtain ⟨record, hrecord, hlossy⟩ := Option.map_eq_some_iff.mp hended
  simp only [Prod.mk.injEq] at hlossy
  obtain ⟨hstatus, hreason, hsealed, hretained, hlost⟩ := hlossy
  obtain ⟨first, w₁, hbegun, hcapture₁, hdb₁, hreleased₁, hsteady₁, -⟩ :=
    begins (hopened ▸ after_serves 0 .empty (.begin ⟨⟨2⟩, "Create", 0⟩))
  obtain ⟨second, w₂, hwrote, hcapture₂, hdb₂, hreleased₂, hsteady₂⟩ :=
    writes chunk hcapture₁ rfl
      (by rw [hdb₁]; exact hwritten ▸ after_serves 0 opened.1 (.append chunk))
  obtain ⟨third, w₃, hrefused, hcapture₃, hdb₃, hreleased₃, hsteady₃⟩ :=
    writes later hcapture₂ rfl
      (by rw [hdb₂]; exact hfull ▸ after_serves (1024 * 1024) written.1 (.append later))
  obtain ⟨fourth, w₄, hended, hdb₄, hreleased₄, hsteady₄⟩ := finishes hcapture₃
    (by rw [hdb₃]; exact after_serves 0 full.1 (.finish ⟨⟨1⟩, "succeeded", 0, 0, false⟩))
  refine ⟨_, w₄, record, hbegun.append (hwrote.append (hrefused.append hended)), ?_,
    ⟨hsealed, .inr ⟨hstatus, by rw [hreason]; simp⟩⟩, hretained, hlost, ?_, ?_⟩
  · rw [hdb₄]
    exact hrecord
  · rw [hreleased₄, hreleased₃, hreleased₂, hreleased₁]
    rfl
  · rw [hsteady₄, hsteady₃, hsteady₂]
    exact hsteady₁

/-- The writer gave this chunk up, and it arrived late. -/
theorem captured_late : ∃ trace w, Steps .initial trace w ∧ w.released ⟨1⟩ = [chunk] ∧
    (w.db.chunks ⟨1⟩).length = 1 ∧ w.stumbled ⟨1⟩ := by
  obtain ⟨hopened, hwritten, -, -, -, hkept⟩ := replies
  have hset := fun w => LogWorld.captures_setCapture w ⟨1⟩
  obtain ⟨first, w₁, hbegun, hcapture₁, hdb₁, hreleased₁, -, hflight₁⟩ :=
    begins (hopened ▸ after_serves 0 .empty (.begin ⟨⟨2⟩, "Create", 0⟩))
  obtain ⟨second, w₂, hgave, hflight₂, hdb₂, hreleased₂, hstumbled₂⟩ : ∃ trace w₂,
      Steps w₁ trace w₂ ∧ w₂.inFlight = [] ++ .append chunk :: [] ∧ w₂.db = opened.1 ∧
        w₂.released ⟨1⟩ = [chunk] ∧ w₂.stumbled ⟨1⟩ := by
    refine ⟨_, _, .cons (show LogStep _ _ _ _ (.flushed ⟨1⟩ chunk) _ from
      .flushed hcapture₁ (by decide)) <| .cons (.taken (hset _ _) rfl) <|
      .cons (.gaveUp (hset _ _) rfl) <| .nil _, ?_, hdb₁, ?_, .inr ⟨rfl, rfl⟩⟩
    · show w₁.inFlight ++ [_] = _
      rw [hflight₁]
      rfl
    · show Function.update w₁.released ⟨1⟩ (w₁.released ⟨1⟩ ++ [chunk]) ⟨1⟩ = _
      rw [Function.update_self, hreleased₁]
      rfl
  have harrived := LogStep.arrived hflight₂
    (by rw [hdb₂]; exact hwritten ▸ after_serves 0 opened.1 (.append chunk))
  exact ⟨_, _, hbegun.append (hgave.append (.single harrived)), hreleased₂, hkept, hstumbled₂⟩

end Sample

/-- **Logs hold what was released**, whatever calls fail, are given up or arrive late. -/
theorem logs_hold_released (C : Limits) {trace : List (LogWorld × LogEvent × LogWorld)}
    (hrun : Run (LogStep C.toLogConfig sha256 codec) .initial trace w) (id : Uuid) :
    HoldsReleased sha256 w id := by
  have hsound := sound_of_steps C.invocationBytes_ge hrun
  exact ⟨(hsound.fair id).rows_sublist hsound.wellFormed, (hsound.fair id).numbered.ascending,
    fun chunk hchunk => ((hsound.fair id).numbered.owned chunk hchunk).1⟩

/-- A chunk that its writer gave up, and that arrived late. -/
theorem logs_hold_released_sample : ∃ w : LogWorld, w.released ⟨1⟩ = [Sample.chunk] ∧
    (w.db.chunks ⟨1⟩).length = 1 ∧ w.stumbled ⟨1⟩ ∧ HoldsReleased Sample.sha256 w ⟨1⟩ := by
  obtain ⟨trace, w, hrun, hreleased, hkept, hstumbled⟩ := Sample.captured_late
  exact ⟨w, hreleased, hkept, hstumbled, logs_hold_released Sample.limits hrun ⟨1⟩⟩

/-- Nothing was lost of a log: it retained every byte that was released, and while it still retains as
much it holds every chunk. -/
structure HidesNothing (sha256 : ByteArray → String) (w : LogWorld) (id : Uuid)
    (record : Invocation) : Prop where
  lossless : record.lostBytes = 0
  accounted : record.retainedBytes = volume (w.released id)
  whole : retained (w.db.chunks id) = record.retainedBytes →
    w.db.chunks id = rowsOf sha256 (w.released id)

theorem eq_of_sublist_of_retained {rows rows' : List ChunkRow} (h : rows.Sublist rows')
    (hpositive : ∀ row ∈ rows', 0 < row.bytes) (hretained : retained rows' ≤ retained rows) :
    rows = rows' := by
  induction h with
  | slnil => rfl
  | cons row h _ =>
    have hrow := hpositive row List.mem_cons_self
    have hless := retained_le_of_sublist h
    rw [retained_cons] at hretained
    omega
  | cons_cons row _ ih =>
    rw [retained_cons, retained_cons] at hretained
    rw [ih (fun row hrow => hpositive row (List.mem_cons_of_mem _ hrow)) (by omega)]

/-- **Complete logs hide nothing.** -/
theorem complete_logs_hide_nothing (C : Limits) {trace : List (LogWorld × LogEvent × LogWorld)}
    (hrun : Run (LogStep C.toLogConfig sha256 codec) .initial trace w) {record : Invocation}
    (hrecord : w.db.record id = some record) (hcomplete : record.captureStatus = .complete) :
    HidesNothing sha256 w id record := by
  have hsound := sound_of_steps C.invocationBytes_ge hrun
  have hfair := hsound.fair id
  have hsealed : record.captureSealedAt.isSome := by
    by_contra hopen
    exact hfair.running record hrecord (Option.not_isSome_iff_eq_none.mp hopen) hcomplete
  obtain ⟨-, hcounted, hwithin, hflag⟩ := hfair.told record hrecord ⟨hsealed, .inl hcomplete⟩
  obtain ⟨hsteady, hlossless⟩ := hflag hcomplete
  have hretained : record.retainedBytes = volume (w.released id) := by
    have hall := hcounted hsteady
    omega
  refine ⟨hlossless, hretained, fun hwhole => ?_⟩
  refine eq_of_sublist_of_retained (hfair.rows_sublist hsound.wellFormed) (fun row hrow => ?_) ?_
  · obtain ⟨chunk, hchunk, rfl⟩ := List.mem_map.mp hrow
    exact (hfair.numbered.owned chunk hchunk).2
  · rw [retained_rowsOf, hwhole, hretained]

theorem complete_logs_hide_nothing_sample : ∃ w record, w.released ⟨1⟩ = [Sample.chunk] ∧
    w.db.record ⟨1⟩ = some record ∧ HidesNothing Sample.sha256 w ⟨1⟩ record := by
  obtain ⟨trace, w, record, hrun, hrecord, hcomplete, hreleased⟩ := Sample.captured_complete
  exact ⟨w, record, hreleased, hrecord,
    complete_logs_hide_nothing Sample.limits hrun hrecord hcomplete⟩

/-- What a sealed log counts: each byte that was released and is not retained, unless an append or a
command went unconfirmed, and then it does not say that it is complete. -/
structure Accounts (w : LogWorld) (id : Uuid) (record : Invocation) : Prop where
  closed : w.captures id = none
  within : record.retainedBytes ≤ volume (w.released id)
  counted : ¬ w.stumbled id → volume (w.released id) ≤ record.retainedBytes + record.lostBytes
  flagged : w.stumbled id → record.captureStatus = .incomplete

/-- **Sealed logs account for losses.** -/
theorem sealed_logs_account (C : Limits) {trace : List (LogWorld × LogEvent × LogWorld)}
    (hrun : Run (LogStep C.toLogConfig sha256 codec) .initial trace w) {record : Invocation}
    (hrecord : w.db.record id = some record) (hsettled : record.Settled) : Accounts w id record := by
  obtain ⟨hover, hcounted, hwithin, hflag⟩ :=
    ((sound_of_steps C.invocationBytes_ge hrun).fair id).told record hrecord hsettled
  refine ⟨hover, hwithin, hcounted, fun hstumbled => ?_⟩
  rcases hsettled.status with hcomplete | ⟨hincomplete, -⟩
  · exact absurd hstumbled (hflag hcomplete).1
  · exact hincomplete

/-- A chunk of one byte for which there was no room. -/
theorem sealed_logs_account_sample : ∃ w record, w.released ⟨1⟩ = [Sample.chunk, Sample.later] ∧
    w.db.record ⟨1⟩ = some record ∧ ¬ w.stumbled ⟨1⟩ ∧ record.retainedBytes = 1 ∧
    record.lostBytes = 1 ∧ Accounts w ⟨1⟩ record := by
  obtain ⟨trace, w, record, hrun, hrecord, hsettled, hretained, hlost, hreleased, hsteady⟩ :=
    Sample.captured_lossy
  exact ⟨w, record, hreleased, hrecord, hsteady, hretained, hlost,
    sealed_logs_account Sample.limits hrun hrecord hsettled⟩

end Shaula.OperationLogs
