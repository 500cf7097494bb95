import Shaula.OperationLogs.Archive

/-! # What the archive's effects do to its database

The file system, the disk counter and the clock may answer anything; a database statement answers
what the tables hold and changes them as it says.  Every statement but the insert of a chunk keeps
the tables well formed, and so does every program that makes no such insert.
-/

namespace Shaula.OperationLogs

open Core Library Library.Program

/-- What an effect answers, and the database it leaves. -/
def acts (db : Database) : (op : LogEffect) → op.Answer → Database → Prop
  | .record id, answer, db' => answer = db.record id ∧ db' = db
  | .retained id, answer, db' => answer = retained (db.chunks id) ∧ db' = db
  | .chunks id, answer, db' => answer = db.chunks id ∧ db' = db
  | .lastOrdinal generationId operation, answer, db' =>
    answer = db.lastOrdinal generationId operation ∧ db' = db
  | .expirable, answer, db' => answer = db.expirable ∧ db' = db
  | .unsealed, answer, db' => answer = db.unsealed ∧ db' = db
  | .begin record, _, db' => db.begin record = some db'
  | .save record, _, db' => db' = db.save record
  | .insertChunk id row, _, db' => db.insert id row = some db'
  | .deleteChunk id sequence, _, db' => db' = db.delete id sequence
  | .recount, _, db' => db' = db.recount
  | .deleteMetadata cutoff, _, db' => db'.chunks = db.chunks ∧ ∀ id,
      db'.invocations.find id = db.invocations.find id ∨
        db'.invocations.find id = none ∧ ∃ row, db.invocations.find id = some row ∧
          row.sealedAt.any (· < cutoff) ∧ row.retainedBytes = 0
  | _, _, db' => db' = db

abbrev Executes {α : Type} (p : Archived α) (db : Database) (ops : List LogEffect)
    (r : Option (Except CoreError α)) (db' : Database) : Prop :=
  p.Runs (F := archiveEffects) acts db ops r db'

/-! ## Well-formed tables -/

/-- What holds of the tables between any two effects of the archive. -/
structure Database.WellFormed (C : LogConfig) (db : Database) : Prop where
  named : ∀ id row, db.invocations.find id = some row →
    row.record.id = id ∧ row.sealedAt = row.record.captureSealedAt
  ascending : ∀ id, (db.chunks id).Pairwise (·.sequence < ·.sequence)
  bounded : ∀ id, ∀ row ∈ db.chunks id, row.bytes ≤ 65536
  limited : ∀ id, retained (db.chunks id) ≤ C.invocationBytes

theorem retained_le_of_sublist {rows rows' : List ChunkRow} (h : rows.Sublist rows') :
    retained rows ≤ retained rows' := by
  induction h with
  | slnil => exact Nat.le_refl _
  | cons row _ ih => exact ih.trans (Nat.le_add_left _ _)
  | cons_cons row _ ih => exact Nat.add_le_add_left ih _

theorem retained_perm {rows rows' : List ChunkRow} (h : rows.Perm rows') :
    retained rows = retained rows' :=
  (h.map ChunkRow.bytes).sum_nat

theorem ascending_orderedInsert {rows : List ChunkRow} {row : ChunkRow}
    (h : rows.Pairwise (·.sequence < ·.sequence))
    (hfresh : ∀ row' ∈ rows, row'.sequence ≠ row.sequence) :
    (rows.orderedInsert (·.sequence ≤ ·.sequence) row).Pairwise (·.sequence < ·.sequence) := by
  have hle : (rows.orderedInsert (·.sequence ≤ ·.sequence) row).Pairwise
      (·.sequence ≤ ·.sequence) := by
    have : IsTrans ChunkRow (·.sequence ≤ ·.sequence) := ⟨fun _ _ _ => Nat.le_trans⟩
    have : Std.Total (α := ChunkRow) (·.sequence ≤ ·.sequence) := ⟨fun _ _ => Nat.le_total _ _⟩
    exact List.Pairwise.orderedInsert row _ (h.imp Nat.le_of_lt)
  have hne : (row :: rows).Pairwise (·.sequence ≠ ·.sequence) :=
    List.pairwise_cons.mpr ⟨fun row' hrow' => (hfresh row' hrow').symm, h.imp Nat.ne_of_lt⟩
  have hne' := ((List.perm_orderedInsert (·.sequence ≤ ·.sequence) row rows).symm.pairwise_iff
    (fun hab => Ne.symm hab)).mp hne
  exact (hle.and hne').imp fun hab => Nat.lt_of_le_of_ne hab.1 hab.2

namespace Database

variable {C : LogConfig} {db db' : Database} {id : Uuid} {record : Invocation}

@[simp] theorem find_save (id' : Uuid) : (db.save record).invocations.find id' =
    if id' = record.id then
      (db.invocations.find id').map fun _ => ⟨record, record.captureSealedAt, record.retainedBytes⟩
    else db.invocations.find id' := by
  unfold save
  rw [Table.find_update]
  by_cases h : id' = record.id
  · simp [h]
  · simp [h]

@[simp] theorem chunks_save : (db.save record).chunks = db.chunks := rfl

@[simp] theorem invocations_delete (sequence : Nat) :
    (db.delete id sequence).invocations = db.invocations := rfl

@[simp] theorem chunks_delete (sequence : Nat) (id' : Uuid) :
    (db.delete id sequence).chunks id' =
      if id' = id then (db.chunks id).filter (·.sequence ≠ sequence) else db.chunks id' := by
  by_cases h : id' = id
  · subst h
    simp [delete]
  · simp [delete, h]

theorem insert_eq_some {row : ChunkRow} (h : db.insert id row = some db') :
    (∀ row' ∈ db.chunks id, row'.sequence ≠ row.sequence) ∧ db'.invocations = db.invocations ∧
      ∀ id', db'.chunks id' = if id' = id then
        (db.chunks id).orderedInsert (·.sequence ≤ ·.sequence) row else db.chunks id' := by
  unfold insert at h
  split at h
  · cases h
  · next hnone =>
    cases h
    refine ⟨fun row' hrow' heq => hnone ?_, rfl, fun id' => ?_⟩
    · exact List.any_eq_true.mpr ⟨row', hrow', by simpa using heq⟩
    · by_cases hid : id' = id
      · subst hid
        simp
      · simp [hid]

theorem begin_eq_some (h : db.begin record = some db') :
    db.invocations.find record.id = none ∧
      db' = { db with invocations := db.invocations.put record.id ⟨record, none, 0⟩ } := by
  unfold begin at h
  split at h
  · cases h
  · obtain ⟨invocations, hcreate, rfl⟩ := Option.map_eq_some_iff.mp h
    obtain ⟨hnone, rfl⟩ := Table.create_eq_some.mp hcreate
    exact ⟨hnone, rfl⟩

@[simp] theorem find_recount (id' : Uuid) : db.recount.invocations.find id' =
    (db.invocations.find id').map fun row =>
      { row with retainedBytes := retained (db.chunks id') } :=
  List.dlookup_map₂ id'

@[simp] theorem chunks_recount : db.recount.chunks = db.chunks := rfl

namespace WellFormed

theorem of_chunks (h : db.WellFormed C) (hchunks : ∀ id, (db'.chunks id).Sublist (db.chunks id))
    (hnamed : ∀ id row, db'.invocations.find id = some row →
      row.record.id = id ∧ row.sealedAt = row.record.captureSealedAt) : db'.WellFormed C where
  named := hnamed
  ascending id := (h.ascending id).sublist (hchunks id)
  bounded id row hrow := h.bounded id row ((hchunks id).subset hrow)
  limited id := (retained_le_of_sublist (hchunks id)).trans (h.limited id)

theorem save (h : db.WellFormed C) : (db.save record).WellFormed C := by
  refine h.of_chunks (fun _ => .refl _) fun id row hrow => ?_
  rw [find_save] at hrow
  split at hrow
  · next hid =>
    obtain ⟨row', -, rfl⟩ := Option.map_eq_some_iff.mp hrow
    exact ⟨hid.symm, rfl⟩
  · exact h.named id row hrow

theorem delete (h : db.WellFormed C) (sequence : Nat) : (db.delete id sequence).WellFormed C := by
  refine h.of_chunks (fun id' => ?_) h.named
  rw [chunks_delete]
  split
  · next hid =>
    rw [hid]
    exact List.filter_sublist
  · exact .refl _

theorem begin (h : db.WellFormed C) (hopen : record.captureSealedAt = none)
    (hbegin : db.begin record = some db') : db'.WellFormed C := by
  obtain ⟨-, rfl⟩ := begin_eq_some hbegin
  refine h.of_chunks (fun _ => .refl _) fun id row hrow => ?_
  rw [Table.find_put] at hrow
  split at hrow
  · next hid =>
    cases hrow
    exact ⟨hid.symm, hopen.symm⟩
  · exact h.named id row hrow

theorem recount (h : db.WellFormed C) : db.recount.WellFormed C := by
  refine h.of_chunks (fun _ => .refl _) fun id row hrow => ?_
  rw [find_recount] at hrow
  obtain ⟨row', hrow', rfl⟩ := Option.map_eq_some_iff.mp hrow
  exact h.named id row' hrow'

theorem insert {row : ChunkRow} (h : db.WellFormed C) (hbytes : row.bytes ≤ 65536)
    (hroom : retained (db.chunks id) + row.bytes ≤ C.invocationBytes)
    (hinsert : db.insert id row = some db') : db'.WellFormed C := by
  obtain ⟨hfresh, hinvocations, hchunks⟩ := insert_eq_some hinsert
  have hperm := List.perm_orderedInsert (·.sequence ≤ ·.sequence) row (db.chunks id)
  refine ⟨fun id' row' hrow' => h.named id' row' (hinvocations ▸ hrow'), fun id' => ?_,
    fun id' row' hrow' => ?_, fun id' => ?_⟩
  · rw [hchunks]
    split
    · exact ascending_orderedInsert (h.ascending id) hfresh
    · exact h.ascending id'
  · rw [hchunks] at hrow'
    split at hrow'
    · rcases List.mem_cons.mp (hperm.mem_iff.mp hrow') with rfl | hold
      · exact hbytes
      · exact h.bounded id row' hold
    · exact h.bounded id' row' hrow'
  · rw [hchunks]
    split
    · rw [retained_perm hperm, retained_cons, Nat.add_comm]
      exact hroom
    · exact h.limited id'

end WellFormed

end Database

/-! ## Programs by their effects -/

/-- The effect changes no table. -/
def Quiet : LogEffect → Prop
  | .begin _ | .save _ | .insertChunk _ _ | .deleteChunk _ _ | .recount | .deleteMetadata _ => False
  | _ => True

/-- The effect inserts no chunk, and no invocation that is sealed from the start. -/
def Plain : LogEffect → Prop
  | .insertChunk _ _ => False
  | .begin record => record.captureSealedAt = none
  | _ => True

/-- The effect is the look of a reader. -/
def Reads : LogEffect → Prop
  | .now | .record _ | .retained _ | .chunks _ | .directoryStat _ | .createDirectory _ | .stat _ _
  | .read _ _ => True
  | _ => False

/-- The effect is the look of a reader, or it saves a record. -/
def Notes : LogEffect → Prop
  | .save _ => True
  | op => Reads op

variable {α : Type} {C : LogConfig} {sha256 : ByteArray → String} {codec : CursorCodec}
  {db db' : Database} {ops : List LogEffect}

theorem Reads.notes {op : LogEffect} (h : Reads op) : Notes op := by
  cases op <;> first | exact trivial | exact h.elim

theorem Reads.quiet {op : LogEffect} (h : Reads op) : Quiet op := by
  cases op <;> first | exact trivial | exact h.elim

theorem Notes.plain {op : LogEffect} (h : Notes op) : Plain op := by
  cases op <;> first | exact trivial | exact h.elim

theorem Quiet.plain {op : LogEffect} (h : Quiet op) : Plain op := by
  cases op <;> first | exact trivial | exact h.elim

theorem acts_quiet {op : LogEffect} (h : Quiet op) {answer : op.Answer}
    (hacts : acts db op answer db') : db' = db := by
  cases op with
  | begin | save | insertChunk | deleteChunk | recount | deleteMetadata => exact h.elim
  | record | retained | chunks | lastOrdinal | expirable | unsealed => exact hacts.2
  | _ => exact hacts

theorem acts_plain {op : LogEffect} (h : Plain op) {answer : op.Answer}
    (hacts : acts db op answer db') (hdb : db.WellFormed C) : db'.WellFormed C := by
  cases op with
  | insertChunk => exact h.elim
  | begin => exact hdb.begin h hacts
  | save =>
    cases hacts
    exact hdb.save
  | deleteChunk =>
    cases hacts
    exact hdb.delete _
  | recount =>
    cases hacts
    exact hdb.recount
  | deleteMetadata =>
    obtain ⟨hchunks, hrows⟩ := hacts
    refine hdb.of_chunks (fun id => by rw [hchunks]) fun id row hrow => ?_
    rcases hrows id with hsame | ⟨hnone, -⟩
    · exact hdb.named id row (hsame ▸ hrow)
    · rw [hnone] at hrow
      cases hrow
  | record | retained | chunks | lastOrdinal | expirable | unsealed => exact hacts.2 ▸ hdb
  | _ => exact (show db' = db from hacts) ▸ hdb

/-- A program of quiet effects leaves the database as it is. -/
theorem quiet_executes {p : Archived α} {r : Option (Except CoreError α)} (hp : p.Only Quiet)
    (h : Executes p db ops r db') : db' = db :=
  h.relates (R := fun w w' => w' = w) (fun _ => rfl) (fun _ _ _ h h' => h'.trans h)
    (fun _ hop _ _ _ hacts => acts_quiet hop hacts) hp

/-- A program of plain effects keeps the tables well formed. -/
theorem plain_executes {p : Archived α} {r : Option (Except CoreError α)} (hp : p.Only Plain)
    (h : Executes p db ops r db') (hdb : db.WellFormed C) : db'.WellFormed C :=
  h.relates (R := fun w w' => w.WellFormed C → w'.WellFormed C) (fun _ h => h)
    (fun _ _ _ h h' hw => h' (h hw)) (fun _ hop _ _ _ hacts => acts_plain hop hacts) hp hdb

section Only

variable {P : LogEffect → Prop} {id : Uuid}

theorem only_ofExcept {x : Except CoreError α} : (ofExcept x : Archived α).Only P := by
  cases x <;> exact trivial

theorem privateDirectory_reads : (privateDirectory id).Only Reads := by
  refine .bind (.lift trivial) fun stat => ?_
  cases stat with
  | absent =>
    refine .bind (.lift trivial) fun made => ?_
    cases made <;> exact trivial
  | _ => exact trivial

theorem privateDirectory_quiet : (privateDirectory id).Only Quiet :=
  privateDirectory_reads.mono fun _ => Reads.quiet

theorem publish_quiet {sequence : Nat} {text : String} :
    (publish id sequence text).Only Quiet := by
  refine .bind privateDirectory_quiet fun _ => .bind only_ofExcept fun _ => ?_
  refine .bind (.lift trivial) fun _ => .bind .ensure fun _ => .bind (.lift trivial) fun _ => ?_
  refine .bind (.lift trivial) fun _ => .bind (.lift trivial) fun _ => ?_
  exact .bind (.lift trivial) fun _ => .bind (.lift trivial) fun _ =>
    .bind (.lift trivial) fun _ => trivial

theorem clearFile_quiet {name : FileName} : (clearFile id name).Only Quiet := by
  refine .bind privateDirectory_quiet fun _ => .bind only_ofExcept fun _ => ?_
  refine .bind (.lift trivial) fun stat => ?_
  cases stat with
  | file => exact .bind (.lift trivial) fun _ => .lift trivial
  | _ => exact trivial

theorem load_reads : (load id).Only Reads :=
  .bind (.lift trivial) fun _ => .bind .okOr fun _ => .bind (.lift trivial) fun _ => trivial

theorem load_quiet : (load id).Only Quiet := load_reads.mono fun _ => Reads.quiet

theorem load_notes : (load id).Only Notes := load_reads.mono fun _ => Reads.notes

theorem reapOrphans_quiet : reapOrphans.Only Quiet :=
  .bind (.lift trivial) fun _ => .bind (.lift trivial) fun _ => .bind (.lift trivial) fun _ =>
    .ensure

theorem chunkText_reads {row : ChunkRow} : (chunkText sha256 id row).Only Reads := by
  refine .bind privateDirectory_reads fun opened => ?_
  cases opened with
  | error => exact trivial
  | ok =>
    refine .bind (.lift trivial) fun stat => ?_
    cases stat with
    | file length =>
      dsimp only
      split
      · exact trivial
      · refine .bind (.lift trivial) fun bytes => ?_
        cases bytes <;> exact trivial
    | _ => exact trivial

theorem chunkText_quiet {row : ChunkRow} : (chunkText sha256 id row).Only Quiet :=
  chunkText_reads.mono fun _ => Reads.quiet

theorem collect_reads {query : LogQuery} {limit : Nat} (rows : List ChunkRow) (after : Int)
    (used : Nat) (entries : List LogEntry) :
    (collect sha256 id query limit rows after used entries).Only Reads := by
  induction rows generalizing after used entries with
  | nil => exact trivial
  | cons row rows ih =>
    unfold collect
    split
    · exact ih ..
    · split
      · exact ih ..
      · split
        · exact trivial
        · refine .bind chunkText_reads fun text => ?_
          cases text with
          | error => exact trivial
          | ok => exact ih ..

theorem collect_quiet {query : LogQuery} {limit : Nat} (rows : List ChunkRow) (after : Int)
    (used : Nat) (entries : List LogEntry) :
    (collect sha256 id query limit rows after used entries).Only Quiet :=
  (collect_reads rows after used entries).mono fun _ => Reads.quiet

theorem readPage_reads {query : LogQuery} : (readPage sha256 codec id query).Only Reads := by
  refine .bind .ensure fun _ => .bind .ensure fun _ => .bind load_reads fun record => ?_
  refine .bind only_ofExcept fun after => ?_
  split
  · exact trivial
  · split
    · exact trivial
    · exact .bind (.lift trivial) fun rows => .bind (collect_reads ..) fun _ => trivial

theorem readPage_quiet {query : LogQuery} : (readPage sha256 codec id query).Only Quiet :=
  readPage_reads.mono fun _ => Reads.quiet

theorem save_notes {record : Invocation} : (save record).Only Notes :=
  .bind .ensure fun _ => .lift trivial

theorem save_plain {record : Invocation} : (save record).Only Plain :=
  save_notes.mono fun _ => Notes.plain

theorem removeChunk_plain {row : ChunkRow} : (removeChunk id row).Only Plain :=
  .bind (clearFile_quiet.mono fun _ => Quiet.plain) fun _ => .lift trivial

theorem load_plain : (load id).Only Plain := load_quiet.mono fun _ => Quiet.plain

theorem removeChunks_plain (rows : List ChunkRow) : (removeChunks id rows).Only Plain := by
  induction rows with
  | nil => exact trivial
  | cons row rows ih => exact .bind removeChunk_plain fun _ => ih

theorem pruneRows_plain {cutoff : Int} {incoming : Nat} (rows : List (Uuid × Int)) (used : Nat) :
    (pruneRows C cutoff incoming rows used).Only Plain := by
  induction rows generalizing used with
  | nil => exact trivial
  | cons row rows ih =>
    unfold pruneRows
    split
    · exact ih _
    · refine .bind load_plain fun _ => .bind (.lift trivial) fun _ => ?_
      refine .bind (removeChunks_plain _) fun _ => .bind (.lift trivial) fun _ => ?_
      exact .bind save_plain fun _ => ih _

theorem pruneLocked_plain {incoming : Nat} : (pruneLocked C incoming).Only Plain :=
  .bind (.lift trivial) fun _ => .bind (.lift trivial) fun _ => .bind (.lift trivial) fun _ =>
    pruneRows_plain ..

theorem maintenance_plain : (maintenance C).Only Plain := by
  refine .bind (reapOrphans_quiet.mono fun _ => Quiet.plain) fun _ => .bind (.lift trivial) fun _ => ?_
  refine .bind (.lift trivial) fun _ => .bind pruneLocked_plain fun _ => ?_
  exact .bind (.lift trivial) fun _ => .lift trivial

theorem sealInterrupted_notes (records : List Invocation) :
    (sealInterrupted records).Only Notes := by
  induction records with
  | nil => exact trivial
  | cons record records ih =>
    exact .bind load_notes fun _ => .bind (.lift trivial) fun _ => .bind save_notes fun _ => ih

theorem sealInterrupted_plain (records : List Invocation) : (sealInterrupted records).Only Plain :=
  (sealInterrupted_notes records).mono fun _ => Notes.plain

theorem recover_plain : (recover C).Only Plain := by
  refine .bind (.lift trivial) fun _ => .bind (.lift trivial) fun _ => ?_
  refine .bind (sealInterrupted_plain _) fun _ => ?_
  refine .bind (reapOrphans_quiet.mono fun _ => Quiet.plain) fun _ => .bind (.lift trivial) fun _ => ?_
  exact .bind (.lift trivial) fun _ => pruneLocked_plain

theorem begin_plain {request : BeginInvocation} : (begin C request).Only Plain := by
  refine .bind .ensure fun _ => .bind pruneLocked_plain fun _ => .bind (.lift trivial) fun _ => ?_
  refine .bind .okOr fun _ => .bind (.lift trivial) fun _ => .bind (.lift trivial) fun _ => ?_
  exact .bind (.lift trivial) fun _ => .bind (.lift rfl) fun _ => trivial

theorem command_notes {cmd : LogCommand} : (command cmd).Only Notes := by
  refine .bind .ensure fun _ => .bind load_notes fun record => .bind .ensure fun _ => ?_
  refine .bind only_ofExcept fun placed => ?_
  cases placed with
  | none => exact trivial
  | some commands => exact save_notes

theorem command_plain {cmd : LogCommand} : (command cmd).Only Plain :=
  command_notes.mono fun _ => Notes.plain

theorem finish_notes {result : FinishInvocation} : (finish result).Only Notes := by
  refine .bind .ensure fun _ => .bind load_notes fun record => ?_
  split
  · exact trivial
  · exact .bind (.lift trivial) fun _ => save_notes

theorem finish_plain {result : FinishInvocation} : (finish result).Only Plain :=
  finish_notes.mono fun _ => Notes.plain

end Only

end Shaula.OperationLogs
