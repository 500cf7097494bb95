import Shaula.OperationLogs.Calls

/-! # Writes to a log

What each call of a log's writer may do to that log: how far an append got, and how the bytes of a
chunk are accounted for.
-/

namespace Shaula.OperationLogs

open Core Library Library.Program

variable {α : Type} {C : LogConfig} {sha256 : ByteArray → String} {codec : CursorCodec}
  {db db' db'' : Database} {ops : List LogEffect} {id : Uuid} {record stored : Invocation}
  {r : Option (Except CoreError Unit)}

theorem Database.WellFormed.name (hdb : db.WellFormed C) (h : db.record id = some stored) :
    stored.id = id := by
  obtain ⟨row, hrow, rfl⟩ := Option.map_eq_some_iff.mp h
  exact (hdb.named id row hrow).1

theorem Tidy.save_other (hid : id ≠ record.id) : Tidy id db (db.save record) :=
  .of_same (by rw [Database.record_save, if_neg hid]) rfl

/-! ## Opening a log -/

/-- A record that nothing was written under. -/
structure Invocation.Fresh (record : Invocation) : Prop where
  running : record.captureSealedAt = none
  status : record.captureStatus = .capturing

theorem begin_executes {request : BeginInvocation} {r : Option (Except CoreError Uuid)}
    (hdb : db.WellFormed C) (h : Executes (begin C request) db ops r db') :
    ∃ db₁, (∀ id, Tidy id db db₁) ∧ ((db' = db₁ ∧ ∀ id, r ≠ some (.ok id)) ∨
      ∃ record : Invocation, record.Fresh ∧ db₁.begin record = some db' ∧
        ∀ id, r = some (.ok id) → id = record.id) := by
  rcases Runs.of_ensure_bind h with ⟨-, h⟩ | ⟨-, -, rfl, rfl⟩
  · rcases Runs.of_bind h with ⟨_, db₁, _, _, hprune, h, -⟩ | ⟨r₀, hprune, -, rfl⟩
    · refine ⟨db₁, pruneLocked_tidy hdb hprune, ?_⟩
      rcases quiet_bind h (.lift trivial) with ⟨facts, _, _, -, h⟩ | hends
      · rcases Runs.of_okOr_bind h with ⟨facts, -, h⟩ | ⟨-, -, rfl, rfl⟩
        · rcases quiet_bind h (.lift trivial) with ⟨last, _, _, -, h⟩ | hends
          · rcases quiet_bind h (.lift trivial) with ⟨fresh, _, _, -, h⟩ | hends
            · rcases quiet_bind h (.lift trivial) with ⟨version, _, _, -, h⟩ | hends
              · rcases Runs.of_lift_bind h with ⟨_, db₂, _, hact, h, -⟩ | ⟨rfl, hcut⟩
                · obtain ⟨-, rfl, rfl⟩ := Runs.of_done h
                  exact .inr ⟨_, ⟨rfl, rfl⟩, hact, fun id hid => by cases hid; rfl⟩
                · rcases hcut with ⟨-, rfl⟩ | ⟨_, -, hact⟩
                  · exact .inl ⟨rfl, fun id => by simp⟩
                  · exact .inr ⟨_, ⟨rfl, rfl⟩, hact, fun id hid => by cases hid⟩
              · exact .inl hends
            · exact .inl hends
          · exact .inl hends
        · exact .inl ⟨rfl, fun id => by simp⟩
      · exact .inl hends
    · exact ⟨db', pruneLocked_tidy hdb hprune, .inl ⟨rfl, cut_ne_ok r₀⟩⟩
  · exact ⟨db', fun id => .refl id _, .inl ⟨rfl, fun id => by simp⟩⟩

/-! ## Commands and the end of a log -/

theorem command_executes {cmd : LogCommand} (h : Executes (command cmd) db ops r db') :
    db' = db ∨ ∃ stored commands effectAttemptId, db.record cmd.invocationId = some stored ∧
      stored.captureSealedAt = none ∧ db' = db.save
        { stored with
          retainedBytes := retained (db.chunks cmd.invocationId)
          effectAttemptId := effectAttemptId
          commands := commands } := by
  rcases Runs.of_ensure_bind h with ⟨-, h⟩ | ⟨-, -, -, hsame⟩
  · rcases quiet_bind h load_quiet with ⟨record, _, _, hload, h⟩ | ⟨hsame, -⟩
    · obtain ⟨stored, hstored, rfl⟩ := (load_executes hload).2 _ rfl
      rcases Runs.of_ensure_bind h with ⟨hopen, h⟩ | ⟨-, -, -, hsame⟩
      · rcases quiet_bind h only_ofExcept with ⟨placed, _, _, -, h⟩ | ⟨hsame, -⟩
        · cases placed with
          | none => exact .inl (Runs.of_done h).2.2
          | some commands =>
            rcases save_executes h with ⟨hsame, -⟩ | hsaved
            · exact .inl hsame
            · exact .inr ⟨stored, commands, _, hstored, hopen, hsaved⟩
        · exact .inl hsame
      · exact .inl hsame
    · exact .inl hsame
  · exact .inl hsame

theorem finish_executes {result : FinishInvocation} (h : Executes (finish result) db ops r db') :
    db' = db ∨ ∃ stored now, db.record result.invocationId = some stored ∧
      stored.captureSealedAt = none ∧ db' = db.save
        (Invocation.finish { stored with
          retainedBytes := retained (db.chunks result.invocationId) } result now) := by
  rcases Runs.of_ensure_bind h with ⟨-, h⟩ | ⟨-, -, -, hsame⟩
  · rcases quiet_bind h load_quiet with ⟨record, _, _, hload, h⟩ | ⟨hsame, -⟩
    · obtain ⟨stored, hstored, rfl⟩ := (load_executes hload).2 _ rfl
      split at h
      · exact .inl (Runs.of_done h).2.2
      · next hopen =>
        rcases quiet_bind h (.lift trivial) with ⟨now, _, _, -, h⟩ | ⟨hsame, -⟩
        · rcases save_executes h with ⟨hsame, -⟩ | hsaved
          · exact .inl hsame
          · exact .inr ⟨stored, now, hstored, Option.not_isSome_iff_eq_none.mp hopen, hsaved⟩
        · exact .inl hsame
    · exact .inl hsame
  · exact .inl hsame

/-! ## Eviction -/

/-- Chunks of an invocation were taken away, and nothing else. -/
structure Sheds (id : Uuid) (db db' : Database) : Prop where
  invocations : db'.invocations = db.invocations
  others : ∀ id', id' ≠ id → db'.chunks id' = db.chunks id'
  chunks : (db'.chunks id).Sublist (db.chunks id)

namespace Sheds

theorem refl (id : Uuid) (db : Database) : Sheds id db db :=
  ⟨rfl, fun _ _ => rfl, .refl _⟩

theorem trans (h : Sheds id db db') (h' : Sheds id db' db'') : Sheds id db db'' :=
  ⟨h'.invocations.trans h.invocations, fun id' hid => (h'.others id' hid).trans (h.others id' hid),
    h'.chunks.trans h.chunks⟩

theorem delete (id : Uuid) (db : Database) (sequence : Nat) : Sheds id db (db.delete id sequence) := by
  refine ⟨rfl, fun id' hid => by rw [Database.chunks_delete, if_neg hid], ?_⟩
  rw [Database.chunks_delete, if_pos rfl]
  exact List.filter_sublist

theorem wellFormed (h : Sheds id db db') (hdb : db.WellFormed C) : db'.WellFormed C := by
  refine hdb.of_chunks (fun id' => ?_) fun id' row hrow => hdb.named id' row (h.invocations ▸ hrow)
  by_cases hid : id' = id
  · rw [hid]
    exact h.chunks
  · rw [h.others id' hid]

theorem record_eq (h : Sheds id db db') (id' : Uuid) : db'.record id' = db.record id' := by
  unfold Database.record
  rw [h.invocations]

end Sheds

/-- The record that the chunks left account for, with room for more bytes. -/
structure Lighter (C : LogConfig) (bytes : Nat) (record record' : Invocation)
    (rows : List ChunkRow) : Prop where
  same : ∃ reason, record' = { record with
    retainedBytes := retained rows, lostBytes := record'.lostBytes, reason := reason }
  total : retained rows + record'.lostBytes = record.retainedBytes + record.lostBytes
  room : retained rows + bytes ≤ C.invocationBytes

theorem filter_ne_middle {kept rows : List ChunkRow} {row : ChunkRow}
    (h : (kept ++ row :: rows).Pairwise (·.sequence < ·.sequence)) :
    (kept ++ row :: rows).filter (·.sequence ≠ row.sequence) = kept ++ rows := by
  obtain ⟨-, hrows, hacross⟩ := List.pairwise_append.mp h
  have hkept : kept.filter (·.sequence ≠ row.sequence) = kept := by
    refine List.filter_eq_self.mpr fun x hx => ?_
    simpa using (hacross x hx row List.mem_cons_self).ne
  have hrest : rows.filter (·.sequence ≠ row.sequence) = rows := by
    refine List.filter_eq_self.mpr fun x hx => ?_
    simpa using ((List.pairwise_cons.mp hrows).1 x hx).ne'
  rw [List.filter_append, List.filter_cons_of_neg (by simp), hkept, hrest]

theorem evict_executes {bytes : Nat} {r : Option (Except CoreError Invocation)}
    (hlimit : 128 * 1024 ≤ C.invocationBytes) (hbytes : bytes ≤ 65536) (rows kept : List ChunkRow)
    (hid : record.id = id) (hchunks : db.chunks id = kept ++ rows)
    (hascending : (kept ++ rows).Pairwise (·.sequence < ·.sequence))
    (hretained : record.retainedBytes = retained (kept ++ rows))
    (hhead : retained kept ≤ C.invocationBytes / 2)
    (h : Executes (evict C bytes rows (retained kept) record) db ops r db') :
    Sheds id db db' ∧ ∀ record', r = some (.ok record') →
      Lighter C bytes record record' (db'.chunks id) := by
  induction rows generalizing kept record db ops with
  | nil =>
    obtain ⟨-, rfl, rfl⟩ := Runs.of_done h
    refine ⟨.refl _ _, fun record' hrecord' => ?_⟩
    cases hrecord'
    rw [List.append_nil] at hchunks hretained
    exact ⟨⟨_, by rw [hchunks, ← hretained]⟩, by rw [hchunks, hretained],
      by rw [hchunks]; omega⟩
  | cons row rows ih =>
    unfold evict at h
    split at h
    · next hroom =>
      obtain ⟨-, rfl, rfl⟩ := Runs.of_done h
      refine ⟨.refl _ _, fun record' hrecord' => ?_⟩
      cases hrecord'
      exact ⟨⟨_, by rw [hchunks, ← hretained]⟩, by rw [hchunks, hretained],
        by rw [hchunks, ← hretained]; exact hroom⟩
    · split at h
      · next hfits =>
        have happend : kept ++ row :: rows = (kept ++ [row]) ++ rows := by simp
        have hkept : retained (kept ++ [row]) = retained kept + row.bytes := by simp
        rw [happend] at hchunks hascending hretained
        rw [← hkept] at h hfits
        exact ih (kept ++ [row]) hid hchunks hascending hretained hfits h
      · -- The row gives way.
        rw [hid] at h
        rcases Runs.of_bind h with ⟨_, db₁, _, _, hremoved, h, -⟩ | ⟨r₀, hremoved, -, rfl⟩
        · rcases removeChunk_executes hremoved with ⟨-, hne⟩ | rfl
          · exact absurd rfl hne
          · have hafter : (db.delete id row.sequence).chunks id = kept ++ rows := by
              rw [Database.chunks_delete, if_pos rfl, hchunks, filter_ne_middle hascending]
            have hsub : (kept ++ rows).Sublist (kept ++ row :: rows) :=
              (List.Sublist.refl kept).append (List.sublist_cons_self row rows)
            have hsum : retained (kept ++ row :: rows) = retained (kept ++ rows) + row.bytes := by
              simp only [retained_append, retained_cons]
              omega
            have hretained' : (record.evicted row.bytes).retainedBytes = retained (kept ++ rows) := by
              show record.retainedBytes - row.bytes = _
              omega
            have hid' : (record.evicted row.bytes).id = id := hid
            obtain ⟨hsheds, hlighter⟩ := ih kept hid' hafter
              (hascending.sublist hsub) hretained' hhead h
            refine ⟨(Sheds.delete _ db _).trans hsheds, fun record' hrecord' => ?_⟩
            obtain ⟨⟨reason, hsame⟩, htotal, hroom⟩ := hlighter record' hrecord'
            refine ⟨⟨reason, hsame⟩, ?_, hroom⟩
            rw [show (record.evicted row.bytes).lostBytes = record.lostBytes + row.bytes from rfl,
              hretained'] at htotal
            have htotal' : retained (db'.chunks id) + record'.lostBytes =
                retained (kept ++ rows) + (record.lostBytes + row.bytes) := htotal
            omega
        · refine ⟨?_, fun record' hrecord' => absurd hrecord' (cut_ne_ok r₀ record')⟩
          rcases removeChunk_executes hremoved with ⟨rfl, -⟩ | rfl
          · exact .refl _ _
          · exact .delete _ _ _

/-! ## Appending -/

theorem publish_yields {sequence : Nat} {text : String} :
    (publish id sequence text).Yields (· = .chunk sequence) :=
  .bind fun _ => .bind fun _ => .bind fun _ => .bind fun _ => .bind fun _ => .bind fun _ =>
    .bind fun _ => .bind fun _ => .bind fun _ => .bind fun _ => rfl

theorem keep_executes {chunk : AppendLog} (hdb : db.WellFormed C)
    (h : Executes (keep C sha256 chunk record) db ops r db') :
    ∃ db₁, (∀ id, Tidy id db db₁) ∧ db₁.WellFormed C ∧
      ((db' = db₁ ∧ ∀ a, r ≠ some (.ok a)) ∨ db' = db₁.save (record.refused chunk.bytes) ∨
        ∃ db₂, db₁.insert record.id (chunk.row sha256 (.chunk chunk.sequence)) = some db₂ ∧
          ((db' = db₂ ∧ ∀ a, r ≠ some (.ok a)) ∨
            db' = db₂.save (record.kept chunk.bytes chunk.withheld))) := by
  rcases Runs.of_bind h with ⟨_, db₁, _, _, hprune, h, -⟩ | ⟨r₀, hprune, -, rfl⟩
  · refine ⟨db₁, pruneLocked_tidy hdb hprune, plain_executes pruneLocked_plain hprune hdb, ?_⟩
    rcases quiet_bind h (.lift trivial) with ⟨used, _, _, -, h⟩ | hends
    · split at h
      · rcases save_executes h with ⟨hsame, hne⟩ | hsaved
        · exact .inl ⟨hsame, fun _ => hne⟩
        · exact .inr (.inl hsaved)
      · rcases quiet_bind h (.lift trivial) with ⟨_, _, _, -, h⟩ | hends
        · rcases quiet_bind h publish_quiet with ⟨name, _, _, hpublish, h⟩ | hends
          · cases hpublish.yields publish_yields
            rcases Runs.of_lift_bind h with ⟨_, db₂, _, hact, h, -⟩ | ⟨rfl, hcut⟩
            · refine .inr (.inr ⟨db₂, hact, ?_⟩)
              rcases save_executes h with ⟨hsame, hne⟩ | hsaved
              · exact .inl ⟨hsame, fun _ => hne⟩
              · exact .inr hsaved
            · rcases hcut with ⟨-, hsame⟩ | ⟨_, -, hact⟩
              · exact .inl ⟨hsame, fun _ => by simp⟩
              · exact .inr (.inr ⟨db', hact, .inl ⟨rfl, fun _ => by simp⟩⟩)
          · exact .inl hends
        · exact .inl hends
    · exact .inl hends
  · exact ⟨db', pruneLocked_tidy hdb hprune, plain_executes pruneLocked_plain hprune hdb,
      .inl ⟨rfl, cut_ne_ok r₀⟩⟩

/-- The record of a log that is still written to. -/
structure Invocation.Continues (record record' : Invocation) : Prop where
  running : record'.captureSealedAt = none
  status : record'.captureStatus = record.captureStatus

/-- What an append may do to the log it is for: rows give way and a row for the chunk may come, and
when the append is accepted each byte is retained or counted as lost. -/
structure Appends (sha256 : ByteArray → String) (chunk : AppendLog) (db : Database)
    (stored : Invocation) (r : Option (Except CoreError Unit)) (db' : Database) : Prop where
  before : db.record chunk.invocationId = some stored
  running : stored.captureSealedAt = none
  last : ∀ row ∈ db.chunks chunk.invocationId, row.sequence < chunk.sequence
  others : ∀ id, id ≠ chunk.invocationId → Tidy id db db'
  after : ∃ record, db'.record chunk.invocationId = some record ∧ stored.Continues record ∧
    (r = some (.ok ()) → retained (db'.chunks chunk.invocationId) + record.lostBytes =
      retained (db.chunks chunk.invocationId) + stored.lostBytes + chunk.bytes)
  rows : ∀ row ∈ db'.chunks chunk.invocationId,
    row ∈ db.chunks chunk.invocationId ∨ row = chunk.row sha256 (.chunk chunk.sequence)

theorem last_lt {rows : List ChunkRow} {sequence : Nat}
    (hascending : rows.Pairwise (·.sequence < ·.sequence))
    (h : rows.getLast?.any (fun row => sequence ≤ row.sequence) = false) :
    ∀ row ∈ rows, row.sequence < sequence := by
  intro row hrow
  rcases List.eq_nil_or_concat' rows with rfl | ⟨init, last, rfl⟩
  · cases hrow
  · rw [List.getLast?_concat] at h
    have hlast : last.sequence < sequence := by simpa using h
    rcases List.mem_append.mp hrow with hinit | hsame
    · exact ((List.pairwise_append.mp hascending).2.2 row hinit last (by simp)).trans hlast
    · rwa [List.mem_singleton.mp hsame]

/-- From the tables that eviction left, and the record that goes with them. -/
theorem Appends.of_keep {chunk : AppendLog} {db₁ : Database} {record₁ : Invocation}
    (hdb : db.WellFormed C) (hbytes : chunk.bytes ≤ 65536)
    (hstored : db.record chunk.invocationId = some stored)
    (hopen : stored.captureSealedAt = none)
    (hlast : ∀ row ∈ db.chunks chunk.invocationId, row.sequence < chunk.sequence)
    (hsheds : Sheds chunk.invocationId db db₁)
    (hlighter : Lighter C chunk.bytes
      { stored with retainedBytes := retained (db.chunks chunk.invocationId) } record₁
      (db₁.chunks chunk.invocationId))
    (h : Executes (keep C sha256 chunk record₁) db₁ ops r db') :
    Appends sha256 chunk db stored r db' ∧ db'.WellFormed C := by
  obtain ⟨⟨reason, hsame⟩, htotal, hroom⟩ := hlighter
  have hname : record₁.id = chunk.invocationId := by
    rw [hsame]
    exact (hdb.name hstored :)
  have hdb₁ := hsheds.wellFormed hdb
  have hcontinues : stored.Continues record₁ := by
    rw [hsame]
    exact ⟨hopen, rfl⟩
  obtain ⟨db₂, htidy, hdb₂, hends⟩ := keep_executes hdb₁ h
  have hstored₁ : db₁.record chunk.invocationId = some stored := by rwa [hsheds.record_eq]
  obtain ⟨hstored₂, hchunks₂⟩ := (htidy chunk.invocationId).untouched stored hstored₁ hopen
  have hothers₂ : ∀ id, id ≠ chunk.invocationId → Tidy id db db₂ := fun id hid =>
    (Tidy.of_same (hsheds.record_eq id) (hsheds.others id hid)).trans (htidy id)
  have hrows₂ : ∀ row ∈ db₂.chunks chunk.invocationId, row ∈ db.chunks chunk.invocationId := by
    rw [hchunks₂]
    exact fun row hrow => hsheds.chunks.subset hrow
  rcases hends with ⟨rfl, hne⟩ | rfl | ⟨db₃, hinsert, hends⟩
  · refine ⟨⟨hstored, hopen, hlast, hothers₂, ⟨stored, hstored₂, ⟨hopen, rfl⟩, ?_⟩,
      fun row hrow => .inl (hrows₂ row hrow)⟩, hdb₂⟩
    exact fun hok => absurd hok (hne ())
  · refine ⟨⟨hstored, hopen, hlast, fun id hid => (hothers₂ id hid).trans (.save_other ?_),
      ⟨record₁.refused chunk.bytes, ?_, ⟨hcontinues.running, hcontinues.status⟩, fun _ => ?_⟩,
      fun row hrow => .inl (hrows₂ row hrow)⟩, hdb₂.save⟩
    · rwa [show (record₁.refused chunk.bytes).id = record₁.id from rfl, hname]
    · rw [Database.record_save, show (record₁.refused chunk.bytes).id = record₁.id from rfl, hname,
        if_pos rfl, hstored₂]
      rfl
    · show retained (db₂.chunks _) + (record₁.lostBytes + chunk.bytes) = _
      rw [hchunks₂]
      have htotal' : retained (db₁.chunks chunk.invocationId) + record₁.lostBytes =
          retained (db.chunks chunk.invocationId) + stored.lostBytes := htotal
      omega
  · rw [hname] at hinsert
    obtain ⟨-, hinvocations, hchunks⟩ := Database.insert_eq_some hinsert
    have hperm := List.perm_orderedInsert (·.sequence ≤ ·.sequence)
      (chunk.row sha256 (.chunk chunk.sequence)) (db₂.chunks chunk.invocationId)
    have hrecord₃ : ∀ id, db₃.record id = db₂.record id := by
      intro id
      unfold Database.record
      rw [hinvocations]
    have hothers₃ : ∀ id, id ≠ chunk.invocationId → Tidy id db db₃ := fun id hid =>
      (hothers₂ id hid).trans (.of_same (hrecord₃ id) (by rw [hchunks, if_neg hid]))
    have hrows₃ : ∀ row ∈ db₃.chunks chunk.invocationId, row ∈ db.chunks chunk.invocationId ∨
        row = chunk.row sha256 (.chunk chunk.sequence) := by
      intro row hrow
      rw [hchunks, if_pos rfl] at hrow
      rcases List.mem_cons.mp (hperm.mem_iff.mp hrow) with hnew | hold
      · exact .inr hnew
      · exact .inl (hrows₂ row hold)
    have hroom₂ : retained (db₂.chunks chunk.invocationId) + chunk.bytes ≤ C.invocationBytes := by
      rw [hchunks₂]
      exact hroom
    have hdb₃ : db₃.WellFormed C := hdb₂.insert hbytes hroom₂ hinsert
    rcases hends with ⟨rfl, hne⟩ | rfl
    · refine ⟨⟨hstored, hopen, hlast, hothers₃, ⟨stored, ?_, ⟨hopen, rfl⟩, ?_⟩, hrows₃⟩, hdb₃⟩
      · rw [hrecord₃, hstored₂]
      · exact fun hok => absurd hok (hne ())
    · have hid : (record₁.kept chunk.bytes chunk.withheld).id = chunk.invocationId := hname
      refine ⟨⟨hstored, hopen, hlast, fun id hne => (hothers₃ id hne).trans (.save_other ?_),
        ⟨record₁.kept chunk.bytes chunk.withheld, ?_, ⟨hcontinues.running, hcontinues.status⟩,
          fun _ => ?_⟩, hrows₃⟩, hdb₃.save⟩
      · rwa [hid]
      · rw [Database.record_save, hid, if_pos rfl, hrecord₃, hstored₂]
        rfl
      · show retained (db₃.chunks _) + record₁.lostBytes = _
        rw [hchunks, if_pos rfl, retained_perm hperm, retained_cons, hchunks₂]
        have htotal' : retained (db₁.chunks chunk.invocationId) + record₁.lostBytes =
            retained (db.chunks chunk.invocationId) + stored.lostBytes := htotal
        show chunk.bytes + _ + _ = _
        omega

/-- **An append.**  It changes nothing, and if it is accepted then the chunk was there already; or
it is for an open log with no chunk that comes later. -/
theorem append_executes {chunk : AppendLog} (hlimit : 128 * 1024 ≤ C.invocationBytes)
    (hdb : db.WellFormed C) (h : Executes (append C sha256 chunk) db ops r db') :
    (db' = db ∧ (r = some (.ok ()) →
      ∃ row ∈ db.chunks chunk.invocationId, row.sequence = chunk.sequence)) ∨
      ∃ stored, Appends sha256 chunk db stored r db' ∧ db'.WellFormed C := by
  rcases Runs.of_ensure_bind h with ⟨hvalid, h⟩ | ⟨-, -, rfl, rfl⟩
  · rcases Runs.of_ensure_bind h with ⟨-, h⟩ | ⟨-, -, rfl, rfl⟩
    · rcases quiet_bind h load_quiet with ⟨record, _, _, hload, h⟩ | ⟨rfl, hne⟩
      · obtain ⟨stored, hstored, rfl⟩ := (load_executes hload).2 _ rfl
        have hname : stored.id = chunk.invocationId := hdb.name hstored
        rcases quiet_bind h (.lift trivial) with ⟨rows, _, _, hrows, h⟩ | ⟨rfl, hne⟩
        · have hrows' : rows = db.chunks chunk.invocationId :=
            (answered hrows).1.trans (congrArg db.chunks hname)
          split at h
          · next existing hfound =>
            have hmem := List.mem_of_find?_eq_some hfound
            have hsequence := List.find?_some hfound
            refine .inl ⟨?_, fun _ => ⟨existing, hrows' ▸ hmem, by simpa using hsequence⟩⟩
            unfold Program.ensure at h
            split at h
            · exact (Runs.of_done h).2.2
            · exact (Runs.of_fail h).2.2
          · rcases Runs.of_ensure_bind h with ⟨hopen, h⟩ | ⟨-, -, rfl, rfl⟩
            · rcases Runs.of_ensure_bind h with ⟨hlast, h⟩ | ⟨-, -, rfl, rfl⟩
              · have hlast' := last_lt (hrows' ▸ hdb.ascending _) hlast
                rw [hrows'] at h hlast'
                have hloaded : ({ stored with
                    retainedBytes := retained (db.chunks chunk.invocationId) } : Invocation).id =
                    chunk.invocationId := hname
                rcases Runs.of_bind h with ⟨record₁, db₁, _, _, hevict, h, -⟩ | ⟨r₀, hevict, -, rfl⟩
                · obtain ⟨hsheds, hlighter⟩ := evict_executes hlimit hvalid.2.2 _ [] hloaded rfl
                    (hdb.ascending _) rfl (Nat.zero_le _) hevict
                  exact .inr ⟨stored, Appends.of_keep hdb hvalid.2.2 hstored hopen hlast' hsheds
                    (hlighter record₁ rfl) h⟩
                · have hsheds := (evict_executes hlimit hvalid.2.2 _ [] hloaded rfl
                    (hdb.ascending _) rfl (Nat.zero_le _) hevict).1
                  refine .inr ⟨stored, ⟨hstored, hopen, hlast', fun id hid => .of_same
                    (hsheds.record_eq id) (hsheds.others id hid), ⟨stored, ?_, ⟨hopen, rfl⟩, ?_⟩,
                    fun row hrow => .inl (hsheds.chunks.subset hrow)⟩, hsheds.wellFormed hdb⟩
                  · rwa [hsheds.record_eq]
                  · exact fun hok => absurd hok (cut_ne_ok r₀ ())
              · exact .inl ⟨rfl, fun hr => by cases hr⟩
            · exact .inl ⟨rfl, fun hr => by cases hr⟩
        · exact .inl ⟨rfl, fun hr => absurd hr (hne ())⟩
      · exact .inl ⟨rfl, fun hr => absurd hr (hne ())⟩
    · exact .inl ⟨rfl, fun hr => by cases hr⟩
  · exact .inl ⟨rfl, fun hr => by cases hr⟩

/-! ## Every call -/

/-- **Every call keeps the tables well formed.** -/
theorem Serves.wellFormed {event : ArchiveEvent} (hlimit : 128 * 1024 ≤ C.invocationBytes)
    (hdb : db.WellFormed C) (h : Serves C sha256 codec db event db') : db'.WellFormed C := by
  obtain ⟨call, reply⟩ := event
  obtain ⟨ops, h⟩ := h
  cases call with
  | recover =>
    obtain ⟨_, h, -⟩ := Runs.of_map h
    exact plain_executes recover_plain h hdb
  | maintenance =>
    obtain ⟨_, h, -⟩ := Runs.of_map h
    exact plain_executes maintenance_plain h hdb
  | begin request =>
    obtain ⟨_, h, -⟩ := Runs.of_map h
    exact plain_executes begin_plain h hdb
  | append chunk =>
    obtain ⟨_, h, -⟩ := Runs.of_map h
    rcases append_executes hlimit hdb h with ⟨rfl, -⟩ | ⟨_, -, hdb'⟩
    · exact hdb
    · exact hdb'
  | command cmd =>
    obtain ⟨_, h, -⟩ := Runs.of_map h
    exact plain_executes command_plain h hdb
  | finish result =>
    obtain ⟨_, h, -⟩ := Runs.of_map h
    exact plain_executes finish_plain h hdb
  | readPage id query =>
    obtain ⟨_, h, -⟩ := Runs.of_map h
    cases quiet_executes readPage_quiet h
    exact hdb

/-- An archive that was never written to. -/
def Database.empty : Database := ⟨∅, fun _ => []⟩

theorem Database.empty_wellFormed : Database.empty.WellFormed C where
  named _ _ h := by cases h
  ascending _ := .nil
  bounded _ _ h := by cases h
  limited _ := Nat.zero_le _

/-- The calls of a run whose effects are answered for certain. -/
def served (C : LogConfig) (sha256 : ByteArray → String) (codec : CursorCodec)
    (answer : Database → (op : LogEffect) → Option (op.Answer × Database)) :
    Database → List ArchiveCall → List (Database × ArchiveEvent × Database)
  | _, [] => []
  | db, call :: calls =>
    let played := (serve C sha256 codec call).play (F := archiveEffects) answer db
    (db, (call, played.2.ended), played.1) :: served C sha256 codec answer played.1 calls

theorem run_served {answer : Database → (op : LogEffect) → Option (op.Answer × Database)}
    (hanswer : ∀ db op a db', answer db op = some (a, db') → acts db op a db')
    (calls : List ArchiveCall) (db : Database) :
    ∃ db', Run (Serves C sha256 codec) db (served C sha256 codec answer db calls) db' := by
  induction calls generalizing db with
  | nil => exact ⟨db, .nil db⟩
  | cons call calls ih =>
    obtain ⟨db', hrun⟩ := ih ((serve C sha256 codec call).play (F := archiveEffects) answer db).1
    exact ⟨db', .cons (runs_play hanswer (serve C sha256 codec call) db) hrun⟩

end Shaula.OperationLogs
