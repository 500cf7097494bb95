import Shaula.OperationLogs.Statements

/-! # Calls of the archive

The calls of the archive, one at a time, and what each of them may do to the tables.  A call for one
invocation, and any upkeep, leaves the open log of another invocation as it is, and of a sealed log
it only ever takes away.
-/

namespace Shaula.OperationLogs

open Core Library Library.Program

/-- What an archive is called for. -/
inductive ArchiveCall where
  | recover
  | maintenance
  | begin (request : BeginInvocation)
  | append (chunk : AppendLog)
  | command (command : LogCommand)
  | finish (result : FinishInvocation)
  | readPage (id : Uuid) (query : LogQuery)
  deriving DecidableEq

inductive ArchiveReply where
  | done
  | begun (id : Uuid)
  | page (page : LogPage)
  deriving DecidableEq

section Serve

variable (C : LogConfig) (sha256 : ByteArray → String) (codec : CursorCodec)

def serve : ArchiveCall → Archived ArchiveReply
  | .recover => recover C >>= fun _ => .done .done
  | .maintenance => maintenance C >>= fun _ => .done .done
  | .begin request => begin C request >>= fun id => .done (.begun id)
  | .append chunk => append C sha256 chunk >>= fun _ => .done .done
  | .command cmd => command cmd >>= fun _ => .done .done
  | .finish result => finish result >>= fun _ => .done .done
  | .readPage id query => readPage sha256 codec id query >>= fun page => .done (.page page)

/-- A call, with what it returned unless it was given up. -/
abbrev ArchiveEvent := ArchiveCall × Option (Except CoreError ArchiveReply)

/-- One call of the archive, come to its end or given up anywhere.  A statement that a call was given
up on happens before the writer lock is free, or never; those that the connection carries out later
are not modelled. -/
def Serves (db : Database) (event : ArchiveEvent) (db' : Database) : Prop :=
  ∃ ops, Executes (serve C sha256 codec event.1) db ops event.2 db'

end Serve

variable {α : Type} {C : LogConfig} {sha256 : ByteArray → String} {codec : CursorCodec}
  {db db' db'' : Database} {ops : List LogEffect} {id : Uuid} {record : Invocation}

/-! ## What an invocation may lose -/

/-- A log that its own writer sealed, and that was not taken away since. -/
structure Invocation.Settled (record : Invocation) : Prop where
  sealed : record.captureSealedAt.isSome
  status : record.captureStatus = .complete ∨
    record.captureStatus = .incomplete ∧ record.reason ≠ some "writer_interrupted"

/-- The log of an invocation as others leave it: an open log is untouched, a settled one has the
record it had, and chunks are only ever taken away. -/
structure Ages (id : Uuid) (db db' : Database) : Prop where
  chunks : (db'.chunks id).Sublist (db.chunks id)
  writing : ∀ record, db'.record id = some record → record.captureSealedAt = none →
    db.record id = some record ∧ db'.chunks id = db.chunks id
  settled : ∀ record, db'.record id = some record → record.Settled → db.record id = some record

namespace Ages

theorem refl (id : Uuid) (db : Database) : Ages id db db :=
  ⟨.refl _, fun _ h _ => ⟨h, rfl⟩, fun _ h _ => h⟩

theorem trans (h : Ages id db db') (h' : Ages id db' db'') : Ages id db db'' where
  chunks := h'.chunks.trans h.chunks
  writing record hrecord hopen := by
    obtain ⟨hmiddle, hchunks⟩ := h'.writing record hrecord hopen
    obtain ⟨hfirst, hchunks'⟩ := h.writing record hmiddle hopen
    exact ⟨hfirst, hchunks.trans hchunks'⟩
  settled record hrecord hsettled := h.settled record (h'.settled record hrecord hsettled) hsettled

/-- Nothing about the invocation changed. -/
theorem of_same (hrecord : db'.record id = db.record id) (hchunks : db'.chunks id = db.chunks id) :
    Ages id db db' := by
  refine ⟨hchunks ▸ .refl _, fun record h _ => ⟨hrecord ▸ h, hchunks⟩, fun record h _ => hrecord ▸ h⟩

end Ages

/-- The log of an invocation as upkeep leaves it: with a writer it stays as it is. -/
structure Tidy (id : Uuid) (db db' : Database) : Prop extends Ages id db db' where
  untouched : ∀ record, db.record id = some record → record.captureSealedAt = none →
    db'.record id = some record ∧ db'.chunks id = db.chunks id

namespace Tidy

theorem refl (id : Uuid) (db : Database) : Tidy id db db :=
  ⟨.refl id db, fun _ h _ => ⟨h, rfl⟩⟩

theorem trans (h : Tidy id db db') (h' : Tidy id db' db'') : Tidy id db db'' where
  toAges := h.toAges.trans h'.toAges
  untouched record hrecord hopen := by
    obtain ⟨hmiddle, hchunks⟩ := h.untouched record hrecord hopen
    obtain ⟨hlast, hchunks'⟩ := h'.untouched record hmiddle hopen
    exact ⟨hlast, hchunks'.trans hchunks⟩

theorem of_same (hrecord : db'.record id = db.record id) (hchunks : db'.chunks id = db.chunks id) :
    Tidy id db db' :=
  ⟨.of_same hrecord hchunks, fun _ h _ => ⟨hrecord ▸ h, hchunks⟩⟩

end Tidy

/-- There is no open log of the invocation. -/
def Database.Closed (db : Database) (id : Uuid) : Prop :=
  ∀ record, db.record id = some record → record.captureSealedAt ≠ none

theorem Ages.closed (h : Ages id db db') (hclosed : db.Closed id) : db'.Closed id :=
  fun record hrecord hopen => hclosed record (h.writing record hrecord hopen).1 hopen

/-! ## Statements -/

namespace Database

@[simp] theorem record_save (id : Uuid) : (db.save record).record id =
    if id = record.id then (db.record id).map fun _ => record else db.record id := by
  unfold Database.record
  rw [find_save]
  split
  · simp only [Option.map_map]
    rfl
  · rfl

@[simp] theorem record_delete (sequence : Nat) (id' : Uuid) :
    (db.delete id sequence).record id' = db.record id' := rfl

theorem record_begin (h : db.begin record = some db') (id : Uuid) : db'.record id =
    if id = record.id then some record else db.record id := by
  obtain ⟨-, rfl⟩ := begin_eq_some h
  unfold Database.record
  rw [Table.find_put]
  split <;> rfl

theorem chunks_begin (h : db.begin record = some db') : db'.chunks = db.chunks := by
  obtain ⟨-, rfl⟩ := begin_eq_some h
  rfl

@[simp] theorem record_recount (id : Uuid) : db.recount.record id = db.record id := by
  unfold Database.record
  rw [find_recount]
  cases db.invocations.find id <;> rfl

end Database

/-! ## Programs for one invocation -/

/-- A quiet program goes on in the tables it began with, or ends there. -/
theorem quiet_bind {β : Type} {p : Archived α} {f : α → Archived β} {r : Option (Except CoreError β)}
    (h : Executes (p >>= f) db ops r db') (hp : p.Only Quiet) :
    (∃ a first rest, Executes p db first (some (.ok a)) db ∧ Executes (f a) db rest r db') ∨
      (db' = db ∧ ∀ b, r ≠ some (.ok b)) := by
  rcases Runs.of_bind h with ⟨a, db₁, first, rest, hp', h, -⟩ | ⟨r₀, hp', -, rfl⟩
  · cases quiet_executes hp hp'
    exact .inl ⟨a, first, rest, hp', h⟩
  · exact .inr ⟨quiet_executes hp hp', cut_ne_ok r₀⟩

/-- What the answer to an effect was. -/
theorem answered {op : LogEffect} {a : op.Answer}
    (h : Executes (ask op) db ops (some (.ok a)) db') : acts db op a db' := by
  rcases Runs.of_lift h with ⟨-, hr⟩ | ⟨b, hact, hr | hr⟩
  · cases hr
  · cases hr
  · cases hr
    exact hact

theorem load_executes {r : Option (Except CoreError Invocation)} (h : Executes (load id) db ops r db') :
    db' = db ∧ ∀ record, r = some (.ok record) → ∃ stored, db.record id = some stored ∧
      record = { stored with retainedBytes := retained (db.chunks id) } := by
  refine ⟨quiet_executes load_quiet h, ?_⟩
  rintro record rfl
  rcases quiet_bind h (.lift trivial) with ⟨answer, _, _, hfound, h⟩ | ⟨-, hne⟩
  · rcases Runs.of_okOr_bind h with ⟨stored, hstored, h⟩ | ⟨-, -, hr, -⟩
    · rcases quiet_bind h (.lift trivial) with ⟨total, _, _, htotal, h⟩ | ⟨-, hne⟩
      · obtain ⟨-, hr, -⟩ := Runs.of_done h
        cases hr
        exact ⟨stored, (answered hfound).1.symm.trans hstored, by rw [(answered htotal).1]⟩
      · exact absurd rfl (hne _)
    · cases hr
  · exact absurd rfl (hne _)

theorem save_executes {r : Option (Except CoreError Unit)}
    (h : Executes (save record) db ops r db') :
    (db' = db ∧ r ≠ some (.ok ())) ∨ db' = db.save record := by
  rcases Runs.of_ensure_bind h with ⟨-, h⟩ | ⟨-, -, rfl, rfl⟩
  · rcases Runs.of_lift h with ⟨rfl, rfl⟩ | ⟨_, hact, -⟩
    · exact .inl ⟨rfl, by simp⟩
    · exact .inr hact
  · exact .inl ⟨rfl, by simp⟩

theorem removeChunk_executes {row : ChunkRow} {r : Option (Except CoreError Unit)}
    (h : Executes (removeChunk id row) db ops r db') :
    (db' = db ∧ r ≠ some (.ok ())) ∨ db' = db.delete id row.sequence := by
  rcases Runs.of_bind h with ⟨_, db₁, first, rest, hclear, h, -⟩ | ⟨r₀, hclear, hne, rfl⟩
  · cases quiet_executes clearFile_quiet hclear
    rcases Runs.of_lift h with ⟨rfl, rfl⟩ | ⟨_, hact, -⟩
    · exact .inl ⟨rfl, by simp⟩
    · exact .inr hact
  · exact .inl ⟨quiet_executes clearFile_quiet hclear, cut_ne_ok _ _⟩

/-! ## Pruning -/

theorem Tidy.delete (hclosed : db.Closed id) (sequence : Nat) (id' : Uuid) :
    Tidy id' db (db.delete id sequence) := by
  by_cases hid : id' = id
  · subst hid
    refine ⟨⟨?_, fun record hrecord hopen => absurd hopen (hclosed record hrecord),
      fun record hrecord _ => hrecord⟩, fun record hrecord hopen => absurd hopen (hclosed record hrecord)⟩
    rw [Database.chunks_delete, if_pos rfl]
    exact List.filter_sublist
  · exact .of_same rfl (by rw [Database.chunks_delete, if_neg hid])

/-- A record that is written as sealed, and not by its own writer. -/
theorem Ages.save (hsealed : record.captureSealedAt ≠ none) (hsettled : ¬ record.Settled) (id : Uuid) :
    Ages id db (db.save record) := by
  by_cases hid : id = record.id
  · have hsame : ∀ record', (db.save record).record id = some record' → record' = record := by
      intro record' hrecord'
      rw [Database.record_save, if_pos hid] at hrecord'
      obtain ⟨-, -, rfl⟩ := Option.map_eq_some_iff.mp hrecord'
      rfl
    refine ⟨.refl _, fun record' hrecord' hopen => ?_, fun record' hrecord' hsettled' => ?_⟩
    · exact absurd (hsame record' hrecord' ▸ hopen) hsealed
    · exact absurd (hsame record' hrecord' ▸ hsettled') hsettled
  · exact .of_same (by rw [Database.record_save, if_neg hid]) rfl

theorem Tidy.save (hclosed : db.Closed record.id) (hsealed : record.captureSealedAt ≠ none)
    (hsettled : ¬ record.Settled) (id : Uuid) : Tidy id db (db.save record) := by
  by_cases hid : id = record.id
  · refine ⟨Ages.save hsealed hsettled id, fun record' hrecord' hopen => ?_⟩
    subst hid
    exact absurd hopen (hclosed record' hrecord')
  · exact .of_same (by rw [Database.record_save, if_neg hid]) rfl

theorem removeChunks_tidy {r : Option (Except CoreError Unit)} (rows : List ChunkRow)
    (hclosed : db.Closed id) (h : Executes (removeChunks id rows) db ops r db') (id' : Uuid) :
    Tidy id' db db' := by
  induction rows generalizing db ops with
  | nil =>
    obtain ⟨-, -, rfl⟩ := Runs.of_done h
    exact .refl _ _
  | cons row rows ih =>
    have hfirst : ∀ {ops r db₁}, Executes (removeChunk id row) db ops r db₁ →
        ∀ id', Tidy id' db db₁ := by
      intro ops r db₁ hremoved id'
      rcases removeChunk_executes hremoved with ⟨rfl, -⟩ | rfl
      · exact .refl _ _
      · exact .delete hclosed _ id'
    rcases Runs.of_bind h with ⟨_, db₁, first, rest, hremoved, h, -⟩ | ⟨r₀, hremoved, -, -⟩
    · exact (hfirst hremoved id').trans (ih ((hfirst hremoved id).closed hclosed) h)
    · exact hfirst hremoved id'

theorem pruneRows_tidy {cutoff : Int} {incoming : Nat} {r : Option (Except CoreError Unit)}
    (rows : List (Uuid × Int)) (used : Nat) (hdb : db.WellFormed C)
    (hclosed : ∀ e ∈ rows, db.Closed e.1)
    (h : Executes (pruneRows C cutoff incoming rows used) db ops r db') (id' : Uuid) :
    Tidy id' db db' := by
  induction rows generalizing db ops used with
  | nil =>
    obtain ⟨-, -, rfl⟩ := Runs.of_done h
    exact .refl _ _
  | cons row rows ih =>
    obtain ⟨id, sealedAt⟩ := row
    have hid : db.Closed id := hclosed _ List.mem_cons_self
    have hrest : ∀ e ∈ rows, db.Closed e.1 := fun e he => hclosed e (List.mem_cons_of_mem _ he)
    unfold pruneRows at h
    split at h
    · exact ih _ hdb hrest h
    · rcases quiet_bind h load_quiet with ⟨record, _, _, hload, h⟩ | ⟨rfl, -⟩
      · obtain ⟨stored, hstored, rfl⟩ := (load_executes hload).2 _ rfl
        have hsealed : stored.captureSealedAt ≠ none := hid stored hstored
        have hname : stored.id = id := by
          obtain ⟨row, hrow, rfl⟩ := Option.map_eq_some_iff.mp hstored
          exact (hdb.named id row hrow).1
        rcases quiet_bind h (.lift trivial) with ⟨chunks, _, _, -, h⟩ | ⟨rfl, -⟩
        · rcases Runs.of_bind h with ⟨_, db₁, _, _, hremoved, h, -⟩ | ⟨r₀, hremoved, -, -⟩
          · have htidy := removeChunks_tidy _ hid hremoved
            have hdb₁ := plain_executes (removeChunks_plain _) hremoved hdb
            rcases quiet_bind h (.lift trivial) with ⟨used, _, _, -, h⟩ | ⟨rfl, -⟩
            · have hsaved : ∀ {ops r db₂ reason}, Executes (save (expire
                  { stored with retainedBytes := retained (db.chunks id) } reason)) db₁ ops r db₂ →
                  ∀ id', Tidy id' db₁ db₂ := by
                intro ops r db₂ reason hsave id'
                rcases save_executes hsave with ⟨rfl, -⟩ | rfl
                · exact .refl _ _
                · refine .save ?_ ?_ (fun hsettled => ?_) id'
                  · show db₁.Closed stored.id
                    rw [hname]
                    exact (htidy id).closed hid
                  · exact hsealed
                  · rcases hsettled.status with hstatus | ⟨hstatus, -⟩ <;> cases hstatus
              rcases Runs.of_bind h with ⟨_, db₂, _, _, hsave, h, -⟩ | ⟨r₀, hsave, -, -⟩
              · have htidy' := fun id => (htidy id).trans (hsaved hsave id)
                refine (htidy' id').trans (ih _ (plain_executes save_plain hsave hdb₁) ?_ h)
                exact fun e he => (htidy' e.1).closed (hrest e he)
              · exact (htidy id').trans (hsaved hsave id')
            · exact htidy id'
          · exact removeChunks_tidy _ hid hremoved id'
        · exact .refl _ _
      · exact .refl _ _

theorem closed_of_expirable (hdb : db.WellFormed C) {e : Uuid × Int} (he : e ∈ db.expirable) :
    db.Closed e.1 := by
  obtain ⟨entry, hentry, hsealed⟩ :=
    List.mem_filterMap.mp ((List.mem_insertionSort _).mp he)
  obtain ⟨sealedAt, hat, rfl⟩ := Option.map_eq_some_iff.mp hsealed
  have hrow := Table.mem_rows.mp (List.mem_filter.mp hentry).1
  intro record hrecord hopen
  unfold Database.record at hrecord
  rw [hrow] at hrecord
  cases hrecord
  rw [(hdb.named _ _ hrow).2, hopen] at hat
  cases hat

theorem pruneLocked_tidy {incoming : Nat} {r : Option (Except CoreError Unit)}
    (hdb : db.WellFormed C) (h : Executes (pruneLocked C incoming) db ops r db') (id : Uuid) :
    Tidy id db db' := by
  rcases quiet_bind h (.lift trivial) with ⟨now, _, _, -, h⟩ | ⟨rfl, -⟩
  · rcases quiet_bind h (.lift trivial) with ⟨rows, _, _, hrows, h⟩ | ⟨rfl, -⟩
    · rcases quiet_bind h (.lift trivial) with ⟨used, _, _, -, h⟩ | ⟨rfl, -⟩
      · have hclosed : ∀ e ∈ rows, db.Closed e.1 := by
          rw [(answered hrows).1]
          exact fun e he => closed_of_expirable hdb he
        exact pruneRows_tidy _ _ hdb hclosed h id
      · exact .refl _ _
    · exact .refl _ _
  · exact .refl _ _

/-- Only invocations that are sealed and retain nothing are forgotten. -/
theorem Tidy.deleteMetadata (hdb : db.WellFormed C) {cutoff : Int}
    (h : acts db (.deleteMetadata cutoff) () db') (id : Uuid) : Tidy id db db' := by
  obtain ⟨hchunks, hrows⟩ := h
  have hrecord : ∀ record, db'.record id = some record → db.record id = some record := by
    intro record hrecord
    unfold Database.record at hrecord ⊢
    rcases hrows id with hsame | ⟨hnone, -⟩
    · rwa [← hsame]
    · rw [hnone] at hrecord
      cases hrecord
  refine ⟨⟨by rw [hchunks], fun record h _ => ⟨hrecord record h, by rw [hchunks]⟩,
    fun record h _ => hrecord record h⟩, fun record h hopen => ⟨?_, by rw [hchunks]⟩⟩
  obtain ⟨row, hrow, rfl⟩ := Option.map_eq_some_iff.mp h
  unfold Database.record
  rcases hrows id with hsame | ⟨-, row', hrow', hsealed, -⟩
  · rw [hsame, hrow]
    rfl
  · cases hrow.symm.trans hrow'
    rw [(hdb.named id row hrow).2, hopen] at hsealed
    cases hsealed

theorem maintenance_tidy {r : Option (Except CoreError Unit)} (hdb : db.WellFormed C)
    (h : Executes (maintenance C) db ops r db') (id : Uuid) : Tidy id db db' := by
  rcases quiet_bind h reapOrphans_quiet with ⟨_, _, _, -, h⟩ | ⟨rfl, -⟩
  · rcases quiet_bind h (.lift trivial) with ⟨used, _, _, -, h⟩ | ⟨rfl, -⟩
    · rcases quiet_bind h (.lift trivial) with ⟨_, _, _, -, h⟩ | ⟨rfl, -⟩
      · rcases Runs.of_bind h with ⟨_, db₁, _, _, hprune, h, -⟩ | ⟨r₀, hprune, -, -⟩
        · refine (pruneLocked_tidy hdb hprune id).trans ?_
          have hdb₁ := plain_executes pruneLocked_plain hprune hdb
          rcases quiet_bind h (.lift trivial) with ⟨now, _, _, -, h⟩ | ⟨rfl, -⟩
          · rcases Runs.of_lift h with ⟨rfl, -⟩ | ⟨_, hact, -⟩
            · exact .refl _ _
            · exact .deleteMetadata hdb₁ hact id
          · exact .refl _ _
        · exact pruneLocked_tidy hdb hprune id
      · exact .refl _ _
    · exact .refl _ _
  · exact .refl _ _

/-! ## Recovery -/

theorem sealInterrupted_ages {r : Option (Except CoreError Unit)} (records : List Invocation)
    (h : Executes (sealInterrupted records) db ops r db') (id : Uuid) : Ages id db db' := by
  induction records generalizing db ops with
  | nil =>
    obtain ⟨-, -, rfl⟩ := Runs.of_done h
    exact .refl id _
  | cons record records ih =>
    rcases quiet_bind h load_quiet with ⟨loaded, _, _, -, h⟩ | ⟨rfl, -⟩
    · rcases quiet_bind h (.lift trivial) with ⟨now, _, _, -, h⟩ | ⟨rfl, -⟩
      · have hsaved : ∀ {ops r db₁}, Executes (save (interrupt
            { record with retainedBytes := loaded.retainedBytes } now)) db ops r db₁ →
            Ages id db db₁ := by
          intro ops r db₁ hsave
          rcases save_executes hsave with ⟨rfl, -⟩ | rfl
          · exact .refl id _
          · refine .save (by simp [interrupt]) (fun hsettled => ?_) id
            rcases hsettled.status with hstatus | ⟨-, hreason⟩
            · cases hstatus
            · exact hreason rfl
        rcases Runs.of_bind h with ⟨_, db₁, _, _, hsave, h, -⟩ | ⟨r₀, hsave, -, -⟩
        · exact (hsaved hsave).trans (ih h)
        · exact hsaved hsave
      · exact .refl id _
    · exact .refl id _

theorem recover_ages {r : Option (Except CoreError Unit)} (hdb : db.WellFormed C)
    (h : Executes (recover C) db ops r db') (id : Uuid) : Ages id db db' := by
  have hrecount : ∀ id, Ages id db db.recount := fun id => .of_same (db.record_recount id) rfl
  rcases Runs.of_lift_bind h with ⟨_, db₁, rest, hact, h, -⟩ | ⟨-, hcut⟩
  · cases (show db₁ = db.recount from hact)
    refine (hrecount id).trans ?_
    have hdb₁ := hdb.recount
    rcases quiet_bind h (.lift trivial) with ⟨records, _, _, -, h⟩ | ⟨rfl, -⟩
    · rcases Runs.of_bind h with ⟨_, db₁, _, _, hsealed, h, -⟩ | ⟨r₀, hsealed, -, -⟩
      · refine (sealInterrupted_ages _ hsealed id).trans ?_
        have hdb₂ := plain_executes (sealInterrupted_plain _) hsealed hdb₁
        rcases quiet_bind h reapOrphans_quiet with ⟨_, _, _, -, h⟩ | ⟨rfl, -⟩
        · rcases quiet_bind h (.lift trivial) with ⟨used, _, _, -, h⟩ | ⟨rfl, -⟩
          · rcases quiet_bind h (.lift trivial) with ⟨_, _, _, -, h⟩ | ⟨rfl, -⟩
            · exact (pruneLocked_tidy hdb₂ h id).toAges
            · exact .refl id _
          · exact .refl id _
        · exact .refl id _
      · exact sealInterrupted_ages _ hsealed id
    · exact .refl id _
  · rcases hcut with ⟨-, rfl⟩ | ⟨_, -, hact⟩
    · exact .refl id _
    · cases (show db' = db.recount from hact)
      exact hrecount id

end Shaula.OperationLogs
