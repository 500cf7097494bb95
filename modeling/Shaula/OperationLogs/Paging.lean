import Mathlib
import Shaula.OperationLogs.Writes
import Shaula.Library.Keyset

/-! # Pages of a log

Pages of one log are read between writes to it, evictions and upkeep.  Each read starts where the
cursor of the page before says.
-/

namespace Shaula.OperationLogs

open Shaula.Core Library Library.Program

section Pages

variable {C : LogConfig} {sha256 : ByteArray → String} {codec : CursorCodec}
  {db db' : Database} {ops : List LogEffect} {id : Uuid} {query : LogQuery} {limit : Nat}

/-! ## Reading the rows of a page -/

/-- The entry carries the row's columns, and a text with the row's digest. -/
structure LogEntry.IsOf (sha256 : ByteArray → String) (entry : LogEntry) (row : ChunkRow) : Prop where
  columns : entry = .of row entry.text
  digest : sha256 entry.text.toUTF8 = row.digest

theorem LogEntry.IsOf.sequence {entry : LogEntry} {row : ChunkRow} (h : entry.IsOf sha256 row) :
    entry.sequence = row.sequence := by
  rw [h.columns]
  rfl

theorem chunkOf_isOf {row : ChunkRow} {bytes : ByteArray} {text : String}
    (h : chunkOf sha256 row bytes = .ok text) : (LogEntry.of row text).IsOf sha256 row := by
  unfold chunkOf at h
  split at h
  · cases h
  · next hdigest =>
    split at h
    · next text' htext =>
      cases h
      refine ⟨rfl, ?_⟩
      unfold String.fromUTF8? at htext
      split at htext
      · cases htext
        exact not_not.mp hdigest
      · cases htext
    · cases h

theorem chunkText_yields {row : ChunkRow} : (chunkText sha256 id row).Yields fun text =>
    ∀ t, text = .ok t → (LogEntry.of row t).IsOf sha256 row := by
  refine .bind fun opened => ?_
  cases opened with
  | error => exact fun t h => by cases h
  | ok =>
    refine .bind fun stat => ?_
    cases stat with
    | file length =>
      dsimp only
      split
      · exact fun t h => by cases h
      · refine .bind fun bytes => ?_
        cases bytes with
        | none => exact fun t h => by cases h
        | some bytes => exact fun t h => chunkOf_isOf h
    | _ => exact fun t h => by cases h

/-- The entries of the rows that come after a position, up to another one or to the end. -/
structure Collects (sha256 : ByteArray → String) (query : LogQuery) (rows : List ChunkRow)
    (after : Int) (entries : List LogEntry) (upTo : Int) (more : Bool) : Prop where
  le : after ≤ upTo
  ascending : entries.Pairwise (·.sequence < ·.sequence)
  behind : ∀ entry ∈ entries, after < entry.sequence ∧ (entry.sequence : Int) ≤ upTo
  sound : ∀ entry ∈ entries, ∃ row ∈ rows, entry.IsOf sha256 row ∧ query.selects row = true
  all : ∀ row ∈ rows, query.selects row = true → after < row.sequence →
    (row.sequence : Int) ≤ upTo ∨ more = false → ∃ entry ∈ entries, entry.IsOf sha256 row

namespace Collects

variable {rows : List ChunkRow} {row : ChunkRow} {after upTo : Int} {entries : List LogEntry}
  {more : Bool}

/-- A row that does not count. -/
theorem skip (h : Collects sha256 query rows after entries upTo more)
    (hrow : (row.sequence : Int) ≤ after ∨ query.selects row = false) :
    Collects sha256 query (row :: rows) after entries upTo more where
  le := h.le
  ascending := h.ascending
  behind := h.behind
  sound entry hentry := by
    obtain ⟨row', hrow', hof⟩ := h.sound entry hentry
    exact ⟨row', List.mem_cons_of_mem _ hrow', hof⟩
  all row' hrow' hselects hafter hwithin := by
    rcases List.mem_cons.mp hrow' with rfl | hrest
    · rcases hrow with hle | hselects'
      · omega
      · rw [hselects] at hselects'
        cases hselects'
    · exact h.all row' hrest hselects hafter hwithin

/-- A row that is read. -/
theorem read {text : String} (hascending : (row :: rows).Pairwise (·.sequence < ·.sequence))
    (hof : (LogEntry.of row text).IsOf sha256 row) (hselects : query.selects row = true)
    (hafter : after < row.sequence)
    (h : Collects sha256 query rows row.sequence entries upTo more) :
    Collects sha256 query (row :: rows) after (.of row text :: entries) upTo more where
  le := hafter.le.trans h.le
  ascending := List.pairwise_cons.mpr
    ⟨fun entry hentry => Int.ofNat_lt.mp (h.behind entry hentry).1, h.ascending⟩
  behind entry hentry := by
    rcases List.mem_cons.mp hentry with rfl | hrest
    · exact ⟨hafter, h.le⟩
    · exact ⟨hafter.trans (h.behind entry hrest).1, (h.behind entry hrest).2⟩
  sound entry hentry := by
    rcases List.mem_cons.mp hentry with rfl | hrest
    · exact ⟨row, List.mem_cons_self, hof, hselects⟩
    · obtain ⟨row', hrow', hof'⟩ := h.sound entry hrest
      exact ⟨row', List.mem_cons_of_mem _ hrow', hof'⟩
  all row' hrow' hselects' hafter' hwithin := by
    rcases List.mem_cons.mp hrow' with rfl | hrest
    · exact ⟨_, List.mem_cons_self, hof⟩
    · have hlater := (List.pairwise_cons.mp hascending).1 row' hrest
      obtain ⟨entry, hentry, hof'⟩ :=
        h.all row' hrest hselects' (Int.ofNat_lt.mpr hlater) hwithin
      exact ⟨entry, List.mem_cons_of_mem _ hentry, hof'⟩

end Collects

/-- What was collected of some rows behind what had been read before: the first row that counts is
always read. -/
theorem collect_executes {collected : Collected} (rows : List ChunkRow) (after : Int) (used : Nat)
    (before : List LogEntry) (hascending : rows.Pairwise (·.sequence < ·.sequence))
    (hbounded : ∀ row ∈ rows, row.bytes ≤ limit)
    (h : Executes (collect sha256 id query limit rows after used before) db ops
      (some (.ok collected)) db') :
    collected = .unreadable ∨ ∃ entries upTo more,
      collected = .entries (before ++ entries) upTo more ∧
      Collects sha256 query rows after entries upTo more ∧
      (used = 0 → more = true → entries ≠ []) := by
  induction rows generalizing after used before db ops with
  | nil =>
    obtain ⟨-, hr, -⟩ := Runs.of_done h
    cases hr
    exact .inr ⟨[], after, false, by rw [List.append_nil],
      ⟨le_refl _, .nil, by simp, by simp, by simp⟩, by simp⟩
  | cons row rows ih =>
    have hrows : rows.Pairwise (·.sequence < ·.sequence) := (List.pairwise_cons.mp hascending).2
    have hrest : ∀ row' ∈ rows, row'.bytes ≤ limit := fun row' hrow' =>
      hbounded row' (List.mem_cons_of_mem _ hrow')
    unfold collect at h
    split at h
    · next hle =>
      rcases ih _ _ _ hrows hrest h with hunreadable | ⟨entries, upTo, more, hc, hcollects, hfirst⟩
      · exact .inl hunreadable
      · exact .inr ⟨entries, upTo, more, hc, hcollects.skip (.inl hle), hfirst⟩
    · next hafter =>
      split at h
      · next hselects =>
        rcases ih _ _ _ hrows hrest h with hunreadable | ⟨entries, upTo, more, hc, hcollects, hfirst⟩
        · exact .inl hunreadable
        · exact .inr ⟨entries, upTo, more, hc, hcollects.skip (.inr hselects), hfirst⟩
      · next hselects =>
        have hselects' : query.selects row = true := by simpa using hselects
        split at h
        · next hfull =>
          obtain ⟨-, hr, -⟩ := Runs.of_done h
          cases hr
          refine .inr ⟨[], after, true, by rw [List.append_nil],
            ⟨le_refl _, .nil, by simp, by simp, fun row' hrow' _ hbehind hwithin => ?_⟩, fun hused => ?_⟩
          · rcases hwithin with hwithin | hwithin
            · omega
            · cases hwithin
          · have := hbounded row List.mem_cons_self
            omega
        · rcases quiet_bind h chunkText_quiet with ⟨text, _, _, htext, h⟩ | ⟨-, hne⟩
          · cases text with
            | error e =>
              obtain ⟨-, hr, -⟩ := Runs.of_done h
              cases hr
              exact .inl rfl
            | ok text =>
              have hof := htext.yields chunkText_yields text rfl
              rcases ih _ _ _ hrows hrest h with hunreadable | ⟨entries, upTo, more, hc, hcollects, -⟩
              · exact .inl hunreadable
              · refine .inr ⟨.of row text :: entries, upTo, more, ?_,
                  .read hascending hof hselects' (by omega) hcollects, fun _ _ => by simp⟩
                rw [hc, List.append_assoc]
                rfl
          · exact absurd rfl (hne _)

/-! ## Pages -/

/-- The page shows what could be read of a log that is there to be read. -/
def LogPage.Readable (page : LogPage) : Prop :=
  page.captureStatus ∉ [CaptureStatus.expired, .unavailable, .withheld]

/-- A page of the rows behind a position. -/
structure PageFrom (sha256 : ByteArray → String) (codec : CursorCodec) (db : Database) (id : Uuid)
    (query : LogQuery) (page : LogPage) (record : Invocation) (after upTo : Int) (more : Bool) :
    Prop where
  readable : page.Readable
  collects : Collects sha256 query (db.chunks id) after page.entries upTo more
  first : more = true → page.entries ≠ []
  cursor : page.nextCursor = if more = true ∨ record.captureSealedAt = none then
    some (codec.encode ⟨id, record.contentVersion, query.phase, query.stream, upTo⟩) else none

/-- A page that shows nothing, and is the last. -/
structure Blank (page : LogPage) : Prop where
  readable : ¬ page.Readable
  entries : page.entries = []
  cursor : page.nextCursor = none

theorem readPage_executes {page : LogPage} (hdb : db.WellFormed C)
    (h : Executes (readPage sha256 codec id query) db ops (some (.ok page)) db') :
    ∃ record after, db.record id = some record ∧ page.contentVersion = record.contentVersion ∧
      position codec id query record = .ok after ∧ (Blank page ∨ ∃ upTo more, PageFrom sha256 codec db id query page record after upTo more) := by
  rcases Runs.of_ensure_bind h with ⟨-, h⟩ | ⟨-, -, hr, -⟩
  · rcases Runs.of_ensure_bind h with ⟨hlimit, h⟩ | ⟨-, -, hr, -⟩
    · rcases quiet_bind h load_quiet with ⟨record, _, _, hload, h⟩ | ⟨-, hne⟩
      · obtain ⟨stored, hstored, rfl⟩ := (load_executes hload).2 _ rfl
        rcases quiet_bind h only_ofExcept with ⟨after, _, _, hafter, h⟩ | ⟨-, hne⟩
        · have hposition : position codec id query stored = .ok after := by
            change Executes (ofExcept (position codec id query stored)) _ _ _ _ at hafter
            cases hp : position codec id query stored with
            | error e =>
              rw [hp] at hafter
              cases (Runs.of_fail hafter).2.1
            | ok after' =>
              rw [hp] at hafter
              cases (Runs.of_done hafter).2.1
              rfl
          split at h
          · obtain ⟨-, hr, -⟩ := Runs.of_done h
            cases hr
            refine ⟨stored, after, hstored, rfl, hposition, ?_⟩
            exact .inl ⟨by simp [LogPage.Readable], rfl, rfl⟩
          · split at h
            · next hstatus =>
              obtain ⟨-, hr, -⟩ := Runs.of_done h
              cases hr
              refine ⟨stored, after, hstored, rfl, hposition, ?_⟩
              exact .inl ⟨not_not.mpr hstatus, rfl, rfl⟩
            · next hstatus =>
              rcases quiet_bind h (.lift trivial) with ⟨rows, _, _, hrows, h⟩ | ⟨-, hne⟩
              · rw [(answered hrows).1] at h
                rcases quiet_bind h (collect_quiet ..) with ⟨collected, _, _, hcollected, h⟩ | ⟨-, hne⟩
                · obtain ⟨-, hr, -⟩ := Runs.of_done h
                  cases hr
                  have hbounded : ∀ row ∈ db.chunks id, row.bytes ≤ query.limitBytes.getD (256 * 1024) :=
                    fun row hrow => (hdb.bounded id row hrow).trans hlimit.1
                  rcases collect_executes _ _ _ _ (hdb.ascending id) hbounded hcollected with
                    rfl | ⟨entries, upTo, more, rfl, hcollects, hfirst⟩
                  · refine ⟨stored, after, hstored, rfl, hposition, ?_⟩
                    exact .inl ⟨by simp [pageOf, LogPage.Readable], rfl, rfl⟩
                  · refine ⟨stored, after, hstored, rfl, hposition, ?_⟩
                    exact .inr ⟨upTo, more, hstatus, hcollects, hfirst rfl, rfl⟩
                · exact absurd rfl (hne _)
              · exact absurd rfl (hne _)
        · exact absurd rfl (hne _)
      · exact absurd rfl (hne _)
    · cases hr
  · cases hr

/-! ## Pages that follow each other -/

/-- A page, with the query it answers and the tables it was read from. -/
structure PageRead where
  db : Database
  id : Uuid
  query : LogQuery
  page : LogPage

/-- The pages that a run of calls read. -/
def pageReads (trace : List (Database × ArchiveEvent × Database)) : List PageRead :=
  trace.filterMap fun step => match step.2.1 with
    | (.readPage id query, some (.ok (.page page))) => some ⟨step.1, id, query, page⟩
    | _ => none

/-- A read that goes on where another one ended. -/
def Follows (read next : PageRead) : Prop :=
  ∃ cursor, read.page.nextCursor = some cursor ∧ next.query.cursor = some cursor

/-- Reads that begin with the first page and follow each other's cursors. -/
structure Chained (reads : List PageRead) : Prop where
  first : ∀ read ∈ reads.head?, read.query.cursor = none
  follows : reads.IsChain Follows

/-- The page is one of the log's, from a position that its query's cursor tells. -/
def PageRead.Sound (C : LogConfig) (sha256 : ByteArray → String) (codec : CursorCodec)
    (read : PageRead) : Prop :=
  read.db.WellFormed C ∧ ∃ record after, read.db.record read.id = some record ∧
    read.page.contentVersion = record.contentVersion ∧
    position codec read.id read.query record = .ok after ∧ (Blank read.page ∨ ∃ upTo more,
      PageFrom sha256 codec read.db read.id read.query read.page record after upTo more)

theorem sound_of_run {trace : List (Database × ArchiveEvent × Database)}
    (hlimit : 128 * 1024 ≤ C.invocationBytes) (hdb : db.WellFormed C)
    (h : Run (Serves C sha256 codec) db trace db') :
    ∀ read ∈ pageReads trace, read.Sound C sha256 codec := by
  intro read hread
  obtain ⟨step, hstep, hpage⟩ := List.mem_filterMap.mp hread
  have hserves := h.forall_mem (I := fun db => db.WellFormed C)
    (Q := fun db event db' => db.WellFormed C ∧ Serves C sha256 codec db event db')
    (fun _ _ _ hdb hserves => hserves.wellFormed hlimit hdb) (fun _ _ _ hdb hserves => ⟨hdb, hserves⟩)
    hdb step hstep
  obtain ⟨before, ⟨call, reply⟩, after⟩ := step
  obtain ⟨hbefore, ops, hexecutes⟩ := hserves
  split at hpage
  · next id query page hevent =>
    cases hpage
    obtain ⟨rfl, rfl⟩ := Prod.mk.inj hevent
    obtain ⟨r₀, hexecutes, hr⟩ := Runs.of_map hexecutes
    rcases r₀ with - | e | page'
    · cases hr
    · cases hr
    · cases hr
      exact ⟨hbefore, readPage_executes hbefore hexecutes⟩
  · cases hpage

/-! ## Where a cursor leads -/

theorem position_of_none {record : Invocation} {after : Int} (hcursor : query.cursor = none)
    (h : position codec id query record = .ok after) : after = -1 := by
  unfold position at h
  rw [hcursor] at h
  cases h
  rfl

/-- A cursor is good for the log, the version and the filter it was given out for. -/
theorem position_of_cursor {record : Invocation} {after : Int} {cursor : Cursor}
    (hcursor : query.cursor = some (codec.encode cursor))
    (h : position codec id query record = .ok after) : cursor.id = id ∧
      cursor.version = record.contentVersion ∧ cursor.phase = query.phase ∧
      cursor.stream = query.stream ∧ after = cursor.after := by
  unfold position at h
  rw [hcursor] at h
  dsimp only at h
  split at h
  · cases h
  · rw [codec.decode_encode] at h
    dsimp only at h
    split at h
    · cases h
    · next hmatches =>
      simp only [not_or, not_not] at hmatches
      cases h
      exact ⟨hmatches.1, hmatches.2.1, hmatches.2.2.1, hmatches.2.2.2.1, rfl⟩

/-- The log, its version and the filter that a page is of. -/
def PageRead.source (read : PageRead) : Uuid × Uuid × Option String × Option String :=
  (read.id, read.page.contentVersion, read.query.phase, read.query.stream)

/-- The page starts behind `after`. -/
def PageRead.From (codec : CursorCodec) (read : PageRead) (after : Int) : Prop :=
  ∃ record, read.db.record read.id = some record ∧ position codec read.id read.query record = .ok after

/-- A read that goes on begins where the rows of the page before it end, in the same log. -/
theorem Follows.next {read next : PageRead} {after : Int} (h : Follows read next)
    (hread : read.Sound C sha256 codec) (hnext : next.Sound C sha256 codec)
    (hafter : read.From codec after) :
    next.source = read.source ∧ ∃ record upTo more, next.From codec upTo ∧
      PageFrom sha256 codec read.db read.id read.query read.page record after upTo more := by
  obtain ⟨cursor, hcursor, hnextCursor⟩ := h
  obtain ⟨-, record, after', hrecord, hversion, hposition, hblank | ⟨upTo, more, hpage⟩⟩ := hread
  · rw [hblank.cursor] at hcursor
    cases hcursor
  · obtain ⟨record', hrecord', hposition'⟩ := hafter
    cases hrecord.symm.trans hrecord'
    cases hposition.symm.trans hposition'
    have hissued := hpage.cursor
    rw [hcursor] at hissued
    split at hissued
    · cases hissued
      obtain ⟨-, recordNext, afterNext, hrecordNext, hversionNext, hpositionNext, -⟩ := hnext
      obtain ⟨hid, hsame, hphase, hstream, hupTo⟩ := position_of_cursor hnextCursor hpositionNext
      refine ⟨?_, record, upTo, more, ⟨recordNext, hrecordNext, ?_⟩, hpage⟩
      · simp only [PageRead.source, Prod.mk.injEq]
        exact ⟨hid.symm, by rw [hversionNext, hversion, ← hsame], hphase.symm, hstream.symm⟩
      · rw [hpositionNext, hupTo]
    · cases hissued

/-! ## A sequence of pages -/

/-- Keys go down where sequence numbers go up. -/
def key (sequence : Nat) : Intᵒᵈ := OrderDual.toDual (sequence : Int)

def PageRead.keys (read : PageRead) : List Intᵒᵈ := read.page.entries.map fun entry => key entry.sequence

section Covers

variable {rows : List ChunkRow} {after upTo : Int} {entries : List LogEntry} {more : Bool}
  {stays : Intᵒᵈ → Prop}

theorem Collects.covers {last : Option Intᵒᵈ} (h : Collects sha256 query rows after entries upTo more)
    (hstays : ∀ k, stays k → ∃ row ∈ rows, query.selects row = true ∧ key row.sequence = k)
    (hlast : last = some (OrderDual.toDual upTo) ∨ last = none ∧ more = false) :
    Covers stays (some (OrderDual.toDual after)) last (entries.map fun entry => key entry.sequence) where
  sorted := List.pairwise_map.mpr (h.ascending.imp fun hlt => Int.ofNat_lt.mpr hlt)
  behind k hk c hc := by
    cases hc
    obtain ⟨entry, hentry, rfl⟩ := List.mem_map.mp hk
    exact (h.behind entry hentry).1
  within k hk c hc := by
    obtain ⟨entry, hentry, rfl⟩ := List.mem_map.mp hk
    rcases hlast with rfl | ⟨rfl, -⟩
    · cases hc
      exact (h.behind entry hentry).2
    · cases hc
  complete k hk hbehind hwithin := by
    obtain ⟨row, hrow, hselects, rfl⟩ := hstays k hk
    have hafter : after < row.sequence := hbehind _ rfl
    have hreach : (row.sequence : Int) ≤ upTo ∨ more = false := by
      rcases hlast with rfl | ⟨-, hend⟩
      · exact .inl (hwithin _ rfl)
      · exact .inr hend
    obtain ⟨entry, hentry, hof⟩ := h.all row hrow hselects hafter hreach
    exact List.mem_map.mpr ⟨entry, hentry, by rw [hof.sequence]⟩

end Covers

theorem eq_of_sequence {rows : List ChunkRow} {row row' : ChunkRow}
    (hascending : rows.Pairwise (·.sequence < ·.sequence)) (hrow : row ∈ rows) (hrow' : row' ∈ rows)
    (h : row.sequence = row'.sequence) : row = row' := by
  by_contra hne
  have hdistinct : rows.Pairwise (·.sequence ≠ ·.sequence) := hascending.imp Nat.ne_of_lt
  have : Std.Symm fun row row' : ChunkRow => row.sequence ≠ row'.sequence :=
    ⟨fun _ _ hne => Ne.symm hne⟩
  exact hdistinct.forall hrow hrow' hne h

theorem source_of_chain (reads : List PageRead) (read : PageRead) (after : Int)
    (hsound : ∀ r ∈ read :: reads, r.Sound C sha256 codec)
    (hchain : (read :: reads).IsChain Follows) (hafter : read.From codec after) :
    ∀ r ∈ read :: reads, r.source = read.source := by
  induction reads generalizing read after with
  | nil =>
    intro r hr
    rw [List.mem_singleton.mp hr]
  | cons next reads ih =>
    obtain ⟨hfollows, hrest⟩ := List.isChain_cons_cons.mp hchain
    have hsound' : ∀ r ∈ next :: reads, r.Sound C sha256 codec := fun r hr =>
      hsound r (List.mem_cons_of_mem _ hr)
    obtain ⟨hsource, record, upTo, more, hnext, -⟩ := hfollows.next (hsound read List.mem_cons_self)
      (hsound' next List.mem_cons_self) hafter
    intro r hr
    rcases List.mem_cons.mp hr with rfl | hr
    · rfl
    · exact (ih next upTo hsound' hrest hnext r hr).trans hsource

/-- Chained pages sweep the log; where the last of them is readable and gives no cursor, they sweep
it to its end. -/
theorem sweep {stays : Intᵒᵈ → Prop} (reads : List PageRead) (read : PageRead) (after : Int)
    (hsound : ∀ r ∈ read :: reads, r.Sound C sha256 codec)
    (hchain : (read :: reads).IsChain Follows)
    (hstays : ∀ r ∈ read :: reads, ∀ k, stays k → ∃ row ∈ r.db.chunks r.id,
      r.query.selects row = true ∧ key row.sequence = k)
    (hafter : read.From codec after) :
    ∃ last, Sweep stays (some (OrderDual.toDual after)) ((read :: reads).map PageRead.keys) last ∧
      Within last (OrderDual.toDual after) ∧ ∀ r ∈ (read :: reads).getLast?,
        r.page.Readable → r.page.nextCursor = none → last = none := by
  induction reads generalizing read after with
  | nil =>
    obtain ⟨-, record, after', hrecord, -, hposition, hblank | ⟨upTo, more, hpage⟩⟩ :=
      hsound read List.mem_cons_self
    · refine ⟨some (OrderDual.toDual after), .last ?_, ?_, ?_⟩
      · unfold PageRead.keys
        rw [hblank.entries]
        exact .nil
      · intro c hc
        cases hc
        exact le_refl _
      · intro r hr hreadable
        have hread : read = r := by simpa using hr
        subst hread
        exact absurd hreadable hblank.readable
    · obtain ⟨record', hrecord', hposition'⟩ := hafter
      cases hrecord.symm.trans hrecord'
      cases hposition.symm.trans hposition'
      have hrows := hstays read List.mem_cons_self
      cases more with
      | false =>
        exact ⟨none, .last (hpage.collects.covers hrows (.inr ⟨rfl, rfl⟩)), (fun c hc => by cases hc),
          fun _ _ _ _ => rfl⟩
      | true =>
        refine ⟨some (OrderDual.toDual upTo), .last (hpage.collects.covers hrows (.inl rfl)), ?_, ?_⟩
        · intro c hc
          cases hc
          exact hpage.collects.le
        · intro r hr _ hnone
          have hread : read = r := by simpa using hr
          subst hread
          have hcursor := hpage.cursor
          rw [hnone, if_pos (.inl rfl)] at hcursor
          cases hcursor
  | cons next reads ih =>
    obtain ⟨hfollows, hrest⟩ := List.isChain_cons_cons.mp hchain
    have hsound' : ∀ r ∈ next :: reads, r.Sound C sha256 codec := fun r hr =>
      hsound r (List.mem_cons_of_mem _ hr)
    obtain ⟨-, record, upTo, more, hnext, hpage⟩ := hfollows.next (hsound read List.mem_cons_self)
      (hsound' next List.mem_cons_self) hafter
    obtain ⟨last, hsweep, hwithin, hend⟩ := ih next upTo hsound' hrest
      (fun r hr => hstays r (List.mem_cons_of_mem _ hr)) hnext
    have hle : OrderDual.toDual upTo ≤ OrderDual.toDual after := hpage.collects.le
    refine ⟨last, .page (fun c hc => by cases hc; exact hle) hwithin
      (hpage.collects.covers (hstays read List.mem_cons_self) (.inl rfl)) hsweep,
      fun c hc => (hwithin c hc).trans hle, ?_⟩
    rwa [List.getLast?_cons_cons]

/-! ## Paging through a log -/

/-- What chained pages show, of whatever log they are. -/
structure PagesCover (sha256 : ByteArray → String) (reads : List PageRead) : Prop where
  /-- One log in one version, under one filter. -/
  source : ∀ read ∈ reads, ∀ read' ∈ reads, read.source = read'.source
  /-- No chunk twice, and all in order. -/
  ascending : (reads.flatMap (·.page.entries)).Pairwise (·.sequence < ·.sequence)
  /-- Only chunks that are kept and pass the filter, each with its own text. -/
  sound : ∀ read ∈ reads, ∀ entry ∈ read.page.entries, ∃ row ∈ read.db.chunks read.id,
    entry.IsOf sha256 row ∧ read.query.selects row = true
  /-- A chunk that is kept all along is not passed over. -/
  gapless : ∀ entry ∈ reads.flatMap (·.page.entries), ∀ row,
    (∀ read ∈ reads, row ∈ read.db.chunks read.id ∧ read.query.selects row = true) →
      row.sequence ≤ entry.sequence → ∃ entry ∈ reads.flatMap (·.page.entries), entry.IsOf sha256 row
  /-- A readable page without a cursor is the end. -/
  complete : ∀ last ∈ reads.getLast?, last.page.Readable → last.page.nextCursor = none → ∀ row,
    (∀ read ∈ reads, row ∈ read.db.chunks read.id ∧ read.query.selects row = true) →
      ∃ entry ∈ reads.flatMap (·.page.entries), entry.IsOf sha256 row
  /-- In a sealed log every page but the last gets on. -/
  progress : ∀ read ∈ reads, ∀ record, read.db.record read.id = some record →
    record.captureSealedAt ≠ none → read.page.nextCursor ≠ none → read.page.entries ≠ []

theorem keys_flatten (reads : List PageRead) : (reads.map PageRead.keys).flatten =
    (reads.flatMap (·.page.entries)).map fun entry => key entry.sequence := by
  induction reads with
  | nil => rfl
  | cons read reads ih =>
    rw [List.map_cons, List.flatten_cons, ih, List.flatMap_cons, List.map_append]
    rfl

/-- **Paging is complete and shows nothing twice.** -/
theorem pages_cover (C : Limits) {trace : List (Database × ArchiveEvent × Database)}
    {reads : List PageRead} (hrun : Run (Serves C.toLogConfig sha256 codec) .empty trace db)
    (hreads : reads.Sublist (pageReads trace)) (hchained : Chained reads) :
    PagesCover sha256 reads := by
  have hsound : ∀ read ∈ reads, read.Sound C.toLogConfig sha256 codec := fun read hread =>
    sound_of_run C.invocationBytes_ge Database.empty_wellFormed hrun read (hreads.subset hread)
  have hentries : ∀ read ∈ reads, ∀ entry ∈ read.page.entries, ∃ row ∈ read.db.chunks read.id,
      entry.IsOf sha256 row ∧ read.query.selects row = true := by
    intro read hread entry hentry
    obtain ⟨-, record, after, -, -, -, hblank | ⟨upTo, more, hpage⟩⟩ := hsound read hread
    · rw [hblank.entries] at hentry
      cases hentry
    · exact hpage.collects.sound entry hentry
  have hprogress : ∀ read ∈ reads, ∀ record, read.db.record read.id = some record →
      record.captureSealedAt ≠ none → read.page.nextCursor ≠ none → read.page.entries ≠ [] := by
    intro read hread record hrecord hsealed hcursor
    obtain ⟨-, record', after, hrecord', -, -, hblank | ⟨upTo, more, hpage⟩⟩ := hsound read hread
    · exact absurd hblank.cursor hcursor
    · cases hrecord.symm.trans hrecord'
      rw [hpage.cursor] at hcursor
      refine hpage.first (by_contra fun hmore => hcursor (if_neg ?_))
      exact fun hor => hor.elim hmore hsealed
  cases reads with
  | nil => exact ⟨by simp, .nil, hentries, by simp, by simp, hprogress⟩
  | cons read reads =>
    let stays : Intᵒᵈ → Prop := fun k => ∃ row, key row.sequence = k ∧ ∀ r ∈ read :: reads,
      row ∈ r.db.chunks r.id ∧ r.query.selects row = true
    have hstays : ∀ r ∈ read :: reads, ∀ k, stays k → ∃ row ∈ r.db.chunks r.id,
        r.query.selects row = true ∧ key row.sequence = k := by
      rintro r hr k ⟨row, hkey, hrow⟩
      exact ⟨row, (hrow r hr).1, (hrow r hr).2, hkey⟩
    have hfrom : read.From codec (-1) := by
      obtain ⟨-, record, after, hrecord, -, hposition, -⟩ := hsound read List.mem_cons_self
      cases position_of_none (hchained.first read rfl) hposition
      exact ⟨record, hrecord, hposition⟩
    obtain ⟨last, hsweep, -, hend⟩ := sweep reads read (-1) hsound hchained.follows hstays hfrom
    have hcovers := hsweep.covers
    rw [keys_flatten] at hcovers
    -- A chunk that stays, at a place that was reached, was shown with its own text.
    have hshown : ∀ row, (∀ r ∈ read :: reads, row ∈ r.db.chunks r.id ∧ r.query.selects row = true) →
        Within last (key row.sequence) →
        ∃ entry ∈ (read :: reads).flatMap (·.page.entries), entry.IsOf sha256 row := by
      intro row hrow hwithin
      have hbehind : Behind (some (OrderDual.toDual (-1))) (key row.sequence) := by
        intro c hc
        cases hc
        exact show (-1 : Int) < row.sequence by omega
      obtain ⟨entry, hentry, hkey⟩ :=
        List.mem_map.mp (hcovers.complete _ ⟨row, rfl, hrow⟩ hbehind hwithin)
      refine ⟨entry, hentry, ?_⟩
      obtain ⟨r, hr, hmem⟩ := List.mem_flatMap.mp hentry
      obtain ⟨row', hrow', hof, -⟩ := hentries r hr entry hmem
      have hsame : row'.sequence = row.sequence := by
        rw [← hof.sequence]
        exact Int.ofNat.inj hkey
      rwa [← eq_of_sequence ((hsound r hr).1.ascending r.id) hrow' (hrow r hr).1 hsame]
    refine ⟨?_, ?_, hentries, fun entry hentry row hrow hle => hshown row hrow fun c hc => ?_,
      fun l hl hreadable hnone row hrow => hshown row hrow ?_, hprogress⟩
    · have hall := source_of_chain reads read (-1) hsound hchained.follows hfrom
      exact fun r hr r' hr' => (hall r hr).trans (hall r' hr').symm
    · exact (List.pairwise_map.mp hcovers.sorted).imp fun hlt => Int.ofNat_lt.mp hlt
    · refine (hcovers.within _ (List.mem_map_of_mem hentry) c hc).trans ?_
      exact Int.ofNat_le.mpr hle
    · rw [hend l hl hreadable hnone]
      exact fun c hc => by cases hc

end Pages

/-! ## A sample -/

namespace Sample

def limits : Limits := ⟨⟨128 * 1024, 1024 * 1024, 1, 1⟩, rfl⟩

/-- The digest of the one text that is written. -/
def sha256 (bytes : ByteArray) : String :=
  if bytes = "a".toUTF8 then "ca978112ca1bbdcafac231b39a23dc4da786eff8147c4e72b9807785afee48bb"
  else ""

/-- Numbers in cursors are written in unary. -/
def unary (n : Nat) (rest : List Char) : List Char := List.replicate n '1' ++ '0' :: rest

def readUnary : List Char → Option (Nat × List Char)
  | '1' :: rest => (readUnary rest).map fun read => (read.1 + 1, read.2)
  | '0' :: rest => some (0, rest)
  | _ => none

theorem readUnary_unary (n : Nat) (rest : List Char) : readUnary (unary n rest) = some (n, rest) := by
  induction n with
  | zero => rfl
  | succ n ih =>
    change (readUnary (unary n rest)).map _ = _
    rw [ih]
    rfl

def text (value : String) (rest : List Char) : List Char :=
  unary value.toList.length (value.toList ++ rest)

def readText (chars : List Char) : Option (String × List Char) := do
  let (length, rest) ← readUnary chars
  some (String.ofList (rest.take length), rest.drop length)

theorem readText_text (value : String) (rest : List Char) :
    readText (text value rest) = some (value, rest) := by
  simp [readText, text, readUnary_unary]

def filter (value : Option String) (rest : List Char) : List Char :=
  match value with
  | none => '-' :: rest
  | some value => '+' :: text value rest

def readFilter : List Char → Option (Option String × List Char)
  | '-' :: rest => some (none, rest)
  | '+' :: rest => (readText rest).map fun read => (some read.1, read.2)
  | _ => none

theorem readFilter_filter (value : Option String) (rest : List Char) :
    readFilter (filter value rest) = some (value, rest) := by
  cases value with
  | none => rfl
  | some value =>
    change (readText (text value rest)).map _ = _
    rw [readText_text]
    rfl

def position (value : Int) : List Char :=
  match value with
  | .ofNat n => '+' :: unary n []
  | .negSucc n => '-' :: unary n []

def readPosition : List Char → Option Int
  | '+' :: rest => (readUnary rest).map fun read => Int.ofNat read.1
  | '-' :: rest => (readUnary rest).map fun read => Int.negSucc read.1
  | _ => none

theorem readPosition_position (value : Int) : readPosition (position value) = some value := by
  cases value with
  | ofNat n =>
    change (readUnary (unary n [])).map _ = _
    rw [readUnary_unary]
    rfl
  | negSucc n =>
    change (readUnary (unary n [])).map _ = _
    rw [readUnary_unary]
    rfl

def encode (cursor : Cursor) : String :=
  String.ofList (unary cursor.id.bits.toNat (unary cursor.version.bits.toNat
    (filter cursor.phase (filter cursor.stream (position cursor.after)))))

def decode (raw : String) : Option Cursor := do
  let (id, rest) ← readUnary raw.toList
  let (version, rest) ← readUnary rest
  let (phase, rest) ← readFilter rest
  let (stream, rest) ← readFilter rest
  let after ← readPosition rest
  some ⟨⟨BitVec.ofNat 128 id⟩, ⟨BitVec.ofNat 128 version⟩, phase, stream, after⟩

def codec : CursorCodec where
  encode := encode
  decode := decode
  decode_encode cursor := by
    simp [encode, decode, readUnary_unary, readFilter_filter, readPosition_position]

def generation : GenerationFacts := ⟨"fleet", "profile", 1, "sha256:00", none⟩

/-- The tables answer what they hold, every file is as it was written, and the archive has used as
many bytes as given. -/
def answerWith (used : Nat) (db : Database) : (op : LogEffect) → Option (op.Answer × Database)
  | .now => some ((0 : Int), db)
  | .freshId => some ((⟨1⟩ : Uuid), db)
  | .generation _ => some (some generation, db)
  | .lastOrdinal generationId operation => some (db.lastOrdinal generationId operation, db)
  | .record id => some (db.record id, db)
  | .retained id => some (retained (db.chunks id), db)
  | .chunks id => some (db.chunks id, db)
  | .begin record => (db.begin record).map ((), ·)
  | .save record => some ((), db.save record)
  | .insertChunk id row => (db.insert id row).map ((), ·)
  | .deleteChunk id sequence => some ((), db.delete id sequence)
  | .expirable => some (db.expirable, db)
  | .unsealed => some (db.unsealed, db)
  | .recount => some ((), db.recount)
  | .deleteMetadata _ => some ((), db)
  | .registered => some ([], db)
  | .directoryStat _ => some (.directory, db)
  | .createDirectory _ => some (true, db)
  | .stat id (.chunk sequence) =>
    some (if (db.chunks id).any (·.sequence = sequence) then .file 1 else .absent, db)
  | .stat _ (.temporary _) => some (.absent, db)
  | .createFile _ _ => some ((), db)
  | .writeAll _ _ _ => some ((), db)
  | .syncFile _ _ => some ((), db)
  | .rename _ _ _ => some ((), db)
  | .syncDirectory _ => some ((), db)
  | .read _ _ => some (some "a".toUTF8, db)
  | .removeFile _ _ => some ((), db)
  | .scan => some ((0 : Nat), db)
  | .reap _ => some ((0, true), db)
  | .usage => some (used, db)
  | .reserve _ => some ((), db)
  | .release _ => some ((), db)
  | .setUsage _ => some ((), db)
  | .raiseUsage _ => some ((), db)

abbrev answer := answerWith 0

theorem answerWith_acts {used : Nat} (db : Database) (op : LogEffect) (a : op.Answer) (db' : Database)
    (h : answerWith used db op = some (a, db')) : acts db op a db' := by
  cases op with
  | begin | insertChunk =>
    obtain ⟨db₁, hdb₁, hpair⟩ := Option.map_eq_some_iff.mp h
    cases hpair
    exact hdb₁
  | deleteMetadata =>
    cases h
    exact ⟨rfl, fun id => .inl rfl⟩
  | record | retained | chunks | lastOrdinal | expirable | unsealed =>
    cases h
    exact ⟨rfl, rfl⟩
  | stat id name =>
    cases name <;> cases h <;> rfl
  | _ =>
    cases h
    rfl

def chunk : AppendLog := ⟨⟨1⟩, 0, "plan", "stdout", 0, "a", 0, false⟩

def later : AppendLog := ⟨⟨1⟩, 0, "plan", "stdout", 1, "a", 0, false⟩

def cursor : String := codec.encode ⟨⟨1⟩, ⟨1⟩, none, none, 0⟩

/-- A log that is read while it is open, and to its end once it is sealed. -/
def calls : List ArchiveCall :=
  [.begin ⟨⟨2⟩, "Create", 0⟩, .append chunk, .readPage ⟨1⟩ ⟨none, none, none, none⟩,
    .append later, .finish ⟨⟨1⟩, "succeeded", 0, 0, false⟩,
    .readPage ⟨1⟩ ⟨some cursor, none, none, none⟩]

def reads : List PageRead :=
  pageReads (served limits.toLogConfig sha256 codec answer .empty calls)

def pages : List (Option String × LogPage) :=
  [(none, ⟨⟨1⟩, ⟨1⟩, .capturing, [⟨0, "plan", "stdout", 0, "a", 0⟩], some cursor, false, 0⟩),
    (some cursor, ⟨⟨1⟩, ⟨1⟩, .complete, [⟨0, "plan", "stdout", 1, "a", 0⟩], none, false, 0⟩)]

theorem reads_pages : reads.map (fun read => (read.query.cursor, read.page)) = pages := by
  decide +kernel

theorem reads_chained : Chained reads := by
  obtain ⟨first, rest, hreads, hfirst, hrest⟩ := List.map_eq_cons_iff.mp reads_pages
  obtain ⟨next, rest, rfl, hnext, hrest⟩ := List.map_eq_cons_iff.mp hrest
  cases List.map_eq_nil_iff.mp hrest
  obtain ⟨hstart, hpage⟩ := Prod.mk.inj hfirst
  rw [hreads]
  refine ⟨fun r hr => ?_, .cons_cons ⟨cursor, ?_, congrArg Prod.fst hnext⟩ (.singleton _)⟩
  · cases hr
    exact hstart
  · rw [hpage]

end Sample

/-- The second page goes on behind the first one. -/
theorem pages_cover_sample :
    Sample.reads.map (fun read => (read.query.cursor, read.page)) = Sample.pages ∧
      PagesCover Sample.sha256 Sample.reads := by
  obtain ⟨db, hrun⟩ := run_served (C := Sample.limits.toLogConfig) Sample.answerWith_acts
    Sample.calls Database.empty
  exact ⟨Sample.reads_pages, pages_cover Sample.limits hrun (.refl _) Sample.reads_chained⟩

end Shaula.OperationLogs
