import Shaula.OperationLogs.Paging
import Shaula.Library.TableSize

/-! # Disk space of the archive

The archive keeps a counter of the disk space that is reserved, beside the files themselves.  A file
operation runs on a thread of its own and outlives the call that waited for it, so a file may still
be written, renamed or removed when the call is long gone; the counter has to be an upper bound all
the same.
-/

namespace Shaula.OperationLogs

open Shaula.Core Library Library.Program

/-! ## Files -/

/-- The name of a file that was not published yet. -/
def FileName.Temporary : FileName → Prop
  | .temporary _ => True
  | .chunk _ => False

abbrev FilePath := Uuid × FileName

/-- The sizes of the files below the root of the archive. -/
abbrev Files := Table FilePath Nat

namespace Files

/-- More bytes are written to a file, where it still is. -/
def grow (files : Files) (path : FilePath) (bytes : Nat) : Files :=
  match files.find path with
  | some size => files.put path (size + bytes)
  | none => files

/-- A file takes the place of another one. -/
def move (files : Files) (source target : FilePath) : Files :=
  match files.find source with
  | some size => (files.delete source).put target size
  | none => files

variable {files : Files} {path : FilePath}

theorem total_grow_le (bytes : Nat) : (files.grow path bytes).total ≤ files.total + bytes := by
  unfold grow
  split
  · next size hfind =>
    have hsum := Table.total_delete_add hfind
    rw [Table.total_put]
    omega
  · exact Nat.le_add_right _ _

theorem total_move_le (source target : FilePath) : (files.move source target).total ≤ files.total := by
  unfold move
  split
  · next size hfind =>
    have hsum := Table.total_delete_add hfind
    have hless := Table.total_delete_le (files.delete source) target
    rw [Table.total_put]
    omega
  · exact Nat.le_refl _

/-- What was there before is gone. -/
theorem total_move_onto {source target : FilePath} {size : Nat} (hne : source ≠ target)
    (htarget : files.find target = some size) :
    files.move source target = files ∨ (files.move source target).total + size ≤ files.total := by
  unfold move
  split
  · next moved hfind =>
    have htarget' : (files.delete source).find target = some size := by
      rw [Table.find_delete, if_neg hne.symm, htarget]
    have hsum := Table.total_delete_add hfind
    have hsum' := Table.total_delete_add htarget'
    refine .inr ?_
    rw [Table.total_put]
    omega
  · exact .inl rfl

theorem total_create (path : FilePath) : (files.createIfAbsent path 0).total = files.total := by
  unfold Table.createIfAbsent
  split
  · rfl
  · next hfind =>
    rw [Table.total_put, Table.total_delete_of_none hfind, Nat.zero_add]

end Files

/-! ## Late operations -/

/-- A file operation that goes on with nobody waiting for it. -/
inductive Late where
  | create (path : FilePath)
  | write (path : FilePath) (bytes : Nat)
  | rename (source target : FilePath)
  | remove (path : FilePath)
  | reap (registered : List FilePath)
  deriving DecidableEq

/-- The bytes that an operation may still write. -/
def Late.pending : Late → Nat
  | .write _ bytes => bytes
  | .create _ | .rename _ _ | .remove _ | .reap _ => 0

/-- A late operation does something to the files, or fails, and this is left of it. -/
inductive Lands (files : Files) : Late → Files → Option Late → Prop
  | failed {late : Late} : Lands files late files none
  | created {path : FilePath} : Lands files (.create path) (files.createIfAbsent path 0) none
  | wrote {path : FilePath} {bytes now rest : Nat} : now + rest ≤ bytes →
      Lands files (.write path bytes) (files.grow path now) (some (.write path rest))
  | renamed {source target : FilePath} :
      Lands files (.rename source target) (files.move source target) none
  | removed {path : FilePath} : Lands files (.remove path) (files.delete path) none
  | reaped {registered : List FilePath} {path : FilePath} : path ∉ registered →
      Lands files (.reap registered) (files.delete path) (some (.reap registered))

/-- The operation that an effect leaves behind when nobody waits for it any more. -/
def LogEffect.late : LogEffect → Option Late
  | .createFile id name => some (.create (id, name))
  | .writeAll id name bytes => some (.write (id, name) bytes.size)
  | .rename id source target => some (.rename (id, source) (id, target))
  | .removeFile id name => some (.remove (id, name))
  | .reap names => some (.reap names)
  | _ => none

/-! ## The disk -/

structure Disk where
  db : Database
  files : Files
  late : List Late
  /-- `disk_usage` -/
  counter : Nat
  /-- The counter was set from a scan. -/
  counted : Bool

namespace Disk

variable (w : Disk)

/-- The size of the files, and of what may still be written to them. -/
def weight : Nat := w.files.total + (w.late.map Late.pending).sum

/-- What an effect answers, and what it leaves. -/
def acts : (op : LogEffect) → op.Answer → Disk → Prop
  | .stat id name, answer, w' => w' = w ∧ match answer with
    | .file length => w.files.find (id, name) = some length
    | .absent => w.files.find (id, name) = none
    | .other | .failed => True
  | .createFile id name, _, w' =>
    w.files.find (id, name) = none ∧ w' = { w with files := w.files.put (id, name) 0 }
  -- What is handed over may be written after the call returned.
  | .writeAll id name bytes, _, w' => ∃ now rest, now + rest ≤ bytes.size ∧
    w' = { w with
      files := w.files.grow (id, name) now
      late := .write (id, name) rest :: w.late }
  | .syncFile id name, _, w' => w' = w ∧ ∀ rest, .write (id, name) rest ∈ w.late → rest = 0
  | .rename id source target, _, w' =>
    w' = { w with files := w.files.move (id, source) (id, target) }
  | .removeFile id name, _, w' => ∃ size, w.files.find (id, name) = some size ∧
    w' = { w with files := w.files.delete (id, name) }
  | .scan, used, w' => w' = w ∧ (w.late = [] → used = w.files.total)
  | .reap names, answer, w' => ∃ gone : List FilePath, (∀ path ∈ gone, path ∉ names) ∧
    w' = { w with files := gone.foldl Table.delete w.files } ∧
      answer.1 + w'.files.total ≤ w.files.total
  | .usage, used, w' => w' = w ∧ used = w.counter
  | .reserve bytes, _, w' => w' = { w with counter := w.counter + bytes }
  | .release bytes, _, w' => w' = { w with counter := w.counter - bytes }
  | .setUsage bytes, _, w' => w' = { w with counter := bytes, counted := true }
  | .raiseUsage bytes, _, w' => w' = { w with counter := max w.counter bytes }
  | op, answer, w' => ∃ db, OperationLogs.acts w.db op answer db ∧ w' = { w with db }

/-- One late operation goes on. -/
def lands (w' : Disk) : Prop :=
  ∃ before late after files rest, w.late = before ++ late :: after ∧ Lands w.files late files rest ∧
    w' = { w with files, late := before ++ rest.toList ++ after }

/-- An effect that failed, or that nobody waits for. -/
def leaves (op : LogEffect) (w' : Disk) : Prop :=
  w' = w ∨ (∃ answer, w.acts op answer w') ∨
    ∃ late, op.late = some late ∧ w' = { w with late := late :: w.late }

end Disk

def diskMachine : Machine archiveEffects Disk where
  env := Disk.lands
  act := Disk.acts
  lost := Disk.leaves

section Session

variable (C : LogConfig) (sha256 : ByteArray → String) (codec : CursorCodec)

/-- The archive of a daemon: opened once, then called for one thing at a time.  The end of the
process is the end of what it left behind. -/
def archiveSession : Session archiveEffects ArchiveCall Disk CoreError ArchiveReply where
  machine := diskMachine
  body := serve C sha256 codec
  begins w call := match call with
    | .recover => w.counted = false ∧ w.late = []
    | _ => w.counted = true
  idle := Disk.lands
  crash w := { w with late := [], counter := 0, counted := false }

end Session

/-! ## What the others do -/

variable {α : Type} {C : LogConfig} {sha256 : ByteArray → String} {codec : CursorCodec} {w w' : Disk}
  {id : Uuid}

theorem Lands.weight {files files' : Files} {late : Late} {rest : Option Late}
    (h : Lands files late files' rest) :
    files'.total + (rest.toList.map Late.pending).sum ≤ files.total + late.pending := by
  cases h with
  | failed => simp
  | created => simp [Files.total_create]
  | wrote hbytes =>
    simp only [Option.toList_some, List.map_cons, List.map_nil, List.sum_cons, List.sum_nil,
      Late.pending]
    refine (Nat.add_le_add_right (Files.total_grow_le _) _).trans ?_
    omega
  | renamed => simpa [Late.pending] using Files.total_move_le _ _
  | removed => simpa [Late.pending] using Table.total_delete_le files _
  | reaped => simpa [Late.pending] using Table.total_delete_le files _

/-- Only files that were never published are renamed late. -/
def Orderly (late : List Late) : Prop :=
  ∀ source target, .rename source target ∈ late → source.2.Temporary

/-- A late operation never makes the files outgrow what was handed over. -/
theorem Disk.lands.steady (h : w.lands w') :
    w'.weight ≤ w.weight ∧ w'.counter = w.counter ∧ w'.counted = w.counted ∧
      (Orderly w.late → Orderly w'.late) := by
  obtain ⟨before, late, after, files, rest, hlate, hlands, rfl⟩ := h
  have hweight := hlands.weight
  refine ⟨?_, rfl, rfl, fun horderly source target hmem => horderly source target ?_⟩
  rotate_left
  · rw [hlate]
    rcases List.mem_append.mp hmem with hmem | hafter
    · rcases List.mem_append.mp hmem with hbefore | hrest
      · exact List.mem_append_left _ hbefore
      · cases hlands <;> simp at hrest
    · exact List.mem_append_right _ (List.mem_cons_of_mem _ hafter)
  show files.total + ((before ++ rest.toList ++ after).map Late.pending).sum ≤
    w.files.total + (w.late.map Late.pending).sum
  rw [hlate]
  simp only [List.map_append, List.map_cons, List.sum_append, List.sum_cons]
  omega

/-! ## What a call keeps -/

/-- The counter is an upper bound with some bytes to spare, and meets a bound of its own. -/
structure Within (bytes : Nat) (bound : Nat → Prop) (w : Disk) : Prop where
  orderly : Orderly w.late
  counted : w.counted = true
  covered : w.weight + bytes ≤ w.counter
  bounded : bound w.counter

/-- Once it is set the counter is an upper bound. -/
structure Covered (w : Disk) : Prop where
  orderly : Orderly w.late
  covered : w.counted = true → w.weight ≤ w.counter

/-- A chunk is accepted within the quota. -/
def Accepts (C : LogConfig) (_ : ArchiveCall) (w : Disk) : LogEffect → Prop
  | .insertChunk _ _ => w.counted = true ∧ w.counter ≤ C.quotaBytes
  | _ => True

/-- The effect neither writes to a file, nor accepts a chunk, nor moves the counter, and it renames
no published file. -/
def Neutral : LogEffect → Prop
  | .rename _ source _ => source.Temporary
  | .writeAll _ _ _ | .insertChunk _ _ | .reserve _ | .release _ | .setUsage _ | .raiseUsage _ => False
  | _ => True

variable {bytes : Nat} {bound : Nat → Prop}

theorem Within.covers (h : Within bytes bound w) : Covered w :=
  ⟨h.orderly, fun _ => (Nat.le_add_right _ _).trans h.covered⟩

theorem Within.of_lighter (h : Within bytes bound w) (hweight : w'.weight ≤ w.weight)
    (hcounter : w'.counter = w.counter) (hcounted : w'.counted = w.counted)
    (horderly : Orderly w.late → Orderly w'.late) : Within bytes bound w' where
  orderly := horderly h.orderly
  counted := hcounted.trans h.counted
  covered := by
    rw [hcounter]
    exact (Nat.add_le_add_right hweight bytes).trans h.covered
  bounded := hcounter ▸ h.bounded

theorem within_stable : diskMachine.Stable (Within bytes bound) := by
  intro w w' h henv
  obtain ⟨hweight, hcounter, hcounted, horderly⟩ := henv.steady
  exact h.of_lighter hweight hcounter hcounted horderly

theorem covered_stable : diskMachine.Stable Covered := by
  intro w w' h henv
  obtain ⟨hweight, hcounter, hsame, horderly⟩ := henv.steady
  refine ⟨horderly h.orderly, fun hcounted => ?_⟩
  rw [hcounter]
  exact hweight.trans (h.covered (hsame ▸ hcounted))

theorem total_foldl_delete_le (gone : List FilePath) (files : Files) :
    (gone.foldl Table.delete files).total ≤ files.total := by
  induction gone generalizing files with
  | nil => exact Nat.le_refl _
  | cons path gone ih => exact (ih _).trans (Table.total_delete_le files path)

/-- A neutral effect only takes away from the files. -/
theorem acts_neutral {op : LogEffect} {answer : op.Answer} (hop : Neutral op)
    (h : w.acts op answer w') :
    w'.weight ≤ w.weight ∧ w'.counter = w.counter ∧ w'.counted = w.counted ∧ w'.late = w.late := by
  have hfiles : ∀ files : Files, files.total ≤ w.files.total →
      ({ w with files } : Disk).weight ≤ w.weight :=
    fun files hless => Nat.add_le_add_right hless _
  cases op with
  | writeAll | insertChunk | reserve | release | setUsage | raiseUsage => exact hop.elim
  | stat | syncFile | scan | usage =>
    obtain ⟨rfl, -⟩ := h
    exact ⟨Nat.le_refl _, rfl, rfl, rfl⟩
  | createFile id name =>
    obtain ⟨hnone, rfl⟩ := h
    refine ⟨hfiles _ ?_, rfl, rfl, rfl⟩
    rw [Table.total_put, Table.total_delete_of_none hnone, Nat.zero_add]
  | rename =>
    cases h
    exact ⟨hfiles _ (Files.total_move_le _ _), rfl, rfl, rfl⟩
  | removeFile =>
    obtain ⟨size, -, rfl⟩ := h
    exact ⟨hfiles _ (Table.total_delete_le _ _), rfl, rfl, rfl⟩
  | reap =>
    obtain ⟨gone, -, rfl, -⟩ := h
    exact ⟨hfiles _ (total_foldl_delete_le gone _), rfl, rfl, rfl⟩
  | _ =>
    obtain ⟨db, -, rfl⟩ := h
    exact ⟨Nat.le_refl _, rfl, rfl, rfl⟩

theorem late_neutral {op : LogEffect} {late : Late} (hop : Neutral op) (h : op.late = some late) :
    late.pending = 0 ∧ ∀ source target, late = .rename source target → source.2.Temporary := by
  cases op with
  | writeAll => exact hop.elim
  | createFile | removeFile | reap =>
    cases h
    exact ⟨rfl, fun _ _ h => by cases h⟩
  | rename =>
    cases h
    exact ⟨rfl, fun _ _ h => by cases h; exact hop⟩
  | _ => cases h

theorem leaves_neutral {op : LogEffect} (hop : Neutral op) (h : w.leaves op w') :
    w'.weight ≤ w.weight ∧ w'.counter = w.counter ∧ w'.counted = w.counted ∧
      (Orderly w.late → Orderly w'.late) := by
  rcases h with rfl | ⟨answer, hacts⟩ | ⟨late, hlate, rfl⟩
  · exact ⟨Nat.le_refl _, rfl, rfl, fun h => h⟩
  · obtain ⟨hweight, hcounter, hcounted, hsame⟩ := acts_neutral hop hacts
    exact ⟨hweight, hcounter, hcounted, fun h => hsame ▸ h⟩
  · obtain ⟨hpending, hrename⟩ := late_neutral hop hlate
    refine ⟨?_, rfl, rfl, fun horderly source target hmem => ?_⟩
    · show w.files.total + (late.pending + (w.late.map Late.pending).sum) ≤ _
      rw [hpending, Nat.zero_add]
      exact Nat.le_refl _
    · rcases List.mem_cons.mp hmem with hnew | hold
      · exact hrename source target hnew.symm
      · exact horderly source target hold

/-- What the archive's programs need, and what they leave. -/
abbrev Keeps (C : LogConfig) (call : ArchiveCall) (A : Disk → Prop) (p : Archived α)
    (B : α → Disk → Prop) : Prop :=
  Spec diskMachine Covered (Accepts C call) A p B

variable {call : ArchiveCall}

/-- A program of neutral effects keeps what is reserved. -/
theorem keeps_neutral {p : Archived α} (hp : p.Only Neutral) :
    Keeps C call (Within bytes bound) p fun _ => Within bytes bound := by
  refine Spec.frame hp within_stable fun op hop w hw => ⟨?_, fun w' h => ?_, fun answer w' h => ?_⟩
  · cases op <;> first | exact trivial | exact hop.elim
  · obtain ⟨hweight, hcounter, hcounted, horderly⟩ := leaves_neutral hop h
    exact (hw.of_lighter hweight hcounter hcounted horderly).covers
  · obtain ⟨hweight, hcounter, hcounted, hsame⟩ := acts_neutral hop h
    have hw' := hw.of_lighter hweight hcounter hcounted fun h => hsame ▸ h
    exact ⟨hw'.covers, hw'⟩

theorem keeps_ask {op : LogEffect} (hop : Neutral op) :
    Keeps C call (Within bytes bound) (ask op) fun _ => Within bytes bound :=
  keeps_neutral (.lift hop)

/-! ## Removing a file -/

/-- The file is still at the path, or its size is to spare. -/
def Files.Holds (files : Files) (path : FilePath) (size : Nat) : Prop :=
  ∃ now, files.find path = some now ∧ size ≤ now

/-- Where a published file no longer is what it was, at least its size is gone. -/
theorem Lands.holds {files files' : Files} {late : Late} {rest : Option Late} {path : FilePath}
    {size : Nat} (h : Lands files late files' rest) (hpath : ¬ path.2.Temporary)
    (hrename : ∀ source target, late = .rename source target → source.2.Temporary)
    (hholds : files.Holds path size) : files'.Holds path size ∨
      files'.total + (rest.toList.map Late.pending).sum + size ≤ files.total + late.pending := by
  obtain ⟨now, hnow, hsize⟩ := hholds
  have hdeleted : ∀ path' : FilePath, Files.Holds (files.delete path') path size ∨
      (files.delete path').total + size ≤ files.total := by
    intro path'
    by_cases hsame : path = path'
    · subst hsame
      have hsum := Table.total_delete_add hnow
      exact .inr (by omega)
    · refine .inl ⟨now, ?_, hsize⟩
      rw [Table.find_delete, if_neg hsame, hnow]
  cases h with
  | failed => exact .inl ⟨now, hnow, hsize⟩
  | created =>
    refine .inl ⟨now, ?_, hsize⟩
    rw [Table.find_createIfAbsent, hnow, Option.some_or]
  | @wrote path' bytes more rest =>
    refine .inl ?_
    unfold Files.grow
    split
    · next size' hfind =>
      by_cases hsame : path = path'
      · subst hsame
        cases hnow.symm.trans hfind
        refine ⟨now + more, ?_, hsize.trans (Nat.le_add_right _ _)⟩
        rw [Table.find_put, if_pos rfl]
      · refine ⟨now, ?_, hsize⟩
        rw [Table.find_put, if_neg hsame, hnow]
    · exact ⟨now, hnow, hsize⟩
  | @renamed source target =>
    have hsource : path ≠ source := by
      rintro rfl
      exact hpath (hrename _ _ rfl)
    by_cases hsame : path = target
    · subst hsame
      rcases Files.total_move_onto hsource.symm hnow with hstay | hgone
      · rw [hstay]
        exact .inl ⟨now, hnow, hsize⟩
      · refine .inr ?_
        simp only [Option.toList_none, List.map_nil, List.sum_nil, Late.pending]
        omega
    · refine .inl ?_
      unfold Files.move
      split
      · refine ⟨now, ?_, hsize⟩
        rw [Table.find_put, if_neg hsame, Table.find_delete, if_neg hsource, hnow]
      · exact ⟨now, hnow, hsize⟩
  | removed => simpa [Late.pending] using hdeleted _
  | reaped => simpa [Late.pending] using hdeleted _

/-- The counter is an upper bound. -/
abbrev Upper (w : Disk) : Prop := Within 0 (fun _ => True) w

/-- A file of this size was seen at the path.  Where it is no longer there its size is to spare. -/
structure Marked (path : FilePath) (size : Nat) (w : Disk) : Prop where
  within : Upper w
  marked : w.files.Holds path size ∨ w.weight + size ≤ w.counter

theorem marked_stable {path : FilePath} {size : Nat} (hpath : ¬ path.2.Temporary) :
    diskMachine.Stable (Marked path size) := by
  intro w w' ⟨hwithin, hmarked⟩ henv
  have hwithin' := within_stable w w' hwithin henv
  refine ⟨hwithin', ?_⟩
  obtain ⟨hweight, hcounter, -, -⟩ := henv.steady
  rcases hmarked with hholds | hspare
  · obtain ⟨before, late, after, files, rest, hlate, hlands, rfl⟩ := henv
    rcases hlands.holds hpath (fun source target hrename => hwithin.orderly source target (by
      rw [hlate, hrename]; simp)) hholds with hstays | hgone
    · exact .inl hstays
    · refine .inr (le_trans ?_ hwithin.covered)
      show files.total + ((before ++ rest.toList ++ after).map Late.pending).sum + size ≤
        w.files.total + (w.late.map Late.pending).sum + 0
      rw [hlate]
      simp only [List.map_append, List.map_cons, List.sum_append, List.sum_cons]
      omega
  · refine .inr ?_
    rw [hcounter]
    exact (Nat.add_le_add_right hweight size).trans hspare

theorem keeps_release (bytes : Nat) :
    Keeps C call (Within bytes fun _ => True) (ask (.release bytes)) fun _ => Upper := by
  have hreleased : ∀ w w' : Disk, Within bytes (fun _ => True) w → w.acts (.release bytes) () w' →
      Upper w' := by
    rintro w w' ⟨horderly, hcounted, hcovered, -⟩ rfl
    exact ⟨horderly, hcounted, Nat.le_sub_of_add_le hcovered, trivial⟩
  refine Spec.lift within_stable (fun _ _ => trivial) (fun w w' hw hleft => ?_)
    fun w _ w' hw hacts => ⟨(hreleased w w' hw hacts).covers, hreleased w w' hw hacts⟩
  rcases hleft with rfl | ⟨_, hacts⟩ | ⟨late, hlate, -⟩
  · exact hw.covers
  · exact (hreleased w w' hw hacts).covers
  · cases hlate

theorem keeps_stat {name : FileName} : Keeps C call Upper (ask (.stat id name)) fun stat w =>
    Upper w ∧ ∀ size, stat = .file size → Marked (id, name) size w := by
  refine Spec.lift within_stable (fun _ _ => trivial) (fun w w' hw hleft => ?_)
    fun w stat w' hw hacts => ?_
  · obtain ⟨hweight, hcounter, hcounted, horderly⟩ := leaves_neutral (show Neutral (.stat id name) from trivial) hleft
    exact (hw.of_lighter hweight hcounter hcounted horderly).covers
  · obtain ⟨rfl, hfound⟩ := hacts
    refine ⟨hw.covers, hw, ?_⟩
    rintro size rfl
    exact ⟨hw, .inl ⟨size, hfound, Nat.le_refl _⟩⟩

/-- What is given back was taken away. -/
theorem keeps_removeFile {name : FileName} (hname : ¬ name.Temporary) (stat : FileStat) :
    Keeps C call (fun w => Upper w ∧ ∀ size, stat = .file size → Marked (id, name) size w)
      (removeFile id name stat) fun _ => Upper := by
  cases stat with
  | absent => exact Spec.done fun _ hw => hw.1
  | other | failed => exact Spec.fail
  | file size =>
    have hremoved : Keeps C call (Marked (id, name) size) (ask (.removeFile id name))
        fun _ => Within size fun _ => True := by
      refine Spec.lift (marked_stable hname) (fun _ _ => trivial) (fun w w' hw hleft => ?_)
        fun w _ w' hw hacts => ?_
      · obtain ⟨hweight, hcounter, hcounted, horderly⟩ :=
          leaves_neutral (show Neutral (.removeFile id name) from trivial) hleft
        exact (hw.within.of_lighter hweight hcounter hcounted horderly).covers
      · obtain ⟨now, hnow, rfl⟩ := hacts
        have hspare : Within size (fun _ => True)
            ({ w with files := w.files.delete (id, name) } : Disk) := by
          refine ⟨hw.within.orderly, hw.within.counted, ?_, trivial⟩
          show (w.files.delete (id, name)).total + (w.late.map Late.pending).sum + size ≤ w.counter
          have hsum := Table.total_delete_add hnow
          rcases hw.marked with ⟨now', hnow', hsize⟩ | hspare
          · cases hnow.symm.trans hnow'
            have hcovered : w.files.total + (w.late.map Late.pending).sum + 0 ≤ w.counter :=
              hw.within.covered
            omega
          · have hspare' : w.files.total + (w.late.map Late.pending).sum + size ≤ w.counter := hspare
            omega
        exact ⟨hspare.covers, hspare⟩
    exact (Spec.bind hremoved fun _ => keeps_release size).weaken (fun w hw => hw.2 size rfl)
      fun _ _ hw => hw

/-! ## Programs -/

theorem Notes.neutral {op : LogEffect} (h : Notes op) : Neutral op := by
  cases op <;> first | exact trivial | exact h.elim

theorem keeps_notes {p : Archived α} (hp : p.Only Notes) :
    Keeps C call (Within bytes bound) p fun _ => Within bytes bound :=
  keeps_neutral (hp.mono fun _ => Notes.neutral)

theorem keeps_reads {p : Archived α} (hp : p.Only Reads) :
    Keeps C call (Within bytes bound) p fun _ => Within bytes bound :=
  keeps_notes (hp.mono fun _ => Reads.notes)

theorem keeps_clearFile {name : FileName} (hname : ¬ name.Temporary) :
    Keeps C call Upper (clearFile id name) fun _ => Upper :=
  .bind (keeps_reads privateDirectory_reads) fun _ => .bind (keeps_neutral only_ofExcept) fun _ =>
    .bind keeps_stat fun stat => keeps_removeFile hname stat

theorem keeps_removeChunk {row : ChunkRow} :
    Keeps C call Upper (removeChunk id row) fun _ => Upper :=
  .bind (keeps_clearFile fun h => h) fun _ => keeps_ask trivial

theorem keeps_removeChunks (rows : List ChunkRow) :
    Keeps C call Upper (removeChunks id rows) fun _ => Upper := by
  induction rows with
  | nil => exact .done fun _ hw => hw
  | cons row rows ih => exact .bind keeps_removeChunk fun _ => ih

theorem keeps_pruneRows {cutoff : Int} {incoming : Nat} (rows : List (Uuid × Int)) (used : Nat) :
    Keeps C call Upper (pruneRows C cutoff incoming rows used) fun _ => Upper := by
  induction rows generalizing used with
  | nil => exact .done fun _ hw => hw
  | cons row rows ih =>
    unfold pruneRows
    split
    · exact ih _
    · refine .bind (keeps_reads load_reads) fun _ => .bind (keeps_ask trivial) fun _ => ?_
      refine .bind (keeps_removeChunks _) fun _ => .bind (keeps_ask trivial) fun _ => ?_
      exact .bind (keeps_notes save_notes) fun _ => ih _

theorem keeps_pruneLocked {incoming : Nat} :
    Keeps C call Upper (pruneLocked C incoming) fun _ => Upper :=
  .bind (keeps_ask trivial) fun _ => .bind (keeps_ask trivial) fun _ =>
    .bind (keeps_ask trivial) fun _ => keeps_pruneRows _ _

theorem keeps_evict (bytes : Nat) (rows : List ChunkRow) (headUsed : Nat) (record : Invocation) :
    Keeps C call Upper (evict C bytes rows headUsed record) fun _ => Upper := by
  induction rows generalizing headUsed record with
  | nil => exact .done fun _ hw => hw
  | cons row rows ih =>
    unfold evict
    split
    · exact .done fun _ hw => hw
    · split
      · exact ih _ _
      · exact .bind keeps_removeChunk fun _ => ih _ _

/-! ## Publication -/

/-- What is written is taken from what was reserved. -/
theorem keeps_writeAll {name : FileName} (text : ByteArray) :
    Keeps C call (Within text.size bound) (ask (.writeAll id name text)) fun _ => Within 0 bound := by
  have hmore : ∀ w : Disk, Within text.size bound w → ∀ files late pending,
      late = Late.write (id, name) pending :: w.late → files.total + pending ≤ w.files.total + text.size →
      Within 0 bound ({ w with files, late } : Disk) := by
    rintro w ⟨horderly, hcounted, hcovered, hbounded⟩ files late pending rfl htotal
    refine ⟨fun source target hmem => ?_, hcounted, ?_, hbounded⟩
    · rcases List.mem_cons.mp hmem with hnew | hold
      · cases hnew
      · exact horderly source target hold
    · have hcovered' : w.files.total + (w.late.map Late.pending).sum + text.size ≤ w.counter := hcovered
      show files.total + (pending + (w.late.map Late.pending).sum) + 0 ≤ w.counter
      omega
  have hacted : ∀ w w' : Disk, Within text.size bound w → w.acts (.writeAll id name text) () w' →
      Within 0 bound w' := by
    rintro w w' hw ⟨now, rest, hbytes, rfl⟩
    have hgrow : (w.files.grow (id, name) now).total ≤ _ := Files.total_grow_le now
    exact hmore w hw _ _ rest rfl (by omega)
  refine Spec.lift within_stable (fun _ _ => trivial) (fun w w' hw hleft => ?_)
    fun w _ w' hw hacts => ⟨(hacted w w' hw hacts).covers, hacted w w' hw hacts⟩
  rcases hleft with rfl | ⟨_, hacts⟩ | ⟨late, hlate, rfl⟩
  · exact hw.covers
  · exact (hacted w w' hw hacts).covers
  · cases hlate
    exact (hmore w hw w.files _ _ rfl (Nat.le_refl _)).covers

theorem keeps_publish {sequence : Nat} {text : String} :
    Keeps C call (Within text.utf8ByteSize bound) (publish id sequence text)
      fun _ => Within 0 bound := by
  refine .bind (keeps_reads privateDirectory_reads) fun _ => .bind (keeps_neutral only_ofExcept) fun _ => ?_
  refine .bind (keeps_ask trivial) fun _ => .bind (keeps_neutral .ensure) fun _ => ?_
  refine .bind (keeps_ask trivial) fun _ => .bind (keeps_ask trivial) fun _ => ?_
  refine .bind (keeps_writeAll text.toUTF8) fun _ => .bind (keeps_ask trivial) fun _ => ?_
  exact .bind (keeps_ask trivial) fun _ => .bind (keeps_ask trivial) fun _ => .done fun _ hw => hw

theorem keeps_usage : Keeps C call Upper (ask .usage) fun used => Within 0 (· = used) := by
  refine Spec.lift within_stable (fun _ _ => trivial) (fun w w' hw hleft => ?_)
    fun w used w' hw hacts => ?_
  · obtain ⟨hweight, hcounter, hcounted, horderly⟩ :=
      leaves_neutral (show Neutral .usage from trivial) hleft
    exact (hw.of_lighter hweight hcounter hcounted horderly).covers
  · obtain ⟨rfl, hused⟩ := hacts
    exact ⟨hw.covers, hw.orderly, hw.counted, hw.covered, hused.symm⟩

/-- There is room for what is reserved. -/
theorem keeps_reserve {used : Nat} (hroom : used + bytes ≤ C.quotaBytes) :
    Keeps C call (Within 0 (· = used)) (ask (.reserve bytes))
      fun _ => Within bytes (· ≤ C.quotaBytes) := by
  have hreserved : ∀ w w' : Disk, Within 0 (· = used) w → w.acts (.reserve bytes) () w' →
      Within bytes (· ≤ C.quotaBytes) w' := by
    rintro w w' ⟨horderly, hcounted, hcovered, rfl⟩ rfl
    exact ⟨horderly, hcounted, Nat.add_le_add_right hcovered bytes, hroom⟩
  refine Spec.lift within_stable (fun _ _ => trivial) (fun w w' hw hleft => ?_)
    fun w _ w' hw hacts => ⟨(hreserved w w' hw hacts).covers, hreserved w w' hw hacts⟩
  rcases hleft with rfl | ⟨_, hacts⟩ | ⟨late, hlate, -⟩
  · exact hw.covers
  · exact (hreserved w w' hw hacts).covers
  · cases hlate

theorem keeps_insertChunk {row : ChunkRow} :
    Keeps C call (Within 0 (· ≤ C.quotaBytes)) (ask (.insertChunk id row))
      fun _ => Within 0 (· ≤ C.quotaBytes) := by
  have hinserted : ∀ w w' : Disk, Within 0 (· ≤ C.quotaBytes) w →
      w.acts (.insertChunk id row) () w' → Within 0 (· ≤ C.quotaBytes) w' := by
    rintro w w' ⟨horderly, hcounted, hcovered, hbounded⟩ ⟨db, -, rfl⟩
    exact ⟨horderly, hcounted, hcovered, hbounded⟩
  refine Spec.lift within_stable (fun w hw => ⟨hw.counted, hw.bounded⟩) (fun w w' hw hleft => ?_)
    fun w _ w' hw hacts => ⟨(hinserted w w' hw hacts).covers, hinserted w w' hw hacts⟩
  rcases hleft with rfl | ⟨_, hacts⟩ | ⟨late, hlate, -⟩
  · exact hw.covers
  · exact (hinserted w w' hw hacts).covers
  · cases hlate

theorem Within.upper (h : Within 0 bound w) : Upper w :=
  ⟨h.orderly, h.counted, h.covered, trivial⟩

theorem keeps_keep {chunk : AppendLog} {record : Invocation} :
    Keeps C call Upper (keep C sha256 chunk record) fun _ => Upper := by
  refine .bind keeps_pruneLocked fun _ => .bind keeps_usage fun used => ?_
  split
  · exact (keeps_notes save_notes).weaken (fun _ hw => hw) fun _ _ hw => hw.upper
  · next hroom =>
    refine .bind (keeps_reserve (Nat.le_of_not_lt hroom)) fun _ => .bind keeps_publish fun _ => ?_
    refine .bind keeps_insertChunk fun _ => ?_
    exact (keeps_notes save_notes).weaken (fun _ hw => hw) fun _ _ hw => hw.upper

theorem keeps_append {chunk : AppendLog} :
    Keeps C call Upper (append C sha256 chunk) fun _ => Upper := by
  refine .bind (keeps_neutral .ensure) fun _ => .bind (keeps_neutral .ensure) fun _ => ?_
  refine .bind (keeps_reads load_reads) fun _ => .bind (keeps_ask trivial) fun _ => ?_
  split
  · exact keeps_neutral .ensure
  · refine .bind (keeps_neutral .ensure) fun _ => .bind (keeps_neutral .ensure) fun _ => ?_
    exact .bind (keeps_evict _ _ _ _) fun _ => keeps_keep

theorem keeps_begin {request : BeginInvocation} :
    Keeps C call Upper (begin C request) fun _ => Upper := by
  refine .bind (keeps_neutral .ensure) fun _ => .bind keeps_pruneLocked fun _ => ?_
  refine .bind (keeps_ask trivial) fun _ => .bind (keeps_neutral .okOr) fun _ => ?_
  refine .bind (keeps_ask trivial) fun _ => .bind (keeps_ask trivial) fun _ => ?_
  exact .bind (keeps_ask trivial) fun _ => .bind (keeps_ask trivial) fun _ => .done fun _ hw => hw

/-! ## Maintenance and recovery -/

/-- What the walk took away is given back. -/
theorem keeps_reapOrphans : Keeps C call Upper reapOrphans fun _ => Upper := by
  have hreap : ∀ names, Keeps C call Upper (ask (.reap names))
      fun answer => Within answer.1 fun _ => True := by
    intro names
    refine Spec.lift within_stable (fun _ _ => trivial) (fun w w' hw hleft => ?_)
      fun w answer w' hw hacts => ?_
    · obtain ⟨hweight, hcounter, hcounted, horderly⟩ :=
        leaves_neutral (show Neutral (.reap names) from trivial) hleft
      exact (hw.of_lighter hweight hcounter hcounted horderly).covers
    · obtain ⟨gone, -, rfl, htotal⟩ := hacts
      have hspare : Within answer.1 (fun _ => True)
          ({ w with files := gone.foldl Table.delete w.files } : Disk) := by
        refine ⟨hw.orderly, hw.counted, ?_, trivial⟩
        have hcovered : w.files.total + (w.late.map Late.pending).sum + 0 ≤ w.counter := hw.covered
        have htotal' : answer.1 + (gone.foldl Table.delete w.files).total ≤ w.files.total := htotal
        show (gone.foldl Table.delete w.files).total + (w.late.map Late.pending).sum + answer.1 ≤
          w.counter
        omega
      exact ⟨hspare.covers, hspare⟩
  exact .bind (keeps_ask trivial) fun names => .bind (hreap names) fun answer =>
    .bind (keeps_release answer.1) fun _ => keeps_neutral .ensure

theorem keeps_maintenance : Keeps C call Upper (maintenance C) fun _ => Upper := by
  have hraise : ∀ used, Keeps C call Upper (ask (.raiseUsage used)) fun _ => Upper := by
    intro used
    have hraised : ∀ w w' : Disk, Upper w → w.acts (.raiseUsage used) () w' → Upper w' := by
      rintro w w' ⟨horderly, hcounted, hcovered, -⟩ rfl
      exact ⟨horderly, hcounted, hcovered.trans (Nat.le_max_left _ _), trivial⟩
    refine Spec.lift within_stable (fun _ _ => trivial) (fun w w' hw hleft => ?_)
      fun w _ w' hw hacts => ⟨(hraised w w' hw hacts).covers, hraised w w' hw hacts⟩
    rcases hleft with rfl | ⟨_, hacts⟩ | ⟨late, hlate, -⟩
    · exact hw.covers
    · exact (hraised w w' hw hacts).covers
    · cases hlate
  refine .bind keeps_reapOrphans fun _ => .bind (keeps_ask trivial) fun used => ?_
  refine .bind (hraise used) fun _ => .bind keeps_pruneLocked fun _ => ?_
  exact .bind (keeps_ask trivial) fun _ => keeps_ask trivial

/-- The counter was not set yet, and nothing is left of earlier calls. -/
def Unset (w : Disk) : Prop := w.counted = false ∧ w.late = []

theorem Unset.covers (h : Unset w) : Covered w where
  orderly _ _ hmem := by
    rw [h.2] at hmem
    cases hmem
  covered hcounted := by
    rw [h.1] at hcounted
    cases hcounted

theorem not_lands_of_unset (h : Unset w) : ¬ w.lands w' := by
  rintro ⟨before, late, after, _, _, hlate, -⟩
  rw [h.2] at hlate
  simp at hlate

theorem unset_stable : diskMachine.Stable Unset :=
  fun _ _ h henv => (not_lands_of_unset h henv).elim

/-- The effect may come before the counter is set. -/
def Early : LogEffect → Prop
  | .writeAll _ _ _ | .insertChunk _ _ | .setUsage _ | .rename _ _ _ => False
  | _ => True

theorem Notes.early {op : LogEffect} (h : Notes op) : Early op := by
  cases op <;> first | exact trivial | exact h.elim

theorem acts_early {op : LogEffect} {answer : op.Answer} (hop : Early op)
    (h : w.acts op answer w') : w'.counted = w.counted ∧ w'.late = w.late := by
  cases op with
  | writeAll | insertChunk | setUsage | rename => exact hop.elim
  | stat | syncFile | scan | usage =>
    obtain ⟨rfl, -⟩ := h
    exact ⟨rfl, rfl⟩
  | createFile | removeFile =>
    obtain ⟨_, _, rfl⟩ := h
    exact ⟨rfl, rfl⟩
  | reap =>
    obtain ⟨_, -, rfl, -⟩ := h
    exact ⟨rfl, rfl⟩
  | reserve | release | raiseUsage =>
    cases h
    exact ⟨rfl, rfl⟩
  | _ =>
    obtain ⟨db, -, rfl⟩ := h
    exact ⟨rfl, rfl⟩

theorem keeps_early {p : Archived α} (hp : p.Only Early) : Keeps C call Unset p fun _ => Unset := by
  refine Spec.frame hp unset_stable fun op hop w hw => ⟨?_, fun w' hleft => ?_, fun answer w' h => ?_⟩
  · cases op <;> first | exact trivial | exact hop.elim
  · rcases hleft with rfl | ⟨answer, h⟩ | ⟨late, hlate, rfl⟩
    · exact hw.covers
    · obtain ⟨hcounted, hsame⟩ := acts_early hop h
      exact Unset.covers ⟨hcounted.trans hw.1, hsame.trans hw.2⟩
    · refine ⟨fun source target hmem => ?_, fun hcounted => ?_⟩
      · have hlate' : late = .rename source target := by
          rw [hw.2] at hmem
          exact (List.mem_singleton.mp hmem).symm
        subst hlate'
        cases op <;> first | exact hop.elim | cases hlate
      · have hfalse : w.counted = true := hcounted
        rw [hw.1] at hfalse
        cases hfalse
  · obtain ⟨hcounted, hsame⟩ := acts_early hop h
    have hw' : Unset w' := ⟨hcounted.trans hw.1, hsame.trans hw.2⟩
    exact ⟨hw'.covers, hw'⟩

/-- What is counted is all there is. -/
theorem keeps_scan : Keeps C call Unset (ask .scan)
    fun used w => Unset w ∧ used = w.files.total := by
  refine Spec.lift unset_stable (fun _ _ => trivial) (fun w w' hw hleft => ?_)
    fun w used w' hw hacts => ?_
  · rcases hleft with rfl | ⟨_, rfl, -⟩ | ⟨late, hlate, -⟩
    · exact hw.covers
    · exact hw.covers
    · cases hlate
  · obtain ⟨rfl, hused⟩ := hacts
    exact ⟨hw.covers, hw, hused hw.2⟩

theorem keeps_setUsage (used : Nat) :
    Keeps C call (fun w => Unset w ∧ used = w.files.total) (ask (.setUsage used)) fun _ => Upper := by
  have hset : ∀ w w' : Disk, Unset w ∧ used = w.files.total → w.acts (.setUsage used) () w' →
      Upper w' := by
    rintro w w' ⟨⟨-, hlate⟩, rfl⟩ rfl
    refine ⟨fun source target hmem => ?_, rfl, ?_, trivial⟩
    · have hnone : Late.rename source target ∈ w.late := hmem
      rw [hlate] at hnone
      cases hnone
    · show w.files.total + (w.late.map Late.pending).sum + 0 ≤ w.files.total
      rw [hlate]
      exact Nat.le_refl _
  refine Spec.lift (fun w w' hw henv => (not_lands_of_unset hw.1 henv).elim) (fun _ _ => trivial)
    (fun w w' hw hleft => ?_)
    fun w _ w' hw hacts => ⟨(hset w w' hw hacts).covers, hset w w' hw hacts⟩
  rcases hleft with rfl | ⟨_, hacts⟩ | ⟨late, hlate, -⟩
  · exact hw.1.covers
  · exact (hset w w' hw hacts).covers
  · cases hlate

theorem keeps_recover : Keeps C call Unset (recover C) fun _ => Upper := by
  have hreap : reapOrphans.Only Early :=
    .bind (.lift trivial) fun _ => .bind (.lift trivial) fun _ => .bind (.lift trivial) fun _ => .ensure
  refine .bind (keeps_early (.lift trivial)) fun _ => .bind (keeps_early (.lift trivial)) fun _ => ?_
  refine .bind (keeps_early ((sealInterrupted_notes _).mono fun _ => Notes.early)) fun _ => ?_
  refine .bind (keeps_early hreap) fun _ => .bind keeps_scan fun used => ?_
  exact .bind (keeps_setUsage used) fun _ => keeps_pruneLocked

/-! ## Runs -/

theorem archive_disciplined :
    (archiveSession C sha256 codec).Disciplined Covered (Accepts C) where
  env := covered_stable
  idle _ _ hw hlands := covered_stable _ _ hw hlands
  crash _ _ := ⟨fun _ _ hmem => (by cases hmem), fun hcounted => (by cases hcounted)⟩
  safe w call hw hbegins := by
    have hupper : w.counted = true → Upper w := fun hcounted =>
      ⟨hw.orderly, hcounted, hw.covered hcounted, trivial⟩
    have hdone : ∀ {α : Type} {A : Disk → Prop} {p : Archived α} {f : α → ArchiveReply},
        Keeps C call A p (fun _ => Upper) → A w →
          Safe diskMachine Covered (Accepts C call) (p >>= fun a => .done (f a)) (fun _ _ => True) w :=
      fun hp hA => (Spec.bind hp fun _ => Spec.done fun _ _ => trivial) w hA
    cases call with
    | recover => exact hdone keeps_recover hbegins
    | maintenance => exact hdone keeps_maintenance (hupper hbegins)
    | begin => exact hdone keeps_begin (hupper hbegins)
    | append => exact hdone keeps_append (hupper hbegins)
    | command => exact hdone (keeps_notes command_notes) (hupper hbegins)
    | finish => exact hdone (keeps_notes finish_notes) (hupper hbegins)
    | readPage => exact hdone (keeps_reads readPage_reads) (hupper hbegins)

abbrev ArchiveConfig := Session.Config archiveEffects ArchiveCall Disk CoreError ArchiveReply

/-- The counter of a configuration is an upper bound of what its files take, and chunks are only
registered while it is within the quota. -/
structure Bounds (C : LogConfig) (sha256 : ByteArray → String) (codec : CursorCodec)
    (κ : ArchiveConfig) : Prop where
  upper : κ.world.counted = true → κ.world.weight ≤ κ.world.counter
  quota : ∀ event κ' call id row, (archiveSession C sha256 codec).Step κ event κ' →
    event.effect = some (call, .insertChunk id row) →
      κ.world.files.total ≤ κ.world.counter ∧ κ.world.counter ≤ C.quotaBytes

/-- **The counter bounds the files**, whatever a process finds on its disk, and whatever fails, is
cancelled or lands late. -/
theorem counter_bounds_files {κ : ArchiveConfig}
    (h : Reachable (Session.Initial Unset) (archiveSession C sha256 codec).Step κ) :
    Bounds C sha256 codec κ := by
  have hguarded := archive_disciplined.reached (fun _ hw => hw.covers) h
  refine ⟨hguarded.1.covered, fun event κ' call id row hstep heffect => ?_⟩
  obtain ⟨hcounted, hquota⟩ := hguarded.obliged hstep heffect
  exact ⟨(Nat.le_add_right _ _).trans (hguarded.1.covered hcounted), hquota⟩

namespace Sample

/-- Every effect is answered at once and as the disk has it. -/
def diskAnswer (w : Disk) : (op : LogEffect) → Option (op.Answer × Disk)
  | .stat id name => some (match w.files.find (id, name) with
    | some size => .file size
    | none => .absent, w)
  | .createFile id name =>
    if w.files.find (id, name) = none then
      some ((), { w with files := w.files.put (id, name) 0 })
    else none
  | .writeAll id name bytes =>
    some ((), { w with
      files := w.files.grow (id, name) bytes.size
      late := .write (id, name) 0 :: w.late })
  | .syncFile _ _ => if w.late.all (·.pending = 0) then some ((), w) else none
  | .rename id source target =>
    some ((), { w with files := w.files.move (id, source) (id, target) })
  | .removeFile id name =>
    if (w.files.find (id, name)).isSome then
      some ((), { w with files := w.files.delete (id, name) })
    else none
  | .scan => some (w.files.total, w)
  | .reap _ => some ((0, true), w)
  | .usage => some (w.counter, w)
  | .reserve bytes => some ((), { w with counter := w.counter + bytes })
  | .release bytes => some ((), { w with counter := w.counter - bytes })
  | .setUsage bytes => some ((), { w with counter := bytes, counted := true })
  | .raiseUsage bytes => some ((), { w with counter := max w.counter bytes })
  | op => (answer w.db op).map fun result => (result.1, { w with db := result.2 })

theorem diskAnswer_acts (w : Disk) (op : LogEffect) (a : op.Answer) (w' : Disk)
    (h : diskAnswer w op = some (a, w')) : w.acts op a w' := by
  cases op with
  | stat id name =>
    cases h
    refine ⟨rfl, ?_⟩
    cases w.files.find (id, name) <;> rfl
  | createFile id name =>
    simp only [diskAnswer, Option.ite_none_right_eq_some] at h
    obtain ⟨hnone, h⟩ := h
    cases h
    exact ⟨hnone, rfl⟩
  | writeAll =>
    cases h
    exact ⟨_, 0, Nat.le_refl _, rfl⟩
  | syncFile id name =>
    simp only [diskAnswer, Option.ite_none_right_eq_some] at h
    obtain ⟨hall, h⟩ := h
    cases h
    exact ⟨rfl, fun rest hmem => of_decide_eq_true (List.all_eq_true.mp hall _ hmem)⟩
  | removeFile id name =>
    simp only [diskAnswer, Option.ite_none_right_eq_some] at h
    obtain ⟨hfound, h⟩ := h
    cases h
    obtain ⟨size, hsize⟩ := Option.isSome_iff_exists.mp hfound
    exact ⟨size, hsize, rfl⟩
  | scan =>
    cases h
    exact ⟨rfl, fun _ => rfl⟩
  | reap =>
    cases h
    exact ⟨[], fun _ h => (by cases h), rfl, (Nat.zero_add _).le⟩
  | usage =>
    cases h
    exact ⟨rfl, rfl⟩
  | rename | reserve | release | setUsage | raiseUsage =>
    cases h
    rfl
  | _ =>
    simp only [diskAnswer, Option.map_eq_some_iff] at h
    obtain ⟨⟨a', db⟩, hanswer, hpair⟩ := h
    cases hpair
    exact ⟨db, answerWith_acts w.db _ _ _ hanswer, rfl⟩

/-- A call that is answered at once. -/
def diskAfter (w : Disk) (call : ArchiveCall) :
    Disk × Program archiveEffects CoreError ArchiveReply :=
  (serve limits.toLogConfig Sample.sha256 Sample.codec call).play (F := archiveEffects) diskAnswer w

abbrev ReachesAt : ArchiveConfig → Prop :=
  Reachable (Session.Initial Unset) (archiveSession limits.toLogConfig Sample.sha256 Sample.codec).Step

/-- A call that is answered at once is made from here, up to where it gets. -/
theorem reaches_call {w : Disk} {call : ArchiveCall} (h : ReachesAt ⟨w, none⟩)
    (hbegins : (archiveSession limits.toLogConfig Sample.sha256 Sample.codec).begins w call) :
    ReachesAt ⟨(diskAfter w call).1, some (call, (diskAfter w call).2)⟩ :=
  Session.reaches_play_by (fun w op a w' hanswer =>
    ⟨w, .inl rfl, fun _ => .performed (diskAnswer_acts w op a w' hanswer)⟩) (h.next (.begun hbegins))

/-- It returns. -/
theorem reaches_end {w : Disk} {call : ArchiveCall} (h : ReachesAt ⟨w, none⟩)
    (hbegins : (archiveSession limits.toLogConfig Sample.sha256 Sample.codec).begins w call)
    {reply : ArchiveReply} (hended : (diskAfter w call).2.ended = some (.ok reply)) :
    ReachesAt ⟨(diskAfter w call).1, none⟩ := by
  have hcalled := reaches_call h hbegins
  cases hrest : (diskAfter w call).2 with
  | done =>
    rw [hrest] at hcalled
    exact hcalled.next .done
  | fail | perform =>
    rw [hrest] at hended
    cases hended

def blank : Disk := ⟨.empty, ∅, [], 0, false⟩
def recovered := diskAfter blank .recover
def begun := diskAfter recovered.1 (.begin ⟨⟨2⟩, "Create", 0⟩)
def appended := diskAfter begun.1 (.append chunk)

theorem disk_calls : recovered.2.ended = some (.ok .done) ∧ begun.2.ended = some (.ok (.begun ⟨1⟩)) ∧
    (blank.counted, recovered.1.counted, begun.1.counted, appended.1.counted) =
      (false, true, true, true) ∧
    appended.1.weight = 1 ∧ appended.1.counter = 1 := by
  decide +kernel

end Sample

/-- An archive with one file of one byte. -/
theorem counter_bounds_files_sample : ∃ κ : ArchiveConfig, κ.world.weight = 1 ∧
    Bounds Sample.limits.toLogConfig Sample.sha256 Sample.codec κ := by
  obtain ⟨hrecovered, hbegun, hcounted, hweight, -⟩ := Sample.disk_calls
  simp only [Prod.mk.injEq] at hcounted
  obtain ⟨hblank, hcounted₁, hcounted₂, -⟩ := hcounted
  have hopens : (archiveSession Sample.limits.toLogConfig Sample.sha256 Sample.codec).begins
      Sample.blank .recover := ⟨hblank, rfl⟩
  have hbegins : (archiveSession Sample.limits.toLogConfig Sample.sha256 Sample.codec).begins
      Sample.recovered.1 (.begin ⟨⟨2⟩, "Create", 0⟩) := hcounted₁
  have happends : (archiveSession Sample.limits.toLogConfig Sample.sha256 Sample.codec).begins
      Sample.begun.1 (.append Sample.chunk) := hcounted₂
  have hopened := Sample.reaches_end (.of_init ⟨⟨hblank, rfl⟩, rfl⟩) hopens hrecovered
  have hbegan := Sample.reaches_end hopened hbegins hbegun
  have happended := Sample.reaches_call hbegan happends
  exact ⟨_, hweight, counter_bounds_files happended⟩

end Shaula.OperationLogs
