import Shaula.Library.Replace
import Shaula.Template.SensitiveValues

/-! # Released of operation output

The output of an operation is published record by record.  Known values are replaced in place before
any pattern is looked for, and a record that cannot be redacted safely is withheld.
-/

namespace Shaula.Template

open Core Library Registry

/-- The marker that a known value gives way to. -/
def markerWord : List Char := "REDACTED".toList

def marker : List Char := '[' :: markerWord ++ [']']

/-- A record as it leaves the sanitizer, and whether its own text was withheld. -/
structure Released where
  text : String
  withheld : Bool
  deriving DecidableEq

/-- What is published in place of a record that is withheld. -/
def withheldRecord : Released where
  text := "[Shaula: diagnostic withheld by publication policy]\n"
  withheld := true

/-- What is published for a record without text. -/
def blankRecord : Released where
  text := "\n"
  withheld := false

/-- The regular expressions of the pattern stage. -/
structure Patterns where
  /-- The text holds a workflow command. -/
  actionsCommand : List Char → Bool
  /-- Sensitive assignments, pairs and tokens are redacted; `none` when that failed. -/
  redactInline : List Char → Option (List Char)

/-! ## One record -/

def containsText (text part : List Char) : Bool := decide (part <:+: text)

/-- What is left of a record before its pattern stage. -/
inductive Prepared where
  | withheld
  | blank
  | text (value : List Char)

def newline : UInt8 := 10

/-- A text without the line ends after it. -/
def trimLineEnds (text : List Char) : List Char :=
  (text.reverse.dropWhile fun c => c = '\r' || c = '\n').reverse

/-- Known values are replaced, and what cannot be published is withheld. -/
def prepare (patterns : Patterns) (values : SensitiveValues) (pending : Bytes) : Prepared :=
  if values.exhausted then .withheld
  else
    match String.fromUTF8? ⟨pending.toArray⟩ with
    | none => .withheld
    | some text =>
      let text := replaceEach marker (values.values.map String.toList) text.toList
      let text := trimLineEnds text
      if text = [] then .blank
      else if text.any (fun c => Core.isControl c && c != '\t') || containsText text "##[".toList ||
          patterns.actionsCommand text then .withheld
      else .text text

/-- The pattern stage of one line; the flag is up inside a block of key material. -/
def diagnosticLine (patterns : Patterns) (pem : Bool) (text : List Char) :
    Bool × Option (List Char) :=
  let content := ((text.dropWhile isWhiteSpace).dropWhile (· = '│')).dropWhile isWhiteSpace
  if pem || containsText content "-----BEGIN ".toList then
    (!containsText content "-----END ".toList, none)
  else (pem, patterns.redactInline text)

/-- A record, from its bytes to what is published for it. -/
def record (patterns : Patterns) (values : SensitiveValues) (pem : Bool) (pending : Bytes) :
    Bool × Released :=
  match prepare patterns values pending with
  | .withheld => (pem, withheldRecord)
  | .blank => (pem, blankRecord)
  | .text text =>
    match diagnosticLine patterns pem text with
    | (pem, some line) => (pem, { text := String.ofList (line ++ ['\n']), withheld := false })
    | (pem, none) => (pem, withheldRecord)

/-! ## The stream -/

/-- The bytes of the record that is still open. -/
structure Sanitizer where
  pending : Bytes
  dropping : Bool
  pem : Bool

namespace Sanitizer

def new : Sanitizer where
  pending := []
  dropping := false
  pem := false

variable (patterns : Patterns) (values : SensitiveValues)

/-- One byte of the output. -/
def push (s : Sanitizer) (byte : UInt8) : Sanitizer × List Released :=
  if s.dropping then ({ s with dropping := byte != newline }, [])
  else
    let pending := s.pending ++ [byte]
    if recordLimit < pending.length then
      ({ s with pending := [], dropping := byte != newline }, [withheldRecord])
    else if byte = newline then
      let (pem, published) := record patterns values s.pem pending
      ({ s with pending := [], pem }, [published])
    else ({ s with pending }, [])

/-- Only complete records leave the sanitizer. -/
def feed (s : Sanitizer) : Bytes → Sanitizer × List Released
  | [] => (s, [])
  | byte :: bytes =>
    let (s, first) := s.push patterns values byte
    let (s, rest) := s.feed bytes
    (s, first ++ rest)

def finish (s : Sanitizer) (complete : Bool) : Sanitizer × Option Released :=
  if s.pending = [] then (s, none)
  else if complete then
    let (pem, published) := record patterns values s.pem s.pending
    ({ s with pending := [], pem }, some published)
  else ({ s with pending := [] }, some withheldRecord)

/-- The chunks of a stream, one after the other. -/
def feedAll (s : Sanitizer) : List Bytes → Sanitizer × List Released
  | [] => (s, [])
  | chunk :: chunks =>
    let (s, first) := s.feed patterns values chunk
    let (s, rest) := s.feedAll chunks
    (s, first ++ rest)

/-- All that is published of a stream that arrives in `chunks`. -/
def published (chunks : List Bytes) (complete : Bool) : List Released :=
  let (s, released) := new.feedAll patterns values chunks
  released ++ (s.finish patterns values complete).2.toList

end Sanitizer

/-! ## The whole stream -/

/-- The records of a stream that `rest` is already open for, and what stays open. -/
def recordsOf (rest : Bytes) : Bytes → List Bytes × Bytes
  | [] => ([], rest)
  | byte :: bytes =>
    if byte = newline then
      ((rest ++ [byte]) :: (recordsOf [] bytes).1, (recordsOf [] bytes).2)
    else recordsOf (rest ++ [byte]) bytes

/-- What is published for the records of a stream, one after the other. -/
def publishAll (patterns : Patterns) (values : SensitiveValues) (pem : Bool) :
    List Bytes → Bool × List Released
  | [] => (pem, [])
  | bytes :: later =>
    let (pem, first) :=
      if recordLimit < bytes.length then (pem, withheldRecord) else record patterns values pem bytes
    let (pem, rest) := publishAll patterns values pem later
    (pem, first :: rest)

/-- The records that may be published: the complete ones, and what stays open where the stream ended
as it should. -/
def publishable (stream : Bytes) (complete : Bool) : List Bytes :=
  if complete = true ∧ (recordsOf [] stream).2 ≠ [] then
    (recordsOf [] stream).1 ++ [(recordsOf [] stream).2]
  else (recordsOf [] stream).1

/-- What is published of a whole stream: its records in order, and for a fragment the notice. -/
def publishStream (patterns : Patterns) (values : SensitiveValues) (stream : Bytes)
    (complete : Bool) : List Released :=
  (publishAll patterns values false (publishable stream complete)).2 ++
    if complete = false ∧ (recordsOf [] stream).2 ≠ [] then [withheldRecord] else []

/-! ## The stream in chunks is the whole stream -/

variable {patterns : Patterns} {values : SensitiveValues} {pem : Bool}

namespace Sanitizer

/-- The state in which the record `rest` is open. -/
def opened (pem : Bool) (rest : Bytes) : Sanitizer where
  pending := if recordLimit < rest.length then [] else rest
  dropping := decide (recordLimit < rest.length)
  pem := pem

/-- The notice for an open record that is too long already. -/
def early (rest : Bytes) : List Released :=
  if recordLimit < rest.length then [withheldRecord] else []

theorem opened_of_le {rest : Bytes} (h : rest.length ≤ recordLimit) :
    opened pem rest = { pending := rest, dropping := false, pem } := by
  have hnot : ¬ recordLimit < rest.length := Nat.not_lt.mpr h
  simp only [opened, hnot, if_false, decide_false]

theorem opened_of_lt {rest : Bytes} (h : recordLimit < rest.length) :
    opened pem rest = { pending := [], dropping := true, pem } := by
  simp only [opened, h, if_true, decide_true]

/-- What one byte does to an open record. -/
theorem push_opened (pem : Bool) (rest : Bytes) (byte : UInt8) :
    (opened pem rest).push patterns values byte =
      if byte = newline then
        if recordLimit < rest.length then (opened pem [], [])
        else if recordLimit < (rest ++ [byte]).length then (opened pem [], [withheldRecord])
        else (opened (record patterns values pem (rest ++ [byte])).1 [],
          [(record patterns values pem (rest ++ [byte])).2])
      else if recordLimit < rest.length then (opened pem (rest ++ [byte]), [])
      else (opened pem (rest ++ [byte]), early (rest ++ [byte])) := by
  have hempty : ∀ pem, opened pem [] = { pending := [], dropping := false, pem } :=
    fun _ => opened_of_le (Nat.zero_le _)
  by_cases hlong : recordLimit < rest.length
  · have hlonger : recordLimit < (rest ++ [byte]).length := by
      rw [List.length_append]
      omega
    rw [opened_of_lt hlong, hempty, opened_of_lt hlonger, if_pos hlong, if_pos hlong]
    by_cases hbyte : byte = newline <;> simp [push, hbyte]
  · have hle : rest.length ≤ recordLimit := Nat.not_lt.mp hlong
    rw [opened_of_le hle, hempty, hempty, if_neg hlong, if_neg hlong]
    by_cases hnext : recordLimit < (rest ++ [byte]).length
    · rw [opened_of_lt hnext, early, if_pos hnext, if_pos hnext]
      by_cases hbyte : byte = newline
      · subst hbyte
        simp only [push, hnext, bne_self_eq_false, Bool.false_eq_true, if_true, if_false]
      · simp only [push, hnext, hbyte, Bool.false_eq_true, if_true, if_false]
        simp [hbyte]
    · rw [opened_of_le (Nat.not_lt.mp hnext), early, if_neg hnext, if_neg hnext]
      by_cases hbyte : byte = newline
      · subst hbyte
        simp only [push, hnext, Bool.false_eq_true, if_true, if_false]
      · simp only [push, hnext, hbyte, Bool.false_eq_true, if_false]

/-- Feeding bytes to an open record publishes the records they complete. -/
theorem feed_opened (bytes rest : Bytes) (pem : Bool) :
    ((opened pem rest).feed patterns values bytes).1 =
        opened (publishAll patterns values pem (recordsOf rest bytes).1).1
          (recordsOf rest bytes).2 ∧
      early rest ++ ((opened pem rest).feed patterns values bytes).2 =
        (publishAll patterns values pem (recordsOf rest bytes).1).2 ++
          early (recordsOf rest bytes).2 := by
  induction bytes generalizing rest pem with
  | nil => exact ⟨rfl, List.append_nil _⟩
  | cons byte bytes ih =>
    have hearly : early [] = [] := if_neg (Nat.not_lt.mpr (Nat.zero_le _))
    by_cases hbyte : byte = newline
    · have hrecords : recordsOf rest (byte :: bytes) =
          ((rest ++ [byte]) :: (recordsOf [] bytes).1, (recordsOf [] bytes).2) := if_pos hbyte
      rw [hrecords]
      simp only [feed, publishAll, push_opened, hbyte, if_true]
      by_cases hlong : recordLimit < rest.length
      · have hlonger : recordLimit < (rest ++ [newline]).length := by
          rw [List.length_append]
          omega
        obtain ⟨hstate, hreleased⟩ := ih [] pem
        rw [hearly, List.nil_append] at hreleased
        simp only [hlong, hlonger, if_true, early, List.nil_append, List.cons_append] at hreleased ⊢
        exact ⟨hstate, congrArg _ hreleased⟩
      · have hnone : early rest = [] := if_neg hlong
        rw [hnone, if_neg hlong]
        by_cases hnext : recordLimit < (rest ++ [newline]).length
        · obtain ⟨hstate, hreleased⟩ := ih [] pem
          rw [hearly, List.nil_append] at hreleased
          simp only [hnext, if_true, List.nil_append, List.cons_append]
          exact ⟨hstate, congrArg _ hreleased⟩
        · obtain ⟨hstate, hreleased⟩ := ih [] (record patterns values pem (rest ++ [newline])).1
          rw [hearly, List.nil_append] at hreleased
          simp only [hnext, if_false, List.nil_append, List.cons_append]
          exact ⟨hstate, congrArg _ hreleased⟩
    · have hrecords : recordsOf rest (byte :: bytes) = recordsOf (rest ++ [byte]) bytes :=
        if_neg hbyte
      rw [hrecords]
      obtain ⟨hstate, hreleased⟩ := ih (rest ++ [byte]) pem
      simp only [feed, push_opened, hbyte, if_false]
      by_cases hlong : recordLimit < rest.length
      · have hlonger : recordLimit < (rest ++ [byte]).length := by
          rw [List.length_append]
          omega
        have hboth : early rest = early (rest ++ [byte]) := by
          rw [early, early, if_pos hlong, if_pos hlonger]
        rw [if_pos hlong, hboth]
        exact ⟨hstate, hreleased⟩
      · have hnone : early rest = [] := if_neg hlong
        rw [if_neg hlong, hnone]
        exact ⟨hstate, hreleased⟩

theorem feed_append (s : Sanitizer) (first rest : Bytes) :
    s.feed patterns values (first ++ rest) =
      (((s.feed patterns values first).1.feed patterns values rest).1,
        (s.feed patterns values first).2 ++
          ((s.feed patterns values first).1.feed patterns values rest).2) := by
  induction first generalizing s with
  | nil => rfl
  | cons byte first ih =>
    simp only [List.cons_append, feed, ih, List.append_assoc]

/-- How a stream is cut does not matter. -/
theorem feedAll_eq (s : Sanitizer) (chunks : List Bytes) :
    s.feedAll patterns values chunks = s.feed patterns values chunks.flatten := by
  induction chunks generalizing s with
  | nil => rfl
  | cons chunk chunks ih =>
    rw [List.flatten_cons, feed_append]
    simp only [feedAll, ih]

/-- The end of a stream publishes what is open as a record, or as the notice. -/
theorem finish_opened (rest : Bytes) (complete : Bool) :
    early rest ++ ((opened pem rest).finish patterns values complete).2.toList =
      if rest = [] then []
      else if recordLimit < rest.length ∨ complete = false then [withheldRecord]
      else [(record patterns values pem rest).2] := by
  by_cases hlong : recordLimit < rest.length
  · have hne : rest ≠ [] := by
      rintro rfl
      exact absurd hlong (Nat.not_lt.mpr (Nat.zero_le _))
    rw [opened_of_lt hlong, early, if_pos hlong, if_neg hne, if_pos (.inl hlong)]
    rfl
  · rw [opened_of_le (Nat.not_lt.mp hlong), early, if_neg hlong, List.nil_append]
    by_cases hne : rest = []
    · simp only [finish, hne, if_true]
      rfl
    · cases complete with
      | true => simp only [finish, hne, hlong, if_true, if_false, false_or, Bool.true_eq_false,
          Option.toList_some]
      | false => simp only [finish, hne, if_true, if_false, or_true, Bool.false_eq_true,
          Option.toList_some]

end Sanitizer

theorem publishAll_append (records later : List Bytes) :
    publishAll patterns values pem (records ++ later) =
      ((publishAll patterns values (publishAll patterns values pem records).1 later).1,
        (publishAll patterns values pem records).2 ++
          (publishAll patterns values (publishAll patterns values pem records).1 later).2) := by
  induction records generalizing pem with
  | nil => rfl
  | cons bytes records ih => simp only [List.cons_append, publishAll, ih]

/-- **Streaming.**  What is published of a stream in chunks is what is published of the whole. -/
theorem published_eq (chunks : List Bytes) (complete : Bool) :
    Sanitizer.published patterns values chunks complete =
      publishStream patterns values chunks.flatten complete := by
  have hnew : Sanitizer.new = Sanitizer.opened false [] :=
    (Sanitizer.opened_of_le (Nat.zero_le _)).symm
  have hearly : Sanitizer.early [] = [] := if_neg (Nat.not_lt.mpr (Nat.zero_le _))
  obtain ⟨hstate, hreleased⟩ :=
    @Sanitizer.feed_opened patterns values chunks.flatten [] false
  rw [hearly, List.nil_append] at hreleased
  simp only [Sanitizer.published, Sanitizer.feedAll_eq, hnew, hstate, hreleased]
  rw [List.append_assoc, Sanitizer.finish_opened]
  unfold publishStream publishable
  by_cases hrest : (recordsOf [] chunks.flatten).2 = []
  · simp [hrest]
  · cases complete with
    | false => simp [hrest]
    | true =>
      simp only [hrest, ne_eq, not_false_eq_true, and_self, if_true, if_false, or_false,
        Bool.true_eq_false, false_and, List.append_nil, publishAll_append, publishAll]
      split <;> rfl

/-! ## What is published -/

/-- A list without the line ends after it is a front of it. -/
theorem trimLineEnds_within (text : List Char) : trimLineEnds text <:+: text := by
  have hsuffix : (text.reverse.dropWhile fun c => c = '\r' || c = '\n') <:+ text.reverse :=
    List.dropWhile_suffix _
  have hprefixed := List.reverse_prefix.mpr hsuffix
  rw [List.reverse_reverse] at hprefixed
  exact hprefixed.isInfix

/-- A known value that can be told from the marker. -/
abbrev Distinct (value : String) : Prop := Unmarked '[' ']' markerWord value.toList

/-- A record that is published with its text holds no known value before its pattern stage. -/
theorem prepare_text {pending : Bytes} {text : List Char}
    (hvalues : ∀ v ∈ values.values, Distinct v)
    (h : prepare patterns values pending = .text text) :
    ∀ v ∈ values.values, ¬ v.toList <:+: text := by
  unfold prepare at h
  split at h
  · cases h
  · split at h
    · cases h
    · next decoded _ =>
      dsimp only at h
      split at h
      · cases h
      · split at h
        · cases h
        · cases h
          intro v hv hwithin
          have hall : ∀ p ∈ values.values.map String.toList, Unmarked '[' ']' markerWord p := by
            intro p hp
            obtain ⟨v, hv, rfl⟩ := List.mem_map.mp hp
            exact hvalues v hv
          exact not_infix_replaceEach hall v.toList (List.mem_map_of_mem hv)
            (hwithin.trans (trimLineEnds_within _))

/-- What the record `bytes` of the stream is published as. -/
inductive Publishes (patterns : Patterns) (values : SensitiveValues) (bytes : Bytes) :
    Released → Prop
  | withheld : Publishes patterns values bytes withheldRecord
  | blank : Publishes patterns values bytes blankRecord
  | text {text line : List Char} : bytes.length ≤ recordLimit →
      prepare patterns values bytes = .text text → (∀ v ∈ values.values, ¬ v.toList <:+: text) →
      patterns.redactInline text = some line →
      Publishes patterns values bytes { text := String.ofList (line ++ ['\n']), withheld := false }

theorem publishes_record (hvalues : ∀ v ∈ values.values, Distinct v) {bytes : Bytes}
    (hbytes : bytes.length ≤ recordLimit) :
    Publishes patterns values bytes (record patterns values pem bytes).2 := by
  unfold record
  split
  · exact .withheld
  · exact .blank
  · next text hprepare =>
    split
    · next line hline =>
      refine .text hbytes hprepare (prepare_text hvalues hprepare) ?_
      unfold diagnosticLine at hline
      dsimp only at hline
      split at hline
      · cases congrArg Prod.snd hline
      · exact congrArg Prod.snd hline
    · exact .withheld

theorem mem_publishAll (hvalues : ∀ v ∈ values.values, Distinct v) {records : List Bytes}
    {r : Released} (h : r ∈ (publishAll patterns values pem records).2) :
    ∃ bytes ∈ records, Publishes patterns values bytes r := by
  induction records generalizing pem with
  | nil => cases h
  | cons bytes records ih =>
    simp only [publishAll, List.mem_cons] at h
    rcases h with rfl | hlater
    · refine ⟨bytes, List.mem_cons_self, ?_⟩
      split
      · exact .withheld
      · next hshort => exact publishes_record hvalues (Nat.not_lt.mp hshort)
    · obtain ⟨bytes', hmem, hpublishes⟩ := ih hlater
      exact ⟨bytes', List.mem_cons_of_mem _ hmem, hpublishes⟩

/-- A record that was closed ends in its newline. -/
theorem mem_recordsOf {stream rest bytes : Bytes} (h : bytes ∈ (recordsOf rest stream).1) :
    ∃ body, bytes = body ++ [newline] := by
  induction stream generalizing rest with
  | nil => cases h
  | cons byte stream ih =>
    unfold recordsOf at h
    split at h
    · next hbyte =>
      rcases List.mem_cons.mp h with rfl | h
      · exact ⟨rest, by rw [hbyte]⟩
      · exact ih h
    · exact ih h

/-- Nothing of a fragment is published: without its newline a record has to end the stream. -/
theorem mem_publishable {stream bytes : Bytes} {complete : Bool}
    (h : bytes ∈ publishable stream complete) :
    (∃ body, bytes = body ++ [newline]) ∨ complete = true := by
  unfold publishable at h
  split at h
  · next hcomplete => exact .inr hcomplete.1
  · exact .inl (mem_recordsOf h)

theorem Sanitizer.pending_bounded (chunks : List Bytes) :
    (Sanitizer.new.feedAll patterns values chunks).1.pending.length ≤ recordLimit := by
  have hnew : Sanitizer.new = Sanitizer.opened false [] :=
    (Sanitizer.opened_of_le (Nat.zero_le _)).symm
  rw [Sanitizer.feedAll_eq, hnew, (Sanitizer.feed_opened _ _ _).1]
  unfold Sanitizer.opened
  split
  · exact Nat.zero_le _
  · next hshort => exact Nat.not_lt.mp hshort

/-- **The log sanitizer never publishes a known value.**  However a stream is cut, what is published
is the notice, an empty record, or a whole record of the stream within the limit whose text, when the
pattern stage reads it, holds no known value; all of it depends on the stream only, and no more than
one record is ever buffered. -/
theorem no_known_value_published (patterns : Patterns) (values : SensitiveValues)
    (hvalues : ∀ v ∈ values.values, Distinct v) :
    (∀ chunks complete, Sanitizer.published patterns values chunks complete =
        publishStream patterns values chunks.flatten complete) ∧
      (∀ chunks chunks' complete, chunks.flatten = chunks'.flatten →
        Sanitizer.published patterns values chunks complete =
          Sanitizer.published patterns values chunks' complete) ∧
      (∀ chunks complete, ∀ r ∈ Sanitizer.published patterns values chunks complete,
        r = withheldRecord ∨ ∃ bytes ∈ publishable chunks.flatten complete,
          ((∃ body, bytes = body ++ [newline]) ∨ complete = true) ∧
            Publishes patterns values bytes r) ∧
      ∀ chunks, (Sanitizer.new.feedAll patterns values chunks).1.pending.length ≤ recordLimit := by
  refine ⟨published_eq, ?_, ?_, Sanitizer.pending_bounded⟩
  · intro chunks chunks' complete hsame
    rw [published_eq, published_eq, hsame]
  · intro chunks complete r hr
    rw [published_eq] at hr
    unfold publishStream at hr
    rcases List.mem_append.mp hr with hr | hr
    · obtain ⟨bytes, hmem, hpublishes⟩ := mem_publishAll hvalues hr
      exact .inr ⟨bytes, hmem, mem_publishable hmem, hpublishes⟩
    · split at hr
      · exact .inl (List.mem_singleton.mp hr)
      · cases hr

/-- Patterns that find nothing. -/
def plainPatterns : Patterns where
  actionsCommand _ := false
  redactInline := some

/-- One known value. -/
def policyValues : SensitiveValues where
  values := ["policy"]
  bytes := 6
  exhausted := false
  few := by decide
  sized := by decide
  budget := by decide

theorem policy_distinct : ∀ v ∈ policyValues.values, Distinct v := by
  intro v hv
  cases List.mem_singleton.mp hv
  exact ⟨by decide, by decide, by decide⟩

/-- A known value cut in two by a chunk is published as if it came whole. -/
theorem no_known_value_published_sample :
    Sanitizer.published plainPatterns policyValues [[112, 111, 108], [105, 99, 121, 10]] true =
        Sanitizer.published plainPatterns policyValues [[112, 111, 108, 105, 99, 121, 10]] true ∧
      ∀ chunks : List Bytes,
        (Sanitizer.new.feedAll plainPatterns policyValues chunks).1.pending.length ≤
          recordLimit :=
  ⟨(no_known_value_published plainPatterns policyValues policy_distinct).2.1 _ _ _ rfl,
    (no_known_value_published plainPatterns policyValues policy_distinct).2.2.2⟩

/-- The notice for a fragment is fixed, and holds a known value that is a word of it. -/
theorem notice_holds_a_value :
    ∃ r ∈ Sanitizer.published plainPatterns policyValues [[120]] false,
      ∃ v ∈ policyValues.values, Distinct v ∧ v.toList <:+: r.text.toList := by
  refine ⟨withheldRecord, ?_, "policy", List.mem_singleton_self _, ?_, by decide⟩
  · have hpublished : Sanitizer.published plainPatterns policyValues [[120]] false =
        [withheldRecord] := by
      decide
    rw [hpublished]
    exact List.mem_singleton_self _
  · exact policy_distinct _ (List.mem_singleton_self _)

end Shaula.Template
