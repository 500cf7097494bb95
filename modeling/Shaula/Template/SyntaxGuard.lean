import Shaula.Core.Worker
import Shaula.Library.Outcome

/-! # The guard before the recursive parser

Template sources are scanned byte by byte before the HCL parser reads them, so that what is nested
or chained too deeply for its stack is refused.  The scanner and HCL itself read brackets, strings,
interpolations and heredocs alike; they may differ in where a block comment and a heredoc end.
-/

namespace Shaula.Template.Guard

open Core Library Library.Outcome

def maxNesting : Nat := 64

def maxOperators : Nat := 64

/-- The bytes of an ASCII text. -/
def ascii (text : String) : Bytes := text.toList.map fun c => c.toNat.toUInt8

def byte (c : Char) : UInt8 := c.toNat.toUInt8

def newline : UInt8 := byte '\n'

/-- What the scanner is inside of. -/
inductive Mode where
  /-- Code, up to a closing bracket. -/
  | code (closing : Option UInt8)
  | quoted
  | heredoc (delimiter : Bytes)
  deriving DecidableEq

/-- Why a scan stops; the last two are the ways it could fail to answer at all. -/
inductive Fault where
  | invalid
  | limited
  | outOfRange
  | unfinished
  deriving DecidableEq

/-- The modes, innermost first, the operators so far, and the position. -/
structure Scan where
  modes : List Mode
  operators : Nat
  position : Nat
  deriving DecidableEq

namespace Scan

def start : Scan where
  modes := [.code none]
  operators := 0
  position := 0

def skip (s : Scan) (n : Nat) : Scan := { s with position := s.position + n }

/-- Enter a mode, past the `n` bytes that open it. -/
def enter (s : Scan) (mode : Mode) (n : Nat) : Scan :=
  { s with modes := mode :: s.modes, position := s.position + n }

/-- Leave the innermost mode, past the `n` bytes that close it. -/
def leave (s : Scan) (n : Nat) : Scan :=
  { s with modes := s.modes.tail, position := s.position + n }

def count (s : Scan) : Scan := { s with operators := s.operators + 1 }

end Scan

/-! ## Reading the text -/

/-- `&bytes[i..]`. -/
def sliceFrom (bytes : Bytes) (i : Nat) : Except Fault Bytes :=
  if i ≤ bytes.length then .ok (bytes.drop i) else .error .outOfRange

/-- `&bytes[i..j]`. -/
def slice (bytes : Bytes) (i j : Nat) : Except Fault Bytes :=
  if i ≤ j ∧ j ≤ bytes.length then .ok ((bytes.drop i).take (j - i)) else .error .outOfRange

/-- `bytes[i]`. -/
def index (bytes : Bytes) (i : Nat) : Except Fault UInt8 := okOr bytes[i]? .outOfRange

def startsWith (text : Bytes) (pattern : String) : Bool := (ascii pattern).isPrefixOf text

/-- Where `pattern` first occurs. -/
def position (pattern : Bytes) : Bytes → Option Nat
  | [] => none
  | b :: text =>
    if pattern.isPrefixOf (b :: text) then some 0 else (position pattern text).map (· + 1)

def isIdentifier (b : UInt8) : Bool :=
  (byte '0' ≤ b && b ≤ byte '9') || (byte 'A' ≤ b && b ≤ byte 'Z') ||
    (byte 'a' ≤ b && b ≤ byte 'z') || b = byte '_' || b = byte '-' || 128 ≤ b

def isBlank (b : UInt8) : Bool := b = byte ' ' || b = byte '\t'

/-- The delimiter of a heredoc whose opening goes on at `i`, and where its text starts. -/
def heredoc (bytes : Bytes) (i : Nat) : Except Fault (Bytes × Nat) := do
  let first := if bytes[i]? = some (byte '-') then i + 1 else i
  let last := first + ((bytes.drop first).takeWhile isIdentifier).length
  let delimiter ← slice bytes first last
  let line := if bytes[last]? = some (byte '\r') then last + 1 else last
  ensure (delimiter ≠ [] ∧ bytes[line]? = some newline) .invalid
  return (delimiter, line + 1)

/-- Where the delimiter of a heredoc ends, if its line starts at `i`. -/
def heredocEnd (bytes : Bytes) (i : Nat) (delimiter : Bytes) : Option Nat :=
  if i ≠ 0 ∧ bytes[i - 1]? ≠ some newline then none
  else
    let first := i + ((bytes.drop i).takeWhile isBlank).length
    let last := first + delimiter.length
    if delimiter.isPrefixOf (bytes.drop first) && !bytes[last]?.any isIdentifier then some last
    else none

/-! ## One token -/

/-- The rules in which the guard and HCL may differ: the length of a block comment, and where a
heredoc ends. -/
structure Rules where
  comment : Bytes → Option Nat
  heredocEnd : Bytes → Nat → Bytes → Option Nat

/-- The guard takes the first closing mark of a comment, also one that begins with the opening. -/
def guardRules : Rules where
  comment text := (position (ascii "*/") text).map (· + 2)
  heredocEnd := heredocEnd

/-- Bytes that make an expression longer without nesting it. -/
def operatorBytes : Bytes := ascii "!?+-*/%&|<>"

/-- One byte of code that begins no comment and no heredoc. -/
def codeByte (s : Scan) (closing : Option UInt8) (rest : Bytes) (b : UInt8) : Except Fault Scan :=
  if b = byte '"' then .ok (s.enter .quoted 1)
  else if b = byte '(' then .ok (s.enter (.code (some (byte ')'))) 1)
  else if b = byte '[' then .ok (s.enter (.code (some (byte ']'))) 1)
  else if b = byte '\x7b' then .ok (s.enter (.code (some (byte '\x7d'))) 1)
  else if b = byte ')' ∨ b = byte ']' ∨ b = byte '\x7d' then
    if some b = closing then .ok (s.leave 1) else .error .invalid
  else if b ∈ operatorBytes then .ok (s.count.skip 1)
  else if b = byte '=' ∧ startsWith rest "==" = true then .ok (s.count.skip 1)
  else .ok (s.skip 1)

/-- One token of code. -/
def codeStep (rules : Rules) (bytes : Bytes) (s : Scan) (closing : Option UInt8) :
    Except Fault Scan := do
  let rest ← sliceFrom bytes s.position
  if startsWith rest "//" || startsWith rest "#" then
    .ok (s.skip (rest.takeWhile (· ≠ newline)).length)
  else if startsWith rest "/*" then
    (okOr (rules.comment rest) .invalid).map s.skip
  else if startsWith rest "<<" then
    (heredoc bytes (s.position + 2)).map fun opened =>
      { s with modes := .heredoc opened.1 :: s.modes, position := opened.2 }
  else (index bytes s.position).bind (codeByte s closing rest)

/-- What a string and a heredoc have in common. -/
def templateStep (s : Scan) (rest : Bytes) : Scan :=
  if startsWith rest "$$\x7b" || startsWith rest "%%\x7b" then s.skip 3
  else if startsWith rest "$\x7b" || startsWith rest "%\x7b" then
    s.count.enter (.code (some (byte '\x7d'))) 2
  else s.skip 1

/-- One token of a string. -/
def quotedStep (bytes : Bytes) (s : Scan) : Except Fault Scan := do
  let rest ← sliceFrom bytes s.position
  let b ← index bytes s.position
  if b = byte '\\' then .ok (s.skip 2)
  else if b = byte '"' then .ok (s.leave 1)
  else .ok (templateStep s rest)

/-- One token of a heredoc. -/
def heredocStep (rules : Rules) (bytes : Bytes) (s : Scan) (delimiter : Bytes) :
    Except Fault Scan := do
  let rest ← sliceFrom bytes s.position
  match rules.heredocEnd bytes s.position delimiter with
  | some last => .ok { s with modes := s.modes.tail, position := last }
  | none => .ok (templateStep s rest)

def step (rules : Rules) (bytes : Bytes) (s : Scan) (mode : Mode) : Except Fault Scan :=
  match mode with
  | .code closing => codeStep rules bytes s closing
  | .quoted => quotedStep bytes s
  | .heredoc delimiter => heredocStep rules bytes s delimiter

/-! ## The guard -/

def Scan.Limited (s : Scan) : Prop := maxNesting < s.modes.length ∨ maxOperators < s.operators

instance (s : Scan) : Decidable s.Limited := by unfold Scan.Limited; infer_instance

/-- The loop of the guard, for as many tokens as the fuel allows. -/
def scan (bytes : Bytes) : Nat → Scan → Except Fault PUnit
  | 0, _ => .error .unfinished
  | fuel + 1, s =>
    match s.modes with
    | [] => .ok ⟨⟩
    | mode :: _ =>
      if s.Limited then .error .limited
      else if bytes.length ≤ s.position then .ok ⟨⟩
      else do
        let s ← step guardRules bytes s mode
        scan bytes fuel s

/-- The guard of a source. -/
def check (bytes : Bytes) : Except Fault PUnit := scan bytes (bytes.length + 1) .start

/-! ## HCL's own scan -/

/-- Nothing but blanks follows on the line. -/
def aloneOnLine (bytes : Bytes) (last : Nat) : Bool :=
  ((bytes.drop last).takeWhile (· ≠ newline)).all fun b => isBlank b || b = byte '\r'

/-- A comment is closed by the first mark after the two bytes that open it, and a heredoc by its
delimiter alone on a line. -/
def hclRules : Rules where
  comment text := (position (ascii "*/") (text.drop 2)).map (· + 4)
  heredocEnd bytes i delimiter := (heredocEnd bytes i delimiter).filter (aloneOnLine bytes)

/-- The scan after one more token, if the text goes on and is well formed there. -/
def hclNext (bytes : Bytes) (s : Scan) : Option Scan :=
  match s.modes with
  | [] => none
  | mode :: _ =>
    if s.position < bytes.length then (step hclRules bytes s mode).toOption else none

/-- What HCL's scan of a text comes to. -/
inductive Reaches (bytes : Bytes) : Scan → Prop
  | start : Reaches bytes .start
  | next {s t : Scan} : Reaches bytes s → hclNext bytes s = some t → Reaches bytes t

/-- No comment begins with `/*/` here, and nothing follows a heredoc on the line that ends it. -/
def plain (bytes : Bytes) (s : Scan) : Bool :=
  match s.modes with
  | .code _ :: _ => !startsWith (bytes.drop s.position) "/*/"
  | .heredoc delimiter :: _ =>
    (heredocEnd bytes s.position delimiter).all (aloneOnLine bytes)
  | _ => true

/-! ## Reading stays in the text -/

theorem startsWith_length {text : Bytes} {pattern : String} (h : startsWith text pattern = true) :
    (ascii pattern).length ≤ text.length :=
  (List.isPrefixOf_iff_prefix.mp h).length_le

theorem sliceFrom_eq {bytes : Bytes} {i : Nat} (h : i ≤ bytes.length) :
    sliceFrom bytes i = .ok (bytes.drop i) := if_pos h

theorem index_eq {bytes : Bytes} {i : Nat} (h : i < bytes.length) :
    index bytes i = .ok bytes[i] := by
  unfold index
  rw [List.getElem?_eq_getElem h]
  rfl

/-- The opening of a heredoc is read within the text, and ends after where it began. -/
theorem heredoc_cases {bytes : Bytes} {i : Nat} (h : i ≤ bytes.length) :
    heredoc bytes i = .error .invalid ∨ ∃ delimiter next,
      heredoc bytes i = .ok (delimiter, next) ∧ delimiter ≠ [] ∧ i < next := by
  have hfirst : (if bytes[i]? = some (byte '-') then i + 1 else i) ≤ bytes.length := by
    split
    · next hdash =>
      obtain ⟨hlt, -⟩ := List.getElem?_eq_some_iff.mp hdash
      omega
    · exact h
  have hle : i ≤ (if bytes[i]? = some (byte '-') then i + 1 else i) := by
    split <;> omega
  unfold heredoc
  generalize (if bytes[i]? = some (byte '-') then i + 1 else i) = first at hfirst hle
  have hrun : ((bytes.drop first).takeWhile isIdentifier).length ≤ bytes.length - first := by
    rw [← List.length_drop]
    exact (List.takeWhile_sublist _).length_le
  have hslice : slice bytes first
      (first + ((bytes.drop first).takeWhile isIdentifier).length) = .ok _ :=
    if_pos ⟨Nat.le_add_right _ _, by omega⟩
  generalize hlast : first + ((bytes.drop first).takeWhile isIdentifier).length = last at hslice
  generalize (bytes.drop first).take (last - first) = delimiter at hslice
  have hline : i < (if bytes[last]? = some (byte '\r') then last + 1 else last) + 1 := by
    split <;> omega
  simp only [hlast, hslice, bind, Except.bind, ensure]
  generalize (if bytes[last]? = some (byte '\r') then last + 1 else last) = line at hline ⊢
  by_cases hopened : delimiter ≠ [] ∧ bytes[line]? = some newline
  · rw [if_pos hopened]
    exact .inr ⟨delimiter, line + 1, rfl, hopened.1, hline⟩
  · rw [if_neg hopened]
    exact .inl rfl

theorem heredocEnd_gt {bytes delimiter : Bytes} {i last : Nat} (hne : delimiter ≠ [])
    (h : heredocEnd bytes i delimiter = some last) : i < last := by
  have hpositive := List.length_pos_iff.mpr hne
  unfold heredocEnd at h
  split at h
  · cases h
  · dsimp only at h
    split at h
    · cases h
      omega
    · cases h

/-! ## Every token moves on -/

/-- The delimiters of the open heredocs are not empty, and outermost is the file itself. -/
structure Scan.WellFormed (s : Scan) : Prop where
  delimited : ∀ delimiter, .heredoc delimiter ∈ s.modes → delimiter ≠ []
  based : s.modes.getLast? = some (.code none)

/-- A token is refused as invalid, or moves on in the text. -/
def Moves (s : Scan) (result : Except Fault Scan) : Prop :=
  result = .error .invalid ∨ ∃ t, result = .ok t ∧ s.position < t.position ∧ t.WellFormed

variable {bytes : Bytes} {s : Scan}

theorem Scan.WellFormed.skip (h : s.WellFormed) {n : Nat} (hn : 0 < n) : Moves s (.ok (s.skip n)) :=
  .inr ⟨_, rfl, Nat.lt_add_of_pos_right hn, h.delimited, h.based⟩

theorem Scan.WellFormed.count (h : s.WellFormed) {n : Nat} (hn : 0 < n) :
    Moves s (.ok (s.count.skip n)) :=
  .inr ⟨_, rfl, Nat.lt_add_of_pos_right hn, h.delimited, h.based⟩

theorem Scan.WellFormed.enter (h : s.WellFormed) {mode : Mode} {n position : Nat}
    (hmode : ∀ delimiter, mode = .heredoc delimiter → delimiter ≠ [])
    (hposition : s.position < position) :
    Moves s (.ok { modes := mode :: s.modes, operators := n, position }) := by
  refine .inr ⟨_, rfl, hposition, ?_, ?_⟩
  · intro delimiter hmem
    rcases List.mem_cons.mp hmem with heq | hmem
    · exact hmode delimiter heq.symm
    · exact h.delimited delimiter hmem
  · rw [List.getLast?_cons, h.based]
    rfl

theorem Scan.WellFormed.leave (h : s.WellFormed) {mode : Mode} {outer : List Mode} {position : Nat}
    (hmodes : s.modes = mode :: outer) (hmode : mode ≠ .code none)
    (hposition : s.position < position) :
    Moves s (.ok { s with modes := s.modes.tail, position }) := by
  refine .inr ⟨_, rfl, hposition, fun delimiter hmem =>
    h.delimited delimiter (List.mem_of_mem_tail hmem), ?_⟩
  have hbased := h.based
  simp only [hmodes, List.tail_cons]
  rw [hmodes, List.getLast?_cons] at hbased
  cases hlast : outer.getLast? with
  | none =>
    rw [hlast] at hbased
    exact absurd (Option.some.inj hbased) hmode
  | some last =>
    rw [hlast] at hbased
    exact hbased

theorem templateStep_moves (h : s.WellFormed) (rest : Bytes) :
    Moves s (.ok (templateStep s rest)) := by
  unfold templateStep
  split
  · exact h.skip (by decide)
  · split
    · exact h.enter nofun (Nat.lt_add_of_pos_right (by decide))
    · exact h.skip (by decide)

theorem quotedStep_moves {outer : List Mode} (h : s.WellFormed) (hmodes : s.modes = .quoted :: outer)
    (hposition : s.position < bytes.length) :
    Moves s (quotedStep bytes s) := by
  simp only [quotedStep, sliceFrom_eq (Nat.le_of_lt hposition), index_eq hposition, bind,
    Except.bind]
  split
  · exact h.skip (by decide)
  · split
    · exact h.leave hmodes nofun (Nat.lt_add_of_pos_right (by decide))
    · exact templateStep_moves h _

theorem heredocStep_moves {delimiter : Bytes} {outer : List Mode} (h : s.WellFormed)
    (hmodes : s.modes = .heredoc delimiter :: outer) (hposition : s.position < bytes.length) :
    Moves s (heredocStep guardRules bytes s delimiter) := by
  simp only [heredocStep, sliceFrom_eq (Nat.le_of_lt hposition), bind, Except.bind]
  split
  · next last hend =>
    have hne : delimiter ≠ [] := h.delimited delimiter (by rw [hmodes]; exact List.mem_cons_self)
    exact h.leave hmodes nofun (heredocEnd_gt hne hend)
  · exact templateStep_moves h _

/-- What begins a line comment is no line end. -/
theorem lineComment_length {rest : Bytes}
    (h : (startsWith rest "//" || startsWith rest "#") = true) :
    0 < (rest.takeWhile (· ≠ newline)).length := by
  cases rest with
  | nil => cases h
  | cons b more =>
    have hfirst : b ≠ newline := by
      rcases Bool.or_eq_true_iff.mp h with h | h
      · obtain ⟨t, ht⟩ := List.isPrefixOf_iff_prefix.mp h
        have hb : byte '/' = b := (List.cons.inj ht).1
        rw [← hb]
        decide
      · obtain ⟨t, ht⟩ := List.isPrefixOf_iff_prefix.mp h
        have hb : byte '#' = b := (List.cons.inj ht).1
        rw [← hb]
        decide
    rw [List.takeWhile_cons_of_pos (by simpa using hfirst)]
    exact Nat.succ_pos _

theorem codeByte_moves {closing : Option UInt8} {outer : List Mode} (h : s.WellFormed)
    (hmodes : s.modes = .code closing :: outer) (rest : Bytes) (b : UInt8) :
    Moves s (codeByte s closing rest b) := by
  have hone : s.position < s.position + 1 := Nat.lt_add_of_pos_right (by decide)
  unfold codeByte
  iterate 4
    split
    · exact h.enter nofun hone
  split
  · split
    · next hcloses =>
      refine h.leave hmodes ?_ hone
      rintro ⟨⟩
      cases hcloses
    · exact .inl rfl
  split
  · exact h.count (by decide)
  split
  · exact h.count (by decide)
  · exact h.skip (by decide)

theorem codeStep_moves {closing : Option UInt8} {outer : List Mode} (h : s.WellFormed)
    (hmodes : s.modes = .code closing :: outer) (hposition : s.position < bytes.length) :
    Moves s (codeStep guardRules bytes s closing) := by
  simp only [codeStep, sliceFrom_eq (Nat.le_of_lt hposition), index_eq hposition, bind,
    Except.bind]
  split
  · next hcomment => exact h.skip (lineComment_length hcomment)
  split
  · cases hlength : guardRules.comment (bytes.drop s.position) with
    | none => exact .inl rfl
    | some n =>
      obtain ⟨m, -, rfl⟩ := Option.map_eq_some_iff.mp hlength
      exact h.skip (Nat.succ_pos _)
  split
  · next hopens =>
    have hlength := startsWith_length hopens
    rw [List.length_drop] at hlength
    have hopening : s.position + 2 ≤ bytes.length := by
      have htwo : (ascii "<<").length = 2 := rfl
      omega
    rcases heredoc_cases hopening with hinvalid | ⟨delimiter, next, hok, hne, hlt⟩
    · rw [hinvalid]
      exact .inl rfl
    · rw [hok]
      refine h.enter ?_ (by omega)
      rintro _ ⟨⟩
      exact hne
  · exact codeByte_moves h hmodes _ _

theorem step_moves {mode : Mode} {outer : List Mode} (h : s.WellFormed)
    (hmodes : s.modes = mode :: outer) (hposition : s.position < bytes.length) :
    Moves s (step guardRules bytes s mode) := by
  cases mode with
  | code closing => exact codeStep_moves h hmodes hposition
  | quoted => exact quotedStep_moves h hmodes hposition
  | heredoc delimiter => exact heredocStep_moves h hmodes hposition

theorem Scan.start_wellFormed : Scan.start.WellFormed := by
  refine ⟨fun delimiter hmem => ?_, rfl⟩
  cases List.mem_singleton.mp hmem

/-- The guard answers: it reads within the text, and every token takes it further. -/
theorem scan_answers {fuel : Nat} (h : s.WellFormed) (hfuel : bytes.length - s.position < fuel) :
    scan bytes fuel s ≠ .error .unfinished ∧ scan bytes fuel s ≠ .error .outOfRange := by
  induction fuel generalizing s with
  | zero => omega
  | succ fuel ih =>
    unfold scan
    split
    · exact ⟨nofun, nofun⟩
    · next mode outer hmodes =>
      split
      · exact ⟨nofun, nofun⟩
      · split
        · exact ⟨nofun, nofun⟩
        · next hmore =>
          rcases step_moves h hmodes (Nat.not_le.mp hmore) with hinvalid | ⟨t, hok, hlt, ht⟩
          · rw [hinvalid]
            exact ⟨nofun, nofun⟩
          · rw [hok]
            exact ih ht (by omega)

/-! ## Where the two scans agree -/

theorem startsWith_comment {rest : Bytes} (h : startsWith rest "/*" = true) :
    ∃ more, rest = byte '/' :: byte '*' :: more := by
  obtain ⟨more, hmore⟩ := List.isPrefixOf_iff_prefix.mp h
  exact ⟨more, hmore.symm⟩

/-- A comment that does not begin with its own closing mark ends at one place. -/
theorem comment_agrees {rest : Bytes} (h : startsWith rest "/*" = true)
    (hplain : startsWith rest "/*/" = false) :
    guardRules.comment rest = hclRules.comment rest := by
  obtain ⟨more, rfl⟩ := startsWith_comment h
  have hskip : position (ascii "*/") (byte '/' :: byte '*' :: more) =
      (position (ascii "*/") more).map (· + 2) := by
    have hfirst : (ascii "*/").isPrefixOf (byte '/' :: byte '*' :: more) = false := rfl
    have hsecond : (ascii "*/").isPrefixOf (byte '*' :: more) = false := by
      cases more with
      | nil => rfl
      | cons b more => exact hplain
    rw [position, if_neg (by rw [hfirst]; decide), position, if_neg (by rw [hsecond]; decide),
      Option.map_map]
    rfl
  simp only [guardRules, hclRules, hskip, List.drop_succ_cons, List.drop_zero, Option.map_map]
  rfl

/-- On plain text a token of HCL is a token of the guard. -/
theorem step_agrees {mode : Mode} {outer : List Mode} (hmodes : s.modes = mode :: outer)
    (hplain : plain bytes s = true) (hposition : s.position < bytes.length) :
    step guardRules bytes s mode = step hclRules bytes s mode := by
  unfold plain at hplain
  rw [hmodes] at hplain
  cases mode with
  | quoted => rfl
  | heredoc delimiter =>
    have hsame : hclRules.heredocEnd bytes s.position delimiter =
        guardRules.heredocEnd bytes s.position delimiter := by
      have hends : (heredocEnd bytes s.position delimiter).all (aloneOnLine bytes) = true := hplain
      show (heredocEnd bytes s.position delimiter).filter (aloneOnLine bytes) =
        heredocEnd bytes s.position delimiter
      cases hend : heredocEnd bytes s.position delimiter with
      | none => rfl
      | some last =>
        rw [hend] at hends
        exact if_pos hends
    simp only [step, heredocStep, hsame]
  | code closing =>
    have hno : startsWith (bytes.drop s.position) "/*/" = false := by simpa using hplain
    simp only [step, codeStep, sliceFrom_eq (Nat.le_of_lt hposition), bind, Except.bind]
    split
    · rfl
    split
    · next hcomment => rw [comment_agrees hcomment hno]
    · rfl

/-- The states of HCL's scan are states of a guard that accepts. -/
theorem scan_of_reaches (hplain : ∀ s, Reaches bytes s → plain bytes s = true)
    (hcheck : check bytes = .ok ⟨⟩) (h : Reaches bytes s) :
    s.WellFormed ∧ ∃ fuel, scan bytes fuel s = .ok ⟨⟩ := by
  induction h with
  | start => exact ⟨Scan.start_wellFormed, _, hcheck⟩
  | @next s t hs hnext ih =>
    obtain ⟨hwell, fuel, hscan⟩ := ih
    unfold hclNext at hnext
    split at hnext
    · cases hnext
    · next mode outer hmodes =>
      split at hnext
      · next hposition =>
        have hstep := step_agrees hmodes (hplain s hs) hposition
        cases fuel with
        | zero => cases hscan
        | succ fuel =>
          have hok := hstep.trans (toOption_eq_some.mp hnext)
          have hnextWell : t.WellFormed := by
            rcases step_moves hwell hmodes hposition with hinvalid | ⟨t', hok', -, ht'⟩
            · cases hinvalid.symm.trans hok
            · cases hok'.symm.trans hok
              exact ht'
          refine ⟨hnextWell, fuel, ?_⟩
          unfold scan at hscan
          simp only [hmodes] at hscan
          split at hscan
          · cases hscan
          · rw [if_neg (Nat.not_le.mpr hposition), hok] at hscan
            exact hscan
      · cases hnext

theorem scan_limited {fuel : Nat} (h : s.WellFormed) (hscan : scan bytes fuel s = .ok ⟨⟩) :
    ¬ s.Limited := by
  cases fuel with
  | zero => cases hscan
  | succ fuel =>
    unfold scan at hscan
    split at hscan
    · next hnil =>
      have hbased := h.based
      rw [hnil] at hbased
      cases hbased
    · split at hscan
      · cases hscan
      · next hlimit => exact hlimit

/-- **The guard bounds the real nesting.**  The guard answers on every text, without reading out of
range.  Where no comment of a text begins with `/*/` and its heredocs end alone on a line, HCL's scan
of a text the guard accepts stays within both limits. -/
theorem nesting_bounded (bytes : Bytes) :
    (check bytes ≠ .error .unfinished ∧ check bytes ≠ .error .outOfRange) ∧
      ((∀ s, Reaches bytes s → plain bytes s = true) → check bytes = .ok ⟨⟩ →
        ∀ s, Reaches bytes s → s.modes.length ≤ maxNesting ∧ s.operators ≤ maxOperators) := by
  refine ⟨scan_answers Scan.start_wellFormed (Nat.lt_succ_of_le (Nat.sub_le _ _)), ?_⟩
  intro hplain hcheck s hs
  obtain ⟨hwell, fuel, hscan⟩ := scan_of_reaches hplain hcheck hs
  have hlimit := scan_limited hwell hscan
  unfold Scan.Limited at hlimit
  omega

/-- HCL's scan after some tokens. -/
def hclAfter (bytes : Bytes) : Nat → Option Scan
  | 0 => some .start
  | n + 1 => (hclAfter bytes n).bind (hclNext bytes)

theorem reaches_of_hclAfter {n : Nat} (h : hclAfter bytes n = some s) : Reaches bytes s := by
  induction n generalizing s with
  | zero =>
    cases h
    exact .start
  | succ n ih =>
    obtain ⟨t, ht, hnext⟩ := Option.bind_eq_some_iff.mp h
    exact (ih ht).next hnext

/-- A set of states that holds the start and every next state holds all that a scan reaches. -/
theorem Reaches.mem {states : List Scan} (hstart : .start ∈ states)
    (hnext : ∀ s ∈ states, ∀ t ∈ hclNext bytes s, t ∈ states) (h : Reaches bytes s) :
    s ∈ states := by
  induction h with
  | start => exact hstart
  | next _ hstep ih => exact hnext _ ih _ hstep

/-- One bracket inside another. -/
theorem nesting_bounded_sample :
    check (ascii "[(]") = .error .invalid ∧
      ∀ s, Reaches (ascii "[()]") s → s.modes.length ≤ maxNesting ∧ s.operators ≤ maxOperators := by
  have hstates : ∀ s, Reaches (ascii "[()]") s →
      s ∈ (List.range 5).filterMap (hclAfter (ascii "[()]")) :=
    fun s hs => hs.mem (by decide +kernel) (by decide +kernel)
  have hplain : ∀ s ∈ (List.range 5).filterMap (hclAfter (ascii "[()]")),
      plain (ascii "[()]") s = true := by
    decide +kernel
  exact ⟨by decide +kernel, (nesting_bounded (ascii "[()]")).2
    (fun s hs => hplain s (hstates s hs)) (by decide +kernel)⟩

/-- A comment that goes on after `/*/`, with a quote in it. -/
def oddComment : Bytes := ascii "/*/\"*/" ++ List.replicate 64 (byte '[')

/-- The guard takes the comment to end before its quote, and what follows for a string. -/
theorem odd_comment_hides_nesting :
    check oddComment = .ok ⟨⟩ ∧ ∃ s, Reaches oddComment s ∧ maxNesting < s.modes.length := by
  have hdepth : (hclAfter oddComment 65).any (fun s => maxNesting < s.modes.length) = true := by
    decide +kernel
  obtain ⟨s, hs, hdeep⟩ := (Option.any_eq_true _ _).mp hdepth
  exact ⟨by decide +kernel, s, reaches_of_hclAfter hs, of_decide_eq_true hdeep⟩

end Shaula.Template.Guard
