import Shaula.Library.Digest
import Shaula.Template.Lockfile
import Shaula.Template.SyntaxGuard
import Mathlib.Algebra.Order.Group.Multiset
import Mathlib.Data.Bool.AllAny
import Mathlib.Data.List.TakeWhile

/-! # What the commitment of a lock covers

The checksums of a provider are the quoted entries of the `hashes` lists of its block.  They are read
here one character after the other, on whichever lines of the list they stand, and compared with the
entries that reach the commitment.
-/

namespace Shaula.Template.Lockfile

open Core Library Library.Outcome Registry

/-! ## The entries of a list -/

/-- Where in a list a character stands. -/
inductive Place where
  | outside
  | list
  /-- After a slash that may begin a comment. -/
  | slash
  /-- In a comment up to the end of the line. -/
  | remark
  /-- In a comment up to its closing mark. -/
  | comment
  | star
  | quoted (text : Line)
  | escaped (text : Line)
  deriving DecidableEq

/-- The part of an entry that was read. -/
def Place.text : Place → Line
  | .quoted text => text
  | .escaped text => text
  | _ => []

/-- The entries read of a list, and where the next character stands. -/
structure Listing where
  entries : List String
  place : Place

/-- What one character begins in a list. -/
def opened (c : Char) : Place :=
  if c = '"' then .quoted []
  else if c = ']' then .outside
  else if c = '#' then .remark
  else if c = '/' then .slash
  else .list

namespace Listing

def move (l : Listing) (place : Place) : Listing := { l with place }

def char (l : Listing) (c : Char) : Listing :=
  match l.place with
  | .outside | .remark => l
  | .list => l.move (opened c)
  | .slash =>
    if c = '/' then l.move .remark else if c = '*' then l.move .comment else l.move (opened c)
  | .comment => if c = '*' then l.move .star else l
  | .star =>
    if c = '/' then l.move .list else if c = '*' then l else l.move .comment
  | .quoted text =>
    if c = '"' then { entries := l.entries ++ [String.ofList text], place := .list }
    else if c = '\\' then l.move (.escaped text)
    else l.move (.quoted (text ++ [c]))
  | .escaped text => l.move (.quoted (text ++ ['\\', c]))

/-- Comments and strings end with their line, but for a comment with a closing mark. -/
def endLine (l : Listing) : Listing :=
  match l.place with
  | .outside => l
  | .comment | .star => l.move .comment
  | _ => l.move .list

def read (l : Listing) (text : Line) : Listing := text.foldl char l

def line (l : Listing) (text : Line) : Listing := (l.read text).endLine

end Listing

/-- The entries on one line of a list. -/
def entriesOn (text : Line) : List String := (Listing.line ⟨[], .list⟩ text).entries

/-! ## The lists of a block -/

/-- HCL's scan of a text, for as many tokens as the fuel allows. -/
def hclScan (bytes : Bytes) : Nat → Guard.Scan → Option Guard.Scan
  | 0, s => some s
  | fuel + 1, s =>
    if bytes.length ≤ s.position then some s
    else (Guard.hclNext bytes s).bind (hclScan bytes fuel)

/-- After these lines HCL is at the top of the block: no bracket, string, heredoc or comment is
open. -/
def atTop (before : List Line) : Bool :=
  let bytes := Core.utf8 (unlines (before.map String.ofList))
  (hclScan bytes bytes.length .start).any fun s => s.modes = [.code none]

/-- Behind blanks and comments, unless the line ends in a comment. -/
def skipComments : Bool → Line → Option Line
  | false, ' ' :: rest => skipComments false rest
  | false, '\t' :: rest => skipComments false rest
  | false, '/' :: '*' :: rest => skipComments true rest
  | false, rest => some rest
  | true, '*' :: '/' :: rest => skipComments false rest
  | true, _ :: rest => skipComments true rest
  | true, [] => none

/-- What follows the equals sign of `hashes =`, or a comment before it that the line leaves open. -/
def hashesValue (line : Line) : Option (Option Line) := do
  let rest ← stripPrefix "hashes" line
  match skipComments false rest with
  | none => some none
  | some rest => (stripPrefix "=" rest).map (skipComments false)

/-- What follows the bracket of `hashes = [`. -/
def hashesArgument (line : Line) : Option Line := do
  stripPrefix "[" (← (← hashesValue line))

/-- What follows the bracket, if the line opens a `hashes` list after these lines of its block. -/
def opensHashes (before : List Line) (line : Line) : Option Line :=
  (hashesArgument line).filter fun _ => atTop before

/-- One line of a block, after these. -/
def Listing.blockLine (l : Listing) (before : List Line) (line : Line) : Listing :=
  if l.place = .outside then
    match opensHashes before line with
    | some text => (l.move .list).line text
    | none => l
  else l.line line

def Listing.blockLines (l : Listing) (before : List Line) : List Line → Listing
  | [] => l
  | line :: rest => (l.blockLine before line).blockLines (before ++ [line]) rest

/-- The quoted entries of the `hashes` lists of a block. -/
def checksums (body : List Line) : List String := (Listing.blockLines ⟨[], .outside⟩ [] body).entries

/-! ## Where the parser departs from them -/

/-- Entries on a line that opens a `hashes` list without closing it. -/
def openingLine (before : List Line) (line : Line) : List String :=
  ((opensHashes before line).filter (']' ∉ ·)).elim [] entriesOn

def openingEntries (before : List Line) : List Line → List String
  | [] => []
  | line :: rest => openingLine before line ++ openingEntries (before ++ [line]) rest

/-- Entries on a line of another list that the parser takes for `hashes`, one of a longer key or
inside of another value or a comment; and whether it goes on. -/
def otherLine (before : List Line) (inside : Bool) (line : Line) : List String × Bool :=
  if inside then
    if line.head? = some ']' then ([], false) else (entriesOn line, true)
  else
    match openedList line, opensHashes before line with
    | some text, none => if ']' ∈ text then (entriesOn text, false) else ([], true)
    | _, _ => ([], false)

def otherEntries (before : List Line) (inside : Bool) : List Line → List String
  | [] => []
  | line :: rest =>
    (otherLine before inside line).1 ++
      otherEntries (before ++ [line]) (otherLine before inside line).2 rest

/-- No comment on the line of a `hashes` key has a bracket that the parser takes for that of the list,
or goes on after the line. -/
def commentsEnd (before : List Line) : List Line → Bool
  | [] => true
  | line :: rest =>
    ((opensHashes before line).all fun text =>
      openedList line = some text && (Listing.line ⟨[], .list⟩ text).place ≠ .comment) &&
      !(atTop before && hashesValue line = some none) &&
      commentsEnd (before ++ [line]) rest

/-! ## The blocks of a file -/

/-- A provider block: the address in its header, and the lines up to its closing brace. -/
structure ProviderBlock where
  address : String
  body : List Line
  deriving DecidableEq

/-- Where in the outline of a file a line stands. -/
inductive Outline where
  | top
  | terraform (depth : Nat)
  | block (current : ProviderBlock)
  deriving DecidableEq

def Outline.settings (depth : Int) : Outline := if 0 < depth then .terraform depth.toNat else .top

def outlineLine : List ProviderBlock × Outline → Line → List ProviderBlock × Outline
  | (blocks, .top), line =>
    if isComment line then (blocks, .top)
    else if opensSettings line then (blocks, .settings (braces line 0))
    else
      (blocks, (providerHeader line).elim .top fun header =>
        .block { address := String.ofList header.1, body := [] })
  | (blocks, .terraform depth), line => (blocks, .settings (braces line depth))
  | (blocks, .block current), line =>
    if line.head? = some '\x7d' then (blocks ++ [current], .top)
    else (blocks, .block { current with body := current.body ++ [line] })

/-- The provider blocks of a file. -/
def providerBlocks (text : String) : List ProviderBlock :=
  ((lockLines text).foldl outlineLine ([], .top)).1

/-! ## Reading characters -/

/-- Nothing begins or ends with this character between the entries of a list. -/
def Inert (c : Char) : Prop := c ≠ '"' ∧ c ≠ ']' ∧ c ≠ '#' ∧ c ≠ '/'

/-- A character of a checksum. -/
def Plain (c : Char) : Prop := c ≠ '"' ∧ c ≠ '\\' ∧ c ≠ '\n'

theorem opened_of_inert {c : Char} (h : Inert c) : opened c = .list := by
  obtain ⟨hquote, hbracket, hhash, hslash⟩ := h
  simp [opened, hquote, hbracket, hhash, hslash]

theorem inert_of_isWhiteSpace {c : Char} (h : isWhiteSpace c = true) : Inert c := by
  refine ⟨?_, ?_, ?_, ?_⟩ <;>
  · rintro rfl
    exact absurd h (by decide)

variable {es : List String} {text : Line}

theorem Listing.read_append (l : Listing) (a b : Line) : l.read (a ++ b) = (l.read a).read b :=
  List.foldl_append

theorem read_inert (h : ∀ c ∈ text, Inert c) : Listing.read ⟨es, .list⟩ text = ⟨es, .list⟩ := by
  induction text with
  | nil => rfl
  | cons c rest ih =>
    have hchar : Listing.char ⟨es, .list⟩ c = ⟨es, .list⟩ := by
      simp [Listing.char, Listing.move, opened_of_inert (h c List.mem_cons_self)]
    rw [Listing.read, List.foldl_cons, hchar]
    exact ih fun d hd => h d (List.mem_cons_of_mem _ hd)

theorem read_whiteSpace (h : ∀ c ∈ text, isWhiteSpace c = true) :
    Listing.read ⟨es, .list⟩ text = ⟨es, .list⟩ :=
  read_inert fun c hc => inert_of_isWhiteSpace (h c hc)

theorem read_outside : Listing.read ⟨es, .outside⟩ text = ⟨es, .outside⟩ := by
  induction text with
  | nil => rfl
  | cons c rest ih => exact ih

theorem read_quoted {acc : Line} (h : ∀ c ∈ text, Plain c) :
    Listing.read ⟨es, .quoted acc⟩ text = ⟨es, .quoted (acc ++ text)⟩ := by
  induction text generalizing acc with
  | nil => simp [Listing.read]
  | cons c rest ih =>
    obtain ⟨hquote, hescape, -⟩ := h c List.mem_cons_self
    have hchar : Listing.char ⟨es, .quoted acc⟩ c = ⟨es, .quoted (acc ++ [c])⟩ := by
      simp [Listing.char, Listing.move, hquote, hescape]
    have hrest := @ih (acc ++ [c]) fun d hd => h d (List.mem_cons_of_mem _ hd)
    rw [Listing.read, List.foldl_cons, hchar]
    rw [Listing.read] at hrest
    rw [hrest, List.append_assoc, List.singleton_append]

/-- A quoted checksum is one entry. -/
theorem read_entry (h : ∀ c ∈ text, Plain c) :
    Listing.read ⟨es, .list⟩ ('"' :: (text ++ ['"'])) = ⟨es ++ [String.ofList text], .list⟩ := by
  have hopen : Listing.read ⟨es, .list⟩ ['"'] = ⟨es, .quoted []⟩ := rfl
  have hclose : Listing.read ⟨es, .quoted text⟩ ['"'] = ⟨es ++ [String.ofList text], .list⟩ := rfl
  rw [← List.singleton_append, Listing.read_append, hopen, Listing.read_append, read_quoted h,
    List.nil_append, hclose]

theorem read_close (after : Line) :
    Listing.read ⟨es, .list⟩ (']' :: after) = ⟨es, .outside⟩ := by
  rw [← List.singleton_append, Listing.read_append]
  exact read_outside

/-! ## What the parser trims -/

theorem trimStart_spec (text : Line) :
    ∃ front, text = front ++ trimStart text ∧ ∀ c ∈ front, isWhiteSpace c = true := by
  refine ⟨text.takeWhile isWhiteSpace, (List.takeWhile_append_dropWhile).symm, ?_⟩
  intro c hc
  exact List.mem_takeWhile_imp hc

/-- What is dropped from the end of a text has the property it is dropped for. -/
theorem dropEnd_spec (p : Char → Bool) (text : Line) :
    ∃ back, text = (text.reverse.dropWhile p).reverse ++ back ∧ ∀ c ∈ back, p c = true := by
  refine ⟨(text.reverse.takeWhile p).reverse, ?_, ?_⟩
  · rw [← List.reverse_append, List.takeWhile_append_dropWhile, List.reverse_reverse]
  · intro c hc
    exact List.mem_takeWhile_imp (List.mem_reverse.mp hc)

theorem trimmed_spec (text : Line) :
    ∃ front back, text = front ++ trimmed text ++ back ∧
      (∀ c ∈ front, isWhiteSpace c = true) ∧ ∀ c ∈ back, isWhiteSpace c = true := by
  obtain ⟨front, hfront, hwhite⟩ := trimStart_spec text
  obtain ⟨back, hback, hwhite'⟩ := dropEnd_spec isWhiteSpace (trimStart text)
  refine ⟨front, back, ?_, hwhite, hwhite'⟩
  rw [List.append_assoc, trimmed, trimEnd, ← hback]
  exact hfront

theorem trimCommas_spec (text : Line) :
    ∃ back, text = trimCommas text ++ back ∧ ∀ c ∈ back, Inert c := by
  obtain ⟨back, hback, hcomma⟩ := dropEnd_spec (· = ',') text
  refine ⟨back, hback, ?_⟩
  intro c hc
  have heq : c = ',' := of_decide_eq_true (hcomma c hc)
  subst heq
  exact ⟨by decide, by decide, by decide, by decide⟩

theorem splitOnce_eq_some {c : Char} {text before after : Line}
    (h : splitOnce c text = some (before, after)) : text = before ++ c :: after ∧ c ∉ before := by
  have hjoin : text.takeWhile (· ≠ c) ++ text.dropWhile (· ≠ c) = text :=
    List.takeWhile_append_dropWhile
  unfold splitOnce at h
  generalize hrest : text.dropWhile (· ≠ c) = rest at h hjoin
  cases rest with
  | nil => cases h
  | cons d rest =>
    cases h
    have hd : d = c := by
      have hhead := List.head?_dropWhile_not (· ≠ c) text
      rw [hrest] at hhead
      simpa using hhead
    subst hd
    refine ⟨hjoin.symm, ?_⟩
    intro hmem
    simpa using List.mem_takeWhile_imp hmem

theorem splitOnce_eq_none {c : Char} {text : Line} (h : splitOnce c text = none) : c ∉ text := by
  unfold splitOnce at h
  split at h
  · next hrest =>
    intro hmem
    have hall : ∀ d ∈ text, d ≠ c := by simpa using hrest
    exact hall c hmem rfl
  · cases h

theorem stripPrefix_eq_some {start : String} {text rest : Line}
    (h : stripPrefix start text = some rest) : text = start.toList ++ rest := by
  unfold stripPrefix at h
  split at h
  · next hstart =>
    cases h
    obtain ⟨rest, rfl⟩ := List.isPrefixOf_iff_prefix.mp hstart
    rw [List.drop_left]
  · cases h

theorem unquote_eq_some {text raw : Line} (h : unquote text = some raw) :
    text = '"' :: (raw ++ ['"']) := by
  unfold unquote at h
  split at h
  · next rest =>
    split at h
    · next hlast =>
      cases h
      rw [List.dropLast_append_getLast? _ hlast]
    · cases h
  · cases h

/-! ## Entries of the parser -/

theorem plain_of_isBase64 {c : Char} (h : isBase64 c = true) : Plain c := by
  refine ⟨?_, ?_, ?_⟩ <;>
  · rintro rfl
    exact absurd h (by decide)

theorem plain_of_isLowerHex {c : Char} (h : isLowerHex c = true) : Plain c := by
  refine ⟨?_, ?_, ?_⟩ <;>
  · rintro rfl
    exact absurd h (by decide)

/-- A checksum is written in plain characters. -/
theorem plain_of_checksumShape {scheme value : Line} (h : checksumShape scheme value = true) :
    ∀ c ∈ scheme ++ ':' :: value, Plain c := by
  have hletters : ∀ c ∈ "h1z:=".toList, c ≠ '"' ∧ c ≠ '\\' ∧ c ≠ '\n' :=
    List.all_iff_forall_prop.mp (by decide)
  have hparts : (∀ c ∈ scheme, c ∈ "h1z:=".toList) ∧ ∀ c ∈ value, Plain c := by
    unfold checksumShape at h
    split at h
    · next hscheme =>
      subst hscheme
      simp only [Bool.and_eq_true, decide_eq_true_eq, List.all_eq_true] at h
      obtain ⟨⟨-, hlast⟩, hall⟩ := h
      refine ⟨List.all_iff_forall_prop.mp (by decide), ?_⟩
      rw [← List.dropLast_append_getLast? _ hlast]
      intro c hc
      rcases List.mem_append.mp hc with hc | hc
      · exact plain_of_isBase64 (hall c hc)
      · rw [List.mem_singleton.mp hc]
        exact hletters '=' (by decide)
    · split at h
      · next hscheme =>
        subst hscheme
        simp only [Bool.and_eq_true, decide_eq_true_eq, List.all_eq_true] at h
        exact ⟨List.all_iff_forall_prop.mp (by decide), fun c hc => plain_of_isLowerHex (h.2 c hc)⟩
      · cases h
  intro c hc
  rcases List.mem_append.mp hc with hc | hc
  · exact hletters c (hparts.1 c hc)
  · rcases List.mem_cons.mp hc with rfl | hc
    · exact hletters ':' (by decide)
    · exact hparts.2 c hc

/-- An entry that the parser accepts is a quoted text of plain characters. -/
theorem hashEntry_spec {address hash : String} {entry : Line}
    (h : hashEntry address entry = .ok hash) :
    ∃ raw, entry = '"' :: (raw ++ ['"']) ∧ hash = String.ofList raw ∧ ∀ c ∈ raw, Plain c := by
  unfold hashEntry at h
  split at h
  · next raw hraw =>
    unfold checksumValue at h
    split at h
    · cases h
    · next scheme value hsplit =>
      split at h
      · next hshape =>
        cases h
        refine ⟨raw, unquote_eq_some hraw, rfl, ?_⟩
        rw [(splitOnce_eq_some hsplit).1]
        exact plain_of_checksumShape hshape
      · cases h
  · cases h

/-- The reading adds the entry that the parser takes from a piece of text. -/
theorem read_hashEntry {address hash : String} {piece : Line}
    (h : hashEntry address (trimmed piece) = .ok hash) :
    Listing.read ⟨es, .list⟩ piece = ⟨es ++ [hash], .list⟩ := by
  obtain ⟨raw, hentry, rfl, hplain⟩ := hashEntry_spec h
  obtain ⟨front, back, hpiece, hfront, hback⟩ := trimmed_spec piece
  rw [hpiece, Listing.read_append, Listing.read_append, read_whiteSpace hfront, hentry,
    read_entry hplain, read_whiteSpace hback]

/-- A line of a list that the parser takes for one entry. -/
theorem line_hashEntry {address hash : String} {inner : Line}
    (h : hashEntry address (trimmed (trimCommas inner)) = .ok hash) :
    Listing.line ⟨es, .list⟩ inner = ⟨es ++ [hash], .list⟩ := by
  obtain ⟨back, hinner, hback⟩ := trimCommas_spec inner
  have hread : Listing.read ⟨es, .list⟩ inner = ⟨es ++ [hash], .list⟩ := by
    conv_lhs => rw [hinner]
    rw [Listing.read_append, read_hashEntry h, read_inert hback]
  rw [Listing.line, hread]
  rfl

/-- A line that closes the list. -/
theorem line_close {inner : Line} (h : inner.head? = some ']') :
    Listing.line ⟨es, .list⟩ inner = ⟨es, .outside⟩ := by
  obtain ⟨after, rfl⟩ : ∃ after, inner = ']' :: after := by
    cases inner with
    | nil => cases h
    | cons c after => exact ⟨after, by simpa using h⟩
  rw [Listing.line, read_close]
  rfl

/-- What one piece between commas adds, and what is left for the others. -/
theorem read_piece {address : String} {piece : Line} {rest : List Line} {entries : List String}
    (h : (((piece :: rest).map trimmed).filter (· ≠ [])).mapM (hashEntry address) = .ok entries) :
    ∃ first others, entries = first ++ others ∧
      ((rest.map trimmed).filter (· ≠ [])).mapM (hashEntry address) = .ok others ∧
      ∀ es, Listing.read ⟨es, .list⟩ piece = ⟨es ++ first, .list⟩ := by
  by_cases hempty : trimmed piece = []
  · rw [List.map_cons, List.filter_cons_of_neg (by simpa using hempty)] at h
    refine ⟨[], entries, rfl, h, ?_⟩
    intro es
    obtain ⟨front, back, hpiece, hfront, hback⟩ := trimmed_spec piece
    rw [hpiece, hempty, List.append_nil, Listing.read_append, read_whiteSpace hfront,
      read_whiteSpace hback, List.append_nil]
  · rw [List.map_cons, List.filter_cons_of_pos (by simpa using hempty), List.mapM_cons] at h
    simp only [bind_eq_ok, pure_eq_ok] at h
    obtain ⟨hash, hhash, others, hothers, rfl⟩ := h
    exact ⟨[hash], others, rfl, hothers, fun es => read_hashEntry hhash⟩

/-- The pieces between commas are read one after the other. -/
theorem read_pieces {address : String} (pieces : List Line) {es entries : List String}
    (h : ((pieces.map trimmed).filter (· ≠ [])).mapM (hashEntry address) = .ok entries) :
    Listing.read ⟨es, .list⟩ ([','].intercalate pieces) = ⟨es ++ entries, .list⟩ := by
  have hcomma : ∀ es, Listing.read ⟨es, .list⟩ [','] = ⟨es, .list⟩ := fun _ => rfl
  induction pieces generalizing es entries with
  | nil =>
    cases h
    simp [Listing.read]
  | cons piece rest ih =>
    obtain ⟨first, others, rfl, hothers, hread⟩ := read_piece h
    cases rest with
    | nil =>
      obtain rfl : [] = others := Except.ok.inj hothers
      rw [List.intercalate_singleton, hread, List.append_nil]
    | cons next rest =>
      rw [List.intercalate_cons_cons, List.append_assoc, Listing.read_append, hread,
        Listing.read_append, hcomma, ih hothers, List.append_assoc]

/-- A list that the parser reads on one line. -/
theorem line_inline {address : String} {inline after : Line} {entries : List String}
    (h : inlineEntries address inline = .ok entries) :
    Listing.line ⟨es, .list⟩ (inline ++ ']' :: after) = ⟨es ++ entries, .outside⟩ := by
  have hread := @read_pieces address _ es _ h
  rw [List.intercalate_splitOn] at hread
  rw [Listing.line, Listing.read_append, hread, read_close]
  rfl

/-! ## One line of a block -/

theorem bodyLine_outside {address : String} {body body' : Body} {inner : Line}
    (hin : body.inHashes = false) (h : bodyLine address body inner = .ok body') :
    (openedList inner = none ∧ body'.hashes = body.hashes ∧ body'.inHashes = false) ∨
    (∃ inline after entries, openedList inner = some (inline ++ ']' :: after) ∧
      inlineEntries address inline = .ok entries ∧ body'.hashes = body.hashes ++ entries ∧
      body'.inHashes = false) ∨
    ∃ text, openedList inner = some text ∧ ']' ∉ text ∧ body'.hashes = body.hashes ∧
      body'.inHashes = true := by
  unfold bodyLine at h
  rw [hin] at h
  simp only [Bool.false_eq_true, if_false] at h
  split at h
  · next rest hversion =>
    obtain ⟨version, -, rfl⟩ := map_eq_ok.mp h
    refine .inl ⟨?_, rfl, rfl⟩
    rw [stripPrefix_eq_some hversion]
    rfl
  · split at h
    · split at h
      · cases h
      · next text htext =>
        split at h
        · next inline after hsplit =>
          obtain ⟨entries, hentries, rfl⟩ := map_eq_ok.mp h
          rw [(splitOnce_eq_some hsplit).1] at htext
          exact .inr (.inl ⟨inline, after, entries, htext, hentries, rfl, rfl⟩)
        · next hsplit =>
          cases h
          exact .inr (.inr ⟨text, htext, splitOnce_eq_none hsplit, rfl, rfl⟩)
    · next hprefixed =>
      cases h
      exact .inl ⟨if_neg hprefixed, rfl, hin⟩

theorem bodyLine_inside {address : String} {body body' : Body} {inner : Line}
    (hin : body.inHashes = true) (h : bodyLine address body inner = .ok body') :
    (inner.head? = some ']' ∧ body'.hashes = body.hashes ∧ body'.inHashes = false) ∨
    (inner.head? ≠ some ']' ∧ ∃ hash, hashEntry address (trimmed (trimCommas inner)) = .ok hash ∧
      body'.hashes = body.hashes ++ [hash] ∧ body'.inHashes = true) := by
  unfold bodyLine at h
  rw [hin, if_pos rfl] at h
  split at h
  · next hclose =>
    cases h
    exact .inl ⟨hclose, rfl, rfl⟩
  · next hopen =>
    obtain ⟨hash, hhash, rfl⟩ := map_eq_ok.mp h
    exact .inr ⟨hopen, hash, hhash, rfl, rfl⟩

theorem skipComments_suffix {comment : Bool} {text rest : Line}
    (h : skipComments comment text = some rest) : rest <:+ text := by
  fun_induction skipComments comment text with
  | case1 text ih | case2 text ih | case6 _ text _ ih => exact (ih h).trans (List.suffix_cons _ _)
  | case3 text ih | case5 text ih =>
    exact (ih h).trans ((List.suffix_cons _ _).trans (List.suffix_cons _ _))
  | case4 =>
    cases h
    exact List.suffix_refl _
  | case7 => cases h

theorem suffix_of_stripPrefix {start : String} {text rest : Line}
    (h : stripPrefix start text = some rest) : rest <:+ text := by
  rw [stripPrefix_eq_some h]
  exact List.suffix_append _ _

theorem hashesValue_suffix {line rest : Line} (h : hashesValue line = some (some rest)) :
    rest <:+ line ∧ (stripPrefix "hashes" line).isSome := by
  simp only [hashesValue, Option.bind_eq_bind, Option.bind_eq_some_iff] at h
  obtain ⟨key, hkey, h⟩ := h
  refine ⟨?_, by rw [hkey]; rfl⟩
  split at h
  · cases h
  · next behind hbehind =>
    obtain ⟨value, hvalue, hrest⟩ := Option.map_eq_some_iff.mp h
    exact (skipComments_suffix hrest).trans ((suffix_of_stripPrefix hvalue).trans
      ((skipComments_suffix hbehind).trans (suffix_of_stripPrefix hkey)))

/-- A line that opens a list for HCL opens one for the parser. -/
theorem openedList_of_opensHashes {before : List Line} {line text : Line}
    (h : opensHashes before line = some text) : text <:+ line ∧ (openedList line).isSome := by
  unfold opensHashes at h
  obtain ⟨h, -⟩ := Option.filter_eq_some_iff.mp h
  simp only [hashesArgument, Option.bind_eq_bind, Option.bind_eq_some_iff] at h
  obtain ⟨_, hvalue, rest, rfl, htext⟩ := h
  obtain ⟨hrest, hkey⟩ := hashesValue_suffix hvalue
  refine ⟨(suffix_of_stripPrefix htext).trans hrest, ?_⟩
  have hbracket : '[' ∈ line := by
    rw [stripPrefix_eq_some htext] at hrest
    exact hrest.subset List.mem_cons_self
  unfold openedList
  rw [if_pos hkey, Option.isSome_map, Option.isSome_iff_ne_none]
  exact fun hnone => splitOnce_eq_none hnone hbracket

theorem openedList_eq_none {line : Line} (h : line.head? ≠ some 'h') : openedList line = none := by
  refine if_neg ?_
  rw [Option.isSome_iff_exists]
  rintro ⟨rest, hrest⟩
  rw [stripPrefix_eq_some hrest] at h
  exact h rfl

/-- A line that stands in a list for the parser opens none. -/
theorem openedList_of_close {line : Line} (h : line.head? = some ']') : openedList line = none := by
  refine openedList_eq_none ?_
  rw [h]
  decide

/-- What the parser takes for an entry begins with its quote, after white space. -/
theorem head_of_hashEntry {address hash : String} {line : Line} {c : Char}
    (h : hashEntry address (trimmed (trimCommas line)) = .ok hash) (hhead : line.head? = some c) :
    c = '"' ∨ isWhiteSpace c = true := by
  obtain ⟨raw, hentry, -, -⟩ := hashEntry_spec h
  obtain ⟨back, hline, -⟩ := trimCommas_spec line
  obtain ⟨front, back', htrim, hwhite, -⟩ := trimmed_spec (trimCommas line)
  rw [hline, htrim, hentry] at hhead
  cases front with
  | nil => exact .inl (Option.some.inj hhead).symm
  | cons d front =>
    obtain rfl : d = c := Option.some.inj hhead
    exact .inr (hwhite d List.mem_cons_self)

theorem openedList_of_hashEntry {address hash : String} {line : Line}
    (h : hashEntry address (trimmed (trimCommas line)) = .ok hash) : openedList line = none := by
  refine openedList_eq_none ?_
  intro hhead
  have hstart := head_of_hashEntry h hhead
  exact absurd hstart (by decide)

/-! ## A whole block -/

/-- What was read before stays in front. -/
theorem char_append (es : List String) (l : Listing) (c : Char) :
    Listing.char ⟨es ++ l.entries, l.place⟩ c =
      ⟨es ++ (l.char c).entries, (l.char c).place⟩ := by
  obtain ⟨entries, place⟩ := l
  cases place <;> simp only [Listing.char, Listing.move] <;> split_ifs <;>
    simp only [List.append_assoc]

theorem read_frame (es : List String) (l : Listing) (text : Line) :
    Listing.read ⟨es ++ l.entries, l.place⟩ text =
      ⟨es ++ (l.read text).entries, (l.read text).place⟩ := by
  induction text generalizing l with
  | nil => rfl
  | cons c rest ih =>
    rw [Listing.read, List.foldl_cons, char_append]
    exact ih (l.char c)

theorem endLine_entries (l : Listing) : l.endLine.entries = l.entries := by
  unfold Listing.endLine
  split <;> rfl

theorem line_frame (es : List String) (text : Line) :
    Listing.line ⟨es, .list⟩ text =
      ⟨es ++ entriesOn text, (Listing.line ⟨[], .list⟩ text).place⟩ := by
  have hread := read_frame es ⟨[], .list⟩ text
  rw [List.append_nil] at hread
  unfold entriesOn Listing.line
  rw [hread, endLine_entries]
  generalize Listing.read ⟨[], .list⟩ text = l
  obtain ⟨entries, place⟩ := l
  cases place <;> rfl

/-- Only a bracket leaves a list. -/
theorem char_ne_outside {l : Listing} {c : Char} (hl : l.place ≠ .outside) (hc : c ≠ ']') :
    (l.char c).place ≠ .outside := by
  have hopened : opened c ≠ .outside := by
    unfold opened
    split_ifs <;> simp_all
  obtain ⟨entries, place⟩ := l
  cases place <;> simp only [Listing.char, Listing.move] <;> (try split_ifs) <;> simp_all

theorem read_ne_outside {l : Listing} {text : Line} (hl : l.place ≠ .outside) (h : ']' ∉ text) :
    (l.read text).place ≠ .outside := by
  induction text generalizing l with
  | nil => exact hl
  | cons c rest ih =>
    rw [List.mem_cons, not_or] at h
    exact ih (char_ne_outside hl (Ne.symm h.1)) h.2

/-- A line that does not close a list leaves it open, or a comment in it. -/
theorem line_stays {text : Line} (h : ']' ∉ text)
    (hcomment : (Listing.line ⟨[], .list⟩ text).place ≠ .comment) :
    (Listing.line ⟨[], .list⟩ text).place = .list := by
  have hread : (Listing.read ⟨[], .list⟩ text).place ≠ .outside := read_ne_outside nofun h
  unfold Listing.line at hcomment ⊢
  generalize Listing.read ⟨[], .list⟩ text = l at *
  obtain ⟨entries, place⟩ := l
  cases place with
  | outside => exact absurd rfl hread
  | comment => exact absurd rfl hcomment
  | star => exact absurd rfl hcomment
  | list => rfl
  | slash => rfl
  | remark => rfl
  | quoted text => rfl
  | escaped text => rfl

variable {before : List Line} {line : Line}

theorem opensHashes_eq_none (h : openedList line = none) : opensHashes before line = none := by
  rw [Option.eq_none_iff_forall_ne_some]
  intro text htext
  obtain ⟨-, hopened⟩ := openedList_of_opensHashes htext
  rw [h] at hopened
  cases hopened

theorem blockLine_skips (h : opensHashes before line = none) :
    Listing.blockLine ⟨es, .outside⟩ before line = ⟨es, .outside⟩ := by
  simp [Listing.blockLine, h]

theorem blockLine_opens (h : opensHashes before line = some text) :
    Listing.blockLine ⟨es, .outside⟩ before line = Listing.line ⟨es, .list⟩ text := by
  simp [Listing.blockLine, h, Listing.move]

theorem blockLine_inside :
    Listing.blockLine ⟨es, .list⟩ before line = Listing.line ⟨es, .list⟩ line := rfl

theorem openingLine_skips (h : opensHashes before line = none) : openingLine before line = [] := by
  simp [openingLine, h]

theorem openingLine_closed (h : opensHashes before line = some text) (hmem : ']' ∈ text) :
    openingLine before line = [] := by
  simp [openingLine, h, Option.filter, hmem]

theorem openingLine_open (h : opensHashes before line = some text) (hmem : ']' ∉ text) :
    openingLine before line = entriesOn text := by
  simp [openingLine, h, Option.filter, hmem]

/-- Where the parser, the reading and the account of other lists may stand together. -/
inductive Synced : Bool → Place → Bool → Prop
  | outside : Synced false .outside false
  | listed : Synced true .list false
  | other : Synced true .outside true

/-- A line keeps them together.  What the parser counts and what it leaves on opening lines are what
the list holds and what it takes from other lists. -/
def LineSynced (body body' : Body) (l : Listing) (before : List Line) (inside : Bool) (line : Line) :
    Prop :=
  ∃ counted listed, body'.hashes = body.hashes ++ counted ∧
    (l.blockLine before line).entries = l.entries ++ listed ∧
    Synced body'.inHashes (l.blockLine before line).place (otherLine before inside line).2 ∧
    (counted : Multiset String) + openingLine before line =
      listed + (otherLine before inside line).1

variable {address : String} {body body' : Body}

theorem lineSynced_outside (hin : body.inHashes = false)
    (h : bodyLine address body line = .ok body')
    (hcomments : ∀ text, opensHashes before line = some text →
      openedList line = some text ∧ (Listing.line ⟨[], .list⟩ text).place ≠ .comment) :
    LineSynced body body' ⟨es, .outside⟩ before false line := by
  rcases bodyLine_outside hin h with ⟨hnone, hhashes, hin'⟩ |
    ⟨inline, after, entries, hopened, hentries, hhashes, hin'⟩ |
    ⟨text, hopened, hbracket, hhashes, hin'⟩
  · have hskips : opensHashes before line = none := opensHashes_eq_none hnone
    have hother : otherLine before false line = ([], false) := by simp [otherLine, hnone]
    refine ⟨[], [], by rw [hhashes, List.append_nil], ?_, ?_, ?_⟩
    · rw [blockLine_skips hskips, List.append_nil]
    · rw [blockLine_skips hskips, hother, hin']
      exact .outside
    · rw [hother, openingLine_skips hskips]
  · -- a list on one line: the reading finds its entries, or counts them as another list's
    have hline := @line_inline es address inline after entries hentries
    cases hopens : opensHashes before line with
    | none =>
      have hother : otherLine before false line = (entries, false) := by
        simp [otherLine, hopened, hopens, entriesOn, line_inline hentries]
      refine ⟨entries, [], hhashes, ?_, ?_, ?_⟩
      · rw [blockLine_skips hopens, List.append_nil]
      · rw [blockLine_skips hopens, hother, hin']
        exact .outside
      · rw [hother, openingLine_skips hopens]
        exact add_comm _ _
    | some text =>
      obtain rfl : text = inline ++ ']' :: after := by
        rw [(hcomments _ hopens).1] at hopened
        exact Option.some.inj hopened
      have hother : otherLine before false line = ([], false) := by
        simp [otherLine, hopened, hopens]
      refine ⟨entries, entries, hhashes, ?_, ?_, ?_⟩
      · rw [blockLine_opens hopens, hline]
      · rw [blockLine_opens hopens, hline, hother, hin']
        exact .outside
      · rw [hother, openingLine_closed hopens (List.mem_append_right _ List.mem_cons_self)]
  · -- a list left open: its first line is lost, if it is one of the lists that count
    cases hopens : opensHashes before line with
    | none =>
      have hother : otherLine before false line = ([], true) := by
        simp [otherLine, hopened, hopens, hbracket]
      refine ⟨[], [], by rw [hhashes, List.append_nil], ?_, ?_, ?_⟩
      · rw [blockLine_skips hopens, List.append_nil]
      · rw [blockLine_skips hopens, hother, hin']
        exact .other
      · rw [hother, openingLine_skips hopens]
    | some text' =>
      obtain rfl : text' = text := by
        rw [(hcomments _ hopens).1] at hopened
        exact Option.some.inj hopened
      have hother : otherLine before false line = ([], false) := by
        simp [otherLine, hopened, hopens]
      have hplace := line_stays hbracket (hcomments _ hopens).2
      refine ⟨[], entriesOn text', by rw [hhashes, List.append_nil], ?_, ?_, ?_⟩
      · rw [blockLine_opens hopens, line_frame]
      · rw [blockLine_opens hopens, line_frame, hother, hin', hplace]
        exact .listed
      · rw [hother, openingLine_open hopens hbracket]
        exact add_comm _ _

theorem lineSynced_listed (hin : body.inHashes = true)
    (h : bodyLine address body line = .ok body') :
    LineSynced body body' ⟨es, .list⟩ before false line := by
  rcases bodyLine_inside hin h with ⟨hclose, hhashes, hin'⟩ | ⟨hopen, hash, hhash, hhashes, hin'⟩
  · have hnone := openedList_of_close hclose
    have hother : otherLine before false line = ([], false) := by simp [otherLine, hnone]
    refine ⟨[], [], by rw [hhashes, List.append_nil], ?_, ?_, ?_⟩
    · rw [blockLine_inside, line_close hclose, List.append_nil]
    · rw [blockLine_inside, line_close hclose, hother, hin']
      exact .outside
    · rw [hother, openingLine_skips (opensHashes_eq_none hnone)]
  · have hnone := openedList_of_hashEntry hhash
    have hother : otherLine before false line = ([], false) := by simp [otherLine, hnone]
    refine ⟨[hash], [hash], hhashes, ?_, ?_, ?_⟩
    · rw [blockLine_inside, line_hashEntry hhash]
    · rw [blockLine_inside, line_hashEntry hhash, hother, hin']
      exact .listed
    · rw [hother, openingLine_skips (opensHashes_eq_none hnone)]

theorem lineSynced_other (hin : body.inHashes = true)
    (h : bodyLine address body line = .ok body') :
    LineSynced body body' ⟨es, .outside⟩ before true line := by
  rcases bodyLine_inside hin h with ⟨hclose, hhashes, hin'⟩ | ⟨hopen, hash, hhash, hhashes, hin'⟩
  · have hskips : opensHashes before line = none :=
      opensHashes_eq_none (openedList_of_close hclose)
    have hother : otherLine before true line = ([], false) := by simp [otherLine, hclose]
    refine ⟨[], [], by rw [hhashes, List.append_nil], ?_, ?_, ?_⟩
    · rw [blockLine_skips hskips, List.append_nil]
    · rw [blockLine_skips hskips, hother, hin']
      exact .outside
    · rw [hother, openingLine_skips hskips]
  · have hskips : opensHashes before line = none :=
      opensHashes_eq_none (openedList_of_hashEntry hhash)
    have hother : otherLine before true line = ([hash], true) := by
      simp [otherLine, hopen, entriesOn, line_hashEntry hhash]
    refine ⟨[hash], [], hhashes, ?_, ?_, ?_⟩
    · rw [blockLine_skips hskips, List.append_nil]
    · rw [blockLine_skips hskips, hother, hin']
      exact .other
    · rw [hother, openingLine_skips hskips]
      exact add_comm _ _

theorem bodyLine_synced {l : Listing} {inside : Bool}
    (hsync : Synced body.inHashes l.place inside) (h : bodyLine address body line = .ok body')
    (hcomments : ∀ text, opensHashes before line = some text →
      openedList line = some text ∧ (Listing.line ⟨[], .list⟩ text).place ≠ .comment) :
    LineSynced body body' l before inside line := by
  obtain ⟨es, place⟩ := l
  generalize hin : body.inHashes = inHashes at hsync
  cases hsync with
  | outside => exact lineSynced_outside hin h hcomments
  | listed => exact lineSynced_listed hin h
  | other => exact lineSynced_other hin h

/-- A whole run of lines does. -/
theorem foldlM_synced {lines : List Line} {l : Listing} {inside : Bool} (hsync : Synced body.inHashes l.place inside)
    (h : lines.foldlM (bodyLine address) body = .ok body')
    (hcomments : commentsEnd before lines = true) :
    ∃ counted listed, body'.hashes = body.hashes ++ counted ∧
      (l.blockLines before lines).entries = l.entries ++ listed ∧
      (counted : Multiset String) + openingEntries before lines =
        listed + otherEntries before inside lines := by
  induction lines generalizing body l inside before with
  | nil =>
    cases h
    exact ⟨[], [], (List.append_nil _).symm, (List.append_nil _).symm, rfl⟩
  | cons line rest ih =>
    simp only [List.foldlM_cons, bind_eq_ok] at h
    obtain ⟨middle, hline, hrest⟩ := h
    rw [commentsEnd, Bool.and_eq_true, Bool.and_eq_true] at hcomments
    have hcomment : ∀ text, opensHashes before line = some text →
        openedList line = some text ∧ (Listing.line ⟨[], .list⟩ text).place ≠ .comment := by
      intro text htext
      simpa [htext] using hcomments.1.1
    obtain ⟨counted, listed, hhashes, hentries, hsync', hcount⟩ :=
      bodyLine_synced hsync hline hcomment
    obtain ⟨counted', listed', hhashes', hentries', hcount'⟩ := ih hsync' hrest hcomments.2
    refine ⟨counted ++ counted', listed ++ listed', ?_, ?_, ?_⟩
    · rw [hhashes', hhashes, List.append_assoc]
    · rw [Listing.blockLines, hentries', hentries, List.append_assoc]
    · rw [openingEntries, otherEntries]
      simp only [← Multiset.coe_add]
      rw [add_add_add_comm, hcount, hcount', add_add_add_comm]

/-! ## Entries are single lines -/

/-- No newline was read. -/
def Listing.OneLine (l : Listing) : Prop :=
  (∀ entry ∈ l.entries, '\n' ∉ entry.toList) ∧ '\n' ∉ l.place.text

theorem char_oneLine {l : Listing} {c : Char} (h : l.OneLine) (hc : c ≠ '\n') :
    (l.char c).OneLine := by
  obtain ⟨entries, place⟩ := l
  obtain ⟨hentries, htext⟩ := h
  have hopened : '\n' ∉ (opened c).text := by
    unfold opened
    split_ifs <;> exact List.not_mem_nil
  cases place with
  | outside => exact ⟨hentries, htext⟩
  | remark => exact ⟨hentries, htext⟩
  | list => exact ⟨hentries, hopened⟩
  | slash =>
    simp only [Listing.char, Listing.move]
    split_ifs
    · exact ⟨hentries, List.not_mem_nil⟩
    · exact ⟨hentries, List.not_mem_nil⟩
    · exact ⟨hentries, hopened⟩
  | comment =>
    simp only [Listing.char, Listing.move]
    split_ifs <;> exact ⟨hentries, List.not_mem_nil⟩
  | star =>
    simp only [Listing.char, Listing.move]
    split_ifs <;> exact ⟨hentries, List.not_mem_nil⟩
  | quoted text =>
    simp only [Listing.char, Listing.move]
    split_ifs
    · refine ⟨?_, List.not_mem_nil⟩
      intro entry hentry
      rcases List.mem_append.mp hentry with hentry | hentry
      · exact hentries entry hentry
      · rw [List.mem_singleton.mp hentry, String.toList_ofList]
        exact htext
    · exact ⟨hentries, htext⟩
    · refine ⟨hentries, ?_⟩
      simpa [Place.text, hc.symm] using htext
  | escaped text =>
    refine ⟨hentries, ?_⟩
    simpa [Listing.char, Listing.move, Place.text, hc.symm] using htext

theorem line_oneLine {l : Listing} (h : l.OneLine) (htext : '\n' ∉ text) : (l.line text).OneLine := by
  have hread : (l.read text).OneLine := by
    induction text generalizing l with
    | nil => exact h
    | cons c rest ih =>
      rw [List.mem_cons, not_or] at htext
      exact ih (char_oneLine h (Ne.symm htext.1)) htext.2
  refine ⟨?_, ?_⟩
  · rw [Listing.line, endLine_entries]
    exact hread.1
  · rw [Listing.line]
    unfold Listing.endLine
    split
    · exact hread.2
    all_goals exact List.not_mem_nil

theorem openedList_oneLine (h : openedList line = some text) (hline : '\n' ∉ line) :
    '\n' ∉ text := by
  unfold openedList at h
  split at h
  · obtain ⟨⟨start, rest⟩, hsplit, rfl⟩ := Option.map_eq_some_iff.mp h
    rw [(splitOnce_eq_some hsplit).1] at hline
    intro hmem
    exact hline (List.mem_append_right _ (List.mem_cons_of_mem _ hmem))
  · cases h

theorem blockLines_oneLine {lines : List Line} {l : Listing} (hl : l.OneLine)
    (h : ∀ line ∈ lines, '\n' ∉ line) : (l.blockLines before lines).OneLine := by
  induction lines generalizing l before with
  | nil => exact hl
  | cons line rest ih =>
    have hline := h line List.mem_cons_self
    refine ih ?_ fun other hother => h other (List.mem_cons_of_mem _ hother)
    unfold Listing.blockLine
    split
    · split
      · next text htext =>
        exact line_oneLine ⟨hl.1, List.not_mem_nil⟩
          fun hmem => hline ((openedList_of_opensHashes htext).1.subset hmem)
      · exact hl
    · exact line_oneLine hl hline

theorem entriesOn_oneLine (h : '\n' ∉ text) : ∀ entry ∈ entriesOn text, '\n' ∉ entry.toList :=
  (line_oneLine ⟨fun _ hentry => absurd hentry List.not_mem_nil, List.not_mem_nil⟩ h).1

theorem otherEntries_oneLine {lines : List Line} {inside : Bool}
    (h : ∀ line ∈ lines, '\n' ∉ line) :
    ∀ entry ∈ otherEntries before inside lines, '\n' ∉ entry.toList := by
  induction lines generalizing inside before with
  | nil => exact nofun
  | cons line rest ih =>
    intro entry hentry
    have hline := h line List.mem_cons_self
    rcases List.mem_append.mp hentry with hentry | hentry
    · unfold otherLine at hentry
      split at hentry
      · split at hentry
        · cases hentry
        · exact entriesOn_oneLine hline entry hentry
      · split at hentry
        · next text hopened _ =>
          split at hentry
          · exact entriesOn_oneLine (openedList_oneLine hopened hline) entry hentry
          · cases hentry
        · cases hentry
    · exact ih (fun other hother => h other (List.mem_cons_of_mem _ hother)) entry hentry

/-! ## What a commitment tells -/

variable {sha256 : Bytes → Bytes}

/-- The parser read this provider from this block. -/
def Reads (sha256 : Bytes → Bytes) (provider : LockedProvider) (block : ProviderBlock) : Prop :=
  ∃ body, block.body.foldlM (bodyLine block.address) .empty = .ok body ∧
    closeBody sha256 block.address body = .ok provider ∧ ∀ line ∈ block.body, '\n' ∉ line

/-- The parser and the outline stand at the same place of a file. -/
inductive Outlined : Reading → Outline → Prop
  | top : Outlined .top .top
  | terraform {depth : Nat} : Outlined (.terraform depth) (.terraform depth)
  | block {current : ProviderBlock} {body : Body}
      (hbody : current.body.foldlM (bodyLine current.address) .empty = .ok body)
      (hlines : ∀ line ∈ current.body, '\n' ∉ line) :
      Outlined (.block current.address body) (.block current)

theorem outlined_settings (depth : Int) : Outlined (.settings depth) (.settings depth) := by
  unfold Reading.settings Outline.settings
  split
  · exact .terraform
  · exact .top

/-- A brace closes no list of hashes. -/
theorem bodyLine_brace (hin : body.inHashes = true) (hline : line.head? = some '\x7d') :
    bodyLine address body line ≠ .ok body' := by
  intro h
  rcases bodyLine_inside hin h with ⟨hclose, -⟩ | ⟨-, hash, hhash, -⟩
  · rw [hline] at hclose
    cases hclose
  · have hstart := head_of_hashEntry hhash hline
    exact absurd hstart (by decide)

theorem readLine_outlined {providers providers' : List LockedProvider}
    {blocks : List ProviderBlock} {reading reading' : Reading} {outline : Outline}
    (hreads : List.Forall₂ (Reads sha256) providers blocks) (hplace : Outlined reading outline)
    (hnewline : '\n' ∉ line)
    (h : readLine sha256 providers reading line = .ok (providers', reading')) :
    List.Forall₂ (Reads sha256) providers' (outlineLine (blocks, outline) line).1 ∧
      Outlined reading' (outlineLine (blocks, outline) line).2 := by
  cases hplace with
  | top =>
    simp only [readLine] at h
    simp only [outlineLine]
    split_ifs at h ⊢
    · cases h
      exact ⟨hreads, .top⟩
    · cases h
      exact ⟨hreads, outlined_settings _⟩
    · split at h
      · cases h
      · next address tail hheader =>
        split at h
        · cases h
          rw [hheader]
          refine ⟨hreads, @Outlined.block ⟨String.ofList address, []⟩ .empty rfl ?_⟩
          intro other hother
          cases hother
        · cases h
  | terraform =>
    cases h
    exact ⟨hreads, outlined_settings _⟩
  | @block current body hbody hlines =>
    simp only [readLine] at h
    split at h
    · next hclose =>
      obtain ⟨provider, hprovider, heq⟩ := map_eq_ok.mp h
      cases heq
      simp only [outlineLine, if_pos hclose.2]
      exact ⟨List.rel_append hreads (.cons ⟨body, hbody, hprovider, hlines⟩ .nil), .top⟩
    · next hopen =>
      obtain ⟨body', hbody', heq⟩ := map_eq_ok.mp h
      cases heq
      have hbrace : line.head? ≠ some '\x7d' := by
        intro hbrace
        cases hin : body.inHashes with
        | false => exact hopen ⟨hin, hbrace⟩
        | true => exact bodyLine_brace hin hbrace hbody'
      simp only [outlineLine, if_neg hbrace]
      refine ⟨hreads, @Outlined.block ⟨current.address, current.body ++ [line]⟩ body' ?_ ?_⟩
      · rw [List.foldlM_append, hbody]
        exact bind_eq_ok.mpr ⟨body, rfl, bind_eq_ok.mpr ⟨body', hbody', rfl⟩⟩
      · intro other hother
        rcases List.mem_append.mp hother with hother | hother
        · exact hlines other hother
        · rw [List.mem_singleton.mp hother]
          exact hnewline

theorem readLines_outlined {lines : List Line} {providers providers' : List LockedProvider}
    {blocks : List ProviderBlock} {reading reading' : Reading} {outline : Outline}
    (hreads : List.Forall₂ (Reads sha256) providers blocks) (hplace : Outlined reading outline)
    (hnewline : ∀ line ∈ lines, '\n' ∉ line)
    (h : readLines sha256 providers reading lines = .ok (providers', reading')) :
    List.Forall₂ (Reads sha256) providers' (lines.foldl outlineLine (blocks, outline)).1 := by
  induction lines generalizing providers reading blocks outline with
  | nil =>
    cases h
    exact hreads
  | cons line rest ih =>
    simp only [readLines, bind_eq_ok] at h
    obtain ⟨⟨providers, reading⟩, hline, hrest⟩ := h
    obtain ⟨hreads', hplace'⟩ :=
      readLine_outlined hreads hplace (hnewline line List.mem_cons_self) hline
    exact ih hreads' hplace' (fun other hother => hnewline other (List.mem_cons_of_mem _ hother))
      hrest

/-- The providers of an accepted file are read from its blocks, one from each. -/
theorem parseLockProviders_reads {text : String} {providers : List LockedProvider}
    (h : parseLockProviders sha256 text = .ok providers) :
    List.Forall₂ (Reads sha256) providers (providerBlocks text) := by
  unfold parseLockProviders at h
  simp only [bind_eq_ok] at h
  obtain ⟨⟨read, reading⟩, hread, hend⟩ := h
  have hnewline : ∀ line ∈ lockLines text, '\n' ∉ line := by
    intro line hline
    obtain ⟨source, hsource, rfl⟩ := List.mem_map.mp hline
    obtain ⟨front, back, heq, -, -⟩ := trimmed_spec source.toList
    intro hmem
    refine notMem_lines hsource ?_
    rw [heq]
    exact List.mem_append_left _ (List.mem_append_right _ hmem)
  have hreads := readLines_outlined .nil .top hnewline hread
  cases reading with
  | top =>
    cases hend
    exact hreads
  | terraform depth => cases hend
  | block address body => cases hend

/-- What was counted of a block, against what its lists hold. -/
theorem Reads.counted {provider : LockedProvider} {block : ProviderBlock}
    (h : Reads sha256 provider block) (hcomments : commentsEnd [] block.body = true) :
    ∃ counted, provider.source = block.address ∧
      provider.checksumsDigest = commitment sha256 counted ∧
      (counted : Multiset String) + openingEntries [] block.body =
        checksums block.body + otherEntries [] false block.body := by
  obtain ⟨body, hbody, hclose, -⟩ := h
  obtain ⟨counted, listed, hhashes, hentries, hcount⟩ :=
    foldlM_synced (l := ⟨[], .outside⟩) Synced.outside hbody hcomments
  rw [List.nil_append] at hentries
  simp only [closeBody, bind_eq_ok, okOr_eq_ok, ensure_eq_ok, pure_eq_ok] at hclose
  obtain ⟨version, -, -, -, rfl⟩ := hclose
  refine ⟨body.hashes, rfl, rfl, ?_⟩
  rw [hhashes, checksums, hentries]
  exact hcount

/-- The parser answers this provider for this block of an accepted file. -/
def Pinned (sha256 : Bytes → Bytes) (text : String) (provider : LockedProvider)
    (block : ProviderBlock) : Prop :=
  ∃ (providers : List LockedProvider) (i : Nat), parseLockProviders sha256 text = .ok providers ∧
    providers[i]? = some provider ∧ (providerBlocks text)[i]? = some block

/-- The digest of the provider is the commitment over the checksums of its block. -/
def Covers (sha256 : Bytes → Bytes) (provider : LockedProvider) (block : ProviderBlock) : Prop :=
  provider.checksumsDigest = commitment sha256 (checksums block.body)

/-- What the parser leaves on opening lines is what it takes from other lists. -/
def Balanced (block : ProviderBlock) : Prop :=
  (openingEntries [] block.body).Perm (otherEntries [] false block.body)

instance (block : ProviderBlock) : Decidable (Balanced block) := by
  unfold Balanced
  infer_instance

theorem Pinned.reads {text : String} {provider : LockedProvider} {block : ProviderBlock}
    (h : Pinned sha256 text provider block) : Reads sha256 provider block := by
  obtain ⟨providers, i, hparse, hprovider, hblock⟩ := h
  have hreads := parseLockProviders_reads hparse
  obtain ⟨hi, rfl⟩ := List.getElem?_eq_some_iff.mp hprovider
  obtain ⟨hi', rfl⟩ := List.getElem?_eq_some_iff.mp hblock
  exact (List.forall₂_iff_get.mp hreads).2 i hi hi'

theorem checksums_oneLine {body : List Line} (h : ∀ line ∈ body, '\n' ∉ line) :
    ∀ entry ∈ checksums body, '\n' ∉ entry.toList := by
  have hempty : Listing.OneLine ⟨[], .outside⟩ :=
    ⟨fun _ hentry => absurd hentry List.not_mem_nil, List.not_mem_nil⟩
  exact (blockLines_oneLine hempty h).1

/-- What the parser counted are the checksums exactly for a balanced block. -/
theorem Pinned.counted {text : String} {provider : LockedProvider} {block : ProviderBlock}
    (h : Pinned sha256 text provider block) (hcomments : commentsEnd [] block.body = true) :
    ∃ counted, provider.checksumsDigest = commitment sha256 counted ∧
      (∀ entry ∈ counted, '\n' ∉ entry.toList) ∧
      (counted.Perm (checksums block.body) ↔ Balanced block) := by
  obtain ⟨counted, -, hdigest, hcount⟩ := h.reads.counted hcomments
  obtain ⟨-, -, -, hlines⟩ := h.reads
  refine ⟨counted, hdigest, ?_, ?_⟩
  · intro entry hentry
    have hmem : entry ∈ (checksums block.body : Multiset String) +
        otherEntries [] false block.body := by
      rw [← hcount]
      exact Multiset.mem_add.mpr (.inl hentry)
    rcases Multiset.mem_add.mp hmem with hmem | hmem
    · exact checksums_oneLine hlines entry hmem
    · exact otherEntries_oneLine hlines entry hmem
  · unfold Balanced
    rw [← Multiset.coe_eq_coe, ← Multiset.coe_eq_coe]
    constructor
    · intro heq
      rw [heq] at hcount
      exact add_left_cancel hcount
    · intro heq
      rw [heq] at hcount
      exact add_right_cancel hcount

def sha256Of : Bytes → Bytes := knownDigest [
  (Core.utf8 "h1:47DEQpj8HBSa+/TImW+5JCeuQeRkm5NMpJWZG3hSuFU=\n",
    0x1aac87a33a74fdca6de3cda9f6cc7d5dfcbfa41c6ec392436a67ad83359604da),
  (Core.utf8 "h1:AAAAAAAAAAAAAAAAAAAAAAAAAAAAAAAAAAAAAAAAAAA=\n",
    0x7474e19f951b037febcd8e23c76be0daf8f9cd5e5add77d44e655c49e6e6ab5e)]

def kubernetes : String := "registry.terraform.io/hashicorp/kubernetes"

/-- A file with one provider, whose block has these lines. -/
def lockText (body : List String) : String :=
  unlines ("provider \"registry.terraform.io/hashicorp/kubernetes\" \x7b" :: body ++ ["\x7d"])

/-- Its block, and the lines in it as the parser sees them. -/
def lockBlock (body : List String) : ProviderBlock where
  address := kubernetes
  body := body.map fun line => trimmed line.toList

theorem isLine_iff {line : String} :
    IsLine line ↔ line.toList.all (fun c => c ≠ '\n' ∧ c ≠ '\r') = true :=
  List.all_iff_forall_prop.symm

-- A literal is the text of its characters, which the kernel need not decode.
theorem lockLines_lockText {body : List String} (h : ∀ line ∈ body, IsLine line) :
    lockLines (lockText body) =
      "provider \"registry.terraform.io/hashicorp/kubernetes\" \x7b".toList ::
        (lockBlock body).body ++ [['\x7d']] := by
  unfold lockLines lockText
  rw [lines_unlines, List.map_append, List.map_cons]
  · have hfirst : trimmed "provider \"registry.terraform.io/hashicorp/kubernetes\" \x7b".toList =
        "provider \"registry.terraform.io/hashicorp/kubernetes\" \x7b".toList := by
      rw [String.toList_ofList]
      decide +kernel
    rw [hfirst]
    rfl
  · intro line hline
    simp only [List.cons_append, List.mem_cons, List.mem_append, List.not_mem_nil, or_false] at hline
    rcases hline with rfl | hline | rfl
    · rw [isLine_iff, String.toList_ofList]
      decide +kernel
    · exact h line hline
    · decide

theorem readLines_append {providers : List LockedProvider} {reading : Reading}
    (first second : List Line) :
    readLines sha256 providers reading (first ++ second) =
      readLines sha256 providers reading first >>= fun read =>
        readLines sha256 read.1 read.2 second := by
  induction first generalizing providers reading with
  | nil => rfl
  | cons line rest ih =>
    simp only [List.cons_append, readLines, ih]
    cases readLine sha256 providers reading line <;> rfl

/-- The lines of a block that no brace begins are read one after the other. -/
theorem readLines_block {block : List Line} {providers : List LockedProvider}
    (hread : block.foldlM (bodyLine address) body = .ok body')
    (hbrace : ∀ line ∈ block, line.head? ≠ some '\x7d') :
    readLines sha256 providers (.block address body) block =
      .ok (providers, .block address body') := by
  induction block generalizing body with
  | nil =>
    cases hread
    rfl
  | cons line rest ih =>
    simp only [List.foldlM_cons, bind_eq_ok] at hread
    obtain ⟨middle, hline, hrest⟩ := hread
    have hopen : ¬(body.inHashes = false ∧ line.head? = some '\x7d') :=
      fun h => hbrace line List.mem_cons_self h.2
    have hread := ih hrest fun other hother => hbrace other (List.mem_cons_of_mem _ hother)
    rw [readLines, readLine, if_neg hopen, hline]
    exact hread

theorem outline_block {block : List Line} (address : String) (before : List Line)
    (hbrace : ∀ line ∈ block, line.head? ≠ some '\x7d') :
    block.foldl outlineLine ([], .block ⟨address, before⟩) =
      ([], .block ⟨address, before ++ block⟩) := by
  induction block generalizing before with
  | nil => simp
  | cons line rest ih =>
    rw [List.foldl_cons, outlineLine, if_neg (hbrace line List.mem_cons_self)]
    rw [ih _ fun other hother => hbrace other (List.mem_cons_of_mem _ hother)]
    simp

theorem lockText_pinned {body : List String} {version : String} {hashes : List String}
    (hlines : ∀ line ∈ body, IsLine line)
    (hbrace : ∀ line ∈ (lockBlock body).body, line.head? ≠ some '\x7d')
    (hread : ((lockBlock body).body.foldlM (bodyLine kubernetes) .empty).toOption =
      some ⟨some version, hashes, false⟩)
    (hne : hashes ≠ []) :
    Pinned sha256Of (lockText body) ⟨kubernetes, version, commitment sha256Of hashes⟩ (lockBlock body) := by
  have hheader : (readLine sha256Of [] .top
      "provider \"registry.terraform.io/hashicorp/kubernetes\" \x7b".toList).toOption =
        some ([], .block kubernetes .empty) := by
    rw [String.toList_ofList]
    decide +kernel
  have houtline : outlineLine ([], .top)
      "provider \"registry.terraform.io/hashicorp/kubernetes\" \x7b".toList =
        ([], .block ⟨kubernetes, []⟩) := by
    rw [String.toList_ofList]
    decide +kernel
  rw [toOption_eq_some] at hheader hread
  have hclose : readLine sha256Of [] (.block kubernetes ⟨some version, hashes, false⟩) ['\x7d'] =
      .ok ([⟨kubernetes, version, commitment sha256Of hashes⟩], .top) := by
    simp [readLine, closeBody, okOr, ensure, hne, bind, Except.bind, pure, Except.pure, Except.map]
  refine ⟨[⟨kubernetes, version, commitment sha256Of hashes⟩], 0, ?_, rfl, ?_⟩
  · unfold parseLockProviders
    rw [lockLines_lockText hlines, List.cons_append, readLines, hheader]
    simp only [bind, Except.bind]
    rw [readLines_append, readLines_block hread hbrace]
    simp only [bind, Except.bind, readLines, hclose]
    rfl
  · unfold providerBlocks
    rw [lockLines_lockText hlines, List.cons_append, List.foldl_cons, houtline, List.foldl_append,
      outline_block _ _ hbrace]
    rfl

def belowBracket : List String := [
  "  version = \"2.23.0\"",
  "  hashes = [",
  "    \"h1:47DEQpj8HBSa+/TImW+5JCeuQeRkm5NMpJWZG3hSuFU=\",",
  "  ]"]

/-- The lines of a block, and what the parser makes of them. -/
structure Layout where
  body : List String
  version : String
  hashes : List String
  lines : ∀ line ∈ body, IsLine line
  brace : ∀ line ∈ (lockBlock body).body, line.head? ≠ some '\x7d'
  reads : ((lockBlock body).body.foldlM (bodyLine kubernetes) .empty).toOption =
    some ⟨some version, hashes, false⟩
  pins : hashes ≠ []

theorem Layout.pinned (layout : Layout) :
    Pinned sha256Of (lockText layout.body)
      ⟨kubernetes, layout.version, commitment sha256Of layout.hashes⟩ (lockBlock layout.body) :=
  lockText_pinned layout.lines layout.brace layout.reads layout.pins

def below : Layout where
  body := belowBracket
  version := "2.23.0"
  hashes := ["h1:47DEQpj8HBSa+/TImW+5JCeuQeRkm5NMpJWZG3hSuFU="]
  lines := by
    simp only [belowBracket, isLine_iff, List.forall_mem_cons]
    repeat rw [String.toList_ofList]
    decide +kernel
  brace := by
    simp only [lockBlock, belowBracket, List.map]
    repeat rw [String.toList_ofList]
    decide +kernel
  reads := by
    simp only [lockBlock, belowBracket, List.map]
    repeat rw [String.toList_ofList]
    decide +kernel
  pins := List.cons_ne_nil _ _

end Shaula.Template.Lockfile
