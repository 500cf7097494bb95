import Mathlib.Data.List.Basic
import Mathlib.Tactic.Common
import Mathlib.Tactic.IntervalCases

/-! # Quoted text

Two ways to write a text between quotes: that of a debug printer, and that of a language with
templates.  Which other characters each writes as they are is told by a table.
-/

namespace Shaula.Library

namespace Quoting

/-- What each printer takes for printable. -/
structure Tables where
  isPrintable : Char → Bool
  isGraphemeExtended : Char → Bool
  isPrint : Char → Bool

/-- Every character from the space to the tilde is printable. -/
def asciiTables : Tables where
  isPrintable c := decide (32 ≤ c.toNat ∧ c.toNat ≤ 126)
  isGraphemeExtended _ := false
  isPrint c := decide (32 ≤ c.toNat ∧ c.toNat ≤ 126)

/-- The letter that stands behind the backslash, where both printers have one. -/
def shortEscape : Char → Option Char
  | '\n' => some 'n'
  | '\r' => some 'r'
  | '\t' => some 't'
  | '\\' => some '\\'
  | '"' => some '"'
  | _ => none

/-- `n` in `width` hexadecimal digits. -/
def hexPadded (width n : Nat) : List Char :=
  (List.range width).map fun i => Nat.digitChar (n / 16 ^ (width - 1 - i) % 16)

/-! ## The debug printer -/

def unicodeEscape (c : Char) : List Char :=
  '\\' :: 'u' :: '\x7b' :: (Nat.toDigits 16 c.toNat ++ ['\x7d'])

def debugChar (T : Tables) (c : Char) : List Char :=
  match shortEscape c with
  | some e => ['\\', e]
  | none =>
    if c = '\x00' then ['\\', '0']
    else if T.isGraphemeExtended c then unicodeEscape c
    else if T.isPrintable c then [c]
    else unicodeEscape c

def debugChars (T : Tables) (s : List Char) : List Char := s.flatMap (debugChar T)

def debug (T : Tables) (s : List Char) : List Char := '"' :: (debugChars T s ++ ['"'])

def debugText (T : Tables) (text : String) : String := String.ofList (debug T text.toList)

def debugTexts (T : Tables) (texts : List String) : String :=
  "[" ++ ", ".intercalate (texts.map (debugText T)) ++ "]"

/-! ## The template language -/

/-- A character in front of `rest`: what introduces a template is doubled. -/
def templateChar (T : Tables) (c : Char) (rest : List Char) : List Char :=
  match shortEscape c with
  | some e => ['\\', e]
  | none =>
    if c = '$' ∨ c = '%' then if rest.head? = some '\x7b' then [c, c] else [c]
    else if T.isPrint c then [c]
    else if c.toNat < 65536 then '\\' :: 'u' :: hexPadded 4 c.toNat
    else '\\' :: 'U' :: hexPadded 8 c.toNat

def templateChars (T : Tables) : List Char → List Char
  | [] => []
  | c :: rest => templateChar T c rest ++ templateChars T rest

def template (T : Tables) (s : List Char) : List Char := '"' :: (templateChars T s ++ ['"'])

/-! ## Where they agree -/

variable {T : Tables} {c : Char} {s rest : List Char}

/-- Both printers write the character, in front of `rest`, in one way. -/
def AlikeAt (T : Tables) (c : Char) (rest : List Char) : Prop :=
  (shortEscape c).isSome ∨
    (c ≠ '\x00' ∧ T.isGraphemeExtended c = false ∧ T.isPrintable c = true ∧
      if c = '$' ∨ c = '%' then rest.head? ≠ some '\x7b' else T.isPrint c = true)

instance : Decidable (AlikeAt T c rest) := inferInstanceAs (Decidable (_ ∨ _))

/-- Both printers write every character of the text in one way. -/
def Alike (T : Tables) : List Char → Prop
  | [] => True
  | c :: rest => AlikeAt T c rest ∧ Alike T rest

instance Alike.decidable (T : Tables) : (s : List Char) → Decidable (Alike T s)
  | [] => inferInstanceAs (Decidable True)
  | c :: rest =>
    have := Alike.decidable T rest
    inferInstanceAs (Decidable (AlikeAt T c rest ∧ Alike T rest))

@[simp] theorem debugChars_cons : debugChars T (c :: rest) = debugChar T c ++ debugChars T rest := rfl

theorem shortEscape_eq_none_iff :
    shortEscape c = none ↔ c ≠ '\n' ∧ c ≠ '\r' ∧ c ≠ '\t' ∧ c ≠ '\\' ∧ c ≠ '"' := by
  unfold shortEscape
  split <;> simp_all

theorem AlikeAt.eq (h : AlikeAt T c rest) : debugChar T c = templateChar T c rest := by
  unfold debugChar templateChar
  cases hshort : shortEscape c with
  | some e => rfl
  | none =>
    rcases h with hescape | ⟨hzero, hextended, hprintable, hplain⟩
    · rw [hshort] at hescape
      cases hescape
    · by_cases hintro : c = '$' ∨ c = '%'
      · rw [if_pos hintro] at hplain
        simp only [if_neg hzero, hextended, hprintable, if_pos hintro, if_neg hplain,
          Bool.false_eq_true, if_false, if_true]
      · rw [if_neg hintro] at hplain
        simp only [if_neg hzero, hextended, hprintable, if_neg hintro, hplain, Bool.false_eq_true,
          if_false, if_true]

theorem digitChar_ne_brace {n : Nat} (h : n < 16) : Nat.digitChar n ≠ '\x7b' := by
  interval_cases n <;> decide

/-- What either printer writes begins with the character itself, or with a backslash. -/
theorem debugChar_cases (hshort : shortEscape c = none) :
    debugChar T c = ['\\', '0'] ∧ c = '\x00' ∨ debugChar T c = unicodeEscape c ∨
      debugChar T c = [c] ∧ c ≠ '\x00' ∧ T.isGraphemeExtended c = false ∧
        T.isPrintable c = true := by
  simp only [debugChar, hshort]
  split_ifs with hzero hextended hprintable
  · exact .inl ⟨rfl, hzero⟩
  · exact .inr (.inl rfl)
  · exact .inr (.inr ⟨rfl, hzero, by simpa using hextended, hprintable⟩)
  · exact .inr (.inl rfl)

theorem templateChar_cases (hshort : shortEscape c = none) :
    templateChar T c rest = [c, c] ∧ (c = '$' ∨ c = '%') ∧ rest.head? = some '\x7b' ∨
      templateChar T c rest = [c] ∧
        (if c = '$' ∨ c = '%' then rest.head? ≠ some '\x7b' else T.isPrint c = true) ∨
      (∃ d more, d ≠ '\x7b' ∧ templateChar T c rest = '\\' :: 'u' :: d :: more) ∨
      ∃ more, templateChar T c rest = '\\' :: 'U' :: more := by
  simp only [templateChar, hshort]
  split_ifs with hintro hbrace hprint hsmall
  · exact .inl ⟨rfl, hintro, hbrace⟩
  · exact .inr (.inl ⟨rfl, hbrace⟩)
  · exact .inr (.inl ⟨rfl, hprint⟩)
  · refine .inr (.inr (.inl ⟨_, _, digitChar_ne_brace ?_, rfl⟩))
    exact Nat.mod_lt _ (by decide)
  · exact .inr (.inr (.inr ⟨_, rfl⟩))

/-- Before a brace the debug printer has written neither of the introducers. -/
theorem debugChars_of_brace (h : rest.head? = some '\x7b') :
    ∃ d more, debugChars T rest = d :: more ∧ d ≠ '$' ∧ d ≠ '%' := by
  obtain ⟨more, rfl⟩ : ∃ more, rest = '\x7b' :: more := by
    cases rest with
    | nil => cases h
    | cons d more =>
      cases h
      exact ⟨more, rfl⟩
  have hshort : shortEscape '\x7b' = none := by decide
  rcases debugChar_cases (T := T) hshort with ⟨-, hzero⟩ | hunicode | ⟨hplain, -⟩
  · exact absurd hzero (by decide)
  · exact ⟨'\\', _, by rw [debugChars_cons, hunicode]; rfl, by decide, by decide⟩
  · exact ⟨'\x7b', _, by rw [debugChars_cons, hplain]; rfl, by decide, by decide⟩

/-- The first character written in two ways tells the texts apart. -/
theorem append_ne_of_not_alikeAt (h : ¬ AlikeAt T c rest) (tail tail' : List Char) :
    debugChar T c ++ (debugChars T rest ++ tail) ≠ templateChar T c rest ++ tail' := by
  cases hshort : shortEscape c with
  | some e => exact absurd (Or.inl (by rw [hshort]; rfl)) h
  | none =>
    obtain ⟨-, -, -, hbackslash, -⟩ := shortEscape_eq_none_iff.mp hshort
    have hfirst := debugChar_cases (T := T) hshort
    rcases @templateChar_cases T c rest hshort with
      ⟨htemplate, hintro, hbrace⟩ | ⟨htemplate, hplain⟩ | ⟨d, more, hd, htemplate⟩ |
        ⟨more, htemplate⟩
    · rcases hfirst with ⟨hdebug, -⟩ | hdebug | ⟨hdebug, -⟩
      · simp [hdebug, htemplate, Ne.symm hbackslash]
      · simp [hdebug, htemplate, unicodeEscape, Ne.symm hbackslash]
      · -- One introducer against two: what follows it is the brace.
        obtain ⟨d, more, hrest, hdollar, hpercent⟩ := debugChars_of_brace (T := T) hbrace
        rw [hdebug, htemplate, hrest]
        rcases hintro with rfl | rfl
        · simp [hdollar]
        · simp [hpercent]
    · rcases hfirst with ⟨hdebug, -⟩ | hdebug | ⟨hdebug, hzero, hextended, hprintable⟩
      · simp [hdebug, htemplate, Ne.symm hbackslash]
      · simp [hdebug, htemplate, unicodeEscape, Ne.symm hbackslash]
      · exact absurd (Or.inr ⟨hzero, hextended, hprintable, hplain⟩) h
    · rcases hfirst with ⟨hdebug, -⟩ | hdebug | ⟨hdebug, -⟩
      · simp [hdebug, htemplate]
      · simp [hdebug, htemplate, unicodeEscape, Ne.symm hd]
      · simp [hdebug, htemplate, hbackslash]
    · rcases hfirst with ⟨hdebug, -⟩ | hdebug | ⟨hdebug, -⟩
      · simp [hdebug, htemplate]
      · simp [hdebug, htemplate, unicodeEscape]
      · simp [hdebug, htemplate, hbackslash]

/-- **Agreement.**  The two quoted texts are the same exactly if every character is written in one
way. -/
theorem debug_eq_template_iff : debug T s = template T s ↔ Alike T s := by
  have key (tail : List Char) :
      debugChars T s ++ tail = templateChars T s ++ tail ↔ Alike T s := by
    induction s with
    | nil => simp [debugChars, templateChars, Alike]
    | cons c rest ih =>
      rw [debugChars_cons, templateChars, List.append_assoc, List.append_assoc, Alike]
      by_cases hc : AlikeAt T c rest
      · rw [hc.eq, List.append_cancel_left_eq, ih, and_iff_right hc]
      · refine iff_of_false ?_ fun h => hc h.1
        exact append_ne_of_not_alikeAt hc tail _
  rw [debug, template, List.cons.injEq, and_iff_right rfl]
  exact key _

/-! ## Reading back -/

theorem debugChar_of_alikeAt (h : AlikeAt T c rest) :
    (∃ e, shortEscape c = some e ∧ debugChar T c = ['\\', e]) ∨
      shortEscape c = none ∧ debugChar T c = [c] := by
  cases hshort : shortEscape c with
  | some e => exact .inl ⟨e, rfl, by simp [debugChar, hshort]⟩
  | none =>
    rcases h with hescape | ⟨hzero, hextended, hprintable, -⟩
    · rw [hshort] at hescape
      cases hescape
    · refine .inr ⟨rfl, ?_⟩
      simp [debugChar, hshort, hzero, hextended, hprintable]

theorem shortEscape_injective {d e x : Char} (hd : shortEscape d = some x)
    (he : shortEscape e = some x) : d = e := by
  have heq : shortEscape d = shortEscape e := hd.trans he.symm
  unfold shortEscape at heq hd
  split at heq <;> split at heq <;> simp_all

/-- A text that both write alike is told, up to the closing quote, from what stands after it. -/
theorem debugChars_quote_inj {s s' : List Char} (h : Alike T s) (h' : Alike T s')
    {tail tail' : List Char}
    (heq : debugChars T s ++ '"' :: tail = debugChars T s' ++ '"' :: tail') :
    s = s' ∧ tail = tail' := by
  induction s generalizing s' with
  | nil =>
    cases s' with
    | nil => exact ⟨rfl, by simpa [debugChars] using heq⟩
    | cons c' rest' =>
      rcases debugChar_of_alikeAt h'.1 with ⟨e, he, hc'⟩ | ⟨hnone, hc'⟩
      · simp [debugChars, hc'] at heq
      · obtain ⟨-, -, -, -, hquote⟩ := shortEscape_eq_none_iff.mp hnone
        simp [debugChars, hc', Ne.symm hquote] at heq
  | cons c rest ih =>
    cases s' with
    | nil =>
      rcases debugChar_of_alikeAt h.1 with ⟨e, he, hc⟩ | ⟨hnone, hc⟩
      · simp [debugChars, hc] at heq
      · obtain ⟨-, -, -, -, hquote⟩ := shortEscape_eq_none_iff.mp hnone
        simp [debugChars, hc, hquote] at heq
    | cons c' rest' =>
      rw [debugChars_cons, debugChars_cons, List.append_assoc, List.append_assoc] at heq
      rcases debugChar_of_alikeAt h.1 with ⟨e, he, hc⟩ | ⟨hnone, hc⟩ <;>
        rcases debugChar_of_alikeAt h'.1 with ⟨e', he', hc'⟩ | ⟨hnone', hc'⟩
      · simp only [hc, hc', List.cons_append, List.nil_append, List.cons.injEq, true_and] at heq
        obtain ⟨rfl, hrest⟩ := heq
        obtain ⟨rfl, htail⟩ := ih h.2 h'.2 hrest
        exact ⟨by rw [shortEscape_injective he he'], htail⟩
      · obtain ⟨-, -, -, hbackslash, -⟩ := shortEscape_eq_none_iff.mp hnone'
        simp [hc, hc', Ne.symm hbackslash] at heq
      · obtain ⟨-, -, -, hbackslash, -⟩ := shortEscape_eq_none_iff.mp hnone
        simp [hc, hc', hbackslash] at heq
      · simp only [hc, hc', List.cons_append, List.nil_append, List.cons.injEq] at heq
        obtain ⟨rfl, hrest⟩ := heq
        obtain ⟨rfl, htail⟩ := ih h.2 h'.2 hrest
        exact ⟨rfl, htail⟩

end Quoting

end Shaula.Library
