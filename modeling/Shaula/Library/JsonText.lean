import Mathlib.Data.UInt

/-! # JSON texts of strings

String literals, members and flat lists of them, as bytes.  The writer escapes what must be escaped
and nothing else; the reader accepts every escape and white space between the tokens.  What was
written is read back, whatever follows it.
-/

namespace Shaula.Library.JsonText

/-- Raw bytes of a text. -/
abbrev Bytes := List UInt8

/-! ## String literals -/

/-- The letter behind the backslash, for the bytes that have a short escape. -/
def shortEscape (b : UInt8) : Option UInt8 :=
  if b = 0x08 then some 0x62
  else if b = 0x09 then some 0x74
  else if b = 0x0a then some 0x6e
  else if b = 0x0c then some 0x66
  else if b = 0x0d then some 0x72
  else if b = 0x22 then some 0x22
  else if b = 0x5c then some 0x5c
  else none

/-- The byte that a short escape stands for. -/
def unescape (b : UInt8) : Option UInt8 :=
  if b = 0x62 then some 0x08
  else if b = 0x74 then some 0x09
  else if b = 0x6e then some 0x0a
  else if b = 0x66 then some 0x0c
  else if b = 0x72 then some 0x0d
  else if b = 0x22 ∨ b = 0x5c ∨ b = 0x2f then some b
  else none

/-- A lowercase hexadecimal digit. -/
def hexDigit (n : Nat) : UInt8 := .ofNat (if n < 10 then 48 + n else 87 + n)

def hexValue (b : UInt8) : Option Nat :=
  if 48 ≤ b.toNat ∧ b.toNat ≤ 57 then some (b.toNat - 48)
  else if 97 ≤ b.toNat ∧ b.toNat ≤ 102 then some (b.toNat - 87)
  else if 65 ≤ b.toNat ∧ b.toNat ≤ 70 then some (b.toNat - 55)
  else none

def escapeByte (b : UInt8) : Bytes :=
  match shortEscape b with
  | some letter => [0x5c, letter]
  | none =>
    if b.toNat < 0x20 then
      [0x5c, 0x75, 0x30, 0x30, hexDigit (b.toNat / 16), hexDigit (b.toNat % 16)]
    else [b]

/-- A string literal behind its opening quote. -/
def escape (text : Bytes) : Bytes := text.flatMap escapeByte ++ [0x22]

/-- Four hexadecimal digits. -/
def readHex : Bytes → Option (Nat × Bytes)
  | a :: b :: c :: d :: rest => do
    let a ← hexValue a
    let b ← hexValue b
    let c ← hexValue c
    let d ← hexValue d
    some (((a * 16 + b) * 16 + c) * 16 + d, rest)
  | _ => none

def encodeChar (n : Nat) : Bytes := String.utf8EncodeChar (Char.ofNat n)

/-- A character by its UTF-16 code units; a surrogate without its partner is refused. -/
def readUnicode (bytes : Bytes) : Option (Bytes × Bytes) := do
  let (n, rest) ← readHex bytes
  if 0xdc00 ≤ n ∧ n ≤ 0xdfff then none
  else if 0xd800 ≤ n ∧ n ≤ 0xdbff then
    match rest with
    | 0x5c :: 0x75 :: rest => do
      let (m, rest) ← readHex rest
      if 0xdc00 ≤ m ∧ m ≤ 0xdfff then
        some (encodeChar ((n - 0xd800) * 0x400 + (m - 0xdc00) + 0x10000), rest)
      else none
    | _ => none
  else some (encodeChar n, rest)

/-- What stands behind a backslash. -/
def readEscape : Bytes → Option (Bytes × Bytes)
  | [] => none
  | b :: rest => if b = 0x75 then readUnicode rest else (unescape b).map fun c => ([c], rest)

/-- The content of a literal up to its closing quote, of at most `fuel` characters. -/
def readChars : Nat → Bytes → Option (Bytes × Bytes)
  | 0, _ => none
  | _ + 1, [] => none
  | fuel + 1, b :: rest =>
    if b = 0x22 then some ([], rest)
    else if b = 0x5c then do
      let (char, rest) ← readEscape rest
      let (text, rest) ← readChars fuel rest
      some (char ++ text, rest)
    else if b.toNat < 0x20 then none
    else do
      let (text, rest) ← readChars fuel rest
      some (b :: text, rest)

/-- A literal behind its opening quote; its content must be UTF-8. -/
def readText (bytes : Bytes) : Option (String × Bytes) := do
  let (text, rest) ← readChars bytes.length bytes
  let text ← String.fromUTF8? ⟨text.toArray⟩
  some (text, rest)

def writeText (text : String) : Bytes := 0x22 :: escape text.toByteArray.data.toList

/-! ## Members and lists -/

def isSpace (b : UInt8) : Bool := b = 0x20 || b = 0x0a || b = 0x09 || b = 0x0d

def skipSpace (bytes : Bytes) : Bytes := bytes.dropWhile isSpace

/-- A string. -/
def readString : Bytes → Option (String × Bytes)
  | 0x22 :: rest => readText rest
  | _ => none

/-- A key and its value, a string. -/
def readMember (bytes : Bytes) : Option ((String × String) × Bytes) := do
  let (key, rest) ← readString bytes
  match skipSpace rest with
  | 0x3a :: rest => do
    let (value, rest) ← readString (skipSpace rest)
    some ((key, value), rest)
  | _ => none

def writeMember (member : String × String) : Bytes :=
  writeText member.1 ++ 0x3a :: writeText member.2

section Lists

variable {α : Type} (item : Bytes → Option (α × Bytes)) (close : UInt8)

/-- One item or more up to the closing byte, of at most `fuel` items. -/
def readItems : Nat → Bytes → Option (List α × Bytes)
  | 0, _ => none
  | fuel + 1, bytes => do
    let (first, rest) ← item (skipSpace bytes)
    match skipSpace rest with
    | [] => none
    | b :: rest =>
      if b = close then some ([first], rest)
      else if b = 0x2c then do
        let (items, rest) ← readItems fuel rest
        some (first :: items, rest)
      else none

/-- The items behind the opening byte. -/
def readList (bytes : Bytes) : Option (List α × Bytes) :=
  match skipSpace bytes with
  | [] => none
  | b :: rest => if b = close then some ([], rest) else readItems item close bytes.length (b :: rest)

/-- The items behind the opening byte, with the closing one. -/
def writeItems (write : α → Bytes) : List α → Bytes
  | [] => [close]
  | [last] => write last ++ [close]
  | first :: second :: rest => write first ++ 0x2c :: writeItems write (second :: rest)

end Lists

/-! ## What was written is read back -/

theorem unescape_shortEscape {b letter : UInt8} (h : shortEscape b = some letter) :
    unescape letter = some b ∧ letter ≠ 0x75 := by
  unfold shortEscape at h
  split_ifs at h with hb hb hb hb hb hb hb
  all_goals
    cases h
    rw [hb]
    exact ⟨rfl, by decide⟩

theorem hexValue_hexDigit {n : Nat} (h : n < 16) : hexValue (hexDigit n) = some n := by
  have hall : ∀ n : Fin 16, hexValue (hexDigit n) = some n.val := by decide
  exact hall ⟨n, h⟩

/-- The first 128 code points are their own encoding. -/
theorem encodeChar_of_lt {b : UInt8} (h : b.toNat < 0x20) : encodeChar b.toNat = [b] := by
  have hall : ∀ n : Fin 0x20, encodeChar n = [UInt8.ofNat n] := by decide
  have hb := hall ⟨b.toNat, h⟩
  rw [UInt8.ofNat_toNat] at hb
  exact hb

theorem readUnicode_control {b : UInt8} (h : b.toNat < 0x20) (rest : Bytes) :
    readUnicode (0x30 :: 0x30 :: hexDigit (b.toNat / 16) :: hexDigit (b.toNat % 16) :: rest) =
      some ([b], rest) := by
  have hzero : hexValue 0x30 = some 0 := rfl
  have hhigh : hexValue (hexDigit (b.toNat / 16)) = some (b.toNat / 16) :=
    hexValue_hexDigit (by omega)
  have hlow : hexValue (hexDigit (b.toNat % 16)) = some (b.toNat % 16) :=
    hexValue_hexDigit (by omega)
  have hvalue : ((0 * 16 + 0) * 16 + b.toNat / 16) * 16 + b.toNat % 16 = b.toNat := by omega
  have hnot : ¬ (0xdc00 ≤ b.toNat ∧ b.toNat ≤ 0xdfff) := by omega
  have hnot' : ¬ (0xd800 ≤ b.toNat ∧ b.toNat ≤ 0xdbff) := by omega
  simp only [readUnicode, readHex, hzero, hhigh, hlow, Option.bind_eq_bind, Option.bind_some,
    hvalue, if_neg hnot, if_neg hnot', encodeChar_of_lt h]

theorem readChars_backslash (fuel : Nat) {char bytes rest : Bytes}
    (h : readEscape bytes = some (char, rest)) :
    readChars (fuel + 1) (0x5c :: bytes) =
      (readChars fuel rest).map fun read => (char ++ read.1, read.2) := by
  rw [readChars, if_neg (by decide), if_pos rfl, h]
  simp only [Option.bind_eq_bind, Option.bind_some]
  cases readChars fuel rest <;> rfl

/-- One escaped byte is one character of the literal. -/
theorem readChars_escapeByte (fuel : Nat) (b : UInt8) (rest : Bytes) :
    readChars (fuel + 1) (escapeByte b ++ rest) =
      (readChars fuel rest).map fun read => (b :: read.1, read.2) := by
  unfold escapeByte
  cases hshort : shortEscape b with
  | some letter =>
    obtain ⟨hletter, hne⟩ := unescape_shortEscape hshort
    have hescape : readEscape (letter :: rest) = some ([b], rest) := by
      rw [readEscape, if_neg hne, hletter]
      rfl
    exact readChars_backslash fuel hescape
  | none =>
    by_cases hcontrol : b.toNat < 0x20
    · have hescape : readEscape (0x75 :: 0x30 :: 0x30 :: hexDigit (b.toNat / 16) ::
          hexDigit (b.toNat % 16) :: rest) = some ([b], rest) := readUnicode_control hcontrol rest
      simp only [if_pos hcontrol]
      exact readChars_backslash fuel hescape
    · have hquote : b ≠ 0x22 := by
        rintro rfl
        cases hshort
      have hbackslash : b ≠ 0x5c := by
        rintro rfl
        cases hshort
      simp only [if_neg hcontrol, List.cons_append, List.nil_append, readChars, if_neg hquote,
        if_neg hbackslash]
      cases readChars fuel rest <;> rfl

theorem readChars_escape {fuel : Nat} (text rest : Bytes) (h : text.length < fuel) :
    readChars fuel (escape text ++ rest) = some (text, rest) := by
  induction text generalizing fuel with
  | nil =>
    cases fuel with
    | zero => cases h
    | succ fuel => rfl
  | cons b text ih =>
    cases fuel with
    | zero => cases h
    | succ fuel =>
      have hrest := ih (Nat.lt_of_succ_lt_succ h)
      simp only [escape, List.flatMap_cons, List.append_assoc] at hrest ⊢
      rw [readChars_escapeByte, hrest]
      rfl

theorem length_lt_escape (text : Bytes) : text.length < (escape text).length := by
  induction text with
  | nil => decide
  | cons b text ih =>
    have hbyte : 0 < (escapeByte b).length := by
      unfold escapeByte
      split
      · exact Nat.succ_pos _
      · split <;> exact Nat.succ_pos _
    simp only [escape, List.flatMap_cons, List.length_append, List.length_cons,
      List.length_nil] at ih ⊢
    omega

theorem fromUTF8_toByteArray (text : String) :
    String.fromUTF8? ⟨text.toByteArray.data.toList.toArray⟩ = some text := by
  rw [Array.toArray_toList]
  exact dif_pos text.isValidUTF8

theorem readString_writeText (text : String) (rest : Bytes) :
    readString (writeText text ++ rest) = some (text, rest) := by
  have hfuel : text.toByteArray.data.toList.length <
      (escape text.toByteArray.data.toList ++ rest).length := by
    have := length_lt_escape text.toByteArray.data.toList
    rw [List.length_append]
    omega
  simp only [writeText, List.cons_append, readString, readText, readChars_escape _ _ hfuel,
    Option.bind_eq_bind, Option.bind_some, fromUTF8_toByteArray]

/-- A written text ends where the text says. -/
theorem writeText_append_inj {text text' : String} {rest rest' : Bytes}
    (h : writeText text ++ rest = writeText text' ++ rest') : text = text' ∧ rest = rest' := by
  have hread := readString_writeText text rest
  rw [h, readString_writeText] at hread
  exact ⟨(Prod.mk.inj (Option.some.inj hread)).1.symm,
    (Prod.mk.inj (Option.some.inj hread)).2.symm⟩

/-- No white space stands before a literal. -/
theorem skipSpace_writeText (text : String) (rest : Bytes) :
    skipSpace (writeText text ++ rest) = writeText text ++ rest := rfl

theorem readMember_writeMember (member : String × String) (rest : Bytes) :
    readMember (writeMember member ++ rest) = some (member, rest) := by
  have hcolon : ∀ bytes, skipSpace (0x3a :: bytes) = 0x3a :: bytes := fun _ => rfl
  simp only [readMember, writeMember, List.append_assoc, List.cons_append, readString_writeText,
    Option.bind_eq_bind, Option.bind_some, hcolon, skipSpace_writeText]

section Lists

variable {α : Type} {item : Bytes → Option (α × Bytes)} {write : α → Bytes} {close : UInt8}

/-- A list that is written is read back, if its items are and begin with no white space. -/
theorem readItems_writeItems (hclose : close ≠ 0x2c) (hspace : isSpace close = false)
    (hitem : ∀ a rest, item (write a ++ rest) = some (a, rest))
    (hwrite : ∀ a rest, skipSpace (write a ++ rest) = write a ++ rest) {fuel : Nat}
    {items : List α} (hne : items ≠ []) (hfuel : items.length ≤ fuel) (rest : Bytes) :
    readItems item close fuel (writeItems close write items ++ rest) = some (items, rest) := by
  have hskip : ∀ bytes, skipSpace (close :: bytes) = close :: bytes := by
    intro bytes
    rw [skipSpace, List.dropWhile_cons, if_neg (by rw [hspace]; decide)]
  have hcomma : ∀ bytes, skipSpace (0x2c :: bytes) = 0x2c :: bytes := fun _ => rfl
  induction items generalizing fuel with
  | nil => exact absurd rfl hne
  | cons first more ih =>
    cases fuel with
    | zero => cases hfuel
    | succ fuel =>
      cases more with
      | nil =>
        simp only [writeItems, List.append_assoc, readItems, hwrite, hitem, Option.bind_eq_bind,
          Option.bind_some, List.cons_append, List.nil_append, hskip, if_pos]
      | cons second more =>
        have hrest := ih (List.cons_ne_nil _ _) (Nat.le_of_succ_le_succ hfuel)
        simp only [writeItems, List.append_assoc, readItems, hwrite, hitem, Option.bind_eq_bind,
          Option.bind_some, List.cons_append, hcomma, if_neg hclose.symm, if_pos, hrest]

theorem length_le_writeItems {items : List α} (hne : items ≠ []) :
    items.length ≤ (writeItems close write items).length := by
  induction items with
  | nil => exact absurd rfl hne
  | cons first more ih =>
    cases more with
    | nil => simp [writeItems]
    | cons second more =>
      have hrest := ih (List.cons_ne_nil _ _)
      simp only [writeItems, List.length_append, List.length_cons] at hrest ⊢
      omega

theorem readList_writeItems (hclose : close ≠ 0x2c) (hspace : isSpace close = false)
    (hitem : ∀ a rest, item (write a ++ rest) = some (a, rest))
    (hwrite : ∀ a rest, ∃ b more, write a ++ rest = b :: more ∧ isSpace b = false ∧ b ≠ close)
    {items : List α} (hne : items ≠ []) (rest : Bytes) :
    readList item close (writeItems close write items ++ rest) = some (items, rest) := by
  have hskip : ∀ b more, isSpace b = false → skipSpace (b :: more) = b :: more := by
    intro b more hb
    rw [skipSpace, List.dropWhile_cons, if_neg (by rw [hb]; decide)]
  have hskips : ∀ a rest, skipSpace (write a ++ rest) = write a ++ rest := by
    intro a rest
    obtain ⟨b, more, hfirst, hb, -⟩ := hwrite a rest
    rw [hfirst, hskip b more hb]
  have hfuel : items.length ≤ (writeItems close write items ++ rest).length := by
    have hitems : items.length ≤ (writeItems close write items).length :=
      length_le_writeItems hne
    rw [List.length_append]
    omega
  have hread := readItems_writeItems hclose hspace hitem hskips hne hfuel rest
  obtain ⟨b, more, hfirst, hb, hbclose⟩ : ∃ b more,
      writeItems close write items ++ rest = b :: more ∧ isSpace b = false ∧ b ≠ close := by
    match items, hne with
    | [last], _ =>
      obtain ⟨b, more, hfirst, hb⟩ := hwrite last ([close] ++ rest)
      exact ⟨b, more, by rw [writeItems, List.append_assoc, hfirst], hb⟩
    | first :: second :: items, _ =>
      obtain ⟨b, more, hfirst, hb⟩ :=
        hwrite first (0x2c :: (writeItems close write (second :: items) ++ rest))
      exact ⟨b, more, by rw [writeItems, List.append_assoc, List.cons_append, hfirst], hb⟩
  rw [hfirst] at hread ⊢
  simp only [readList, hskip b more hb, if_neg hbclose]
  exact hread

/-- A written list ends where it says. -/
theorem writeItems_append_inj (hclose : close ≠ 0x2c) (hspace : isSpace close = false)
    (hitem : ∀ a rest, item (write a ++ rest) = some (a, rest))
    (hwrite : ∀ a rest, ∃ b more, write a ++ rest = b :: more ∧ isSpace b = false ∧ b ≠ close)
    {items items' : List α} {rest rest' : Bytes}
    (h : writeItems close write items ++ rest = writeItems close write items' ++ rest') :
    items = items' ∧ rest = rest' := by
  have hread : ∀ (items : List α) rest,
      readList item close (writeItems close write items ++ rest) = some (items, rest) := by
    intro items rest
    by_cases hne : items = []
    · subst hne
      have hskip : skipSpace (close :: rest) = close :: rest := by
        rw [skipSpace, List.dropWhile_cons, if_neg (by rw [hspace]; decide)]
      simp only [writeItems, List.cons_append, List.nil_append, readList, hskip, if_pos]
    · exact readList_writeItems hclose hspace hitem hwrite hne rest
  have hboth := (hread items rest).symm.trans ((congrArg _ h).trans (hread items' rest'))
  exact ⟨(Prod.mk.inj (Option.some.inj hboth)).1, (Prod.mk.inj (Option.some.inj hboth)).2⟩

end Lists

/-- A written list of texts ends where it says. -/
theorem writeTexts_append_inj {texts texts' : List String} {rest rest' : Bytes}
    (h : writeItems 0x5d writeText texts ++ rest = writeItems 0x5d writeText texts' ++ rest') :
    texts = texts' ∧ rest = rest' :=
  writeItems_append_inj (by decide) rfl readString_writeText
    (fun _ _ => ⟨0x22, _, rfl, rfl, by decide⟩) h

end Shaula.Library.JsonText
