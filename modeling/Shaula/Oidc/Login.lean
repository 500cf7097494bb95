import Shaula.Core.Records
import Shaula.Library.Outcome
import Shaula.Oidc.Sessions

/-! # Where a login leads

The page that a browser asks for is checked before a login starts, and is the target of the redirect
that ends it.
-/

namespace Shaula.Oidc

open Library Library.Outcome

/-! ## Form encoding -/

namespace Form

/-- A sequence of bytes under way: how many continuation bytes are left, the code so far, and the
range the next byte must lie in. -/
structure Decoding where
  left : Nat
  code : Nat
  least : Nat
  greatest : Nat

/-- What the first byte of a sequence announces. -/
def lead (b : Nat) : Option Decoding :=
  if 0xC2 ≤ b ∧ b ≤ 0xDF then some ⟨1, b % 32, 0x80, 0xBF⟩
  else if b = 0xE0 then some ⟨2, 0, 0xA0, 0xBF⟩
  else if b = 0xED then some ⟨2, 13, 0x80, 0x9F⟩
  else if 0xE1 ≤ b ∧ b ≤ 0xEF then some ⟨2, b % 16, 0x80, 0xBF⟩
  else if b = 0xF0 then some ⟨3, 0, 0x90, 0xBF⟩
  else if 0xF1 ≤ b ∧ b ≤ 0xF3 then some ⟨3, b % 8, 0x80, 0xBF⟩
  else if b = 0xF4 then some ⟨3, 4, 0x80, 0x8F⟩
  else none

def replacement : Char := '\uFFFD'

/-- A byte that continues no sequence: a character of its own, the first of a sequence, or none. -/
def first (b : UInt8) : List Char × Option Decoding :=
  if b.toNat < 0x80 then ([Char.ofNat b.toNat], none)
  else match lead b.toNat with
    | some decoding => ([], some decoding)
    | none => ([replacement], none)

/-- One byte of `String::from_utf8_lossy`. -/
def feed (decoding : Option Decoding) (b : UInt8) : List Char × Option Decoding :=
  match decoding with
  | none => first b
  | some d =>
    if d.least ≤ b.toNat ∧ b.toNat ≤ d.greatest then
      let code := d.code * 64 + b.toNat % 64
      if d.left = 1 then ([Char.ofNat code], none) else ([], some ⟨d.left - 1, code, 0x80, 0xBF⟩)
    else (replacement :: (first b).1, (first b).2)

def lossy (decoding : Option Decoding) : List UInt8 → List Char
  | [] => if decoding.isSome then [replacement] else []
  | b :: rest => (feed decoding b).1 ++ lossy (feed decoding b).2 rest

def hexDigit (b : UInt8) : Option UInt8 :=
  if 48 ≤ b ∧ b ≤ 57 then some (b - 48)
  else if 65 ≤ b ∧ b ≤ 70 then some (b - 55)
  else if 97 ≤ b ∧ b ≤ 102 then some (b - 87)
  else none

/-- A percent sign without two digits behind it stands for itself. -/
def percentDecode : List UInt8 → List UInt8
  | [] => []
  | [b] => [b]
  | [b, c] => [b, c]
  | b :: high :: low :: rest =>
    if b = 37 then
      match hexDigit high, hexDigit low with
      | some high, some low => (high * 16 + low) :: percentDecode rest
      | _, _ => b :: percentDecode (high :: low :: rest)
    else b :: percentDecode (high :: low :: rest)

def decode (bytes : List UInt8) : String :=
  String.ofList (lossy none (percentDecode (bytes.map fun b => if b = 43 then 32 else b)))

/-- `url::form_urlencoded::parse`. -/
def parse (bytes : List UInt8) : List (String × String) :=
  ((bytes.splitOn 38).filter (· ≠ [])).map fun pair =>
    (decode (pair.takeWhile (· ≠ 61)), decode ((pair.dropWhile (· ≠ 61)).drop 1))

end Form

/-! ## The target -/

abbrev Text := List Char

def Text.bytes (text : Text) : List UInt8 := text.flatMap String.utf8EncodeChar

def document (path : Text) : Bool :=
  match path with
  | '/' :: rest =>
    !(rest = "api".toList || "api/".toList.isPrefixOf rest || rest = "livez".toList ||
      rest = "readyz".toList || rest = "assets".toList || "assets/".toList.isPrefixOf rest)
  | _ => false

/-- An unreserved character, or one of those a path may hold. -/
def segmentChar (c : Char) : Bool := c.isAlphanum || c = '-' || c = '_' || c = '.'

def appPath (path : Text) : Bool :=
  path = ['/'] || (document path && path.bytes.length ≤ 512 &&
    ((path.drop 1).splitOn '/').all fun segment =>
      segment ≠ [] && segment ≠ ['.'] && segment ≠ ['.', '.'] && segment.all segmentChar)

def jobsKeys : List String :=
  ["fleet_key", "repository", "job_name", "status", "since", "until", "cursor", "limit",
    "association"]

def otherKeys : List String := ["key", "id", "type"]

/-- Some parameter is refused; `keys` are those seen before. -/
def refusedJobs (keys : List String) : List (String × String) → Bool
  | [] => false
  | (key, value) :: rest =>
    key ∉ jobsKeys || key ∈ keys || value.utf8ByteSize > 2048 ||
      value.toList.any Core.isControl || value.toList.contains '\\' ||
      refusedJobs (key :: keys) rest

def refusedOther (params : List (String × String)) : Bool :=
  params.any fun (key, value) =>
    key ∉ otherKeys || value.utf8ByteSize > 256 || value.toList.any Core.isControl ||
      value.toList.any fun c => c = '\\' || c = '/' || c = '%'

/-- The checks made on the text as it came. -/
def plain (raw : Text) : Bool :=
  raw.bytes.length ≤ 2048 && !raw.any (fun c => c = '\\' || c = '#') && !raw.any Core.isControl

def pathOf (raw : Text) : Text := raw.takeWhile (· ≠ '?')

def queryOf (raw : Text) : Text := (raw.dropWhile (· ≠ '?')).drop 1

def jobsPath (path : Text) : Bool := path = "/jobs".toList || "/jobs/".toList.isPrefixOf path

def fleets : Text := "/fleets".toList

def returnTarget (raw : Option Text) : Text :=
  match raw.filter plain with
  | none => fleets
  | some raw =>
    if !appPath (pathOf raw) then fleets
    else
      let params := Form.parse (queryOf raw).bytes
      if jobsPath (pathOf raw) then
        if params.length > 12 || refusedJobs [] params then fleets else raw
      else if refusedOther params then fleets
      else raw

structure Redirect (HeaderValue : Type) where
  status : Nat
  location : HeaderValue

/-- `fromStr` is `HeaderValue::from_str`. -/
def redirect {HeaderValue : Type} (fromStr : Text → Option HeaderValue) (target : Text) :
    Except AuthError (Redirect HeaderValue) := do
  let location ← okOr (fromStr target) .unauthorized
  return { status := 302, location }

/-- A byte that `HeaderValue::from_str` accepts. -/
def headerByte (b : UInt8) : Bool := (32 ≤ b && b ≠ 127) || b = 9

/-! ## Which texts are kept -/

variable {raw : Text}

/-- The parameters are refused on this path. -/
def refused (path : Text) (params : List (String × String)) : Bool :=
  if jobsPath path then params.length > 12 || refusedJobs [] params else refusedOther params

/-- The text passes every check. -/
def Kept (raw : Text) : Prop :=
  plain raw = true ∧ appPath (pathOf raw) = true ∧
    refused (pathOf raw) (Form.parse (queryOf raw).bytes) = false

instance (raw : Text) : Decidable (Kept raw) := inferInstanceAs (Decidable (_ ∧ _ ∧ _))

theorem returnTarget_some (raw : Text) :
    returnTarget (some raw) = if Kept raw then raw else fleets := by
  unfold returnTarget Kept refused
  rw [Option.filter_some]
  by_cases hplain : plain raw = true
  · by_cases happ : appPath (pathOf raw) = true
    · by_cases hjobs : jobsPath (pathOf raw) = true
      · simp only [hplain, happ, hjobs, if_true, true_and, Bool.not_true, Bool.false_eq_true,
          if_false, ← Bool.not_eq_true, ite_not]
      · simp only [hplain, happ, hjobs, if_true, true_and, Bool.not_true, Bool.false_eq_true,
          if_false, ← Bool.not_eq_true, ite_not]
    · simp [hplain, happ]
  · simp [hplain]

theorem kept_fleets : Kept fleets := by decide +kernel

/-- The target is a text that was kept, and no other text stands in for a kept one. -/
theorem returnTarget_cases (raw : Option Text) :
    Kept (returnTarget raw) ∧ (returnTarget raw = fleets ∨ raw = some (returnTarget raw)) := by
  cases raw with
  | none => exact ⟨kept_fleets, .inl rfl⟩
  | some raw =>
    rw [returnTarget_some]
    split
    · next h => exact ⟨h, .inr rfl⟩
    · exact ⟨kept_fleets, .inl rfl⟩

theorem key_mem_of_not_refusedJobs {params : List (String × String)} {keys : List String}
    (h : refusedJobs keys params = false) : ∀ p ∈ params, p.1 ∈ jobsKeys := by
  induction params generalizing keys with
  | nil => simp
  | cons p rest ih =>
    obtain ⟨key, value⟩ := p
    simp only [refusedJobs, Bool.or_eq_false_iff, decide_eq_false_iff_not, not_not] at h
    intro q hq
    rcases List.mem_cons.mp hq with rfl | hq
    · exact h.1.1.1.1.1
    · exact ih h.2 q hq

theorem key_mem_of_not_refusedOther {params : List (String × String)}
    (h : refusedOther params = false) : ∀ p ∈ params, p.1 ∈ otherKeys := by
  intro p hp
  have hnot := (List.any_eq_false.mp h) p hp
  simp only [Bool.or_eq_true, not_or, decide_eq_true_eq, not_not] at hnot
  exact hnot.1.1.1

/-! ## What a target is -/

/-- A path of the API, of a probe or of the assets. -/
def Reserved (path : Text) : Prop :=
  path = "/api".toList ∨ "/api/".toList <+: path ∨ path = "/livez".toList ∨
    path = "/readyz".toList ∨ path = "/assets".toList ∨ "/assets/".toList <+: path

structure Usable (target : Text) : Prop where
  oneSlash : ∃ rest, target = '/' :: rest ∧ rest.head? ≠ some '/'
  chars : ∀ c ∈ target, c ≠ '\\' ∧ c ≠ '#' ∧ Core.isControl c = false
  segments : pathOf target = ['/'] ∨ ∀ segment ∈ ((pathOf target).drop 1).splitOn '/',
    segment ≠ [] ∧ segment ≠ ['.'] ∧ segment ≠ ['.', '.']
  app : ¬ Reserved (pathOf target)
  keys : ∀ p ∈ Form.parse (queryOf target).bytes,
    p.1 ∈ if jobsPath (pathOf target) then jobsKeys else otherKeys

theorem not_reserved_of_document {path : Text} (h : document path = true) : ¬ Reserved path := by
  unfold document at h
  split at h
  · next rest =>
    simp only [Bool.not_eq_true', Bool.or_eq_false_iff, decide_eq_false_iff_not] at h
    obtain ⟨⟨⟨⟨⟨hapi, happ⟩, hlive⟩, hready⟩, hassets⟩, hasset⟩ := h
    have hcons : ∀ text : Text, '/' :: rest = '/' :: text ↔ rest = text := fun text => by simp
    have hprefixed : ∀ {text : Text}, text.isPrefixOf rest = false →
        ¬ ('/' :: text) <+: ('/' :: rest) := by
      intro text hnot hpre
      rw [List.isPrefixOf_iff_prefix.mpr ((List.prefix_cons_inj '/').mp hpre)] at hnot
      cases hnot
    rintro (heq | heq | heq | heq | heq | heq)
    · exact hapi ((hcons _).mp heq)
    · exact hprefixed happ heq
    · exact hlive ((hcons _).mp heq)
    · exact hready ((hcons _).mp heq)
    · exact hassets ((hcons _).mp heq)
    · exact hprefixed hasset heq
  · cases h

/-- The two kinds of path that are let through. -/
theorem appPath_cases {path : Text} (h : appPath path = true) : path = ['/'] ∨
    (∃ rest, path = '/' :: rest ∧ document path = true ∧ ∀ segment ∈ rest.splitOn '/',
      segment ≠ [] ∧ segment ≠ ['.'] ∧ segment ≠ ['.', '.']) := by
  unfold appPath at h
  simp only [Bool.or_eq_true, Bool.and_eq_true, decide_eq_true_eq, List.all_eq_true] at h
  rcases h with hroot | ⟨⟨hdocument, -⟩, hsegments⟩
  · exact .inl hroot
  · right
    cases path with
    | nil => cases hdocument
    | cons c rest =>
      have hslash : c = '/' := by
        unfold document at hdocument
        split at hdocument
        · next heq => exact (List.cons.inj heq).1
        · cases hdocument
      subst hslash
      exact ⟨rest, rfl, hdocument, fun segment hsegment =>
        ⟨(hsegments segment hsegment).1.1.1, (hsegments segment hsegment).1.1.2,
          (hsegments segment hsegment).1.2⟩⟩

theorem usable_of_kept (h : Kept raw) : Usable raw := by
  obtain ⟨hplain, happ, hparams⟩ := h
  have hsplit : raw = pathOf raw ++ raw.dropWhile (· ≠ '?') := List.takeWhile_append_dropWhile.symm
  refine ⟨?_, fun c hc => ?_, ?_, ?_, ?_⟩
  · rcases appPath_cases happ with hroot | ⟨rest, hpath, -, hsegments⟩
    · rw [hroot] at hsplit
      refine ⟨raw.dropWhile (· ≠ '?'), hsplit, fun hhead => ?_⟩
      have hquestion := List.head?_dropWhile_not (fun c => decide (c ≠ '?')) raw
      rw [hhead] at hquestion
      simp at hquestion
    · rw [hpath] at hsplit
      refine ⟨rest ++ raw.dropWhile (· ≠ '?'), hsplit, fun hhead => ?_⟩
      cases rest with
      | nil => exact (hsegments [] (by simp)).1 rfl
      | cons c rest =>
        cases hhead
        exact (hsegments [] (by simp [List.splitOn_cons_eq_if_modifyHead])).1 rfl
  · simp only [plain, Bool.and_eq_true, Bool.not_eq_true', List.any_eq_false] at hplain
    have hraw := hplain.1.2 c hc
    simp only [Bool.or_eq_true, decide_eq_true_eq, not_or] at hraw
    exact ⟨hraw.1, hraw.2, by simpa using hplain.2 c hc⟩
  · rcases appPath_cases happ with hroot | ⟨rest, hpath, -, hsegments⟩
    · exact .inl hroot
    · exact .inr (by rw [hpath]; exact hsegments)
  · rcases appPath_cases happ with hroot | ⟨rest, -, hdocument, -⟩
    · rw [hroot]
      unfold Reserved
      decide
    · exact not_reserved_of_document hdocument
  · unfold refused at hparams
    split at hparams
    · next hjobs =>
      rw [if_pos hjobs]
      exact key_mem_of_not_refusedJobs (Bool.or_eq_false_iff.mp hparams).2
    · next hjobs =>
      rw [if_neg hjobs]
      exact key_mem_of_not_refusedOther hparams

/-! ## The redirect -/

/-- A character is its own byte, or its bytes are none of ASCII. -/
theorem toNat_of_mem_utf8EncodeChar {c : Char} {b : UInt8} (h : b ∈ String.utf8EncodeChar c) :
    b.toNat = c.toNat ∨ 128 ≤ b.toNat := by
  have hc : c.val.toNat = c.toNat := rfl
  simp only [String.utf8EncodeChar, hc] at h
  split_ifs at h <;> simp only [List.mem_cons, List.not_mem_nil, or_false] at h
  · left
    rw [h, UInt8.toNat_ofNat']
    omega
  · right
    rcases h with rfl | rfl <;> simp only [UInt8.toNat_ofNat'] <;> omega
  · right
    rcases h with rfl | rfl | rfl <;> simp only [UInt8.toNat_ofNat'] <;> omega
  · right
    rcases h with rfl | rfl | rfl | rfl <;> simp only [UInt8.toNat_ofNat'] <;> omega

/-- No byte of a text without control characters is one that a header refuses. -/
theorem headerByte_of_not_control {target : Text}
    (h : ∀ c ∈ target, Core.isControl c = false) : ∀ b ∈ target.bytes, headerByte b = true := by
  intro b hb
  obtain ⟨c, hc, hmem⟩ := List.mem_flatMap.mp hb
  have hplain := h c hc
  simp only [Core.isControl, Bool.or_eq_false_iff, Bool.and_eq_false_iff,
    decide_eq_false_iff_not] at hplain
  have hbyte : 32 ≤ b.toNat ∧ b.toNat ≠ 127 := by
    rcases toNat_of_mem_utf8EncodeChar hmem with hown | hlater
    · omega
    · omega
  have hlow : 32 ≤ b := UInt8.le_iff_toNat_le.mpr hbyte.1
  have hdelete : b ≠ 127 := fun heq => hbyte.2 (congrArg UInt8.toNat heq)
  simp [headerByte, hlow, hdelete]

/-- **The target of a login.**  It is always a path of this origin and its own target, and the
redirect that ends the login accepts it. -/
theorem return_target_usable {HeaderValue : Type} {fromStr : Text → Option HeaderValue}
    (hfromStr : ∀ text, (fromStr text).isSome ↔ ∀ b ∈ text.bytes, headerByte b = true)
    (raw : Option Text) :
    Usable (returnTarget raw) ∧ returnTarget (some (returnTarget raw)) = returnTarget raw ∧
      ∃ location, fromStr (returnTarget raw) = some location ∧
        redirect fromStr (returnTarget raw) = .ok ⟨302, location⟩ := by
  have hkept := (returnTarget_cases raw).1
  have husable := usable_of_kept hkept
  have hbytes := headerByte_of_not_control fun c hc => (husable.chars c hc).2.2
  obtain ⟨location, hlocation⟩ := Option.isSome_iff_exists.mp ((hfromStr _).mpr hbytes)
  refine ⟨husable, ?_, location, hlocation, ?_⟩
  · rw [returnTarget_some, if_pos hkept]
  · simp only [redirect, hlocation]
    rfl

/-- What the crate's reader of header values does. -/
def headerValue (text : Text) : Option (List UInt8) :=
  if text.bytes.all headerByte then some text.bytes else none

/-- A search of the jobs page for a name that is not of ASCII. -/
def accented : Text := "/jobs?repository=é".toList

theorem return_target_usable_sample :
    returnTarget (some accented) = accented ∧ Usable (returnTarget (some accented)) ∧
      returnTarget (some (returnTarget (some accented))) = returnTarget (some accented) ∧
      ∃ location, headerValue (returnTarget (some accented)) = some location ∧
        redirect headerValue (returnTarget (some accented)) = .ok ⟨302, location⟩ := by
  refine ⟨by decide +kernel, return_target_usable (fun text => ?_) _⟩
  unfold headerValue
  rw [← List.all_eq_true]
  split <;> simp_all

end Shaula.Oidc
