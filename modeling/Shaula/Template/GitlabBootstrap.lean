import Shaula.Library.Text
import Shaula.Template.Manifest

/-! # GitLab bootstrap material

The registration of one GitLab runner and the `config.toml` that carries it: a text that is written
for the runner and read back from protected input.
-/

namespace Shaula

open Library Library.Outcome
open Registry (trim)

namespace Template

/-- An instance URL that carries nothing but the instance. -/
def Url.isInstance (url : Url) : Bool :=
  (url.scheme = "http" || url.scheme = "https") && url.host.isSome && url.username = "" &&
    url.password.isNone && url.query.isNone && url.fragment.isNone

/-- Values are rendered inside TOML basic strings, so quoting, escapes and control characters are
refused rather than escaped. -/
def tomlSafe (value : String) : Bool :=
  value.toList.all fun c => !Core.isControl c && c ≠ '"' && c ≠ '\\'

/-- Non-secret registration data exposed to a template. -/
structure GitlabBootstrapIdentity where
  instanceUrl : String
  runnerId : UInt64
  runnerName : String
  deriving DecidableEq

section Material

variable (C : Crates)

/-- What the constructor of the material checks of its parts. -/
def gitlabMaterialValid (instanceUrl : String) (runnerId : UInt64) (runnerName token : String) :
    Bool :=
  (C.parseUrl instanceUrl).any Url.isInstance && runnerId ≠ 0 && trim runnerName ≠ "" &&
    runnerName.utf8ByteSize ≤ 255 && tomlSafe runnerName && tomlSafe instanceUrl &&
    (stripPrefix "glrt-" token).isSome && token.utf8ByteSize ≤ 4096 && tomlSafe token

/-- Single-registration material, which only the constructor makes. -/
structure GitlabBootstrapMaterial where
  instanceUrl : String
  runnerId : UInt64
  runnerName : String
  token : String
  valid : gitlabMaterialValid C instanceUrl runnerId runnerName token = true

namespace GitlabBootstrapMaterial

/-- The constructor. -/
def new (instanceUrl : String) (runnerId : UInt64) (runnerName token : String) :
    Except String (GitlabBootstrapMaterial C) := do
  ensure ((C.parseUrl instanceUrl).isSome = true) "GitLab bootstrap instance URL is invalid"
  if valid : gitlabMaterialValid C instanceUrl runnerId runnerName token = true then
    .ok ⟨instanceUrl, runnerId, runnerName, token, valid⟩
  else .error "GitLab bootstrap material is incomplete or invalid"

variable {C} (material : GitlabBootstrapMaterial C)

def identity : GitlabBootstrapIdentity where
  instanceUrl := material.instanceUrl
  runnerId := material.runnerId
  runnerName := material.runnerName

/-! ## The configuration -/

def configHead : String := "concurrent = 1\ncheck_interval = 3\n\n[[runners]]\n"

def configLines : List String := [
  "  name = \"" ++ material.runnerName ++ "\"",
  "  url = \"" ++ material.instanceUrl ++ "\"",
  "  id = " ++ toString material.runnerId.toNat,
  "  token = \"" ++ material.token ++ "\"",
  "  executor = \"shell\""]

/-- Credential-grade `config.toml` for the `shell` executor only. -/
def configToml : String := configHead ++ unlines material.configLines

/-- A line `key = "value"`. -/
def quoted (key line : String) : Option String :=
  (stripPrefix ("  " ++ key ++ " = \"") line).bind (stripSuffix '"')

variable (C) in
/-- The material that the lines of a configuration describe. -/
def ofLines : List String → Option (GitlabBootstrapMaterial C)
  | nameLine :: urlLine :: idLine :: tokenLine :: _ => do
    let name ← quoted "name" nameLine
    let url ← quoted "url" urlLine
    let id ← (stripPrefix "  id = " idLine).bind parseU64
    let token ← quoted "token" tokenLine
    (new C url (.ofNat id) name token).toOption
  | _ => none

variable (C) in
/-- Accepts exactly the canonical rendering, within a bound on its size. -/
def parse (config : String) : Option (GitlabBootstrapMaterial C) :=
  if 8192 < config.utf8ByteSize then none
  else do
    let body ← stripPrefix configHead config
    let material ← ofLines C (lines body)
    if material.configToml = config then some material else none

end GitlabBootstrapMaterial

end Material

/-! ## Reading a configuration back -/

@[simp] theorem stripPrefix_append (lead rest : String) :
    stripPrefix lead (lead ++ rest) = some rest := by
  simp [stripPrefix]

theorem isLine_of_tomlSafe {value : String} (h : tomlSafe value = true) : IsLine value := by
  intro c hc
  have hsafe := List.all_eq_true.mp h c hc
  simp only [Bool.and_eq_true, Bool.not_eq_true'] at hsafe
  constructor
  · rintro rfl
    exact absurd hsafe.1.1 (by decide)
  · rintro rfl
    exact absurd hsafe.1.1 (by decide)

/-- A decimal text has digits only. -/
theorem isDigit_toString {n : Nat} {c : Char} (h : c ∈ (toString n).toList) :
    c.isDigit = true := by
  rw [Nat.toString_eq_ofList_toDigits, String.toList_ofList] at h
  exact Nat.isDigit_of_mem_toDigits (by decide) (by decide) h

theorem isLine_toString (n : Nat) : IsLine (toString n) := by
  intro c hc
  have hdigit := isDigit_toString hc
  constructor
  · rintro rfl
    exact absurd hdigit (by decide)
  · rintro rfl
    exact absurd hdigit (by decide)

theorem parseU64_toString {n : Nat} (h : n < 2 ^ 64) : parseU64 (toString n) = some n := by
  have hchars : (toString n).toList = Nat.toDigits 10 n := by
    rw [Nat.toString_eq_ofList_toDigits, String.toList_ofList]
  have hsign : (Nat.toDigits 10 n).head? ≠ some '+' := by
    intro hplus
    have hdigit := Nat.isDigit_of_mem_toDigits (b := 10) (n := n) (by decide) (by decide)
      (List.mem_of_mem_head? hplus)
    exact absurd hdigit (by decide)
  have hall : (Nat.toDigits 10 n).all Char.isDigit = true := by
    rw [List.all_eq_true]
    intro c hc
    exact Nat.isDigit_of_mem_toDigits (by decide) (by decide) hc
  have hvalue : (Nat.toDigits 10 n).foldl (fun n c => 10 * n + (c.toNat - '0'.toNat)) 0 = n := by
    rw [← Nat.ofDigitChars_eq_foldl, Nat.ofDigitChars_ten_toDigits]
  simp only [parseU64, hchars, hsign, if_false, hall, hvalue, Nat.toDigits_ne_nil, ne_eq,
    not_false_eq_true, and_self, if_true, h]

namespace GitlabBootstrapMaterial

variable {C : Crates} (material : GitlabBootstrapMaterial C)

theorem new_self : new C material.instanceUrl material.runnerId material.runnerName
    material.token = .ok material := by
  have hvalid := material.valid
  have hurl : (C.parseUrl material.instanceUrl).isSome = true := by
    simp only [gitlabMaterialValid, Bool.and_eq_true] at hvalid
    obtain ⟨⟨⟨⟨⟨⟨⟨⟨hurl, -⟩, -⟩, -⟩, -⟩, -⟩, -⟩, -⟩, -⟩ := hvalid
    cases hparsed : C.parseUrl material.instanceUrl with
    | none =>
      rw [hparsed] at hurl
      cases hurl
    | some url => rfl
  simp [new, hurl, material.valid, ensure, bind, Except.bind]

theorem configLines_isLine : ∀ line ∈ material.configLines, IsLine line := by
  have hvalid := material.valid
  simp only [gitlabMaterialValid, Bool.and_eq_true] at hvalid
  obtain ⟨⟨⟨⟨⟨-, hname⟩, hurl⟩, -⟩, -⟩, htoken⟩ := hvalid
  have hquote : IsLine "\"" := by decide
  simp only [configLines, List.forall_mem_cons]
  refine ⟨?_, ?_, ?_, ?_, ?_, ?_⟩
  · exact (IsLine.append (by decide) (isLine_of_tomlSafe hname)).append hquote
  · exact (IsLine.append (by decide) (isLine_of_tomlSafe hurl)).append hquote
  · exact IsLine.append (by decide) (isLine_toString _)
  · exact (IsLine.append (by decide) (isLine_of_tomlSafe htoken)).append hquote
  · decide
  · intro line hline
    cases hline

theorem quoted_line (key lead value : String) (h : "  " ++ key ++ " = \"" = lead) :
    quoted key (lead ++ value ++ "\"") = some value := by
  have hparts : lead ++ value ++ "\"" = lead ++ (value ++ "\"") := String.append_assoc
  rw [quoted, h, hparts, stripPrefix_append, Option.bind_some, stripSuffix_append]

theorem ofLines_configLines : ofLines C material.configLines = some material := by
  have hname := quoted_line "name" "  name = \"" material.runnerName (by decide)
  have hurl := quoted_line "url" "  url = \"" material.instanceUrl (by decide)
  have htoken := quoted_line "token" "  token = \"" material.token (by decide)
  have hid : (stripPrefix "  id = " ("  id = " ++ toString material.runnerId.toNat)).bind
      parseU64 = some material.runnerId.toNat := by
    rw [stripPrefix_append, Option.bind_some, parseU64_toString material.runnerId.toNat_lt]
  simp only [configLines, ofLines, hname, hurl, hid, htoken, Option.bind_eq_bind, Option.bind_some,
    UInt64.ofNat_toNat, new_self]
  rfl

/-- **The configuration is read back**, exactly when it is within the reader's bound. -/
theorem parse_configToml :
    parse C material.configToml =
      if 8192 < material.configToml.utf8ByteSize then none else some material := by
  unfold parse
  split
  · rfl
  · rw [show material.configToml = configHead ++ unlines material.configLines from rfl,
      stripPrefix_append]
    simp [lines_unlines material.configLines_isLine, ofLines_configLines, configToml]

end GitlabBootstrapMaterial

end Template

end Shaula
