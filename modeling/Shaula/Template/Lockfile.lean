import Shaula.Core.Worker
import Shaula.Library.Outcome
import Shaula.Library.Text
import Shaula.Registry.Spec
import Mathlib.Data.List.Sort
import Mathlib.Data.String.Basic

/-! # Dependency locks

The lock file of a template pins its providers, each to a version and to a list of checksums.  It is
read line by line in the shape `terraform init` writes, and anything else is refused.
-/

namespace Shaula.Template.Lockfile

open Core Library Library.Outcome Registry

/-! ## Texts -/

abbrev Line := List Char

def trimStart (text : Line) : Line := text.dropWhile isWhiteSpace

def trimEnd (text : Line) : Line := (text.reverse.dropWhile isWhiteSpace).reverse

/-- A text without the white space around it. -/
def trimmed (text : Line) : Line := trimEnd (trimStart text)

def trimCommas (text : Line) : Line := (text.reverse.dropWhile (· = ',')).reverse

def stripPrefix (start : String) (text : Line) : Option Line :=
  if start.toList.isPrefixOf text then some (text.drop start.toList.length) else none

/-- What stands before and after the first `c`. -/
def splitOnce (c : Char) (text : Line) : Option (Line × Line) :=
  match text.dropWhile (· ≠ c) with
  | [] => none
  | _ :: after => some (text.takeWhile (· ≠ c), after)

/-- What stands between the quotes around a text. -/
def unquote : Line → Option Line
  | '"' :: rest => if rest.getLast? = some '"' then some rest.dropLast else none
  | _ => none

/-- A text in an error. -/
def debug (text : Line) : String := "\"" ++ String.ofList text ++ "\""

def hclString (rest : Line) (key : String) : Except String String :=
  let value := (stripPrefix "=" (trimmed rest)).getD rest
  match unquote (trimmed value) with
  | some value => .ok (String.ofList value)
  | none => .error ("lock file " ++ key ++ " must be a quoted string")

/-! ## Checksums -/

def isBase64 (c : Char) : Bool := c.isAlphanum || c = '+' || c = '/'

def isLowerHex (c : Char) : Bool := c.isDigit || ('a' ≤ c && c ≤ 'f')

/-- A checksum in the shape of its scheme. -/
def checksumShape (scheme value : Line) : Bool :=
  if scheme = "h1".toList then
    value.length = 44 && value.getLast? = some '=' && value.dropLast.all isBase64
  else if scheme = "zh".toList then value.length = 64 && value.all isLowerHex
  else false

def checksumValue (raw : Line) (address : String) : Except String String :=
  match splitOnce ':' raw with
  | none =>
    .error ("lock file provider " ++ address ++ " has a malformed checksum pin " ++ debug raw)
  | some (scheme, value) =>
    if checksumShape scheme value then .ok (String.ofList raw)
    else
      .error ("lock file provider " ++ address ++ " has an unsupported checksum pin " ++ debug raw)

/-- One entry of a list of hashes. -/
def hashEntry (address : String) (entry : Line) : Except String String :=
  match unquote entry with
  | some raw => checksumValue raw address
  | none => .error "lock file hash list has a malformed entry"

/-! ## A provider block -/

/-- One locked provider: registry source, pinned version and the commitment over its full checksum
list. -/
structure LockedProvider where
  source : String
  version : String
  checksumsDigest : String
  deriving DecidableEq

/-- What was read of a block. -/
structure Body where
  version : Option String
  hashes : List String
  inHashes : Bool
  deriving DecidableEq

def Body.empty : Body where
  version := none
  hashes := []
  inHashes := false

/-- The entries on one line between the brackets of a list. -/
def inlineEntries (address : String) (inline : Line) : Except String (List String) :=
  (((inline.splitOn ',').map trimmed).filter (· ≠ [])).mapM (hashEntry address)

/-- What follows the bracket on the line of a key that begins with `hashes`. -/
def openedList (inner : Line) : Option Line :=
  if (stripPrefix "hashes" inner).isSome then (splitOnce '[' inner).map Prod.snd else none

/-- One line inside a block. -/
def bodyLine (address : String) (body : Body) (inner : Line) : Except String Body :=
  if body.inHashes then
    if inner.head? = some ']' then .ok { body with inHashes := false }
    else
      (hashEntry address (trimmed (trimCommas inner))).map fun hash =>
        { body with hashes := body.hashes ++ [hash] }
  else
    match stripPrefix "version" inner with
    | some rest => (hclString rest "version").map fun version => { body with version := some version }
    | none =>
      if (stripPrefix "hashes" inner).isSome then
        match openedList inner with
        | none => .error "lock file hashes must be a list"
        | some list =>
          match splitOnce ']' list with
          | some (inline, _) =>
            (inlineEntries address inline).map fun entries =>
              { body with hashes := body.hashes ++ entries }
          | none => .ok { body with inHashes := true }
      else .ok body

/-- `sha256:` over the newline-joined, sorted hash list. -/
def commitment (sha256 : Bytes → Bytes) (hashes : List String) : String :=
  "sha256:" ++ hexEncode (sha256 (Core.utf8 (unlines (hashes.insertionSort (· ≤ ·)))))

/-- The provider of a block that was read to its end. -/
def closeBody (sha256 : Bytes → Bytes) (address : String) (body : Body) :
    Except String LockedProvider := do
  let version ← okOr body.version ("lock file provider " ++ address ++ " has no version pin")
  ensure (body.hashes ≠ []) ("lock file provider " ++ address ++ " declares no checksum pins")
  return { source := address, version, checksumsDigest := commitment sha256 body.hashes }

/-! ## A lock file -/

/-- Where in the file the reader is. -/
inductive Reading where
  | top
  /-- Inside a settings block that is this many braces deep. -/
  | terraform (depth : Nat)
  | block (address : String) (body : Body)
  deriving DecidableEq

/-- The braces a line leaves open, beside those open before it. -/
def braces (line : Line) (depth : Nat) : Int := depth + line.count '\x7b' - line.count '\x7d'

/-- Where the reader is once the settings block is this deep. -/
def Reading.settings (depth : Int) : Reading := if 0 < depth then .terraform depth.toNat else .top

/-- The address and what follows it in the header of a provider block. -/
def providerHeader (line : Line) : Option (Line × Line) := do
  let rest ← stripPrefix "provider" line
  let rest ← stripPrefix "\"" (trimmed rest)
  splitOnce '"' rest

/-- The line opens a settings block. -/
def opensSettings (line : Line) : Bool :=
  (stripPrefix "terraform" line).any fun rest => (trimStart rest).head? = some '\x7b'

def isComment (line : Line) : Bool :=
  line = [] || line.head? = some '#' || (stripPrefix "//" line).isSome

/-- One line of the file. -/
def readLine (sha256 : Bytes → Bytes) (providers : List LockedProvider) (reading : Reading)
    (line : Line) : Except String (List LockedProvider × Reading) :=
  match reading with
  | .top =>
    if isComment line then .ok (providers, .top)
    else if opensSettings line then .ok (providers, .settings (braces line 0))
    else
      match providerHeader line with
      | none => .error ("lock file contains unsupported syntax at " ++ debug line)
      | some (address, tail) =>
        if trimmed tail = ['\x7b'] then .ok (providers, .block (String.ofList address) .empty)
        else .error "lock file provider block header malformed"
  | .terraform depth => .ok (providers, .settings (braces line depth))
  | .block address body =>
    if body.inHashes = false ∧ line.head? = some '\x7d' then
      (closeBody sha256 address body).map fun provider => (providers ++ [provider], .top)
    else (bodyLine address body line).map fun body => (providers, .block address body)

/-- The lines of the file, one after the other. -/
def readLines (sha256 : Bytes → Bytes) (providers : List LockedProvider) (reading : Reading) :
    List Line → Except String (List LockedProvider × Reading)
  | [] => .ok (providers, reading)
  | line :: rest => do
    let (providers, reading) ← readLine sha256 providers reading line
    readLines sha256 providers reading rest

/-- The lines the reader sees. -/
def lockLines (text : String) : List Line := (lines text).map fun line => trimmed line.toList

/-- Parses every provider block of a lock file. -/
def parseLockProviders (sha256 : Bytes → Bytes) (text : String) :
    Except String (List LockedProvider) := do
  let (providers, reading) ← readLines sha256 [] .top (lockLines text)
  match reading with
  | .top => return providers
  | .terraform _ => .error "lock file terraform block is not closed"
  | .block _ _ => .error "lock file provider block is not closed"

end Shaula.Template.Lockfile
