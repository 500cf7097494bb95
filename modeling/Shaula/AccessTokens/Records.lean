import Shaula.Core.Worker
import Shaula.Library.JsonText
import Shaula.Library.Outcome
import Shaula.Library.Table
import Shaula.Registry.Spec
import Mathlib.Data.List.Destutter
import Mathlib.Data.List.Sort

/-! # Personal access tokens

User credentials, their owners and the scopes they delegate.  A token belongs to one principal of the
identity provider, and carries no more than its owner may delegate.
-/

namespace Shaula.AccessTokens

open Core Library Library.Outcome Registry
open JsonText (writeText writeItems readString readList skipSpace)

/-! ## Actors -/

/-- Independent management capabilities. -/
inductive Scope where
  | fleetRead | logsRead | fleetWrite | fleetRetire
  | templateRead | templatePublish | templateAttest | templateRetire
  | authRead | authWrite | authRetire
  | accessTokenRead | accessTokenWrite | accessTokenRevoke
  deriving DecidableEq, Repr

namespace Scope

def all : List Scope :=
  [fleetRead, logsRead, fleetWrite, fleetRetire, templateRead, templatePublish, templateAttest,
    templateRetire, authRead, authWrite, authRetire, accessTokenRead, accessTokenWrite,
    accessTokenRevoke]

def asStr : Scope → String
  | fleetRead => "fleet.read"
  | logsRead => "logs.read"
  | fleetWrite => "fleet.write"
  | fleetRetire => "fleet.retire"
  | templateRead => "template.read"
  | templatePublish => "template.publish"
  | templateAttest => "template.attest"
  | templateRetire => "template.retire"
  | authRead => "auth.read"
  | authWrite => "auth.write"
  | authRetire => "auth.retire"
  | accessTokenRead => "access-token.read"
  | accessTokenWrite => "access-token.write"
  | accessTokenRevoke => "access-token.revoke"

def parse (raw : String) : Option Scope := all.find? fun scope => scope.asStr = raw

/-- A token never issues further tokens. -/
def delegable (scope : Scope) : Bool := scope ≠ accessTokenWrite

end Scope

/-- Where the credential of a request came from. -/
inductive AuthenticationContext where
  | system
  | oidcSession
  | oidcAccessToken
  | personalAccessToken (id : String)
  deriving DecidableEq

/-- An authenticated principal and its effective grants. -/
structure Actor where
  authentication : AuthenticationContext
  name : String
  scopes : List Scope
  deriving DecidableEq

def Actor.has (actor : Actor) (scope : Scope) : Bool := actor.scopes.contains scope

/-! ## Policy and records -/

structure TokenPolicy where
  enabled : Bool
  defaultTtlSecs : Nat
  maxTtlSecs : Nat
  maxActivePerPrincipal : Nat
  maxActiveTotal : Nat
  deriving DecidableEq

def TokenPolicy.default : TokenPolicy where
  enabled := true
  defaultTtlSecs := 7776000
  maxTtlSecs := 31536000
  maxActivePerPrincipal := 20
  maxActiveTotal := 10000

def TokenPolicy.validate (policy : TokenPolicy) : Bool :=
  (60 ≤ policy.maxTtlSecs && policy.maxTtlSecs ≤ 31536000) &&
    (60 ≤ policy.defaultTtlSecs && policy.defaultTtlSecs ≤ policy.maxTtlSecs) &&
    0 < policy.maxActivePerPrincipal && 0 < policy.maxActiveTotal

structure TokenRecord where
  id : String
  ownerIssuer : String
  ownerSubject : String
  ownerPrincipal : String
  realm : String
  formatVersion : Nat
  name : String
  secretDigest : Bytes
  scopes : List String
  createdAtMs : Int
  expiresAtMs : Int
  revokedAtMs : Option Int
  revokedByPrincipal : Option String
  lastUsedAtMs : Option Int
  revision : Int
  deriving DecidableEq

inductive TokenError where
  | unauthorized
  | unavailable
  | forbidden
  | primaryRequired
  | notFound
  | invalid
  | nonDelegable
  | disabled
  | conflict
  | quota
  | rateLimited
  | preconditionFailed
  deriving DecidableEq

abbrev TokenResult := Except TokenError

/-! ## Requests -/

structure IssueToken where
  name : String
  scopes : List String
  expiresInSeconds : Option Nat
  deriving DecidableEq

namespace IssueToken

/-- The scopes in order, each once. -/
def normalized (body : IssueToken) : IssueToken :=
  { body with scopes := (body.scopes.insertionSort (· ≤ ·)).destutter (· ≠ ·) }

/-- The text of a number. -/
def decimal (n : Nat) : Bytes := (Nat.toDigits 10 n).map Char.toUInt8

def ttl (body : IssueToken) : Bytes :=
  match body.expiresInSeconds with
  | none => [0x6e, 0x75, 0x6c, 0x6c]
  | some seconds => decimal seconds

/-- `serde_json::to_vec` of a request. -/
def canonical (body : IssueToken) : Bytes :=
  0x7b :: writeItems 0x7d (fun member : String × Bytes => writeText member.1 ++ 0x3a :: member.2)
    [("name", writeText body.name), ("scopes", 0x5b :: writeItems 0x5d writeText body.scopes),
      ("expires_in_seconds", body.ttl)]

end IssueToken

/-- `serde_json::to_string` of a versioned principal. -/
def principal (issuer subject : String) : Bytes :=
  0x5b :: writeItems 0x5d writeText ["oidc-v1", issuer, subject]

/-- `serde_json::from_str` of a principal. -/
def readPrincipal (name : String) : Option (String × String × String) :=
  match skipSpace (utf8 name) with
  | 0x5b :: rest => do
    let (parts, rest) ← readList readString 0x5d rest
    if skipSpace rest = [] then
      match parts with
      | [version, issuer, subject] => some (version, issuer, subject)
      | _ => none
    else none
  | _ => none

/-! ## Cryptography -/

/-- The digest, the base64 alphabet and the texts of instants, from other crates. -/
structure Crates where
  sha256 : Bytes → Bytes
  encode : Bytes → Bytes
  decode : Bytes → Option Bytes
  timestamp : Int → String

namespace Crates

/-- `usize::to_be_bytes`. -/
def beBytes (n : Nat) : Bytes := (List.range 8).map fun i => UInt8.ofNat (n / 256 ^ (7 - i))

/-- The verifier of a token: the digest of its parts, each behind its length. -/
def digest (crates : Crates) (realm id : String) (secret : Bytes) : Bytes :=
  crates.sha256 (([utf8 "shaula-personal-access-token-v1", utf8 realm, utf8 id, secret]).flatMap
    fun part => beBytes part.length ++ part)

/-- What `request_hash_parts` digests. -/
def hashInput (parts : List Bytes) : Bytes :=
  parts.flatMap fun part => IssueToken.decimal part.length ++ 0x3a :: (part ++ [0x7c])

def requestHashParts (crates : Crates) (parts : List Bytes) : String :=
  "sha256:" ++ hexEncode (crates.sha256 (hashInput parts))

/-- The hash of the request as it came, so that a changed default cannot break recovery. -/
def requestHash (crates : Crates) (owner : String) (body : IssueToken) : String :=
  crates.requestHashParts
    [utf8 "personal-token-issue-v1", utf8 owner, body.canonical]

def tokenPrefix : Bytes := utf8 "shaula_pat_v1_"

/-- The identifier and the secret of a presented token. -/
def parse (crates : Crates) (raw : Bytes) : TokenResult (String × Bytes) :=
  if tokenPrefix.isPrefixOf raw then
    let raw := raw.drop tokenPrefix.length
    if raw.length ≠ 76 ∨ raw[32]? ≠ some 0x5f then .error .unauthorized
    else
      let id := raw.take 32
      let encoded := raw.drop 33
      if id.all fun b => (48 ≤ b.toNat && b.toNat ≤ 57) || (97 ≤ b.toNat && b.toNat ≤ 102) then do
        let secret ← okOr (crates.decode encoded) .unauthorized
        ensure (secret.length = 32 ∧ crates.encode secret = encoded) .unauthorized
        return (String.ofList (id.map fun b => Char.ofNat b.toNat), secret)
      else .error .unauthorized
  else .error .unauthorized

end Crates

end Shaula.AccessTokens
