import Shaula.AccessTokens.Store
import Shaula.Library.Execution

/-! # Personal credential use cases

Authenticating, issuing and revoking tokens, as programs of store transactions and clock readings.
There is no cache of positive answers: every authentication reads the store.
-/

namespace Shaula.AccessTokens

open Core Library Library.Program Registry

/-! ## Effects -/

/-- A reading of the system clock, in milliseconds since the epoch. -/
structure Reading where
  ms : Int
  nonneg : 0 ≤ ms
  le_max : ms ≤ i64Max

inductive TokenEffect where
  /-- `verification.try_acquire`. -/
  | tryAcquire
  | clock
  | mint
  | get (id : String)
  | issue (record : TokenRecord) (key hash : String) (policy : TokenPolicy)
  | revoke (actor : Actor) (id : String) (revision : Option Int) (now : Int)
  | touch (id : String) (now : Int)
  | list (owner : String) (before : Option (Int × String)) (limit : Nat)

def TokenEffect.Answer : TokenEffect → Type
  | tryAcquire => Bool
  | clock => Reading
  | mint => TokenResult (String × Bytes)
  | get _ => TokenResult (Option TokenRecord)
  | issue .. => TokenResult (TokenRecord × Bool)
  | revoke .. => TokenResult Unit
  | touch .. => TokenResult Unit
  | list .. => TokenResult (List TokenRecord)

def tokenEffects : Interface := ⟨TokenEffect, TokenEffect.Answer⟩

abbrev Served (α : Type) := Program tokenEffects TokenError α

/-- One effect. -/
def ask (op : TokenEffect) : Served op.Answer := Program.lift (F := tokenEffects) op

/-- One effect that may fail. -/
def get (id : String) : Served (Option TokenRecord) := ask (.get id) >>= ofExcept

/-! ## The service -/

/-- The configured service: its policy, the realm of its tokens and the grants of principals. -/
structure PersonalTokens where
  policy : TokenPolicy
  realm : String
  grants : Table String (List Scope)
  valid : policy.validate = true

structure TokenMetadata where
  id : String
  name : String
  scopes : List String
  effectiveScopes : List String
  createdAt : String
  expiresAt : String
  lastUsedAt : Option String
  revokedAt : Option String
  state : String
  revision : Int
  deriving DecidableEq

structure IssuedToken where
  accessToken : TokenMetadata
  secret : Option Bytes
  deriving DecidableEq

namespace PersonalTokens

variable (crates : Crates) (tokens : PersonalTokens)

def active (record : TokenRecord) (now : Int) : Bool :=
  tokens.policy.enabled && record.formatVersion = 1 && record.realm = tokens.realm &&
    record.revokedAtMs.isNone && now < record.expiresAtMs &&
    (tokens.grants.find record.ownerPrincipal).isSome &&
    principal record.ownerIssuer record.ownerSubject = utf8 record.ownerPrincipal

/-- The scopes a token has now: those its owner may delegate, as far as it carries them. -/
def effective (record : TokenRecord) : List Scope :=
  ((tokens.grants.find record.ownerPrincipal).getD []).filter fun scope =>
    scope.delegable && record.scopes.any fun s => s = scope.asStr

def state (record : TokenRecord) (now : Int) : String :=
  if record.revokedAtMs.isSome then "revoked"
  else if record.expiresAtMs ≤ now then "expired"
  else if !tokens.active record now then "disabled"
  else "active"

def metadata (r : TokenRecord) (now : Int) : TokenMetadata where
  id := r.id
  name := r.name
  scopes := r.scopes
  effectiveScopes :=
    if tokens.state r now = "active" then (tokens.effective r).map Scope.asStr else []
  createdAt := crates.timestamp r.createdAtMs
  expiresAt := crates.timestamp r.expiresAtMs
  lastUsedAt := r.lastUsedAtMs.map crates.timestamp
  revokedAt := r.revokedAtMs.map crates.timestamp
  state := tokens.state r now
  revision := r.revision

/-- The verifier a presented secret is compared with. -/
def storedDigest (record : Option TokenRecord) : Bytes :=
  match record with
  | some r => r.secretDigest
  | none => List.replicate 32 0

def authenticate (raw : Bytes) : Served (Actor × String) := do
  Program.ensure (tokens.policy.enabled = true) .unauthorized
  let (id, secret) ← ofExcept (crates.parse raw)
  let permit : Bool ← ask .tryAcquire
  Program.ensure (permit = true) .unavailable
  let expected := crates.digest tokens.realm id secret
  let record ← get id
  let stored := storedDigest record
  let record ← Program.okOr record .unauthorized
  Program.ensure (expected = stored) .unauthorized
  let now ← ask .clock
  Program.ensure (tokens.active record now.ms = true) .unauthorized
  let actor : Actor := ⟨.personalAccessToken id, record.ownerPrincipal, tokens.effective record⟩
  let now ← ask .clock
  if record.lastUsedAtMs.all fun last => last ≤ saturatingSub now.ms 60000 then do
    -- A use that cannot be noted does not fail the request.
    let _ ← ask (.touch id now.ms)
    return (actor, id)
  else return (actor, id)

/-- What a request may ask for is delegable and the actor's own. -/
def checkScope (actor : Actor) (s : String) : TokenResult Unit :=
  match Scope.parse s with
  | none => .error .invalid
  | some scope =>
    if !scope.delegable then .error .nonDelegable
    else if !actor.has scope then .error .forbidden
    else .ok ()

/-- The checks of an issuing request, with the issuer and subject of its actor. -/
def checkIssue (actor : Actor) (primary : Bool) (body : IssueToken) (key : String) :
    TokenResult (String × String) := do
  Outcome.ensure (primary = true) .primaryRequired
  Outcome.ensure (actor.has .accessTokenWrite = true) .forbidden
  Outcome.ensure (tokens.policy.enabled = true) .disabled
  Outcome.ensure (key ≠ "" ∧ key.utf8ByteSize ≤ 128 ∧ key.toList.any isControl = false ∧
    trim body.name ≠ "" ∧ body.name.utf8ByteSize ≤ 128 ∧
    body.name.toList.any isControl = false) .invalid
  let (version, issuer, subject) ← Outcome.okOr (readPrincipal actor.name) .invalid
  Outcome.ensure (version = "oidc-v1" ∧ (tokens.grants.find actor.name).isSome = true) .forbidden
  body.normalized.scopes.forM (checkScope actor)
  return (issuer, subject)

/-- The record of a new token. -/
def newRecord (actor : Actor) (body : IssueToken) (issuer subject id : String) (secret : Bytes)
    (now expires : Int) : TokenRecord where
  id := id
  ownerIssuer := issuer
  ownerSubject := subject
  ownerPrincipal := actor.name
  realm := tokens.realm
  formatVersion := 1
  name := body.name
  secretDigest := crates.digest tokens.realm id secret
  scopes := body.normalized.scopes
  createdAtMs := now
  expiresAtMs := expires
  revokedAtMs := none
  revokedByPrincipal := none
  lastUsedAtMs := none
  revision := 1

def issue (actor : Actor) (primary : Bool) (body : IssueToken) (key : String) :
    Served IssuedToken := do
  let (issuer, subject) ← ofExcept (tokens.checkIssue actor primary body key)
  let hash := crates.requestHash actor.name body.normalized
  let ttl := body.expiresInSeconds.getD tokens.policy.defaultTtlSecs
  Program.ensure (60 ≤ ttl ∧ ttl ≤ 31536000) .invalid
  let now ← ask .clock
  let expires ← Program.okOr (checkedAdd now.ms (ttl * 1000 : Nat)) .invalid
  let minted ← ask .mint
  let (id, secret) ← ofExcept minted
  let record := tokens.newRecord crates actor body issuer subject id secret now.ms expires
  let issued ← ask (.issue record key hash tokens.policy)
  let (record, created) ← ofExcept issued
  let seen ← ask .clock
  return ⟨tokens.metadata crates record seen.ms,
    if created then some (Crates.tokenPrefix ++ utf8 id ++ 0x5f :: crates.encode secret) else none⟩

def revoke (actor : Actor) (id : String) (revision : Option Int) : Served Unit := do
  let now ← ask .clock
  let revoked ← ask (.revoke actor id revision now.ms)
  ofExcept revoked

end PersonalTokens

end Shaula.AccessTokens
