import Shaula.AccessTokens.Records

/-! # The registry of tokens

A token's record and the columns that mirror it, and one row for every request that issued a token.
Each statement below is one transaction behind the reservation of the writer.
-/

namespace Shaula.AccessTokens

open Core Library Library.Outcome

/-- A row of `personal_access_tokens`. -/
structure TokenRow where
  owner : String
  createdAt : Int
  expiresAt : Int
  revokedAt : Option Int
  lastUsedAt : Option Int
  record : TokenRecord
  deriving DecidableEq

/-- A row of `personal_token_issues`. -/
structure IssueRow where
  owner : String
  idempotencyKey : String
  requestHash : String
  tokenId : String
  createdAt : Int
  deriving DecidableEq

/-- The last issue comes first. -/
structure TokenStore where
  tokens : Table String TokenRow
  issues : List IssueRow
  deriving DecidableEq

/-- Subtraction that ends at the smallest value of a signed 64-bit column. -/
def saturatingSub (a b : Int) : Int := max (-2 ^ 63) (min (2 ^ 63 - 1) (a - b))

namespace TokenRow

/-- The stored record; the last use is kept in its column only. -/
def toRecord (row : TokenRow) : TokenRecord := { row.record with lastUsedAtMs := row.lastUsedAt }

/-- Neither revoked nor expired at `now`. -/
def active (now : Int) (row : TokenRow) : Bool := row.revokedAt.isNone && now < row.expiresAt

/-- The row a record is inserted as. -/
def ofRecord (record : TokenRecord) : TokenRow where
  owner := record.ownerPrincipal
  createdAt := record.createdAtMs
  expiresAt := record.expiresAtMs
  revokedAt := none
  lastUsedAt := none
  record := record

/-- The row after its revocation. -/
def revoke (owner : String) (now : Int) (row : TokenRow) : TokenRow :=
  { row with
    revokedAt := some now
    record := { row.toRecord with
      revokedAtMs := some now
      revokedByPrincipal := some owner
      revision := row.record.revision + 1 } }

end TokenRow

namespace TokenStore

variable (s : TokenStore)

def empty : TokenStore := ⟨∅, []⟩

def find (id : String) : Option TokenRecord := (s.tokens.find id).map TokenRow.toRecord

def findIssue (owner key : String) : Option IssueRow :=
  s.issues.find? fun issue => issue.owner = owner && issue.idempotencyKey = key

/-- Issues later than a minute before `now`. -/
def recent (now : Int) : List IssueRow :=
  s.issues.filter fun issue => saturatingSub now 60000 < issue.createdAt

def live (now : Int) : Nat := s.tokens.count fun _ row => row.active now

def liveOf (owner : String) (now : Int) : Nat :=
  s.tokens.count fun _ row => row.active now && row.owner = owner

/-- Checks replay, rate and quotas, and commits token and receipt. -/
def issue (r : TokenRecord) (key hash : String) (policy : TokenPolicy) :
    TokenResult (TokenStore × TokenRecord × Bool) :=
  match s.findIssue r.ownerPrincipal key with
  | some issued => do
    ensure (issued.requestHash = hash) .conflict
    let existing ← okOr (s.find issued.tokenId) .unavailable
    return (s, existing, false)
  | none => do
    let now := r.createdAtMs
    ensure (saturatingSub r.expiresAtMs now ≤ (policy.maxTtlSecs * 1000 : Nat)) .invalid
    let recent := s.recent now
    ensure (recent.length < 100 ∧
      (recent.filter fun issue => issue.owner = r.ownerPrincipal).length < 5) .rateLimited
    ensure (s.live now < policy.maxActiveTotal ∧
      s.liveOf r.ownerPrincipal now < policy.maxActivePerPrincipal) .quota
    let tokens ← okOr (s.tokens.create r.id (.ofRecord r)) .unavailable
    return (⟨tokens, ⟨r.ownerPrincipal, key, hash, r.id, now⟩ :: s.issues⟩, r, true)

/-- Revokes a token of the actor; a token that is revoked stays as it is. -/
def revoke (actor : Actor) (id : String) (revision : Option Int) (now : Int) :
    TokenResult TokenStore := do
  let row ← okOr (s.tokens.find id) .notFound
  ensure (row.toRecord.ownerPrincipal = actor.name) .notFound
  ensure (∀ v ∈ revision, v = row.toRecord.revision) .preconditionFailed
  if row.toRecord.revokedAtMs.isNone then
    return ⟨s.tokens.update (fun k _ => k = id) (.revoke actor.name now), s.issues⟩
  else return s

/-- Notes a use, at most once a minute. -/
def touch (id : String) (now : Int) : TokenStore :=
  ⟨s.tokens.update
      (fun k row => k = id && row.lastUsedAt.all fun last => last ≤ saturatingSub now 60000)
      fun row => { row with lastUsedAt := some now },
    s.issues⟩

/-- Newest first, and the greater identifier first at the same time. -/
def newer (a b : Int × String) : Prop := b.1 < a.1 ∨ (b.1 = a.1 ∧ b.2 ≤ a.2)

instance (a b : Int × String) : Decidable (newer a b) := by unfold newer; infer_instance

/-- The position of a row is behind the cursor. -/
def behind (cursor : Option (Int × String)) (position : Int × String) : Bool :=
  cursor.all fun c => position.1 < c.1 || (position.1 = c.1 && position.2 < c.2)

/-- The next tokens of an owner behind a position. -/
def list (owner : String) (before : Option (Int × String)) (limit : Nat) : List TokenRecord :=
  let rows := s.tokens.rows.filter fun e => e.2.owner = owner && behind before (e.2.createdAt, e.1)
  let sorted := rows.insertionSort fun a b => newer (a.2.createdAt, a.1) (b.2.createdAt, b.1)
  (sorted.take (min limit 100)).map fun e => e.2.toRecord

end TokenStore

end Shaula.AccessTokens
