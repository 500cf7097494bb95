import Mathlib.Tactic.Common

/-! # Resolved auth contexts

The exact verified route identity for one fleet target under one auth revision.  Pins are taken on
the first verified resolution and never silently overwritten.
-/

namespace Shaula

namespace Registry

/-- GitHub account kind. -/
inductive AccountKind where
  | user
  | organization
  deriving DecidableEq, Repr

inductive GitHubTarget where
  | organization (owner : String)
  | repository (owner repository : String)
  deriving DecidableEq, Repr

/-- The exact verified route identity for one fleet target under one auth revision. -/
structure ResolvedAuthContext where
  profileKey : String
  revision : Int
  githubHost : String
  appId : String
  accountId : Int
  accountKind : AccountKind
  login : String
  installationId : Int
  target : GitHubTarget
  organizationId : Option Int
  repositoryId : Option Int
  repositoryOwnerId : Option Int
  deriving DecidableEq, Repr

namespace ResolvedAuthContext

/-- The complete numeric target identity required before execution. -/
def hasCompleteIdentity (c : ResolvedAuthContext) : Bool :=
  if c.accountId ≤ 0 ∨ c.installationId ≤ 0 ∨ c.githubHost ≠ "github.com" then false
  else
    match c.target with
    | .organization _ =>
      c.accountKind = .organization ∧ c.organizationId = some c.accountId ∧
        c.repositoryId = none ∧ c.repositoryOwnerId = none
    | .repository _ _ =>
      c.repositoryId.any (· > 0) ∧ c.repositoryOwnerId = some c.accountId ∧
        c.organizationId = none

/-- A verified absence never erases an existing pin. -/
def idMatches : Option Int → Option Int → Bool
  | some pinned, some verified => pinned = verified
  | some _, none => false
  | none, _ => true

/-- Whether verified pins agree with observed ones.  An explicit route change, that is a newer
revision of the same profile or another profile, may come with another installation. -/
def authContextPinsAgree (observed verified : ResolvedAuthContext) : Bool :=
  let explicitRouteChange :=
    verified.profileKey ≠ observed.profileKey ∨ verified.revision > observed.revision
  idMatches observed.organizationId verified.organizationId &&
    idMatches observed.repositoryId verified.repositoryId &&
    idMatches observed.repositoryOwnerId verified.repositoryOwnerId &&
    decide (observed.accountId = verified.accountId) &&
    decide (observed.accountKind = verified.accountKind) &&
    (decide (observed.installationId = verified.installationId) || decide explicitRouteChange)

/-- A verified completion may fill absent pins, but never change route authority or an identity
already proven at admission. -/
def completes (c desired : ResolvedAuthContext) : Bool :=
  c.hasCompleteIdentity &&
    decide (c.profileKey = desired.profileKey ∧ c.revision = desired.revision ∧
      c.githubHost = desired.githubHost ∧ c.appId = desired.appId ∧ c.target = desired.target ∧
      c.accountId = desired.accountId ∧ c.accountKind = desired.accountKind ∧
      c.installationId = desired.installationId) &&
    authContextPinsAgree desired c

end ResolvedAuthContext

end Registry

end Shaula
