import Shaula.Registry.Spec

/-! # Target policies and account bindings

A GitHub App revision says which targets it may serve, and freezes the installation proven for each
account its selectors name.  A fleet's desired auth context is derived from both, offline.
-/

namespace Shaula

namespace Registry

/-- Equality up to the case of ASCII letters. -/
def eqIgnoreAsciiCase (a b : String) : Bool :=
  a.toList.map Char.toLower = b.toList.map Char.toLower

def GitHubTarget.owner : GitHubTarget → String
  | .organization owner | .repository owner _ => owner

def GitHubTarget.repositoryName : GitHubTarget → Option String
  | .organization _ => none
  | .repository _ name => some name

/-- One admission rule of a target policy. -/
inductive TargetSelector where
  | organization (owner : String)
  | repository (owner repository : String)
  | accountRepositories (accountKind : AccountKind) (owner : String)
  deriving DecidableEq, Repr

namespace TargetSelector

/-- The account a selector addresses. -/
def account : TargetSelector → String
  | organization owner | repository owner _ | accountRepositories _ owner => owner

/-- Whether this single selector admits the target. -/
def allows : TargetSelector → GitHubTarget → Bool
  | organization owner, .organization o => eqIgnoreAsciiCase owner o
  | repository owner name, .repository o r =>
    eqIgnoreAsciiCase owner o && eqIgnoreAsciiCase name r
  | accountRepositories _ owner, .repository o _ => eqIgnoreAsciiCase owner o
  | _, _ => false

end TargetSelector

structure TargetPolicy where
  selectors : List TargetSelector
  deriving DecidableEq, Repr

namespace TargetPolicy

/-- Every selector admitting the target. -/
def matching (policy : TargetPolicy) (target : GitHubTarget) : List TargetSelector :=
  policy.selectors.filter (·.allows target)

def allows (policy : TargetPolicy) (target : GitHubTarget) : Bool :=
  policy.selectors.any (·.allows target)

theorem matching_eq_nil {policy : TargetPolicy} {target : GitHubTarget} :
    policy.matching target = [] ↔ policy.allows target = false := by
  simp [matching, allows]

end TargetPolicy

/-- One proven installation of the App for an account, frozen into the revision that validated
it. -/
structure AccountBinding where
  accountId : Int
  accountKind : AccountKind
  login : String
  installationId : Int
  deriving DecidableEq, Repr

def AccountBinding.accountMatches (binding : AccountBinding) (selectorAccount : String) : Bool :=
  eqIgnoreAsciiCase binding.login selectorAccount

inductive DesiredContextResolution where
  | resolved (context : ResolvedAuthContext)
  | noMatchingSelector
  | ambiguousInstallation
  deriving DecidableEq, Repr

/-- The one installation that all the selectors route to, given the route found so far. -/
def resolveRoute (bindings : List AccountBinding) :
    List TargetSelector → Option AccountBinding → Except DesiredContextResolution AccountBinding
  | [], none => .error .noMatchingSelector
  | [], some route => .ok route
  | selector :: rest, route =>
    match bindings.find? (·.accountMatches selector.account) with
    -- Validation freezes one binding per selector; without it nothing is guessed.
    | none => .error .noMatchingSelector
    | some binding =>
      match route with
      | none => resolveRoute bindings rest (some binding)
      | some found =>
        if found.accountId ≠ binding.accountId ∨ found.installationId ≠ binding.installationId then
          .error .ambiguousInstallation
        else resolveRoute bindings rest (some found)

/-- Derives the desired context for a concrete target. -/
def resolveDesiredContext (profileKey : String) (revision : Int) (appId : String)
    (policy : TargetPolicy) (bindings : List AccountBinding) (target : GitHubTarget) :
    DesiredContextResolution :=
  match resolveRoute bindings (policy.matching target) none with
  | .error refusal => refusal
  | .ok route => .resolved {
      profileKey
      revision
      githubHost := "github.com"
      appId
      accountId := route.accountId
      accountKind := route.accountKind
      login := route.login
      installationId := route.installationId
      target
      organizationId := match target with
        | .organization _ => some route.accountId
        | .repository _ _ => none
      repositoryId := none
      repositoryOwnerId := none }

/-! ## Validation evidence -/

/-- Numeric identity of one exact repository selector. -/
structure AuthRepoProof where
  owner : String
  repository : String
  repositoryId : Int
  ownerId : Int
  deriving DecidableEq, Repr

/-- One account's proven numeric identity at validation time. -/
structure AuthIdentityProof where
  login : String
  accountId : Int
  installationId : Int
  repositories : List AuthRepoProof
  deriving DecidableEq, Repr

/-- One live fleet whose identity and fence the validator checked. -/
structure AuthCheckedFleet where
  key : String
  incarnation : String
  revision : Int
  fence : Int
  deriving DecidableEq, Repr

structure ForgejoAuthProbe where
  serverVersion : String
  principalId : Option Nat
  targetId : Option Nat
  checkedAtUnixMs : Int
  validUntilUnixMs : Int
  deriving DecidableEq, Repr

structure GitlabAuthProbe where
  serverVersion : String
  targetId : Nat
  checkedAtUnixMs : Int
  validUntilUnixMs : Int
  deriving DecidableEq, Repr

end Registry

end Shaula
