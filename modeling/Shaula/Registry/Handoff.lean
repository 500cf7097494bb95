import Shaula.Registry.Revision

/-! # Desired auth contexts

A fleet's handoff and auth context each record the auth reference it should run under.  Both move in
the transaction that changes the reference.
-/

namespace Shaula

open Library Library.Outcome

namespace Registry

/-- Take over the proven identity of the exact repository a context is about. -/
def ResolvedAuthContext.pinRepository (context : ResolvedAuthContext)
    (evidence : AuthIdentityProof × AuthRepoProof) : StoreResult ResolvedAuthContext :=
  let (proof, repo) := evidence
  if eqIgnoreAsciiCase repo.owner context.target.owner ∧
      context.target.repositoryName.any (eqIgnoreAsciiCase repo.repository) then
    if proof.accountId ≠ context.accountId ∨ proof.installationId ≠ context.installationId ∨
        repo.ownerId ≠ context.accountId ∨ repo.repositoryId ≤ 0 then
      .error (.corrupt "exact repository proof contradicts binding")
    else .ok { context with
      repositoryId := some repo.repositoryId
      repositoryOwnerId := some repo.ownerId }
  else .ok context

/-- Every repository proof of a snapshot, with the account it was proven for. -/
def AuthValidationSnapshot.repositories (snapshot : AuthValidationSnapshot) :
    List (AuthIdentityProof × AuthRepoProof) :=
  snapshot.identities.flatMap fun proof => proof.repositories.map fun repo => (proof, repo)

/-- Whether a selector names exactly the target's repository. -/
def TargetSelector.isExact (selector : TargetSelector) (target : GitHubTarget) : Bool :=
  match selector with
  | .repository owner name =>
    eqIgnoreAsciiCase owner target.owner && target.repositoryName.any (eqIgnoreAsciiCase name)
  | _ => false

/-- The GitHub target of a stored specification; a placeholder section is not stored. -/
def FleetSpec.githubTarget (spec : FleetSpec) : Option GitHubTarget :=
  if spec.github = .placeholder then none else some spec.github.target

namespace AuthRevisionRow

/-- The one supported format of a GitHub App revision. -/
def isGithubAppV2 (row : AuthRevisionRow) : Bool :=
  row.schemaVersion = 2 && row.kind = .githubApp

def githubPolicy (row : AuthRevisionRow) : StoreResult TargetPolicy :=
  match row.policy with
  | some (.github policy) => .ok policy
  | _ => .error (.corrupt "stored v2 policy invalid")

def githubSnapshot (row : AuthRevisionRow) : StoreResult AuthValidationSnapshot :=
  match row.snapshot with
  | none => .error (.corrupt "active v2 validation snapshot missing")
  | some (.github snapshot) => .ok snapshot
  | some _ => .error (.corrupt "active v2 validation snapshot corrupt")

end AuthRevisionRow

namespace ControlPlane

variable (s : ControlPlane)

/-- Resolve a fleet target against a revision's policy, bindings and evidence. -/
def authDesiredContext (profileKey : String) (revision : Int) (spec : FleetSpec) :
    StoreResult ResolvedAuthContext := do
  let row ← okOr (s.authRevisions.find (profileKey, revision))
    (.corrupt ("auth revision " ++ profileKey ++ " missing"))
  ensure row.isGithubAppV2 (.policyDenied "UnsupportedAuthFormat")
  let policy ← row.githubPolicy
  let bindings := (s.bindings.find (profileKey, revision)).getD []
  let target ← okOr spec.githubTarget (.corrupt "fleet spec has no valid github target")
  match resolveDesiredContext profileKey revision (row.appId.getD "") policy bindings target with
  | .noMatchingSelector => .error (.policyDenied "TargetNotAllowed")
  | .ambiguousInstallation => .error (.policyDenied "AmbiguousInstallation")
  | .resolved context => do
    let snapshot ← row.githubSnapshot
    ensure (snapshot.candidate = (profileKey, revision))
      (.corrupt "active v2 validation snapshot reference mismatched")
    let pinned ← snapshot.repositories.foldlM ResolvedAuthContext.pinRepository context
    ensure (¬ policy.selectors.any (·.isExact target) ∨ pinned.repositoryId.isSome)
      (.corrupt "exact repository selector has no verified identity")
    return pinned

/-- Point a fleet's handoff at an auth reference; a fleet without one gets it. -/
def handoffSetDesired (key profileKey : String) (revision : Int) : ControlPlane :=
  match s.handoffs.find key with
  | some row => { s with
      handoffs := s.handoffs.put key { row with
        desiredProfileKey := profileKey
        desiredRevision := revision
        state := .pending } }
  | none => { s with
      handoffs := s.handoffs.put key {
        desiredProfileKey := profileKey
        desiredRevision := revision
        observedProfileKey := none
        observedRevision := none
        state := .pending
        cleanupOnly := false } }

/-- Point an existing handoff at a newly active revision. -/
def handoffRetargetDesired (key profileKey : String) (revision : Int) : ControlPlane :=
  match s.handoffs.find key with
  | none => s
  | some row =>
    if row.desiredProfileKey = profileKey ∧ row.desiredRevision = revision then s
    else { s with
      handoffs := s.handoffs.put key { row with
        desiredProfileKey := profileKey
        desiredRevision := revision
        state := .pending } }

def handoffSetCleanupOnly (key : String) : ControlPlane :=
  match s.handoffs.find key with
  | none => s
  | some row => { s with handoffs := s.handoffs.put key { row with cleanupOnly := true } }

/-- Write a desired context under the fleet's current fence. -/
def fleetAuthContextSetDesired (key profileKey : String) (revision : Int)
    (context : ResolvedAuthContext) : ControlPlane :=
  let fence := (s.fleets.find key).map (·.mutationFence)
  match s.contexts.find key with
  | some row =>
    if row.desiredProfileKey = some profileKey ∧ row.desiredRevision = some revision ∧
        row.desiredContext = some context then
      { s with contexts := s.contexts.put key { row with desiredFence := fence } }
    else { s with
      contexts := s.contexts.put key { row with
        desiredProfileKey := some profileKey
        desiredRevision := some revision
        desiredFence := fence
        desiredContext := some context
        state := .pending } }
  | none => { s with
      contexts := s.contexts.put key {
        desiredProfileKey := some profileKey
        desiredRevision := some revision
        desiredFence := fence
        desiredContext := some context
        observedProfileKey := none
        observedRevision := none
        observedContext := none
        state := .pending } }

/-- Keep a pending context acknowledgeable under the fleet's new fence. -/
def fleetAuthContextRefreshFence (key : String) : StoreResult ControlPlane :=
  match s.contexts.find key with
  | none => .ok s
  | some context => do
    let fleet ← okOr (s.fleets.find key) (.corrupt "auth context has no Fleet")
    return { s with
      contexts := s.contexts.put key { context with desiredFence := some fleet.mutationFence } }

/-- Derive and write a fleet's desired context; the inner error is a structural denial. -/
def fleetAuthContextCommit (key profileKey : String) (revision : Int) (spec : FleetSpec) :
    StoreResult (Except String ControlPlane) :=
  match s.authDesiredContext profileKey revision spec with
  | .ok context => .ok (.ok (s.fleetAuthContextSetDesired key profileKey revision context))
  | .error (.policyDenied reason) => .ok (.error reason)
  | .error e => .error e

variable {s} {t : ControlPlane}

/-! ## What each write changes -/

theorem handoffSetDesired_eq (key profileKey : String) (revision : Int) :
    ∃ row, row.desiredProfileKey = profileKey ∧ row.desiredRevision = revision ∧
      s.handoffSetDesired key profileKey revision =
        { s with handoffs := s.handoffs.put key row } := by
  unfold handoffSetDesired
  cases s.handoffs.find key with
  | none => exact ⟨_, rfl, rfl, rfl⟩
  | some row => exact ⟨_, rfl, rfl, rfl⟩

theorem fleetAuthContextSetDesired_eq (key profileKey : String) (revision : Int)
    (context : ResolvedAuthContext) :
    ∃ row, row.desiredProfileKey = some profileKey ∧ row.desiredRevision = some revision ∧
      row.desiredContext = some context ∧
      s.fleetAuthContextSetDesired key profileKey revision context =
        { s with contexts := s.contexts.put key row } := by
  unfold fleetAuthContextSetDesired
  cases s.contexts.find key with
  | none => exact ⟨_, rfl, rfl, rfl, rfl⟩
  | some row =>
    by_cases hsame : row.desiredProfileKey = some profileKey ∧
        row.desiredRevision = some revision ∧ row.desiredContext = some context
    · simp only [if_pos hsame]
      exact ⟨{ row with desiredFence := (s.fleets.find key).map (·.mutationFence) }, hsame.1,
        hsame.2.1, hsame.2.2, rfl⟩
    · simp only [if_neg hsame]
      exact ⟨_, rfl, rfl, rfl, rfl⟩

theorem handoffSetCleanupOnly_eq (key : String) :
    ∃ handoffs, s.handoffSetCleanupOnly key = { s with handoffs } := by
  unfold handoffSetCleanupOnly
  cases s.handoffs.find key with
  | none => exact ⟨_, rfl⟩
  | some row => exact ⟨_, rfl⟩

theorem fleetAuthContextCommit_ok {key profileKey : String} {revision : Int} {spec : FleetSpec}
    (h : s.fleetAuthContextCommit key profileKey revision spec = .ok (.ok t)) :
    ∃ context, s.authDesiredContext profileKey revision spec = .ok context ∧
      t = s.fleetAuthContextSetDesired key profileKey revision context := by
  unfold fleetAuthContextCommit at h
  cases hcontext : s.authDesiredContext profileKey revision spec with
  | ok context =>
    rw [hcontext] at h
    cases h
    exact ⟨context, rfl, rfl⟩
  | error e =>
    rw [hcontext] at h
    cases e <;> cases h

end ControlPlane

end Registry

end Shaula
