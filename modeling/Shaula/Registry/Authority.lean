import Shaula.Library.Outcome
import Shaula.Library.Table
import Shaula.Registry.AuthContext
import Shaula.Store.Request

/-! # Durable authority checks

Listeners and runtime observations act on a captured fleet head under a resolved auth context.  Both
have to be the current ones in the transaction that acts.
-/

namespace Shaula

open Library Library.Outcome

namespace Registry

inductive FleetPhase where
  | pending
  | reconciling
  | ready
  | degraded
  | decommissioning
  | decommissioned
  deriving DecidableEq, Repr

/-- A fleet's head. -/
structure FleetRow where
  incarnation : String
  desiredRevision : Int
  observedRevision : Int
  mutationFence : Int
  deletionMarker : Bool
  phase : FleetPhase
  tombstone : Bool
  deriving DecidableEq, Repr

inductive HandoffState where
  | pending
  | blocked
  | observed
  deriving DecidableEq, Repr

structure HandoffRow where
  desiredProfileKey : String
  desiredRevision : Int
  observedProfileKey : Option String
  observedRevision : Option Int
  state : HandoffState
  cleanupOnly : Bool
  deriving DecidableEq, Repr

inductive AuthKind where
  | githubApp
  | forgejoToken
  | gitlabToken
  deriving DecidableEq, Repr

/-- What a guard reads of an auth revision. -/
structure AuthFormat where
  schemaVersion : Int
  kind : AuthKind
  deriving DecidableEq, Repr

/-- Desired and observed exact auth context of one fleet. -/
structure ContextRow where
  desiredProfileKey : Option String
  desiredRevision : Option Int
  desiredFence : Option Int
  desiredContext : Option ResolvedAuthContext
  observedProfileKey : Option String
  observedRevision : Option Int
  observedContext : Option ResolvedAuthContext
  state : HandoffState
  deriving DecidableEq, Repr

/-- The scale set of a fleet, and whether it is adopted. -/
structure ScaleSetRow where
  scaleSetId : Option Int
  adopted : Bool
  deriving DecidableEq, Repr

/-- The rows an authority check reads. -/
structure Authority where
  fleets : Table String FleetRow
  handoffs : Table String HandoffRow
  authRevisions : Table (String × Int) AuthFormat
  contexts : Table String ContextRow
  contextHistory : Table (String × String × Int) ResolvedAuthContext
  scaleSets : Table String ScaleSetRow

namespace Authority

variable (a : Authority)

def fleetRuntimeGuard (key : String) (guard : FleetRuntimeGuard) : Bool :=
  (a.fleets.find key).any fun f =>
    f.incarnation = guard.incarnation ∧ f.desiredRevision = guard.desiredRevision ∧
      f.mutationFence = guard.mutationFence ∧ ¬ f.deletionMarker ∧ ¬ f.tombstone

/-- The context retained for an exact auth revision of a fleet. -/
def authExecutionContext (fleet key : String) (revision : Int) :
    StoreResult (Option ResolvedAuthContext) :=
  match a.contextHistory.find (fleet, key, revision) with
  | none => .ok none
  | some context =>
    if context.profileKey ≠ key ∨ context.revision ≠ revision ∨ ¬ context.hasCompleteIdentity then
      .error (.corrupt "retained auth context does not match its reference")
    else .ok (some context)

def runtimeAuthGuard (key : String) (guard : FleetRuntimeGuard) (expected : ResolvedAuthContext) :
    StoreResult Bool :=
  if ¬ a.fleetRuntimeGuard key guard ∨ ¬ expected.hasCompleteIdentity then .ok false
  else
    match a.handoffs.find key with
    | none => .ok false
    | some handoff =>
      if handoff.state ≠ .observed ∨ handoff.cleanupOnly ∨
          handoff.desiredProfileKey ≠ expected.profileKey ∨
          handoff.desiredRevision ≠ expected.revision ∨
          handoff.observedProfileKey ≠ some expected.profileKey ∨
          handoff.observedRevision ≠ some expected.revision then .ok false
      else
        match a.authRevisions.find (expected.profileKey, expected.revision) with
        | none => .ok false
        | some auth =>
          if auth.schemaVersion ≠ 2 ∨ auth.kind ≠ .githubApp then
            .error (.policyDenied "UnsupportedAuthFormat")
          else
            match a.contexts.find key with
            | none => .ok false
            | some row =>
              if row.state ≠ .observed ∨ row.desiredProfileKey ≠ some expected.profileKey ∨
                  row.desiredRevision ≠ some expected.revision ∨
                  row.desiredFence ≠ some guard.mutationFence ∨
                  row.observedProfileKey ≠ some expected.profileKey ∨
                  row.observedRevision ≠ some expected.revision then .ok false
              else
                match row.desiredContext with
                | none => .ok false
                | some desired => do
                  let retained ← a.authExecutionContext key expected.profileKey expected.revision
                  return expected.completes desired && decide (row.observedContext = some expected) &&
                    decide (retained = some expected)

/-- Whether the fleet's adopted scale set is this one. -/
def ownsScaleSet (key : String) (scaleSetId : Int) : Bool :=
  (a.scaleSets.find key).any fun o => o.scaleSetId = some scaleSetId ∧ o.adopted

end Authority

end Registry

end Shaula
