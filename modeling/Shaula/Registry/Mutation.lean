import Shaula.Registry.Handoff

/-! # Fleet mutations

The transactions that accept a fleet specification, a no-op and a deletion.  Each either commits all
of its writes or, refused anywhere, none of them.
-/

namespace Shaula

open Library Library.Outcome

namespace Registry

/-- Map a lost fence race onto the caller's precondition: the only conflict that is gone for good is
a decommissioning fleet. -/
def fenceConflict (facts : MutationFacts) (error : StoreError) : MutationError :=
  if error = .conflict (facts.resourceKey ++ ":decommissioning") ∧
      facts.change.kind ≠ .decommission then
    .gone facts.resourceKey
  else .preconditionFailed (facts.incarnation, facts.revision - 1)

/-! ## What counts as a replacement -/

namespace FleetMutation

variable (mutation : FleetMutation)

/-- The auth profile a mutation asks for. -/
def authKey : String := (mutation.authDesired.map Prod.fst).getD ""

/-- Another template, unless it is a newer revision of the same profile. -/
def templateChanged (previous : FleetRevisionRow) : Bool :=
  let key := previous.template.map (·.profileKey)
  let newKey := mutation.template.map (·.profileKey)
  let revision := previous.template.map (·.revision)
  let newRevision := mutation.template.map (·.revision)
  let newer := revision.any fun old => newRevision.any fun new => old < new
  (key ≠ newKey ∨ revision ≠ newRevision) ∧ ¬ (key = newKey ∧ newer)

/-- Whether the new revision routes through an inline pool. -/
def newPool : Bool := mutation.templatePoolRef.isNone && !mutation.templatePool.isEmpty

/-- Another set of inline routes than the rows of the previous revision. -/
def poolChanged (rows : List ResolvedTemplatePoolMember) : Bool :=
  rows.length ≠ mutation.templatePool.length ||
    rows.any fun row => mutation.templatePool.find? (·.key = row.key) ≠ some row

/-- Another shared pool, unless it is a newer revision of the same one. -/
def poolRefChanged (previous : FleetRevisionRow) : Bool :=
  let catchUp := previous.templatePoolRef.any fun old =>
    mutation.templatePoolRef.any fun new => old.1 = new.1 ∧ old.2 < new.2
  previous.templatePoolRef ≠ mutation.templatePoolRef ∧ ¬ catchUp

def authChanged (previous : FleetRevisionRow) : Bool := previous.authDesired.1 ≠ mutation.authKey

def inputsChanged (previous : FleetRevisionRow) : Bool :=
  previous.spec.templateInputs ≠ mutation.spec.templateInputs

end FleetMutation

/-- The inline rows a revision declares routes with; a revision without an inline pool has none. -/
def ControlPlane.inlineRows (s : ControlPlane) (key : String)
    (previous : Option (Int × FleetRevisionRow)) : List ResolvedTemplatePoolMember :=
  match previous with
  | some (revision, row) => if row.spec.templatePool.isSome then s.memberRows key revision else []
  | none => []

namespace ControlPlane

variable (s : ControlPlane)

/-! ## Retiring dependencies -/

/-- Whether a template profile exists and is being retired. -/
def templateRetiring (key : String) : Bool :=
  (s.templates.find key).any (·.deletionRequested)

def authRetiring (key : String) : Bool :=
  (s.auths.find key).any (·.deletionRequested)

/-- Whether a shared pool may be referenced at this revision. -/
def poolLive (ref : FleetPoolRef) : Bool :=
  (s.poolRevisions.find ref).isSome &&
    (s.pools.find ref.1).any fun pool =>
      ref.2 ≤ pool.desiredRevision ∧ ¬ pool.deletionMarker ∧ ¬ pool.tombstone

/-- Whether a member of a shared pool's revision refers to a vanished or retiring profile. -/
def poolRetiring (ref : FleetPoolRef) : Bool :=
  (s.poolMemberRows ref).any fun member =>
    (s.templates.find member.templateProfileKey).all (·.deletionRequested)

/-- A new reference needs a profile that is not retiring; one the previous revision already has is
kept. -/
def allowsReferences (mutation : FleetMutation) (previous : Option (Int × FleetRevisionRow)) :
    Bool :=
  (mutation.template.all fun pin =>
    (previous.any fun (_, p) => (p.template.any fun old =>
      old.profileKey = pin.profileKey ∧ old.revision = pin.revision)) ||
      !s.templateRetiring pin.profileKey) &&
  (mutation.authDesired.all fun auth =>
    (previous.any fun (_, p) => p.authDesired.1 = auth.1) || !s.authRetiring auth.1) &&
  (mutation.templatePool.all fun member =>
    (previous.any fun (revision, _) => (s.memberRows mutation.resourceKey revision).any fun old =>
      old.templateProfileKey = member.templateProfileKey ∧
        old.templateRevision = member.templateRevision) ||
      !s.templateRetiring member.templateProfileKey) &&
  (mutation.templatePoolRef.all fun ref =>
    s.poolLive ref && ((previous.any fun (_, p) => p.templatePoolRef = some ref) ||
      !s.poolRetiring ref))

/-! ## The replacement gate -/

/-- Refuse a replacement while the fleet has live resources. -/
def requireEmpty (changed : Bool) (reason : String) (key : String) : Commit Unit :=
  ensure (changed = false ∨ s.replacementOccupancy key = 0) (.rejected (.retirementBlocked reason))

def replacementGate (mutation : FleetMutation) (previous : Option (Int × FleetRevisionRow)) :
    Commit Unit := do
  let key := mutation.resourceKey
  let previousIsPool := previous.any fun (_, p) => p.spec.templatePool.isSome
  let poolChanged := previousIsPool && mutation.poolChanged (s.inlineRows key previous)
  s.requireEmpty (previousIsPool ≠ mutation.newPool || poolChanged)
    "pool conversion requires zero resource occupancy" key
  s.requireEmpty (previous.any fun (_, p) => mutation.poolRefChanged p)
    "template pool replacement requires zero resource occupancy" key
  s.requireEmpty (previous.any fun (_, p) =>
      mutation.templateChanged p || mutation.authChanged p || mutation.inputsChanged p)
    "replacement requires zero resource occupancy" key

/-! ## The transactions -/

/-- Move the handoff and the desired context of a GitHub fleet to its new auth reference.  Pool
fleets have neither. -/
def handOver (mutation : FleetMutation) : Commit ControlPlane :=
  match mutation.authDesired with
  | none => .ok s
  | some (profileKey, _) => do
    let (_, latest) ← okOr (s.revisions.latest mutation.resourceKey)
      (.failed (.corrupt "fleet has no committed revision for auth handoff"))
    if mutation.spec.kind.isPool then .ok s
    else do
      let revision := latest.authDesired.2
      let handed := s.handoffSetDesired mutation.resourceKey profileKey revision
      let committed ← (handed.fleetAuthContextCommit mutation.resourceKey profileKey revision
        mutation.spec).mapError .failed
      committed.mapError fun reason => .rejected (.unprocessable
        (if reason = "TargetNotAllowed" then .targetNotAllowed else .ambiguousInstallation)
        "auth profile target policy does not cover the fleet target")

/-- Store an idempotency record, if the request asks for one. -/
def idempotencyStore (facts : MutationFacts) : StoreResult ControlPlane :=
  match facts.idempotency with
  | none => .ok s
  | some record => do
    let idempotency ← okOr (s.idempotency.create {
      principal := facts.actor
      operation := facts.idempotencyOperation
      resourceKind := facts.resourceKind
      resourceKey := facts.resourceKey
      idempotencyKey := record.key } {
        requestHash := record.requestHash
        responseStatus := record.responseStatus
        responseBody := some record.responseBody }) .unavailable
    return { s with idempotency }

/-- Record the change and the idempotency record of an accepted request. -/
def commitTail (facts : MutationFacts) : Commit ControlPlane := do
  let changed ← (s.changeInsert facts.change.id facts.resourceKey facts.revision
    facts.change.kind).mapError .failed
  (changed.idempotencyStore facts).mapError .failed

/-- `commit_fleet_mutation`. -/
def commitFleetMutation (mutation : FleetMutation) : Commit ControlPlane := do
  let key := mutation.resourceKey
  -- The head is written first: it takes the write lock before the occupancy is read.
  let appended ← (s.fleetCommitRevision mutation).mapError fun error =>
    .rejected (fenceConflict mutation.toMutationFacts error)
  let previous := appended.revisions.latestBelow key mutation.revision
  ensure (appended.allowsReferences mutation previous)
    (.rejected (.retirementBlocked "template or auth dependency is retiring or unavailable"))
  appended.replacementGate mutation previous
  let handed ← appended.handOver mutation
  handed.commitTail mutation.toMutationFacts

/-- The in-transaction check of a no-op against the caller's read. -/
def noopCas (key incarnation : String) (revision : Int) : Commit Unit := do
  let current ← okOr (s.fleets.find key) (.rejected .notFound)
  ensure (¬ current.deletionMarker ∧ ¬ current.tombstone) (.rejected (.gone key))
  ensure (current.incarnation = incarnation ∧ current.desiredRevision = revision)
    (.rejected (.preconditionFailed (current.incarnation, current.desiredRevision)))

/-- `commit_fleet_noop`. -/
def commitFleetNoop (facts : MutationFacts) : Commit ControlPlane := do
  s.noopCas facts.resourceKey facts.incarnation facts.revision
  (s.idempotencyStore facts).mapError .failed

/-- `commit_decommission`. -/
def commitDecommission (facts : MutationFacts) (authDesired : Option (String × Int)) :
    Commit ControlPlane := do
  let key := facts.resourceKey
  let marked ← (s.fleetMarkDecommissioning key facts.incarnation facts.revision).mapError
    fun error => match error with
      | .conflict _ => .rejected (fenceConflict facts error)
      | _ => .failed error
  let isPool := (marked.revisions.latest key).any fun (_, row) => row.spec.kind.isPool
  if isPool then marked.commitTail facts
  else do
    let handed := match authDesired with
      | some (profileKey, revision) => marked.handoffSetDesired key profileKey revision
      | none => marked
    let fenced ← (handed.fleetAuthContextRefreshFence key).mapError .failed
    (fenced.handoffSetCleanupOnly key).commitTail facts

end ControlPlane

end Registry

end Shaula
