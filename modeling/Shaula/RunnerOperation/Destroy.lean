import Shaula.RunnerOperation.Effects

/-! # Destroy for retirement

The durable retirement intent first, then busy-safe removal of the runner registration, then the
runner resource.  The resource destroy re-verifies the original Create pins; a generation that
never started a Create has no resource.
-/

namespace Shaula

open Core Library

/-- What a runner operation is configured with. -/
structure RunnerOperation where
  artifactRoot : String
  operationTimeout : Nat

namespace RunnerOperation

abbrev Routine (α : Type) := Program effects CoreError α

def ask (op : Operation) : Routine op.Answer := Program.lift (F := effects) op

/-! ## The destroy chain -/

/-- Position on the destroy chain; `none` means the state cannot be destroyed. -/
def chainRank : GenerationState → Option Nat
  | .creating | .waitingOnline => some 0
  | .idle | .busy | .cleanupRequired => some 1
  | .retiring => some 2
  | .destroyPending => some 3
  | .destroying => some 4
  | .createPending | .quarantined | .destroyed => none

def retiringRank : Nat := 2

def chainNext : GenerationState → GenerationState
  | .creating | .waitingOnline => .cleanupRequired
  | .idle | .busy | .cleanupRequired => .retiring
  | .retiring => .destroyPending
  | _ => .destroying

def cannotDestroy (state : GenerationState) : CoreError where
  code := .ownershipConflict
  summary := "generation cannot be destroyed from " ++ state.asStrRepr

def rankOf (state : GenerationState) : Routine Nat :=
  match chainRank state with
  | some rank => .done rank
  | none => .fail (cannotDestroy state)

/-- `n` advances along the destroy chain. -/
def walkSteps (id : Uuid) (now : Int) : Nat → GenerationState → Routine GenerationState
  | 0, state => .done state
  | n + 1, state => do
    ask (.generationAdvance id (chainNext state) now)
    walkSteps id now n (chainNext state)

/-- Advances along the destroy chain until `until` is reached; states already at or past it are
left unchanged. -/
def walk (id : Uuid) (start target : GenerationState) (now : Int) : Routine GenerationState := do
  let targetRank ← rankOf target
  let rank ← rankOf start
  walkSteps id now (targetRank - rank) start

/-- The walk is a loop: done at its target, and otherwise one advance before the rest. -/
theorem walk_eq (id : Uuid) (start target : GenerationState) (now : Int) :
    walk id start target now = (do
      let targetRank ← rankOf target
      let rank ← rankOf start
      if targetRank ≤ rank then return start
      else
        ask (.generationAdvance id (chainNext start) now)
        walk id (chainNext start) target now) := by
  cases target <;> cases start <;> rfl

/-! ## Questions about the generation -/

/-- Whether a Create apply was ever admitted: the durable record precedes every mutating apply. -/
def createStarted (id : Uuid) : Routine Bool := do
  let provenance : Option PlanProvenance ← ask (.originalProvenance id)
  if provenance.isSome then return true
  else
    let operations : List OperationRow ← ask (.openOperations id)
    return operations.any fun operation => operation.kind == "Create"

def quarantine (id : Uuid) (now : Int) : Routine DestroyOutcome := do
  ask (.backoffClear id)
  ask (.generationAdvance id .quarantined now)
  return .quarantined

def admitRegistration (generation : GenerationRecord) (createStarted : Bool) :
    Routine Registration := do
  let verdict : Registration ← ask (.admitRemoval generation createStarted)
  match verdict with
  -- A started Create always retains its registration identity.
  | .unrecorded =>
    if createStarted then return .unprovable
    else ask (.proveUnrecordedAbsent generation)
  | verdict => return verdict

/-! ## The resource destroy -/

/-- Proof material a resource destroy re-verifies. -/
structure DestroyProof where
  originalProvenance : PlanProvenance
  lineage : String
  serial : Nat
  bindingsDigest : String
  artifactDir : String
  managedShape : List ManagedResourceRole

/-- Outcome of one resource destroy, with its completion time. -/
inductive ResourceDestroy where
  | destroyed (time : Int)
  | failed (time : Int) (knownFailure : Bool)
  /-- The plan targets a resource that is provably not this generation's: never retried. -/
  | foreign

/-- The directory of one published artifact; a malformed digest has none. -/
def artifactDir (root digest : String) : Option String :=
  let hex := digest.toList.drop 7
  if "sha256:".toList <+: digest.toList ∧ hex.length = 64 ∧
      hex.all (fun c => c.isDigit || ('a' ≤ c && c ≤ 'f')) = true then
    some (root ++ "/" ++ String.ofList (hex.take 2) ++ "/" ++ String.ofList hex)
  else none

/-- Loads the original Create pins, or tells which of them is definitively missing; a failed
artifact cache restore is transient. -/
def destroyProof (self : RunnerOperation) (generation : GenerationRecord) :
    Routine (Except String DestroyProof) := do
  let provenance : Option PlanProvenance ← ask (.originalProvenance generation.id)
  let some originalProvenance := provenance
    | return .error "Create provenance missing for destroy"
  let identity : Option Identity ← ask (.stateIdentity generation.id)
  let some identity := identity
    | return .error "state identity missing for destroy"
  let bindings : Option String ← ask
    (.protectedBindings generation.templateProfileKey generation.templateRevision)
  let some bindingsDigest := bindings
    | return .error "admitted bindings missing for destroy"
  ask (.ensureArtifactCached generation.templateArtifactDigest)
  let some artifactDir := artifactDir self.artifactRoot generation.templateArtifactDigest
    | return .error "artifact digest malformed for destroy"
  let manifest : Option (List ManagedResourceRole) ← ask (.readManifest artifactDir)
  let some managedShape := manifest
    | return .error "admitted manifest invalid for destroy"
  return .ok
    { originalProvenance
      lineage := identity.stateLineage
      serial := identity.stateSerial
      bindingsDigest
      artifactDir
      managedShape }

/-- The request for a destroy against the proven pins. -/
def destroyRequest (self : RunnerOperation) (generation : GenerationRecord) (proof : DestroyProof)
    (retry : Bool) : TemplateDestroyRequest where
  pinnedArtifactDigest := generation.templateArtifactDigest
  workspacePath := generation.workspacePath
  artifactDir := proof.artifactDir
  expectedBindingsDigest := proof.bindingsDigest
  generationId := generation.id
  managedShape := proof.managedShape
  timeout := self.operationTimeout
  originalProvenance := proof.originalProvenance
  originalState := {
    lineage := proof.lineage
    serial := proof.serial
    -- A retry may observe a serial advanced by our own partial destroy.
    allowSerialAdvance := retry }

/-- Runs the resource destroy against the proven pins.  The caller has already advanced the
generation to `destroying`. -/
def destroyResources (self : RunnerOperation) (generation : GenerationRecord)
    (proof : DestroyProof) (now : Int) : Routine ResourceDestroy := do
  let retry : Bool ← ask (.destroyAttempted generation.id)
  let result : Except TemplateOutcomeError Unit ←
    ask (.runtimeDestroy (self.destroyRequest generation proof retry))
  let time : Int ← ask (.nowAfter now)
  match result with
  | .ok () =>
    ask (.backoffClear generation.id)
    ask (.completeIntent time)
    return .destroyed time
  | .error (.planFailed phase) =>
    if phase = destroyIdentityPhase then return .foreign
    else
      let _ ← ask (.backoffFailed generation.id time)
      return .failed time true
  | .error _ =>
    let _ ← ask (.backoffFailed generation.id time)
    return .failed time false

/-! ## Retirement -/

/-- Removes the registration: the outcome the step ends with, or the state it goes on from. -/
def removeRegistration (generation : GenerationRecord) (createStarted : Bool) (now : Int) :
    Routine (DestroyOutcome ⊕ GenerationState) := do
  match ← admitRegistration generation createStarted with
  | .removable =>
    -- Durable retirement intent before the removal effect.
    let state ← walk generation.id generation.state .retiring now
    let verdict : Registration ←
      ask (.remove generation (.retirement createStarted))
    match verdict with
    | .gone => return .inr state
    | .busy | .unavailable => return .inl .pending
    | .removable | .unprovable | .unrecorded =>
      let outcome ← quarantine generation.id now
      return .inl outcome
  | .gone =>
    let state ← walk generation.id generation.state .retiring now
    return .inr state
  | .busy | .unavailable => return .inl .pending
  | .unprovable | .unrecorded =>
    let outcome ← quarantine generation.id now
    return .inl outcome

/-- Destroys what is left once the registration is gone. -/
def destroyRemoved (self : RunnerOperation) (generation : GenerationRecord)
    (state : GenerationState) (createStarted : Bool) (now : Int) : Routine DestroyOutcome := do
  let _ ← walk generation.id state .destroying now
  if createStarted = false then
    ask (.generationAdvance generation.id .destroyed now)
    return .destroyed
  else
    match ← self.destroyProof generation with
    | .error _ => quarantine generation.id now
    | .ok proof =>
      match ← self.destroyResources generation proof now with
      | .destroyed time =>
        ask (.generationAdvance generation.id .destroyed time)
        return .destroyed
      | .failed time _ =>
        ask (.generationAdvance generation.id .destroyPending time)
        return .pending
      | .foreign => quarantine generation.id now

/-- One retirement step for a selected generation. -/
def retire (self : RunnerOperation) (generation : GenerationRecord) (now : Int) :
    Routine DestroyOutcome := do
  let lifetime : RunnerLifetime ← ask (.generationLifetime generation.id)
  -- The resource-first lifetime path owns both checkpoints.
  if lifetime.expiryRequestedAt.isSome then return .pending
  else
    let due : Bool ← ask (.backoffDue generation.id now)
    if generation.state = .destroyPending ∧ due = false then return .pending
    else
      let createStarted ← createStarted generation.id
      let rank ← rankOf generation.state
      -- Past `retiring` the chain has already proven the registration gone.
      if rank ≤ retiringRank then
        match ← removeRegistration generation createStarted now with
        | .inl outcome => return outcome
        | .inr state => self.destroyRemoved generation state createStarted now
      else self.destroyRemoved generation generation.state createStarted now

end RunnerOperation

end Shaula
