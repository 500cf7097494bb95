import Shaula.System.Run
import Shaula.Library.Program
import Shaula.RunnerOperation.Backoff

/-! # Effects of a runner operation

What a runner operation asks of the ledger, of the runner registrations and of the template
runtime, and what each question does to the world of one generation: the system, the destroy
backoff, and the history of what was answered.  Registrations and runtime may answer anything.
-/

namespace Shaula

open Core Library Library.Outcome

/-! ## Reads of the ledger -/

/-- Durable checkpoints: neither readiness updates nor process restarts reset the clock. -/
structure RunnerLifetime where
  provisionedAt : Option Int
  expiryRequestedAt : Option Int
  resourcesDestroyedAt : Option Int

def GenerationRow.lifetime (g : GenerationRow) : RunnerLifetime where
  provisionedAt := g.provisionedAt
  expiryRequestedAt := g.expiryRequestedAt
  resourcesDestroyedAt := g.resourcesDestroyedAt

/-- The record a ledger row is read as. -/
def GenerationRow.record (g : GenerationRow) (id : Uuid) : GenerationRecord where
  id := id
  fleetKey := g.fleetKey
  runnerName := g.runnerName
  generationName := g.generationName
  fleetRevision := g.fleetRevision
  templateProfileKey := g.templateProfileKey
  templateRevision := g.templateRevision
  templateArtifactDigest := g.templateArtifactDigest
  attestationId := g.attestationId
  inputsDigest := g.inputsDigest
  state := g.state
  githubRunnerId := g.githubRunnerId
  poolMemberKey := g.poolMemberKey
  workspacePath := g.workspacePath
  createdAt := g.createdAt
  updatedAt := g.updatedAt

def openOperationStates : List String :=
  ["Pending", "Starting", "ApplyStarting", "BootstrapStarting", "Running", "Blocked"]

namespace Store

variable (s : Store) (id : Uuid)

/-- The Create operations of a generation. -/
def createOperations : List OperationRow :=
  (s.operations.rows.map Prod.snd).filter fun operation =>
    operation.generationId == id && operation.kind == "Create"

/-- The durable original provenance: that of the newest Create. -/
def originalProvenance : CoreResult (Option PlanProvenance) :=
  let newest := ((s.createOperations id).insertionSort fun a b => b.createdAt ≤ a.createdAt).head?
  match newest.bind (·.provenanceJson) with
  | none => .ok none
  | some (.provenance proof) => .ok (some proof)
  | some _ => .error { code := .storageUnavailable, summary := "stored provenance unreadable" }

def openOperations : List OperationRow :=
  (s.operations.rows.map Prod.snd).filter fun operation =>
    operation.generationId == id && decide (operation.state ∈ openOperationStates)

/-- Whether a destroy operation was ever recorded. -/
def destroyAttempted : Bool :=
  s.operations.rows.any fun e => e.2.generationId == id && e.2.kind == "Destroy"

/-- The state identity beside the result envelope, or the failed Create's anchor. -/
def stateIdentity (P : Platform) : Option Identity := do
  let g ← s.generations.find id
  let identity ← match g.shaulaResultJson with
    | some json => P.readIdentity json
    | none => g.failedCreateIdentity
  if identity.stateLineage = "" then none else some identity

end Store

namespace RunnerOperation

/-! ## Questions and answers -/

/-- Verdict of one runner registration question. -/
inductive Registration where
  /-- Removal may start now: record the retirement intent, then remove. -/
  | removable
  /-- Proven removed, or proven never present. -/
  | gone
  /-- The safety gate refuses removal now. -/
  | busy
  /-- Observation or authority is temporarily unavailable. -/
  | unavailable
  /-- The identity is contradicted or the removal authority is missing. -/
  | unprovable
  /-- No registration identity is recorded for the generation. -/
  | unrecorded
  deriving DecidableEq

/-- The removal guarantee a destroy reason requires. -/
inductive RemovalGate where
  | retirement (createStarted : Bool)
  | afterResourcesDestroyed
  deriving DecidableEq

inductive DestroyOutcome where
  | destroyed
  | pending
  | quarantined
  deriving DecidableEq

inductive TemplateOutcomeError where
  | planFailed (phase : String)
  | executionFailed (phase : String)
  | stateUnavailable (phase : String)
  deriving DecidableEq

/-- The phase of a plan that targets a resource provably not the generation's. -/
def destroyIdentityPhase : String := "destroy.identity"

structure OriginalStateIdentity where
  lineage : String
  serial : Nat
  allowSerialAdvance : Bool

structure TemplateDestroyRequest where
  pinnedArtifactDigest : String
  workspacePath : String
  artifactDir : String
  expectedBindingsDigest : String
  generationId : Uuid
  managedShape : List ManagedResourceRole
  timeout : Nat
  originalProvenance : PlanProvenance
  originalState : OriginalStateIdentity

inductive Operation where
  -- the ledger
  | generationLifetime (id : Uuid)
  | originalProvenance (id : Uuid)
  | openOperations (id : Uuid)
  | stateIdentity (id : Uuid)
  | destroyAttempted (id : Uuid)
  | generationAdvance (id : Uuid) (next : GenerationState) (now : Int)
  | requestExpiry (id : Uuid) (now : Int)
  | resourcesDestroyed (id : Uuid) (now : Int)
  -- the control plane and its artifacts
  | protectedBindings (profileKey : String) (revision : Int)
  | ensureArtifactCached (digest : String)
  | readManifest (artifactDir : String)
  -- the runner registrations
  | admitRemoval (generation : GenerationRecord) (createStarted : Bool)
  | remove (generation : GenerationRecord) (gate : RemovalGate)
  | proveUnrecordedAbsent (generation : GenerationRecord)
  -- the template runtime and its apply intent
  | runtimeDestroy (request : TemplateDestroyRequest)
  | completeIntent (now : Int)
  -- process memory and the clock
  | backoffDue (id : Uuid) (now : Int)
  | backoffFailed (id : Uuid) (time : Int)
  | backoffClear (id : Uuid)
  | nowAfter (now : Int)

def Operation.Answer : Operation → Type
  | generationLifetime _ => RunnerLifetime
  | originalProvenance _ => Option PlanProvenance
  | openOperations _ => List OperationRow
  | stateIdentity _ => Option Identity
  | destroyAttempted _ | requestExpiry _ _ | backoffDue _ _ => Bool
  | protectedBindings _ _ => Option String
  | readManifest _ => Option (List ManagedResourceRole)
  | admitRemoval _ _ | remove _ _ | proveUnrecordedAbsent _ => Registration
  | runtimeDestroy _ => Except TemplateOutcomeError Unit
  | nowAfter _ | backoffFailed _ _ => Int
  | generationAdvance _ _ _ | resourcesDestroyed _ _ | ensureArtifactCached _ | completeIntent _
  | backoffClear _ => Unit

abbrev effects : Interface := ⟨Operation, Operation.Answer⟩

/-! ## The world of a generation -/

/-- What was answered about a generation. -/
inductive Event where
  | answered (verdict : Registration)
  /-- A resource destroy succeeded. -/
  | cleaned

structure World where
  system : System
  backoff : DestroyBackoff
  history : List Event

namespace World

def store (w : World) : Store := w.system.daemon.store

def generation (w : World) (id : Uuid) : Option GenerationRow := (w.system.view id).generation

/-- The registration was answered gone, or proven absent. -/
def Gone (w : World) : Prop := .answered .gone ∈ w.history

/-- A resource destroy of the generation succeeded. -/
def Cleaned (w : World) : Prop := .cleaned ∈ w.history

/-- Expiry was requested. -/
def Expiring (w : World) (id : Uuid) : Prop :=
  ∃ g, w.generation id = some g ∧ g.expiryRequestedAt ≠ none

def Quarantined (w : World) (id : Uuid) : Prop :=
  ∃ g, w.generation id = some g ∧ g.state = .quarantined

/-- The durable record that a Create apply was admitted. -/
def CreateStarted (w : World) (id : Uuid) : Prop :=
  (∃ proof, w.store.originalProvenance id = .ok (some proof)) ∨
    (w.store.openOperations id).any (fun operation => operation.kind == "Create") = true

def initial (createLimit : Nat) : World := ⟨.initial createLimit, .empty, []⟩

end World

/-- What an answer adds to the history. -/
def noted : (op : Operation) → op.Answer → List Event
  | .admitRemoval _ _, verdict | .remove _ _, verdict | .proveUnrecordedAbsent _, verdict =>
    [.answered verdict]
  | .runtimeDestroy _, .ok () => [.cleaned]
  | _, _ => []

variable (P : Platform)

/-- A destroy first replaces a worker that is dead, which quarantines the generation where the state
does not account for its Create; after that it only fails. -/
def Replaces (id : Uuid) (w : World) (answer : Except TemplateOutcomeError Unit) (w' : World) : Prop :=
  ∃ access draw, access.claim.generationId = id ∧ w.system.Permits P (.replaceFenced access draw) ∧
    w' = { w with system := w.system.serve P (.replaceFenced access draw) } ∧
    w'.store.createOperations id = w.store.createOperations id ∧
    (answer = .ok () → ¬ w'.Quarantined id)

/-- What an operation does: the ledger answers from its rows, and the rest answers anything. -/
def Effect (w : World) : (op : Operation) → op.Answer → World → Prop
  | .generationLifetime id, answer, w' =>
    w' = w ∧ ∃ g, w.generation id = some g ∧ answer = g.lifetime
  | .originalProvenance id, answer, w' => w' = w ∧ w.store.originalProvenance id = .ok answer
  | .openOperations id, answer, w' => w' = w ∧ answer = w.store.openOperations id
  | .stateIdentity id, answer, w' => w' = w ∧ answer = w.store.stateIdentity id P
  | .destroyAttempted id, answer, w' => w' = w ∧ answer = w.store.destroyAttempted id
  | .generationAdvance id next now, _, w' => ∃ requestId reply,
      (w.system.daemon.exec P (.generationAdvance id next requestId now)).2 = .ok reply ∧
        w' = { w with system := w.system.serve P (.generationAdvance id next requestId now) }
  | .requestExpiry id now, answer, w' =>
    (w.system.daemon.exec P (.generationRequestExpiry id now)).2 = .ok (.flag answer) ∧
      w' = { w with system := w.system.serve P (.generationRequestExpiry id now) }
  | .resourcesDestroyed id now, _, w' => ∃ reply,
      (w.system.daemon.exec P (.generationResourcesDestroyed id now)).2 = .ok reply ∧
        w' = { w with system := w.system.serve P (.generationResourcesDestroyed id now) }
  | .backoffDue id now, answer, w' => w' = w ∧ answer = w.backoff.due id now
  | .backoffFailed id time, answer, w' =>
    w' = { w with backoff := (w.backoff.failed id time).1 } ∧
      answer = (w.backoff.failed id time).2
  | .backoffClear id, _, w' => w' = { w with backoff := w.backoff.clear id }
  | .runtimeDestroy request, answer, w' => w' = w ∨ Replaces P request.generationId w answer w'
  | _, _, w' => w' = w

/-- A step that may come between two effects of a call about generation `id`: other generations'
requests, the worker's own, and listener messages. -/
def Beside (id : Uuid) (w w' : World) : Prop :=
  ∃ (l : Label P) (τ : System), System.Step P w.system l τ ∧ w' = { w with system := τ } ∧
    (w'.generation id = w.generation id ∨
      ∃ fleet started completed now,
        l.request = some (.listenerActivity fleet started completed now)) ∧
    w'.store.createOperations id = w.store.createOperations id

/-- The states on the way down that only runner operations lead into. -/
def Descending (s : GenerationState) : Prop := s = .destroyPending ∨ s = .destroying

/-- Requests only runner operations make of generation `id`. -/
inductive Retires (id : Uuid) : Request P → Prop
  | advance {next requestId now} : Descending next →
      Retires id (.generationAdvance id next requestId now)
  | resources {now} : Retires id (.generationResourcesDestroyed id now)

/-- A step between two calls about generation `id`. -/
def Between (id : Uuid) (w w' : World) : Prop :=
  ∃ (l : Label P) (τ : System), System.Step P w.system l τ ∧ w' = { w with system := τ } ∧
    ∀ r, l.request = some r → ¬ Retires P id r

/-- Answers are noted in the history unless they are lost. -/
def machine (id : Uuid) : Machine effects World where
  env := Beside P id
  act w op answer w' := ∃ w₁, Effect P w op answer w₁ ∧
    w' = { w₁ with history := noted op answer ++ w₁.history }
  lost w op w' := w' = w ∨ ∃ answer, Effect P w op answer w'

end RunnerOperation

end Shaula
