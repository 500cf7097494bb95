import Shaula.Core.Lifecycle
import Mathlib.Algebra.Group.Int.Defs
import Mathlib.Algebra.Group.Nat.Defs

/-! # Records of the lifecycle store

The plain data the store's operations pass around and persist: identifiers, claims, process
identities, receipts, apply provenance, and the envelopes of Terraform's state and lock files.
-/

namespace Shaula.Core

/-- Raw bytes, as stored. -/
abbrev Bytes := List UInt8

/-- A 128-bit identifier. -/
structure Uuid where
  bits : BitVec 128
  deriving DecidableEq, Repr

/-- Hard bounds apply at both the HTTP and persistence boundaries. -/
def maxStateBytes : Nat := 16 * 1024 * 1024

def maxLockBytes : Nat := 16 * 1024

/-- The largest value of a signed 64-bit column. -/
def i64Max : Int := 9223372036854775807

/-- Addition that fails instead of leaving the signed 64-bit range. -/
def checkedAdd (a b : Int) : Option Int :=
  if a + b ≤ i64Max then some (a + b) else none

theorem checkedAdd_eq_some {a b c : Int} (h : checkedAdd a b = some c) : c = a + b := by
  unfold checkedAdd at h
  split at h
  · exact (Option.some.inj h).symm
  · cases h

/-- Unicode general category `Cc`. -/
def isControl (c : Char) : Bool :=
  c.toNat < 0x20 || (0x7f ≤ c.toNat && c.toNat ≤ 0x9f)

/-- Text that is present, bounded and free of control characters. -/
def BoundedText (value : String) : Prop :=
  value ≠ "" ∧ value.utf8ByteSize ≤ 256 ∧ value.toList.all (fun c => !isControl c) = true

instance (value : String) : Decidable (BoundedText value) := by
  unfold BoundedText; infer_instance

/-- Lowercase hexadecimal text of bytes. -/
def hexEncode (bytes : Bytes) : String :=
  String.ofList (bytes.flatMap fun b => [Nat.digitChar (b.toNat / 16), Nat.digitChar (b.toNat % 16)])

theorem digitChar_injOn {a b : Nat} (ha : a < 16) (hb : b < 16)
    (h : Nat.digitChar a = Nat.digitChar b) : a = b := by
  have hall : ∀ a b : Fin 16, Nat.digitChar a = Nat.digitChar b → a = b := by decide
  have := hall ⟨a, ha⟩ ⟨b, hb⟩ h
  exact Fin.mk.inj this

theorem hexEncode_injective : Function.Injective hexEncode := by
  intro a b h
  have hchars := String.ofList_injective h
  clear h
  induction a generalizing b with
  | nil =>
    cases b with
    | nil => rfl
    | cons y ys => simp at hchars
  | cons x xs ih =>
    cases b with
    | nil => simp at hchars
    | cons y ys =>
      simp only [List.flatMap_cons, List.cons_append, List.nil_append, List.cons.injEq] at hchars
      obtain ⟨hhigh, hlow, hrest⟩ := hchars
      have hx := x.toNat_lt
      have hy := y.toNat_lt
      have hdiv := digitChar_injOn (by omega) (by omega) hhigh
      have hmod := digitChar_injOn (by omega) (by omega) hlow
      have hbyte : x = y := by
        apply UInt8.toNat_inj.mp
        omega
      rw [hbyte, ih hrest]
/-- Canonical hyphenated text. -/
def Uuid.text (id : Uuid) : String :=
  let digit (i : Nat) : Char := Nat.digitChar (id.bits.toNat / 16 ^ (31 - i) % 16)
  let group (start count : Nat) : List Char := (List.range count).map fun i => digit (start + i)
  String.ofList (group 0 8 ++ '-' :: group 8 4 ++ '-' :: group 12 4 ++ '-' :: group 16 4 ++
    '-' :: group 20 12)

/-! ## Terraform envelopes -/

/-- Terraform's standard lock record, as sent. -/
structure WireLock where
  id : String
  operation : String
  info : String
  who : String
  version : String
  created : String
  path : String
  deriving DecidableEq, Repr

/-- The kind of a JSON value. -/
inductive JsonKind where
  | null
  | bool
  | number
  | string
  | array
  | object
  deriving DecidableEq, Repr

/-- One resource of a state file; `instances` counts its instance objects. -/
structure Resource where
  mode : String
  resourceType : String
  name : String
  provider : String
  instances : Nat
  deriving DecidableEq, Repr

/-- The envelope of a Terraform state file. -/
structure Header where
  version : Nat
  lineage : String
  serial : Int
  resources : List Resource
  outputs : List (String × JsonKind)
  deriving DecidableEq, Repr

/-- What `StateDocument.parse` asks of one resource. -/
def Resource.Valid (r : Resource) : Prop :=
  (r.mode = "managed" ∨ r.mode = "data") ∧ r.resourceType ≠ "" ∧ r.name ≠ "" ∧ r.provider ≠ ""

instance (r : Resource) : Decidable r.Valid := by unfold Resource.Valid; infer_instance

/-- What `StateDocument.parse` asks of a header. -/
def Header.Valid (h : Header) : Prop :=
  h.version = 4 ∧ 0 ≤ h.serial ∧ BoundedText h.lineage ∧ (∀ r ∈ h.resources, r.Valid) ∧
    ∀ o ∈ h.outputs, o.2 = JsonKind.object

instance (h : Header) : Decidable h.Valid := by unfold Header.Valid; infer_instance

/-- One role of a template's managed resource shape. -/
structure ManagedResourceRole where
  terraformType : String
  exactCount : Nat
  deriving DecidableEq, Repr

/-- The state identity a Create left behind. -/
structure Identity where
  stateLineage : String
  stateSerial : Nat
  deriving DecidableEq, Repr

/-! ## Workers -/

/-- Backend ownership, not a process-death proof or a Terraform lock ID. -/
structure StateClaim where
  generationId : Uuid
  workerEpoch : Int
  workerAttempt : Uuid
  deriving DecidableEq, Repr

/-- Phases of a worker row. -/
inductive WorkerPhase where
  | admitted
  | launchPending
  | running
  | fenced
  | completed
  | quarantined
  deriving DecidableEq, Repr

/-- Identity captured by the executor before admitting any external effect. -/
structure ProcessIdentity where
  hostBoot : String
  processId : Nat
  started : String
  containment : String
  rootId : Option Nat
  deriving DecidableEq, Repr

/-- What `ProcessIdentity.validate` accepts. -/
def ProcessIdentity.Valid (identity : ProcessIdentity) : Prop :=
  identity.processId ≠ 0 ∧ BoundedText identity.hostBoot ∧ BoundedText identity.started ∧
    BoundedText identity.containment

instance (identity : ProcessIdentity) : Decidable identity.Valid := by
  unfold ProcessIdentity.Valid; infer_instance

inductive CompletionKind where
  | providerCleanup
  | neverStarted
  | operatorAttested
  deriving DecidableEq, Repr

structure CompletionReceipt where
  claim : StateClaim
  requestId : Uuid
  stateRevision : Int
  kind : CompletionKind
  completedAt : Int
  deriving DecidableEq, Repr

inductive FenceOutcome where
  | fenced
  | unknown
  deriving DecidableEq, Repr

/-! ## Apply intents -/

inductive PlanIntent where
  | create
  | destroy
  deriving DecidableEq, Repr

/-- The kind column of an apply operation. -/
def PlanIntent.kind : PlanIntent → String
  | create => "Create"
  | destroy => "Destroy"

/-- State serial or explicit empty-state sentinel. -/
inductive StateLineage where
  | empty
  | serial (lineage : String) (serial : Nat)
  deriving DecidableEq, Repr

/-- Provenance binding persisted before any mutating apply. -/
structure PlanProvenance where
  intent : PlanIntent
  savedPlanDigest : String
  engineKind : String
  engineVersion : String
  engineBinaryDigest : String
  artifactDigest : String
  templateMaterialDigest : String
  protectedInputDigest : String
  stateLineage : StateLineage
  generationId : Uuid
  attemptId : String
  deriving DecidableEq, Repr

/-- What an operation row records beside its kind and state. -/
inductive OperationDetail where
  | provenance (proof : PlanProvenance)
  | finalize (actor reason : String)
  | other (json : String)
  deriving DecidableEq

/-! ## Legacy generations -/

/-- One operation of a legacy generation, as its commitment binds it. -/
structure LegacyEffect where
  id : String
  kind : String
  state : String
  provenance : Option OperationDetail
  updatedAt : Int
  attempts : Int
  plan : Option String
  path : Option String
  createdAt : Int
  deriving DecidableEq

/-- Every generation-owned authority fact, including its Forgejo identity. -/
structure LegacyAuthority where
  runnerName : String
  generationName : String
  fleetRevision : Int
  templateProfileKey : String
  templateRevision : Int
  attestationId : String
  poolMemberKey : Option String
  subphase : Option String
  jitPhase : Option String
  githubRunnerId : Option Int
  shaulaResultJson : Option String
  shaulaResultDigest : Option String
  provisionedAt : Option Int
  expiryRequestedAt : Option Int
  resourcesDestroyedAt : Option Int
  forgejo : Option (Int × String × Int × Int)
  deriving DecidableEq

/-- The legacy projection of a generation that cutover commitments hash. -/
structure LegacyGeneration where
  id : Uuid
  fleetKey : String
  workspacePath : String
  templateArtifactDigest : String
  inputsDigest : String
  state : GenerationState
  createdAt : Int
  updatedAt : Int
  effects : List LegacyEffect
  authority : LegacyAuthority
  createResult : Option String
  resourcesDestroyedAt : Option Int
  deriving DecidableEq

end Shaula.Core
