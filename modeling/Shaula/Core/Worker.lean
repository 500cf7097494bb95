import Shaula.Core.StateBackend

/-! # Lifecycle worker authority

Claims, capabilities, admissions and receipts of lifecycle workers.  A capability is drawn once,
handed over once, and only its verifier is stored; what a worker may do hangs on presenting the
capability of the current claim.
-/

namespace Shaula.Core

variable (P : Platform)

/-! ## Capabilities -/

/-- UTF-8 encoding. -/
def utf8 (text : String) : Bytes :=
  text.toByteArray.data.toList

def isAsciiHexdigit (c : Char) : Bool :=
  c.isDigit || ('a' ≤ c && c ≤ 'f') || ('A' ≤ c && c ≤ 'F')

/-- A four-letter prefix followed by 64 hexadecimal digits. -/
def CapabilityForm (pre secret : String) : Prop :=
  secret.toList.take 4 = pre.toList ∧ (secret.toList.drop 4).length = 64 ∧
    (secret.toList.drop 4).all isAsciiHexdigit = true

instance (pre secret : String) : Decidable (CapabilityForm pre secret) := by
  unfold CapabilityForm; infer_instance

/-- A state-only capability. -/
structure StateCapability where
  expose : String
  valid : CapabilityForm "ss1_" expose
  deriving DecidableEq

/-- Control and Terraform state credentials are deliberately different types. -/
structure ControlCapability where
  expose : String
  valid : CapabilityForm "sc1_" expose
  deriving DecidableEq

def StateCapability.verifier (c : StateCapability) : Bytes :=
  P.sha256 (utf8 "shaula-state-capability-v1" ++ [0] ++ utf8 c.expose)

def StateCapability.matchesVerifier (c : StateCapability) (verifier : Bytes) : Bool :=
  c.verifier P == verifier

def ControlCapability.verifier (c : ControlCapability) : Bytes :=
  P.sha256 (utf8 "shaula-control-capability-v1" ++ [0] ++ utf8 c.expose)

def ControlCapability.matchesVerifier (c : ControlCapability) (verifier : Bytes) : Bool :=
  c.verifier P == verifier

structure StateAccess where
  generationId : Uuid
  capability : StateCapability

structure ControlAccess where
  claim : StateClaim
  capability : ControlCapability

/-! ## Admissions -/

/-- The random values of one admission: its attempt and its two capabilities. -/
structure Draw where
  workerAttempt : Uuid
  control : ControlCapability
  state : StateCapability
  deriving DecidableEq

/-- Issued before admission; only hashes are persisted. -/
structure WorkerAdmission where
  claim : StateClaim
  control : ControlCapability
  state : StateCapability
  cleanupOnly : Bool
  deriving DecidableEq

def WorkerAdmission.new (generationId : Uuid) (draw : Draw) : WorkerAdmission where
  claim := { generationId, workerEpoch := 1, workerAttempt := draw.workerAttempt }
  control := draw.control
  state := draw.state
  cleanupOnly := false

/-- The facts of one worker attempt that recovery acts on. -/
structure RecoveryRecord where
  generationId : Uuid
  workerEpoch : Int
  workerAttempt : Uuid
  phase : WorkerPhase
  processIdentity : Option ProcessIdentity
  workspacePath : String
  createStarted : Bool
  hasInput : Bool
  deriving DecidableEq

def RecoveryRecord.claim (record : RecoveryRecord) : StateClaim where
  generationId := record.generationId
  workerEpoch := record.workerEpoch
  workerAttempt := record.workerAttempt

/-- The digest text of stored content. -/
def contentDigest (bytes : Bytes) : String :=
  "sha256:" ++ hexEncode (P.sha256 bytes)

end Shaula.Core
