import Shaula.Core.Records
import Shaula.Library.Outcome
import Shaula.Library.Table

/-! # Terraform HTTP state backend

Documents, locks and credentials of the private Terraform state backend.  A document, a lock
record and a capability can only be built from text that passed its parser, so each carries what
its parser checked.
-/

namespace Shaula.Core

open Shaula.Library
open Shaula.Library.Outcome

/-! ## Locks -/

/-- A lock identifier within the bounds of `LockId::parse`. -/
structure LockId where
  expose : String
  valid : BoundedText expose
  deriving DecidableEq

/-- A lock record whose identifier is valid. -/
structure LockInfo where
  wire : WireLock
  valid : BoundedText wire.id
  deriving DecidableEq

def LockInfo.id (info : LockInfo) : LockId := ⟨info.wire.id, info.valid⟩

/-! ## Errors -/

/-- Failures of the state backend. -/
inductive StateError where
  | unauthorized
  | invalid
  | tooLarge
  | conflict
  | locked (current : LockInfo)
  | sealed
  | unavailable
  deriving DecidableEq

abbrev StateResult := Except StateError

/-! ## Platform -/

/-- The functions this program takes from other crates: the digest, and the readers and writers
of the serialized forms it stores. -/
structure Platform where
  sha256 : Bytes → Bytes
  /-- Reads the envelope of a state file. -/
  readHeader : Bytes → Option Header
  readWireLock : Bytes → Option WireLock
  writeWireLock : WireLock → Bytes
  /-- Reads the state identity out of a retained Create result. -/
  readIdentity : String → Option Identity
  /-- Reads the managed resource shape out of a template manifest. -/
  readManifest : String → Option (List ManagedResourceRole)
  /-- The serialized form of a legacy projection. -/
  legacyJson : LegacyGeneration → Bytes
  /-- The serialized digests of an imported state and input, with the new workspace. -/
  contentJson : Option String → Option String → Option String → Bytes

variable {P : Platform}

/-! ## Documents -/

/-- Raw state bytes with the header they parse to. -/
structure StateDocument (P : Platform) where
  bytes : Bytes
  header : Header
  reads : P.readHeader bytes = some header
  valid : header.Valid
  bounded : bytes.length ≤ maxStateBytes

namespace StateDocument

/-- Accept raw Terraform v4 state, never a partial header. -/
def parse (P : Platform) (bytes : Bytes) : StateResult (StateDocument P) :=
  if hb : bytes.length ≤ maxStateBytes then
    match hr : P.readHeader bytes with
    | none => .error .invalid
    | some header =>
      if hv : header.Valid then .ok ⟨bytes, header, hr, hv, hb⟩ else .error .invalid
  else .error .tooLarge

def lineage (d : StateDocument P) : String := d.header.lineage

def serial (d : StateDocument P) : Int := d.header.serial

/-- No managed resource of the document has an instance. -/
def managedEmpty (d : StateDocument P) : Bool :=
  d.header.resources.all fun r => r.mode != "managed" || r.instances == 0

/-- Sums of the second components, by first component. -/
def tally (entries : List (String × Nat)) : Table String Nat :=
  entries.foldl (fun t e => t.put e.1 ((t.find e.1).getD 0 + e.2)) ∅

/-- Managed instance objects per Terraform type. -/
def managedCounts (d : StateDocument P) : Table String Nat :=
  tally ((d.header.resources.filter fun r => r.mode == "managed").map
    fun r => (r.resourceType, r.instances))

/-- Whether this state tracks exactly the managed resources a Create of `shape` admits. -/
def recordsWholeShape (d : StateDocument P) (shape : List ManagedResourceRole) : Bool :=
  let expected := tally (shape.map fun role => (role.terraformType, role.exactCount))
  !expected.rows.isEmpty &&
    d.managedCounts.count (fun _ count => 0 < count) == expected.rows.length &&
    expected.rows.all fun e => (d.managedCounts.find e.1).getD 0 == e.2

/-- A document is determined by its bytes. -/
@[ext] theorem ext_bytes {d d' : StateDocument P} (h : d.bytes = d'.bytes) : d = d' := by
  obtain ⟨bytes, header, reads, valid, bounded⟩ := d
  obtain ⟨bytes', header', reads', valid', bounded'⟩ := d'
  cases h
  cases Option.some.inj (reads.symm.trans reads')
  rfl

theorem serial_nonneg (d : StateDocument P) : 0 ≤ d.serial := d.valid.2.1

/-- What parses is a document with exactly the given bytes. -/
theorem parse_eq_ok {bytes : Bytes} {d : StateDocument P} :
    parse P bytes = .ok d ↔ d.bytes = bytes := by
  constructor
  · intro h
    unfold parse at h
    split at h
    · split at h
      · cases h
      · split at h
        · cases h
          rfl
        · cases h
    · cases h
  · rintro rfl
    have hb := d.bounded
    have hr := d.reads
    unfold parse
    rw [dif_pos hb]
    split
    · next hnone => rw [hnone] at hr; cases hr
    · next header hsome =>
      cases Option.some.inj (hsome.symm.trans hr)
      rw [dif_pos d.valid]

end StateDocument

/-- Reads a stored lock record; oversized or malformed ones are refused, and so is one whose
canonical form would be oversized. -/
def LockInfo.parse (P : Platform) (bytes : Bytes) : StateResult LockInfo := do
  ensure (bytes.length ≤ maxLockBytes) .tooLarge
  let wire ← okOr (P.readWireLock bytes) .invalid
  if h : BoundedText wire.id then
    ensure ((P.writeWireLock wire).length ≤ maxLockBytes) .tooLarge
    return ⟨wire, h⟩
  else .error .invalid

/-- The canonical serialized form. -/
def LockInfo.toBytes (P : Platform) (info : LockInfo) : Bytes := P.writeWireLock info.wire

/-- `None` is exclusively an admitted, never-initialized backend. -/
structure StateSnapshot (P : Platform) where
  revision : Int
  document : StateDocument P

end Shaula.Core
