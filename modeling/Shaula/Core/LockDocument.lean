import Shaula.Core.StateBackend
import Shaula.Library.JsonText

/-! # Lock documents

The serialized form of Terraform's lock record: an object of strings, of which all but the
identifier may be missing, or their list.  A field that is not known and a field that is given twice
are refused.
-/

namespace Shaula.Core

open Library Library.Outcome JsonText

namespace WireLock

def members (wire : WireLock) : List (String × String) :=
  [("ID", wire.id), ("Operation", wire.operation), ("Info", wire.info), ("Who", wire.who),
    ("Version", wire.version), ("Created", wire.created), ("Path", wire.path)]

def fields : List String := ["ID", "Operation", "Info", "Who", "Version", "Created", "Path"]

/-- The record of some members; the identifier must be one of them. -/
def ofMembers (members : List (String × String)) : Option WireLock :=
  if (∀ member ∈ members, member.1 ∈ fields) ∧ (members.map (·.1)).Nodup then do
    let id ← members.lookup "ID"
    let field (name : String) : String := (members.lookup name).getD ""
    some ⟨id, field "Operation", field "Info", field "Who", field "Version", field "Created",
      field "Path"⟩
  else none

/-- The record of a list, whose end may be missing. -/
def ofElements (elements : List String) : Option WireLock :=
  if elements.length ≤ fields.length then do
    let id ← elements[0]?
    let field (i : Nat) : String := elements[i]?.getD ""
    some ⟨id, field 1, field 2, field 3, field 4, field 5, field 6⟩
  else none

/-- `serde_json::from_slice` of a record. -/
def read (bytes : Bytes) : Option WireLock :=
  match skipSpace bytes with
  | 0x7b :: rest => do
    let (members, rest) ← readList readMember 0x7d rest
    if skipSpace rest = [] then ofMembers members else none
  | 0x5b :: rest => do
    let (elements, rest) ← readList readString 0x5d rest
    if skipSpace rest = [] then ofElements elements else none
  | _ => none

/-- `serde_json::to_vec` of a record. -/
def write (wire : WireLock) : Bytes := 0x7b :: writeItems 0x7d writeMember wire.members

theorem ofMembers_members (wire : WireLock) : ofMembers wire.members = some wire := by
  have hfields : (∀ member ∈ wire.members, member.1 ∈ fields) ∧
      (wire.members.map (·.1)).Nodup := by
    refine ⟨fun member hmember => ?_, ?_⟩
    · have hkey : member.1 ∈ wire.members.map (·.1) := List.mem_map_of_mem hmember
      exact hkey
    · change fields.Nodup
      decide
  rw [ofMembers, if_pos hfields]
  rfl

/-- **Round trip.**  A record that was written is read back. -/
theorem read_write (wire : WireLock) : read wire.write = some wire := by
  have hfirst : ∀ (member : String × String) rest, ∃ b more,
      writeMember member ++ rest = b :: more ∧ isSpace b = false ∧ b ≠ 0x7d :=
    fun _ _ => ⟨0x22, _, rfl, rfl, by decide⟩
  have hne : wire.members ≠ [] := List.cons_ne_nil _ _
  have hlist := readList_writeItems (by decide) rfl readMember_writeMember hfirst hne []
  rw [List.append_nil] at hlist
  have hread : read wire.write = (readList readMember 0x7d
      (writeItems 0x7d writeMember wire.members)).bind fun found =>
        if skipSpace found.2 = [] then ofMembers found.1 else none := rfl
  rw [hread, hlist, Option.bind_some, ofMembers_members]
  rfl

end WireLock

/-- The platform with its reader and writer of lock records. -/
def Platform.serde (P : Platform) : Platform :=
  { P with readWireLock := WireLock.read, writeWireLock := WireLock.write }

namespace LockInfo

variable {P : Platform} {bytes : Bytes} {info : LockInfo}

theorem parse_eq_ok : LockInfo.parse P bytes = .ok info ↔ bytes.length ≤ maxLockBytes ∧
    P.readWireLock bytes = some info.wire ∧ (info.toBytes P).length ≤ maxLockBytes := by
  unfold LockInfo.parse
  simp only [bind_eq_ok, ensure_eq_ok, okOr_eq_ok, exists_const]
  constructor
  · rintro ⟨hlength, wire, hread, h⟩
    split at h
    · simp only [bind_eq_ok, ensure_eq_ok, pure_eq_ok, exists_const] at h
      obtain ⟨hcanonical, rfl⟩ := h
      exact ⟨hlength, hread, hcanonical⟩
    · cases h
  · rintro ⟨hlength, hread, hcanonical⟩
    refine ⟨hlength, info.wire, hread, ?_⟩
    rw [dif_pos info.valid]
    simp only [bind_eq_ok, ensure_eq_ok, pure_eq_ok, exists_const]
    exact ⟨hcanonical, trivial⟩

/-- The canonical form of a lock that was accepted is accepted as the same lock. -/
theorem parse_toBytes (h : LockInfo.parse P.serde bytes = .ok info) :
    (info.toBytes P.serde).length ≤ maxLockBytes ∧
      LockInfo.parse P.serde (info.toBytes P.serde) = .ok info := by
  obtain ⟨-, -, hcanonical⟩ := parse_eq_ok.mp h
  refine ⟨hcanonical, parse_eq_ok.mpr ⟨hcanonical, ?_, hcanonical⟩⟩
  exact WireLock.read_write info.wire

end LockInfo

end Shaula.Core
