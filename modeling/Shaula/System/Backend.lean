import Shaula.System.Authority

/-! # The state document along a run

A state row is a versioned register behind a lock: the document it stores only moves forward, and
only in the hands of the lock's holder.  `Move` is all that a request can do to the document and
lock of one row; what runs preserve is read off it.
-/

namespace Shaula

open Core Library

variable {P : Platform} {id : Uuid}

/-! ## Moves of the register -/

/-- The stored document, the columns read from it, and its lock. -/
structure Backend where
  stateBytes : Option Bytes
  lineage : Option String
  serial : Option Int
  revision : Int
  lockId : Option String
  lockInfo : Option Bytes
  deriving DecidableEq

def StateColumns.backend (c : StateColumns) : Backend where
  stateBytes := c.stateBytes
  lineage := c.lineage
  serial := c.serial
  revision := c.revision
  lockId := c.lockId
  lockInfo := c.lockInfo

/-- What a request may do to the document and lock of row `c` of generation `id`. -/
inductive Move (P : Platform) (id : Uuid) (v : View) (c : StateColumns) :
    Request P → StateColumns → Prop
  | kept {r : Request P} {c' : StateColumns} : c'.backend = c.backend → Move P id v c r c'
  | locked {access : StateAccess} {info : LockInfo} :
      access.generationId = id → v.Granted P access c → c.lockId = none →
      Move P id v c (.lock access info)
        { c with lockId := some info.id.expose, lockInfo := some (info.toBytes P) }
  | unlocked {access : StateAccess} {lockId : LockId} :
      access.generationId = id → v.Granted P access c → c.lockId = some lockId.expose →
      Move P id v c (.unlock access lockId) { c with lockId := none, lockInfo := none }
  | written {access : StateAccess} {lockId : LockId} {document : StateDocument P} :
      access.generationId = id → v.Granted P access c → c.lockId = some lockId.expose →
      c.Precedes document → Move P id v c (.write access lockId document) (c.stored document)
  | cleared {r : Request P} {admission : WorkerAdmission} :
      r.publishes = some id → c.sealed = false → Move P id v c r (c.rotated P admission)

/-- A state row stays, and moves as a register does. -/
theorem Change.move {r : Request P} {v v' : View} {c : StateColumns} (h : Change P id r v v')
    (hc : v.state = some c) : ∃ c', v'.state = some c' ∧ Move P id v c r c' := by
  cases h with
  | locked hid hgranted hfree =>
    cases Option.some.inj (hgranted.state.symm.trans hc)
    exact ⟨_, rfl, .locked hid hgranted hfree⟩
  | unlocked hid hgranted hheld =>
    cases Option.some.inj (hgranted.state.symm.trans hc)
    exact ⟨_, rfl, .unlocked hid hgranted hheld⟩
  | written hid hgranted hheld hprecedes =>
    cases Option.some.inj (hgranted.state.symm.trans hc)
    exact ⟨_, rfl, .written hid hgranted hheld hprecedes⟩
  | replaced hrecovers hid hstate _ _ _ hunsealed =>
    cases Option.some.inj (hstate.symm.trans hc)
    exact ⟨_, rfl, .cleared (hid ▸ hrecovers.publishes) hunsealed⟩
  | inserted _ _ hnone | admitted _ _ hnone | imported _ hnone =>
    cases hnone.symm.trans hc
  | revoked _ hstate | createNoted _ hstate | sealed _ hstate | createStarting _ _ _ hstate
  | completed _ hstate | finalized hstate | quarantined _ _ hstate =>
    cases Option.some.inj (hstate.symm.trans hc)
    exact ⟨_, rfl, .kept rfl⟩
  | finalizedBare | importQuarantined =>
    simp only [hc, Option.map_some]
    exact ⟨_, rfl, .kept rfl⟩
  | _ => exact ⟨c, hc, .kept rfl⟩

/-- A row appears by an insert or an import, or by an admission. -/
theorem Change.appears {r : Request P} {v v' : View} {c : StateColumns} (h : Change P id r v v')
    (hnone : v.state = none) (hc : v'.state = some c) :
    r.publishes = some id ∨ (∃ record attempt capability,
      r = .insertGeneration record attempt capability) ∨ ∃ args draw, r = .importLegacy args draw := by
  cases h with
  | inserted => exact .inr (.inl ⟨_, _, _, rfl⟩)
  | imported => exact .inr (.inr ⟨_, _, rfl⟩)
  | admitted hid => exact .inl (congrArg some hid)
  | finalizedBare | importQuarantined => simp [hnone] at hc
  | locked _ hgranted | unlocked _ hgranted | written _ hgranted =>
    cases hgranted.state.symm.trans hnone
  | replaced _ _ hstate => cases hstate.symm.trans hnone
  | revoked _ hstate | createNoted _ hstate | sealed _ hstate | createStarting _ _ _ hstate
  | completed _ hstate | finalized hstate | quarantined _ _ hstate =>
    cases hstate.symm.trans hnone
  | _ => cases hc.symm.trans hnone

/-! ## Forward only -/

/-- A later version of a state row: same lineage, no smaller serial or revision, and the same bytes
under the same serial. -/
structure StateColumns.Follows (c c' : StateColumns) : Prop where
  lineage : ∀ lineage, c.lineage = some lineage → c'.lineage = some lineage
  serial : ∀ n, c.serial = some n → ∃ n', c'.serial = some n' ∧ n ≤ n'
  revision : c.revision ≤ c'.revision
  content : ∀ n, c.serial = some n → c'.serial = some n → c'.stateBytes = c.stateBytes

namespace StateColumns.Follows

variable {c c' c'' : StateColumns}

theorem of_backend (h : c'.backend = c.backend) : c.Follows c' := by
  have hlineage : c'.lineage = c.lineage := congrArg Backend.lineage h
  have hserial : c'.serial = c.serial := congrArg Backend.serial h
  have hrevision : c'.revision = c.revision := congrArg Backend.revision h
  refine ⟨fun _ hl => hlineage.trans hl, fun n hn => ⟨n, hserial.trans hn, Int.le_refl n⟩,
    Int.le_of_eq hrevision.symm, fun _ _ _ => congrArg Backend.stateBytes h⟩

theorem refl (c : StateColumns) : c.Follows c := of_backend rfl

theorem trans (h : c.Follows c') (h' : c'.Follows c'') : c.Follows c'' where
  lineage l hl := h'.lineage l (h.lineage l hl)
  serial n hn := by
    obtain ⟨n', hn', hle⟩ := h.serial n hn
    obtain ⟨n'', hn'', hle'⟩ := h'.serial n' hn'
    exact ⟨n'', hn'', Int.le_trans hle hle'⟩
  revision := Int.le_trans h.revision h'.revision
  content n hn hn'' := by
    -- The serial in between is squeezed to the same one.
    obtain ⟨n', hn', hle⟩ := h.serial n hn
    obtain ⟨m, hm, hle'⟩ := h'.serial n' hn'
    cases Option.some.inj (hm.symm.trans hn'')
    cases Int.le_antisymm hle hle'
    exact (h'.content n hn' hn'').trans (h.content n hn hn')

end StateColumns.Follows

/-- A stored document is a later version, with a new revision and new bytes. -/
theorem StateColumns.Precedes.stored {c : StateColumns} {document : StateDocument P}
    (h : c.Precedes document) :
    c.Follows (c.stored document) ∧ (c.stored document).stateBytes ≠ c.stateBytes := by
  cases h with
  | first h =>
    refine ⟨⟨?_, ?_, ?_, ?_⟩, ?_⟩
    · simp [h.lineage]
    · simp [h.serial]
    · show c.revision ≤ c.revision + 1
      omega
    · simp [h.serial]
    · simp [StateColumns.stored, h.bytes]
  | next previous h hlineage hserial =>
    refine ⟨⟨?_, ?_, ?_, ?_⟩, ?_⟩
    · intro l hl
      exact (congrArg some hlineage).trans (h.lineage.symm.trans hl)
    · intro n hn
      cases Option.some.inj (h.serial.symm.trans hn)
      exact ⟨document.serial, rfl, Int.le_of_lt hserial⟩
    · show c.revision ≤ c.revision + 1
      omega
    · intro n hn hn'
      cases Option.some.inj (h.serial.symm.trans hn)
      have : document.serial = previous.serial := Option.some.inj hn'
      omega
    · intro hsame
      have hbytes : document.bytes = previous.bytes :=
        Option.some.inj (hsame.trans h.bytes)
      rw [StateDocument.ext_bytes hbytes] at hserial
      exact absurd hserial (Int.lt_irrefl _)

/-- Every move goes forward. -/
theorem Move.follows {v : View} {c c' : StateColumns} {r : Request P} (h : Move P id v c r c') :
    c.Follows c' := by
  cases h with
  | kept hsame => exact .of_backend hsame
  | written _ _ _ hprecedes => exact hprecedes.stored.1
  | locked | unlocked | cleared =>
    exact ⟨fun _ hl => hl, fun n hn => ⟨n, hn, Int.le_refl n⟩, Int.le_refl _, fun _ _ _ => rfl⟩

/-- The revision counts the writes. -/
theorem Move.revision {v : View} {c c' : StateColumns} {r : Request P} (h : Move P id v c r c') :
    (c'.revision = c.revision ∧ c'.stateBytes = c.stateBytes) ∨
      (c'.revision = c.revision + 1 ∧ c'.stateBytes ≠ c.stateBytes) := by
  cases h with
  | kept hsame =>
    exact .inl ⟨congrArg Backend.revision hsame, congrArg Backend.stateBytes hsame⟩
  | written _ _ _ hprecedes => exact .inr ⟨rfl, hprecedes.stored.2⟩
  | locked | unlocked | cleared => exact .inl ⟨rfl, rfl⟩

/-- A sealed document does not move. -/
theorem Move.sealed {v : View} {c c' : StateColumns} {r : Request P} (h : Move P id v c r c')
    (hc : v.state = some c) (hsealed : c.sealed = true) : c'.backend = c.backend := by
  cases h with
  | kept hsame => exact hsame
  | locked _ hgranted | unlocked _ hgranted | written _ hgranted =>
    cases Option.some.inj (hgranted.state.symm.trans hc)
    cases hsealed.symm.trans hgranted.unsealed
  | cleared _ hunsealed => cases hsealed.symm.trans hunsealed

/-- What it takes to change the stored bytes: a write under the exact current lock, with the row's
unrevoked capability, on an unsealed generation. -/
structure WrittenBy (P : Platform) (id : Uuid) (v : View) (c c' : StateColumns) (r : Request P)
    (access : StateAccess) (lockId : LockId) (document : StateDocument P) : Prop where
  request : r = .write access lockId document
  generation : access.generationId = id
  granted : v.Granted P access c
  held : c.lockId = some lockId.expose
  stored : c'.stateBytes = some document.bytes

theorem Move.written_of_ne {v : View} {c c' : StateColumns} {r : Request P}
    (h : Move P id v c r c') (hne : c'.stateBytes ≠ c.stateBytes) :
    ∃ access lockId document, WrittenBy P id v c c' r access lockId document := by
  cases h with
  | kept hsame => exact absurd (congrArg Backend.stateBytes hsame) hne
  | written hid hgranted hheld => exact ⟨_, _, _, rfl, hid, hgranted, hheld, rfl⟩
  | locked | unlocked | cleared => exact absurd rfl hne

end Shaula
