import Shaula.Store.Schema

/-! # State rows and their checks

Loading a state row with its generation, the credential and ownership checks every operation
starts with, and the consistency checks between a row's columns and the document and lock it
stores.
-/

namespace Shaula

open Core Library Library.Outcome

variable {P : Platform}

/-- The columns store `document`: its bytes, and the lineage and serial read from them. -/
structure StateColumns.Stores (c : StateColumns) (document : StateDocument P) : Prop where
  bytes : c.stateBytes = some document.bytes
  revision_pos : 0 < c.revision
  lineage : c.lineage = some document.lineage
  serial : c.serial = some document.serial

/-- No document was ever stored. -/
structure StateColumns.Untouched (c : StateColumns) : Prop where
  bytes : c.stateBytes = none
  revision : c.revision = 0
  lineage : c.lineage = none
  serial : c.serial = none
  flags : c.createStarted = false ∧ c.sealed = false

/-- Columns store at most one document. -/
theorem StateColumns.Stores.unique {c : StateColumns} {d d' : StateDocument P}
    (h : c.Stores d) (h' : c.Stores d') : d = d' :=
  StateDocument.ext_bytes (Option.some.inj (h.bytes.symm.trans h'.bytes))

/-- A state row as loaded for one operation. -/
structure Row where
  generationId : Uuid
  columns : StateColumns

namespace Row

/-- Only a row whose generation exists is loaded. -/
def load (s : Store) (id : Uuid) : StateResult Row :=
  match s.states.find id, s.generations.find id with
  | some r, some _ => .ok { generationId := id, columns := r }
  | _, _ => .error .unauthorized

def authorize (P : Platform) (row : Row) (access : StateAccess) : StateResult Unit :=
  ensure (row.columns.revoked = false ∧
    access.capability.matchesVerifier P row.columns.capabilityHash) .unauthorized

def checkClaim (row : Row) (claim : StateClaim) : StateResult Unit :=
  ensure (row.generationId = claim.generationId ∧ row.columns.workerEpoch = claim.workerEpoch ∧
    row.columns.workerAttempt = claim.workerAttempt) .conflict

def writable (row : Row) : StateResult Unit :=
  ensure (row.columns.sealed = false) .sealed

/-- The exact owner this row was loaded with: epoch and attempt. -/
def owned (row : Row) (c : StateColumns) : Bool :=
  c.workerEpoch == row.columns.workerEpoch && c.workerAttempt == row.columns.workerAttempt

/-- The stored document, checked against the columns that describe it. -/
def snapshot (P : Platform) (row : Row) : StateResult (Option (StateSnapshot P)) :=
  match row.columns.stateBytes with
  | none =>
    if row.columns.revision = 0 ∧ row.columns.lineage = none ∧ row.columns.serial = none ∧
        row.columns.createStarted = false ∧ row.columns.sealed = false then .ok none
    else .error .unavailable
  | some bytes =>
    if 0 < row.columns.revision then do
      let document ← (StateDocument.parse P bytes).mapError fun _ => .unavailable
      ensure (row.columns.lineage = some document.lineage ∧
        row.columns.serial = some document.serial) .unavailable
      return some { revision := row.columns.revision, document }
    else .error .unavailable

/-- The stored lock, checked against its identifier column. -/
def lock (P : Platform) (row : Row) : StateResult (Option LockInfo) :=
  match row.columns.lockId, row.columns.lockInfo with
  | none, none => .ok none
  | some id, some bytes => do
    let info ← (LockInfo.parse P bytes).mapError fun _ => .unavailable
    ensure (info.id.expose = id) .unavailable
    return some info
  | _, _ => .error .unavailable

/-! ## What a passed check says -/

theorem load_eq_ok {s : Store} {id : Uuid} {row : Row} :
    load s id = .ok row ↔
      ∃ c g, (s.view id).state = some c ∧ (s.view id).generation = some g ∧
        row = { generationId := id, columns := c } := by
  unfold load Store.view
  cases s.states.find id <;> cases s.generations.find id <;> simp [eq_comm]

/-- A row that answers a snapshot stores its document. -/
theorem snapshot_eq_some {row : Row} {snapshot : StateSnapshot P}
    (h : row.snapshot P = .ok (some snapshot)) :
    row.columns.Stores snapshot.document := by
  unfold Row.snapshot at h
  split at h
  · split at h <;> cases h
  · next bytes hbytes =>
    split at h
    · next hpos =>
      simp only [bind_eq_ok, mapError_eq_ok, pure_eq_ok, StateDocument.parse_eq_ok] at h
      obtain ⟨document, rfl, _, hcols, hret⟩ := h
      obtain ⟨hlineage, hserial⟩ := ensure_eq_ok.mp hcols
      cases hret
      exact ⟨hbytes, hpos, hlineage, hserial⟩
    · cases h

/-- A row that answers no document is untouched since its admission. -/
theorem snapshot_eq_none {row : Row} (h : row.snapshot P = .ok none) :
    row.columns.Untouched := by
  unfold Row.snapshot at h
  split at h
  · next hbytes =>
    split at h
    · next hc => exact ⟨hbytes, hc.1, hc.2.1, hc.2.2.1, hc.2.2.2⟩
    · cases h
  · split at h
    · simp at h
    · cases h

/-- A stored document is what every snapshot of the row answers. -/
theorem snapshot_of_stores {row : Row} {document : StateDocument P}
    (h : row.columns.Stores document) :
    row.snapshot P = .ok (some { revision := row.columns.revision, document }) := by
  have hparse : StateDocument.parse P document.bytes = .ok document :=
    StateDocument.parse_eq_ok.mpr rfl
  unfold Row.snapshot
  rw [h.bytes]
  simp [h.revision_pos, hparse, h.lineage, h.serial, Except.mapError, ensure, bind, Except.bind,
    pure, Except.pure]

theorem lock_eq_some {row : Row} {info : LockInfo} (h : row.lock P = .ok (some info)) :
    row.columns.lockId = some info.id.expose := by
  unfold Row.lock at h
  split at h
  · cases h
  · next id bytes hid _ =>
    simp only [bind_eq_ok, mapError_eq_ok, pure_eq_ok] at h
    obtain ⟨info', -, _, hsame, hret⟩ := h
    cases hret
    rw [hid, ensure_eq_ok.mp hsame]
  · cases h

theorem lock_eq_none {row : Row} (h : row.lock P = .ok none) : row.columns.lockId = none := by
  unfold Row.lock at h
  split at h
  · next hid _ => exact hid
  · simp at h
  · cases h

end Row

/-! ## Proof of Create -/

namespace CreateProof

/-- The retained identity is of the same lineage and not newer than the state. -/
def matchesIdentity (original : Option Identity) (state : StateDocument P) : Bool :=
  match original with
  | none => false
  | some original =>
    original.stateLineage == state.lineage && original.stateSerial ≤ state.serial

/-- The retained Create result, as read from its envelope. -/
def resultIdentity (P : Platform) (g : GenerationRow) : Option Identity :=
  g.shaulaResultJson.bind P.readIdentity

/-- A retained identity of the generation matches the state. -/
def Matched (P : Platform) (g : GenerationRow) (state : StateDocument P) : Prop :=
  matchesIdentity (resultIdentity P g) state = true ∨
    matchesIdentity g.failedCreateIdentity state = true

instance (g : GenerationRow) (state : StateDocument P) : Decidable (Matched P g state) := by
  unfold Matched; infer_instance

/-- The shape of the generation's admitted manifest, when its revision is still recorded. -/
def manifestShape (P : Platform) (s : Store) (g : GenerationRow) :
    Option (List ManagedResourceRole) := do
  let revision ← s.revisions.find (g.templateProfileKey, g.templateRevision)
  if revision.artifactDigest = g.templateArtifactDigest then
    revision.manifestJson.bind P.readManifest
  else none

/-- The identity of a state, as an anchor records it. -/
def identityOf (state : StateDocument P) : Identity where
  stateLineage := state.lineage
  stateSerial := state.serial.toNat

/-- Records the failed-Create anchor when the state records the whole shape of the generation's
admitted manifest. -/
def anchor (s : Store) (id : Uuid) (g : GenerationRow) (state : StateDocument P) :
    Store × Bool :=
  match manifestShape P s g with
  | none => (s, false)
  | some shape =>
    if state.recordsWholeShape shape then
      (s.updateGenerations id
        (fun g => g.shaulaResultJson.isNone && g.failedCreateIdentity.isNone)
        fun g => { g with failedCreateIdentity := some (identityOf state) }, true)
    else (s, false)

/-- `anchorable` means no writer of this state can remain, so a failed Create whose state records
the whole shape may be anchored here and now. -/
def verified (s : Store) (id : Uuid) (state : StateDocument P) (anchorable : Bool) :
    StateResult (Store × Bool) := do
  let g ← okOr (s.generations.find id) .unavailable
  if Matched P g state then
    return (s, true)
  else if anchorable && g.shaulaResultJson.isNone && g.failedCreateIdentity.isNone then
    return anchor s id g state
  else
    return (s, false)

/-- The identity an anchor records matches the state it was taken from. -/
theorem matchesIdentity_identityOf (state : StateDocument P) :
    matchesIdentity (some (identityOf state)) state = true := by
  have h := state.serial_nonneg
  simp [matchesIdentity, identityOf, Int.toNat_of_nonneg h]

/-- The generation row after `verified`: either unchanged, or it gained an anchor of this very
state where it had no Create identity at all. -/
inductive Anchored (state : StateDocument P) (g : GenerationRow) : GenerationRow → Prop
  | kept : Anchored state g g
  | anchored : g.shaulaResultJson = none → g.failedCreateIdentity = none →
      Anchored state g { g with failedCreateIdentity := some (identityOf state) }

/-- What `verified` leaves behind: only this generation's anchor may have changed, and after a
positive answer the state matches. -/
theorem verified_ok {s s' : Store} {id : Uuid} {state : StateDocument P} {anchorable b : Bool}
    (h : verified s id state anchorable = .ok (s', b)) :
    ∃ g g', (s.view id).generation = some g ∧ Anchored state g g' ∧
      s'.view = Function.update s.view id { s.view id with generation := some g' } ∧
      s' = { s with generations := s'.generations } ∧
      (b = true → Matched P g' state) ∧ (anchorable = false ∨ b = false → g' = g) := by
  unfold verified at h
  simp only [bind_eq_ok, okOr_eq_ok] at h
  obtain ⟨g, hg, h⟩ := h
  have hview : (s.view id).generation = some g := hg
  have hsame : s.view = Function.update s.view id { s.view id with generation := some g } := by
    rw [← hview, Function.update_eq_self]
  split at h
  · next hmatched =>
    cases h
    exact ⟨g, g, hview, .kept, hsame, rfl, fun _ => hmatched, fun _ => rfl⟩
  · split at h
    · next hcond =>
      simp only [Bool.and_eq_true, Option.isNone_iff_eq_none] at hcond
      obtain ⟨⟨hanchorable, hresult⟩, hfailed⟩ := hcond
      simp only [pure_eq_ok, anchor] at h
      split at h
      · cases h
        exact ⟨g, g, hview, .kept, hsame, rfl, by simp, fun _ => rfl⟩
      · split at h
        · cases h
          refine ⟨g, _, hview, .anchored hresult hfailed, ?_, rfl, ?_, by simp [hanchorable]⟩
          · rw [Store.view_updateGenerations]
            simp [hview, hresult, hfailed]
          · exact fun _ => .inr (matchesIdentity_identityOf state)
        · cases h
          exact ⟨g, g, hview, .kept, hsame, rfl, by simp, fun _ => rfl⟩
    · cases h
      exact ⟨g, g, hview, .kept, hsame, rfl, by simp, fun _ => rfl⟩

/-- Without an anchor `verified` only reads. -/
theorem verified_false_ok {s s' : Store} {id : Uuid} {state : StateDocument P} {b : Bool}
    (h : verified s id state false = .ok (s', b)) :
    s' = s ∧ ∃ g, (s.view id).generation = some g ∧ (b = true → Matched P g state) := by
  simp only [verified, bind_eq_ok, okOr_eq_ok, Bool.false_and, Bool.false_eq_true,
    if_false] at h
  obtain ⟨g, hg, h⟩ := h
  split at h
  · next hmatched =>
    cases pure_eq_ok.mp h
    exact ⟨rfl, g, hg, fun _ => hmatched⟩
  · cases pure_eq_ok.mp h
    exact ⟨rfl, g, hg, by simp⟩

/-- Anchoring changes nothing of a generation but its failed-Create identity. -/
theorem Anchored.state_eq {state : StateDocument P} {g g' : GenerationRow}
    (h : Anchored state g g') : g'.state = g.state := by
  cases h <;> rfl

end CreateProof

end Shaula
