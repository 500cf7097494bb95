import Shaula.Store.Change

/-! # The Terraform state backend and its administration

Reading, locking and writing one generation's state under its state capability, and the daemon's
own operations on a state row: insert, revoke, note a starting Create, seal.
-/

namespace Shaula

open Core Library Library.Outcome

variable {P : Platform} {s s' : Store}

namespace Store

/-! ## Worker-facing backend -/

def authenticate (P : Platform) (s : Store) (access : StateAccess) : StateResult Unit := do
  let row ← Row.load s access.generationId
  row.authorize P access

def read (P : Platform) (s : Store) (access : StateAccess) :
    StateResult (Option (StateSnapshot P)) := do
  let row ← Row.load s access.generationId
  row.authorize P access
  row.snapshot P

/-- Takes the lock, or confirms that this very lock is held. -/
def lock (P : Platform) (s : Store) (access : StateAccess) (info : LockInfo) :
    StateResult Store := do
  let row ← Row.load s access.generationId
  row.authorize P access
  row.writable
  -- Refuse effects on a lost or corrupt authoritative state.
  let _ ← row.snapshot P
  match ← row.lock P with
  | some current => do
    ensure (current = info) (.locked current)
    return s
  | none => do
    let (s, count) ← s.updateStates access.generationId
      (fun c => row.owned c && c.lockId.isNone && !c.revoked && !c.sealed)
      fun c => { c with lockId := some info.id.expose, lockInfo := some (info.toBytes P) }
    exactlyOne count
    return s

/-- Releases the lock `id`; an already released lock is fine. -/
def unlock (P : Platform) (s : Store) (access : StateAccess) (id : LockId) :
    StateResult Store := do
  let row ← Row.load s access.generationId
  row.authorize P access
  row.writable
  match ← row.lock P with
  | some current => do
    ensure (current.id = id) (.locked current)
    let (s, count) ← s.updateStates access.generationId
      (fun c => row.owned c && c.lockId == some id.expose && !c.revoked && !c.sealed)
      fun c => { c with lockId := none, lockInfo := none }
    exactlyOne count
    return s
  | none => return s

/-- The conditional update of `write`, and the note that managed resources were seen. -/
def writeDocument (s : Store) (row : Row) (id : LockId) (document : StateDocument P) :
    StateResult (Store × Int) := do
  let revision ← okOr (checkedAdd row.columns.revision 1) .conflict
  let (s, count) ← s.updateStates row.generationId
    (fun c => row.owned c && c.revision == row.columns.revision && c.lockId == some id.expose &&
      !c.revoked && !c.sealed)
    fun c => { c with
      stateBytes := some document.bytes
      lineage := some document.lineage
      serial := some document.serial
      revision := revision }
  exactlyOne count
  if document.managedEmpty then
    return (s, revision)
  else do
    let s ← s.setWorker row.generationId fun w => { w with resourceStateSeen := true }
    return (s, revision)

/-- Stores a document of the same lineage and a higher serial under the exact lock; the same serial
is a replay of the same bytes. -/
def write (P : Platform) (s : Store) (access : StateAccess) (id : LockId)
    (document : StateDocument P) : StateResult (Store × Int) := do
  let row ← Row.load s access.generationId
  row.authorize P access
  row.writable
  let lock ← okOr (← row.lock P) .conflict
  ensure (lock.id = id) (.locked lock)
  match ← row.snapshot P with
  | some previous => do
    ensure (document.lineage = previous.document.lineage ∧
      previous.document.serial ≤ document.serial) .conflict
    if document.serial = previous.document.serial then do
      ensure (document.bytes = previous.document.bytes) .conflict
      return (s, row.columns.revision)
    else
      s.writeDocument row id document
  | none => s.writeDocument row id document

/-! ## Administration -/

/-- `INSERT INTO runner_generations`; ids and runner names within a fleet are unique. -/
def generationInsertOn (s : Store) (record : GenerationRecord) : StoreResult Store := do
  ensure (s.generations.rows.all fun e =>
    !(e.2.fleetKey == record.fleetKey && e.2.runnerName == record.runnerName)) .unavailable
  let generations ← okOr (s.generations.create record.id record.row) .unavailable
  return { s with generations }

/-- Storage half of new-generation admission: the generation and its fresh backend. -/
def insertGeneration (P : Platform) (s : Store) (record : GenerationRecord) (attempt : Uuid)
    (capability : StateCapability) : StateResult (Store × StateClaim) := do
  ensure (record.state = .createPending ∧ record.githubRunnerId = none) .invalid
  ensure (s.generations.find record.id = none) .conflict
  let fleet ← okOr (s.fleets.find record.fleetKey) .conflict
  ensure (fleet.deletionMarker = false ∧ fleet.tombstone = false ∧
    fleet.desiredRevision = record.fleetRevision) .conflict
  let claim : StateClaim :=
    { generationId := record.id, workerEpoch := 1, workerAttempt := attempt }
  let s ← (s.generationInsertOn record).mapError fun _ => .unavailable
  let s ← s.insertState record.id (.fresh P attempt capability)
  return (s, claim)

/-- Revoke network authority without changing state, lock or epoch. -/
def revoke (s : Store) (claim : StateClaim) : StateResult Store := do
  let row ← Row.load s claim.generationId
  row.checkClaim claim
  let (s, count) ← s.updateStates claim.generationId row.owned fun c => { c with revoked := true }
  exactlyOne count
  return s

/-- Backend-side missing-state fence, not the Create-start handshake. -/
def noteCreateStarting (P : Platform) (s : Store) (claim : StateClaim) : StateResult Store := do
  let row ← Row.load s claim.generationId
  row.checkClaim claim
  row.writable
  ensure (row.columns.revoked = false ∧ row.columns.createStarted = false) .conflict
  let _ ← okOr (← row.snapshot P) .unavailable
  let (s, count) ← s.updateStates claim.generationId
    (fun c => row.owned c && !c.createStarted && !c.sealed && !c.revoked)
    fun c => { c with createStarted := true }
  exactlyOne count
  return s

/-- Backend-only write seal. -/
def sealBackend (P : Platform) (s : Store) (claim : StateClaim) (expectedRevision : Int) :
    StateResult Store := do
  let row ← Row.load s claim.generationId
  row.checkClaim claim
  ensure (row.columns.revoked = false ∧ row.columns.createStarted = true ∧
    row.columns.revision = expectedRevision) .conflict
  let snapshot ← okOr (← row.snapshot P) .unavailable
  ensure (snapshot.document.managedEmpty = true) .conflict
  ensure (← row.lock P).isNone .conflict
  let (s, count) ← s.updateStates claim.generationId
    (fun c => row.owned c && c.revision == expectedRevision && c.lockId.isNone && !c.revoked)
    fun c => { c with sealed := true }
  exactlyOne count
  return s

/-! ## What they change -/

/-- The checks shared by the locking operations, as facts about the loaded rows. -/
theorem granted_of_checks {access : StateAccess} {row : Row} {u u' : Unit}
    (hload : Row.load s access.generationId = .ok row) (hauth : row.authorize P access = .ok u)
    (hwritable : row.writable = .ok u') :
    (s.view access.generationId).Granted P access row.columns ∧
      row.generationId = access.generationId := by
  obtain ⟨c, g, hc, -, rfl⟩ := Row.load_eq_ok.mp hload
  obtain ⟨hrevoked, hcap⟩ := ensure_eq_ok.mp hauth
  exact ⟨⟨hc, hrevoked, hcap, ensure_eq_ok.mp hwritable⟩, rfl⟩

theorem lock_changes {access : StateAccess} {info : LockInfo}
    (h : s.lock P access info = .ok s') :
    Changes P (.lock access info) access.generationId s s' := by
  simp only [lock, bind_eq_ok] at h
  obtain ⟨row, hload, _, hauth, _, hwritable, snapshot, -, current, hlock, h⟩ := h
  obtain ⟨hgranted, -⟩ := granted_of_checks hload hauth hwritable
  split at h
  · simp only [bind_eq_ok, pure_eq_ok] at h
    obtain ⟨_, -, rfl⟩ := h
    exact .same rfl
  · simp only [bind_eq_ok, pure_eq_ok, Prod.exists] at h
    obtain ⟨s₁, n, hupdate, _, hone, rfl⟩ := h
    obtain ⟨c, hc, -, hview, -⟩ := updateStates_exactlyOne hupdate hone
    cases Option.some.inj (hc.symm.trans hgranted.state)
    exact .of_update (.locked rfl hgranted (Row.lock_eq_none hlock)) hview

theorem unlock_changes {access : StateAccess} {id : LockId}
    (h : s.unlock P access id = .ok s') :
    Changes P (.unlock access id) access.generationId s s' := by
  simp only [unlock, bind_eq_ok] at h
  obtain ⟨row, hload, _, hauth, _, hwritable, current, hlock, h⟩ := h
  obtain ⟨hgranted, -⟩ := granted_of_checks hload hauth hwritable
  split at h
  · next current =>
    simp only [bind_eq_ok, pure_eq_ok, Prod.exists] at h
    obtain ⟨_, hsame, s₁, n, hupdate, _, hone, rfl⟩ := h
    obtain ⟨c, hc, -, hview, -⟩ := updateStates_exactlyOne hupdate hone
    cases Option.some.inj (hc.symm.trans hgranted.state)
    have hheld : row.columns.lockId = some id.expose := by
      rw [Row.lock_eq_some hlock, ensure_eq_ok.mp hsame]
    exact .of_update (.unlocked rfl hgranted hheld) hview
  · cases pure_eq_ok.mp h
    exact .same rfl

/-- The update of `write` stores the document and notes its resources. -/
theorem writeDocument_view {row : Row} {id : LockId} {document : StateDocument P}
    {revision : Int} (hrow : (s.view row.generationId).state = some row.columns)
    (h : s.writeDocument row id document = .ok (s', revision)) :
    revision = row.columns.revision + 1 ∧
      s'.view = Function.update s.view row.generationId
        { s.view row.generationId with
          state := some (row.columns.stored document)
          worker := (s.view row.generationId).worker.map (·.noteSeen document) } := by
  simp only [writeDocument, bind_eq_ok, okOr_eq_ok, Prod.exists] at h
  obtain ⟨revision', hrev, s₁, n, hupdate, _, hone, h⟩ := h
  cases checkedAdd_eq_some hrev
  obtain ⟨c, hc, -, hview, -⟩ := updateStates_exactlyOne hupdate hone
  cases Option.some.inj (hc.symm.trans hrow)
  split at h
  · next hempty =>
    cases pure_eq_ok.mp h
    refine ⟨rfl, hview.trans ?_⟩
    have hseen : ∀ w : WorkerColumns, w.noteSeen document = w := by
      simp [WorkerColumns.noteSeen, hempty]
    simp [hseen, StateColumns.stored]
  · next hempty =>
    simp only [bind_eq_ok, pure_eq_ok] at h
    obtain ⟨s₂, hset, hret⟩ := h
    cases hret
    refine ⟨rfl, ?_⟩
    rw [(setWorker_ok hset).1, hview]
    have hseen : ∀ w : WorkerColumns,
        w.noteSeen document = { w with resourceStateSeen := true } := by
      simp [WorkerColumns.noteSeen, hempty]
    simp [hseen, StateColumns.stored]

theorem write_changes {access : StateAccess} {id : LockId} {document : StateDocument P}
    {revision : Int} (h : s.write P access id document = .ok (s', revision)) :
    Changes P (.write access id document) access.generationId s s' := by
  simp only [write, bind_eq_ok, okOr_eq_ok] at h
  obtain ⟨row, hload, _, hauth, _, hwritable, held, hlock, lock, hsome, _, hid, snapshot, hsnap,
    h⟩ := h
  cases hsome
  obtain ⟨hgranted, hgen⟩ := granted_of_checks hload hauth hwritable
  have hrow : (s.view row.generationId).state = some row.columns := hgen ▸ hgranted.state
  have hheld : row.columns.lockId = some id.expose := by
    rw [Row.lock_eq_some hlock, ensure_eq_ok.mp hid]
  split at h
  · next previous =>
    simp only [bind_eq_ok] at h
    obtain ⟨_, hnext, h⟩ := h
    obtain ⟨hlineage, hserial⟩ := ensure_eq_ok.mp hnext
    split at h
    · simp only [bind_eq_ok, pure_eq_ok] at h
      obtain ⟨_, -, hret⟩ := h
      cases hret
      exact .same rfl
    · next hne =>
      obtain ⟨-, hview⟩ := writeDocument_view hrow h
      rw [hgen] at hview
      refine .of_update (.written rfl hgranted hheld ?_) hview
      exact .next previous.document (Row.snapshot_eq_some hsnap) hlineage (by omega)
  · obtain ⟨-, hview⟩ := writeDocument_view hrow h
    rw [hgen] at hview
    exact .of_update (.written rfl hgranted hheld (.first (Row.snapshot_eq_none hsnap))) hview

theorem generationInsertOn_view {record : GenerationRecord}
    (h : s.generationInsertOn record = .ok s') :
    (s.view record.id).generation = none ∧
      s'.view = Function.update s.view record.id
        { s.view record.id with generation := some record.row } ∧
      s' = { s with generations := s'.generations } := by
  simp only [generationInsertOn, bind_eq_ok, okOr_eq_ok, pure_eq_ok,
    Table.create_eq_some] at h
  obtain ⟨_, -, generations, ⟨hnone, rfl⟩, rfl⟩ := h
  exact ⟨hnone, view_putGeneration s record.id record.row, rfl⟩

theorem insertGeneration_changes {record : GenerationRecord} {attempt : Uuid}
    {capability : StateCapability} {claim : StateClaim}
    (h : s.insertGeneration P record attempt capability = .ok (s', claim)) :
    Changes P (.insertGeneration record attempt capability) record.id s s' := by
  simp only [insertGeneration, bind_eq_ok, okOr_eq_ok, mapError_eq_ok, pure_eq_ok,
    Prod.mk.injEq] at h
  obtain ⟨_, -, _, -, fleet, -, _, -, s₁, hinsert, s₂, hstate, rfl, -⟩ := h
  obtain ⟨hnone, hview, -⟩ := generationInsertOn_view hinsert
  obtain ⟨hfree, hview', -⟩ := insertState_ok hstate
  rw [hview] at hfree hview'
  simp only [Function.update_self] at hfree hview'
  refine .of_update (.inserted rfl hnone hfree) ?_
  rw [hview', Function.update_idem]

theorem revoke_changes {claim : StateClaim} (h : s.revoke claim = .ok s') :
    Changes P (.revoke claim) claim.generationId s s' := by
  simp only [revoke, bind_eq_ok, pure_eq_ok, Prod.exists] at h
  obtain ⟨row, hload, _, hclaim, s₁, n, hupdate, _, hone, rfl⟩ := h
  obtain ⟨c, g, hc, -, rfl⟩ := Row.load_eq_ok.mp hload
  obtain ⟨-, howns⟩ := ensure_eq_ok.mp hclaim
  obtain ⟨c', hc', -, hview, -⟩ := updateStates_exactlyOne hupdate hone
  cases Option.some.inj (hc'.symm.trans hc)
  exact .of_update (.revoked rfl hc howns) hview

theorem noteCreateStarting_changes {claim : StateClaim}
    (h : s.noteCreateStarting P claim = .ok s') :
    Changes P (.noteCreateStarting claim) claim.generationId s s' := by
  simp only [noteCreateStarting, bind_eq_ok, pure_eq_ok, okOr_eq_ok, Prod.exists] at h
  obtain ⟨row, hload, _, hclaim, _, hwritable, _, hflags, snapshot?, hsnap, snapshot, hsome, s₁,
    n, hupdate, _, hone, rfl⟩ := h
  cases hsome
  obtain ⟨c, g, hc, -, rfl⟩ := Row.load_eq_ok.mp hload
  obtain ⟨-, howns⟩ := ensure_eq_ok.mp hclaim
  obtain ⟨hrevoked, hstarted⟩ := ensure_eq_ok.mp hflags
  obtain ⟨c', hc', -, hview, -⟩ := updateStates_exactlyOne hupdate hone
  cases Option.some.inj (hc'.symm.trans hc)
  exact .of_update (.createNoted rfl hc howns (ensure_eq_ok.mp hwritable) hrevoked hstarted
    (Row.snapshot_eq_some hsnap)) hview

theorem sealBackend_changes {claim : StateClaim} {expectedRevision : Int}
    (h : s.sealBackend P claim expectedRevision = .ok s') :
    Changes P (.sealBackend claim expectedRevision) claim.generationId s s' := by
  simp only [sealBackend, bind_eq_ok, pure_eq_ok, okOr_eq_ok, Prod.exists] at h
  obtain ⟨row, hload, _, hclaim, _, hflags, snapshot?, hsnap, snapshot, hsome, _, hempty, lock,
    hlock, _, hfree, s₁, n, hupdate, _, hone, rfl⟩ := h
  cases hsome
  obtain ⟨c, g, hc, -, rfl⟩ := Row.load_eq_ok.mp hload
  obtain ⟨-, howns⟩ := ensure_eq_ok.mp hclaim
  obtain ⟨hrevoked, hstarted, hrevision⟩ := ensure_eq_ok.mp hflags
  have hnone : lock = none := Option.isNone_iff_eq_none.mp (ensure_eq_ok.mp hfree)
  obtain ⟨c', hc', -, hview, -⟩ := updateStates_exactlyOne hupdate hone
  cases Option.some.inj (hc'.symm.trans hc)
  exact .of_update (.sealed rfl hc howns hrevoked hstarted hrevision (Row.snapshot_eq_some hsnap)
    (ensure_eq_ok.mp hempty) (Row.lock_eq_none (hnone ▸ hlock))) hview

end Store

end Shaula
