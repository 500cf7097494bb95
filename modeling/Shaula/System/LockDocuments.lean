import Shaula.Core.LockDocument
import Shaula.System.Backend
import Shaula.System.Script

/-! # State rows read back

The lock column holds the canonical form of a lock record, and the lineage and serial columns repeat
what the stored document says.  A lock record comes from its parser, so that a row the backend wrote
passes the checks of every later load.
-/

namespace Shaula

open Core Library Library.Outcome

variable {P : Platform} {id : Uuid}

/-- The columns of a state row agree with the document and with the lock they store. -/
structure StateColumns.Sound (P : Platform) (c : StateColumns) : Prop where
  document : c.Untouched ∨ ∃ document : StateDocument P, c.Stores document
  lock : (c.lockId = none ∧ c.lockInfo = none) ∨ ∃ info : LockInfo,
    LockInfo.parse P (info.toBytes P) = .ok info ∧ c.lockId = some info.id.expose ∧
      c.lockInfo = some (info.toBytes P)

/-! ## Loading a sound row -/

namespace StateColumns.Sound

variable {c : StateColumns}

theorem snapshot (h : c.Sound P) : ∃ snapshot, Row.snapshot P ⟨id, c⟩ = .ok snapshot := by
  rcases h.document with huntouched | ⟨document, hstores⟩
  · refine ⟨none, ?_⟩
    simp only [Row.snapshot, huntouched.bytes]
    exact if_pos ⟨huntouched.revision, huntouched.lineage, huntouched.serial,
      huntouched.flags.1, huntouched.flags.2⟩
  · have hrow : (Row.mk id c).columns = c := rfl
    exact ⟨_, Row.snapshot_of_stores (hrow.symm ▸ hstores)⟩

theorem lock_loads (h : c.Sound P) : ∃ lock, Row.lock P ⟨id, c⟩ = .ok lock := by
  rcases h.lock with ⟨hid, hinfo⟩ | ⟨info, hparse, hid, hinfo⟩
  · exact ⟨none, by simp only [Row.lock, hid, hinfo]⟩
  · refine ⟨some info, ?_⟩
    simp only [Row.lock, hid, hinfo, bind_eq_ok, mapError_eq_ok, pure_eq_ok, ensure_eq_ok]
    exact ⟨info, hparse, ⟨⟩, rfl, rfl⟩

theorem lock_isSome (h : c.Sound P) : c.lockId.isSome = c.lockInfo.isSome := by
  rcases h.lock with ⟨hid, hinfo⟩ | ⟨info, -, hid, hinfo⟩
  all_goals
    rw [hid, hinfo]
    rfl

theorem revision_pos_iff (h : c.Sound P) : 0 < c.revision ↔ c.stateBytes.isSome := by
  rcases h.document with huntouched | ⟨document, hstores⟩
  · rw [huntouched.revision, huntouched.bytes]
    decide
  · rw [hstores.bytes]
    exact ⟨fun _ => rfl, fun _ => hstores.revision_pos⟩

theorem stored (h : c.Sound P) {bytes : Bytes} (hbytes : c.stateBytes = some bytes) :
    ∃ document, StateDocument.parse P bytes = .ok document ∧
      c.lineage = some document.lineage ∧ c.serial = some document.serial := by
  rcases h.document with huntouched | ⟨document, hstores⟩
  · cases hbytes.symm.trans huntouched.bytes
  · cases Option.some.inj (hbytes.symm.trans hstores.bytes)
    exact ⟨document, StateDocument.parse_eq_ok.mpr rfl, hstores.lineage, hstores.serial⟩

end StateColumns.Sound

/-! ## What every change restores -/

/-- Reading `"serial":0` answers zero. -/
def ReadsSerialZero (P : Platform) : Prop :=
  ∀ lineage header, P.readHeader (freshDocument lineage) = some header → header.serial = 0

/-- The lock record of a lock request came out of the parser. -/
def Request.Parsed : Request P → Prop
  | .lock _ info => ∃ bytes, LockInfo.parse P bytes = .ok info
  | _ => True

/-- A new row is sound. -/
theorem Change.sound_of_none {r : Request P} {v v' : View} {c : StateColumns}
    (hserial : ReadsSerialZero P) (h : Change P id r v v') (hnone : v.state = none)
    (hc : v'.state = some c) : c.Sound P := by
  cases h with
  | inserted =>
    cases hc
    exact ⟨.inl ⟨rfl, rfl, rfl, rfl, rfl, rfl⟩, .inl ⟨rfl, rfl⟩⟩
  | imported =>
    cases hc
    exact ⟨.inr ⟨_, rfl, Int.one_pos, rfl, rfl⟩, .inl ⟨rfl, rfl⟩⟩
  | @admitted _ _ _ document _ _ _ _ _ hfresh =>
    cases hc
    have hzero : document.serial = 0 := hserial _ _ (hfresh ▸ document.reads)
    exact ⟨.inr ⟨document, rfl, Int.one_pos, rfl, by rw [hzero]; rfl⟩, .inl ⟨rfl, rfl⟩⟩
  | finalizedBare | importQuarantined => simp [hnone] at hc
  | locked _ hgranted | unlocked _ hgranted | written _ hgranted =>
    cases hgranted.state.symm.trans hnone
  | replaced _ _ hstate => cases hstate.symm.trans hnone
  | revoked _ hstate | createNoted _ hstate | sealed _ hstate | createStarting _ _ _ hstate
  | completed _ hstate | finalized hstate | quarantined _ _ hstate =>
    cases hstate.symm.trans hnone
  | _ => cases hc.symm.trans hnone

/-- Only behind a stored document does a row say that its Create started. -/
theorem Change.createStarted {r : Request P} {v v' : View} {c c' : StateColumns}
    (h : Change P id r v v') (hc : v.state = some c) (hc' : v'.state = some c')
    (hstarted : c'.createStarted = true) :
    c.createStarted = true ∨ ∃ document : StateDocument P, c.Stores document := by
  cases h with
  | createNoted _ hstate _ _ _ _ hstores | createStarting _ _ _ hstate _ _ _ _ _ hstores =>
    cases Option.some.inj (hstate.symm.trans hc)
    exact .inr ⟨_, hstores⟩
  | locked _ hgranted | unlocked _ hgranted | written _ hgranted =>
    cases Option.some.inj (hgranted.state.symm.trans hc)
    cases hc'
    exact .inl hstarted
  | replaced _ _ hstate | revoked _ hstate | sealed _ hstate | completed _ hstate
  | finalized hstate | quarantined _ _ hstate =>
    cases Option.some.inj (hstate.symm.trans hc)
    cases hc'
    exact .inl hstarted
  | inserted _ _ hnone | admitted _ _ hnone | imported _ hnone => cases hnone.symm.trans hc
  | finalizedBare | importQuarantined =>
    simp only [hc, Option.map_some] at hc'
    cases hc'
    exact .inl hstarted
  | _ =>
    cases Option.some.inj (hc.symm.trans hc')
    exact .inl hstarted

/-- A row keeps its lock columns, loses them, or gets those of a parsed lock. -/
theorem Move.sound_lock {r : Request P.serde} {v : View} {c c' : StateColumns}
    (h : Move P.serde id v c r c') (hparsed : r.Parsed) (hc : c.Sound P.serde) :
    (c'.lockId = none ∧ c'.lockInfo = none) ∨ ∃ info : LockInfo,
      LockInfo.parse P.serde (info.toBytes P.serde) = .ok info ∧
        c'.lockId = some info.id.expose ∧ c'.lockInfo = some (info.toBytes P.serde) := by
  cases h with
  | kept hsame =>
    have hid : c'.lockId = c.lockId := congrArg Backend.lockId hsame
    have hinfo : c'.lockInfo = c.lockInfo := congrArg Backend.lockInfo hsame
    rw [hid, hinfo]
    exact hc.lock
  | @locked _ info =>
    obtain ⟨bytes, hparse⟩ := hparsed
    exact .inr ⟨info, (LockInfo.parse_toBytes hparse).2, rfl, rfl⟩
  | unlocked | cleared => exact .inl ⟨rfl, rfl⟩
  | written => exact hc.lock

/-- Columns that describe the same document stay sound, whatever their flags, once the row says that
its Create started or that it is sealed only behind a document. -/
theorem StateColumns.Sound.document_of_eq {c c' : StateColumns} (hc : c.Sound P)
    (hbytes : c'.stateBytes = c.stateBytes) (hrevision : c'.revision = c.revision)
    (hlineage : c'.lineage = c.lineage) (hserial : c'.serial = c.serial)
    (hflags : c'.createStarted = true ∨ c'.sealed = true →
      c.createStarted = true ∨ 0 < c.revision) :
    c'.Untouched ∨ ∃ document : StateDocument P, c'.Stores document := by
  rcases hc.document with h | ⟨document, h⟩
  · have hclear : ¬ (c'.createStarted = true ∨ c'.sealed = true) := by
      intro hset
      rcases hflags hset with hstarted | hpos
      · cases h.flags.1.symm.trans hstarted
      · rw [h.revision] at hpos
        exact Int.lt_irrefl _ hpos
    simp only [not_or, Bool.not_eq_true] at hclear
    exact .inl ⟨hbytes.trans h.bytes, hrevision.trans h.revision, hlineage.trans h.lineage,
      hserial.trans h.serial, hclear⟩
  · exact .inr ⟨document, hbytes.trans h.bytes, hrevision ▸ h.revision_pos,
      hlineage.trans h.lineage, hserial.trans h.serial⟩

theorem StateColumns.Precedes.stores {c : StateColumns} {document : StateDocument P}
    (h : c.Precedes document) : (c.stored document).Stores document := by
  have hpos : 0 < c.revision + 1 := by
    cases h with
    | first h =>
      have := h.revision
      omega
    | next previous h =>
      have := h.revision_pos
      omega
  exact ⟨rfl, hpos, rfl, rfl⟩

/-- **Row law.**  A change of a sound row leaves a sound row. -/
theorem Change.sound {r : Request P.serde} {v v' : View} {c c' : StateColumns}
    (h : Change P.serde id r v v') (hparsed : r.Parsed) (hc : v.state = some c)
    (hc' : v'.state = some c') (hcheck : c'.Check) (hsound : c.Sound P.serde) :
    c'.Sound P.serde := by
  obtain ⟨c₁, hc₁, hmove⟩ := h.move hc
  cases Option.some.inj (hc₁.symm.trans hc')
  refine ⟨?_, hmove.sound_lock hparsed hsound⟩
  -- A row is sealed only behind a document, by its constraint.
  obtain ⟨-, -, -, -, -, -, hsealed⟩ := hcheck
  have hflags : c'.revision = c.revision → c'.createStarted = true ∨ c'.sealed = true →
      c.createStarted = true ∨ 0 < c.revision := by
    rintro hrevision (hset | hset)
    · rcases h.createStarted hc hc' hset with hstarted | ⟨document, hstores⟩
      · exact .inl hstarted
      · exact .inr hstores.revision_pos
    · rcases hsealed with hclear | ⟨hpos, -⟩
      · cases hset.symm.trans hclear
      · exact .inr (hrevision ▸ hpos)
  cases hmove with
  | kept hsame =>
    have hrevision : c'.revision = c.revision := congrArg Backend.revision hsame
    exact hsound.document_of_eq (congrArg Backend.stateBytes hsame) hrevision
      (congrArg Backend.lineage hsame) (congrArg Backend.serial hsame) (hflags hrevision)
  | locked | unlocked | cleared => exact hsound.document_of_eq rfl rfl rfl rfl (hflags rfl)
  | written _ _ _ hprecedes => exact .inr ⟨_, hprecedes.stores⟩

namespace System

variable {σ τ : System} {l : Label P}

/-! ## Runs -/

/-- A step whose lock records were parsed. -/
def ParsedStep (P : Platform) (σ : System) (l : Label P) (τ : System) : Prop :=
  Step P σ l τ ∧ ∀ r, l.request = some r → r.Parsed

/-- A script of parsed locks is a run of such steps. -/
theorem Plays.parsed {rs : List (Request P)} (h : σ.Plays P rs) (hrs : ∀ r ∈ rs, r.Parsed) :
    Run (ParsedStep P) σ (σ.history P rs) (σ.play P rs) := by
  induction rs generalizing σ with
  | nil => exact .nil σ
  | cons r rs ih =>
    obtain ⟨hfirst, hrest⟩ := List.forall_mem_cons.mp hrs
    refine .cons ⟨.served σ r h.1, fun r' hr' => ?_⟩ (ih h.2 hrest)
    cases hr'
    exact hfirst

/-- Every state row is sound. -/
def Sound (P : Platform) (σ : System) : Prop :=
  ∀ id c, (σ.view id).state = some c → c.Sound P

/-- **Step law.** -/
theorem ParsedStep.sound {l : Label P.serde} (hserial : ReadsSerialZero P)
    (hσ : σ.Sound P.serde) (h : ParsedStep P.serde σ l τ) : τ.Sound P.serde := by
  obtain ⟨hstep, hparsed⟩ := h
  intro id c' hc'
  rcases hstep.change id with hsame | ⟨r, hr, -, hchange⟩
  · exact hσ id c' (hsame ▸ hc')
  · cases hc : (σ.view id).state with
    | none => exact hchange.sound_of_none hserial hc hc'
    | some c => exact hchange.sound (hparsed r hr) hc hc' (Store.view_check_state hc') (hσ id c hc)

/-- **Run law.**  Every state row of every run is sound. -/
theorem reached_sound (hserial : ReadsSerialZero P)
    (h : Reachable Initial (ParsedStep P.serde) σ) : σ.Sound P.serde := by
  refine Reachable.invariant (I := System.Sound P.serde) ?_ ?_ h
  · rintro σ ⟨createLimit, rfl⟩ id c hc
    cases hc
  · exact fun _ _ _ hσ hstep => hstep.sound hserial hσ

/-- **Stored lock documents read back.** -/
theorem lock_documents_read_back (hserial : ReadsSerialZero P) :
    (∀ bytes info, LockInfo.parse P.serde bytes = .ok info →
      (info.toBytes P.serde).length ≤ maxLockBytes ∧
        LockInfo.parse P.serde (info.toBytes P.serde) = .ok info) ∧
    ∀ σ, Reachable Initial (ParsedStep P.serde) σ → ∀ id c, (σ.view id).state = some c →
      c.lockId.isSome = c.lockInfo.isSome ∧ (0 < c.revision ↔ c.stateBytes.isSome) ∧
      (∀ bytes, c.stateBytes = some bytes → ∃ document,
        StateDocument.parse P.serde bytes = .ok document ∧
          c.lineage = some document.lineage ∧ c.serial = some document.serial) ∧
      (∃ snapshot, Row.snapshot P.serde ⟨id, c⟩ = .ok snapshot) ∧
      ∃ lock, Row.lock P.serde ⟨id, c⟩ = .ok lock := by
  refine ⟨fun bytes info h => LockInfo.parse_toBytes h, fun σ hσ id c hc => ?_⟩
  have hsound := reached_sound hserial hσ id c hc
  exact ⟨hsound.lock_isSome, hsound.revision_pos_iff, fun bytes hbytes => hsound.stored hbytes,
    hsound.snapshot, hsound.lock_loads⟩

open Script in
/-- A new worker's row is locked with a record whose canonical form is longer than its text. -/
theorem lock_documents_read_back_sample :
    let P : Platform :=
      { platform with readHeader := PlatformTable.lookup [(freshDocument lineage, header 0 [])] }
    ∃ σ c, Reachable Initial (ParsedStep P.serde) σ ∧ (σ.view generation).state = some c ∧
      c.lockInfo = some wireLockText ∧ 0 < c.revision ∧
      (∃ snapshot, Row.snapshot P.serde ⟨generation, c⟩ = .ok snapshot) ∧
      ∃ lock, Row.lock P.serde ⟨generation, c⟩ = .ok lock := by
  intro P
  have hserial : ReadsSerialZero P := by
    intro lineage' document hdocument
    obtain ⟨e, he, rfl⟩ := Option.map_eq_some_iff.mp hdocument
    cases List.mem_singleton.mp (List.mem_of_find?_eq_some he)
    rfl
  let requests : List (Request P.serde) :=
    [.fleetChanged "fleet" fleet, .activate,
      .generationInsertGuarded record guard (some ⟨firstDraw, lineage⟩), .takeAdmission generation,
      .lock stateAccess lockInfo]
  have hplays : (initial 1).Plays P.serde requests := by decide +kernel
  have hparsed : ∀ r ∈ requests, r.Parsed := by
    have hlock : ∃ bytes, LockInfo.parse P.serde bytes = .ok lockInfo := by
      refine ⟨utf8 ("\x7b\"ID\":\"lock-1\",\"Operation\":\"OperationTypeApply\"," ++
        "\"Who\":\"worker\",\"Version\":\"1.9.0\"\x7d"), LockInfo.parse_eq_ok.mpr ?_⟩
      decide +kernel
    simp only [requests, List.forall_mem_cons, List.not_mem_nil, false_implies, implies_true,
      and_true]
    exact ⟨trivial, trivial, trivial, trivial, hlock⟩
  have hreached : Reachable Initial (ParsedStep P.serde) ((initial 1).play P.serde requests) :=
    ⟨_, _, ⟨1, rfl⟩, hplays.parsed hparsed⟩
  obtain ⟨c, hc, hlock, hrevision⟩ : ∃ c,
      (((initial 1).play P.serde requests).view generation).state = some c ∧
        c.lockInfo = some wireLockText ∧ 0 < c.revision := by
    have hrow : (((initial 1).play P.serde requests).view generation).state.map
        (fun c => (c.lockInfo, decide (0 < c.revision))) = some (some wireLockText, true) := by
      decide +kernel
    obtain ⟨c, hc, hcolumns⟩ := Option.map_eq_some_iff.mp hrow
    obtain ⟨hlock, hrevision⟩ := Prod.mk.inj hcolumns
    exact ⟨c, hc, hlock, of_decide_eq_true hrevision⟩
  have hrow := (lock_documents_read_back hserial).2 _ hreached generation c hc
  exact ⟨_, c, hreached, hc, hlock, hrevision, hrow.2.2.2⟩

end System

end Shaula
