import Shaula.System.Command

/-! # Conservative recovery

A recovery that commits either found all that makes a replacement safe, or leaves the generation
quarantined: revoked, and still occupying its slot.
-/

namespace Shaula

open Core Library Library.Outcome

variable {P : Platform} {s s' : Store}

/-! ## The proof of a Create -/

namespace CreateProof

/-- The stored state accounts for all that a Create may have left behind: none was started, the
state continues the one a Create ended with, or it records the whole shape of the admitted
manifest. -/
inductive Complete (s : Store) (c : StateColumns) (g : GenerationRow)
    (document : StateDocument P) : Prop
  | neverStarted : c.createStarted = false → Complete s c g document
  | matched : Matched P g document → Complete s c g document
  | wholeShape {shape : List ManagedResourceRole} : g.shaulaResultJson = none →
      g.failedCreateIdentity = none → manifestShape P s g = some shape →
      document.recordsWholeShape shape = true → Complete s c g document

theorem complete_of_verified {id : Uuid} {c : StateColumns} {g : GenerationRow}
    {document : StateDocument P} {anchorable : Bool} (hg : (s.view id).generation = some g)
    (h : verified s id document anchorable = .ok (s', true)) : Complete s c g document := by
  simp only [verified, bind_eq_ok, okOr_eq_ok] at h
  obtain ⟨g', hg', h⟩ := h
  have hsame : g' = g := Option.some.inj (Eq.trans (Eq.symm hg') hg)
  subst hsame
  split_ifs at h with hmatched hanchorable
  · exact .matched hmatched
  · simp only [Bool.and_eq_true, Option.isNone_iff_eq_none] at hanchorable
    simp only [pure_eq_ok, anchor] at h
    split at h
    · cases h
    · next shape hshape =>
      split at h
      · next hwhole => exact .wholeShape hanchorable.1.2 hanchorable.2 hshape hwhole
      · cases h
  · cases h

end CreateProof

/-! ## What recovery checks -/

namespace Store

/-- What an attempt must show before recovery replaces it. -/
structure Replaceable (P : Platform) (s : Store) (record : RecoveryRecord)
    (outcome : FenceOutcome) (preserve : Bool) (c : StateColumns) (w : WorkerColumns)
    (g : GenerationRow) : Prop where
  live : w.phase ≠ .quarantined
  fenced : outcome = .fenced
  noEvidence : preserve = false
  input : record.createStarted = true → record.hasInput = true
  proof : ∃ document : StateDocument P, c.Stores document ∧ CreateProof.Complete s c g document

/-- The successor `w'` of `w` only cleans up, and has a cleanup proof only where the one of `w` is
of the current revision and neither a command nor a lock came after it. -/
structure Succeeds (c : StateColumns) (w w' : WorkerColumns) : Prop where
  cleanupOnly : w'.cleanupOnly = true
  proof : ∀ revision, w'.cleanupRevision = some revision →
    w.cleanupRevision = some revision ∧ revision = c.revision ∧ w.Idle ∧ c.lockId = none

theorem keptCleanupRevision_quiet {c : StateColumns} {w : WorkerColumns} {revision : Int}
    (h : keptCleanupRevision c w = some revision) : w.Idle ∧ c.lockInfo = none := by
  obtain ⟨-, hkept⟩ := Option.filter_eq_some_iff.mp h
  simp only [Bool.and_eq_true, Option.isNone_iff_eq_none] at hkept
  exact ⟨⟨hkept.1.1.2, hkept.1.2⟩, hkept.2⟩

theorem lockId_of_lockInfo {id : Uuid} {c : StateColumns} (hc : (s.view id).state = some c)
    (hinfo : c.lockInfo = none) : c.lockId = none := by
  obtain ⟨row, -, rfl⟩ := Option.map_eq_some_iff.mp hc
  obtain ⟨-, -, -, -, hlock, -⟩ := row.2
  rw [hinfo] at hlock
  exact Option.isNone_iff_eq_none.mp hlock

theorem succeeds_replaced {id : Uuid} {c : StateColumns} (w : WorkerColumns)
    (admission : WorkerAdmission) (hc : (s.view id).state = some c) :
    Succeeds c w (w.replaced P admission (keptCleanupRevision c w)) := by
  refine ⟨rfl, ?_⟩
  intro revision hkept
  have hkept : keptCleanupRevision c w = some revision := hkept
  obtain ⟨hproof, hcurrent⟩ := keptCleanupRevision_eq_some hkept
  obtain ⟨hidle, hinfo⟩ := keptCleanupRevision_quiet hkept
  exact ⟨hproof, hcurrent, hidle, lockId_of_lockInfo hc hinfo⟩

theorem complete_of_completeState {id : Uuid} {c : StateColumns} {g : GenerationRow}
    {anchorable : Bool} (hg : (s.view id).generation = some g)
    (h : s.completeState P { generationId := id, columns := c } anchorable = .ok (s', true)) :
    ∃ document : StateDocument P, c.Stores document ∧ CreateProof.Complete s c g document := by
  unfold completeState at h
  split at h
  · next snapshot hsnapshot =>
    refine ⟨snapshot.document, Row.snapshot_eq_some hsnapshot, ?_⟩
    split at h
    · exact CreateProof.complete_of_verified hg h
    · next hstarted => exact .neverStarted (Bool.not_eq_true _ ▸ hstarted)
  · cases h

theorem insertFence_revisions {record : RecoveryRecord} {outcome : FenceOutcome}
    {orphanLock : Option Bytes} (h : s.insertFence record outcome orphanLock = .ok s') :
    s'.revisions = s.revisions := by
  simp only [insertFence, bind_eq_ok, okOr_eq_ok, pure_eq_ok] at h
  obtain ⟨fences, -, rfl⟩ := h
  rfl

/-- A recovery answers a successor only where the attempt is replaceable. -/
theorem recoverWorker_replaceable {record : RecoveryRecord} {outcome : FenceOutcome}
    {preserve : Bool} {draw : Draw} {admission : WorkerAdmission}
    (h : s.recoverWorker P record outcome preserve draw = .ok (s', some admission)) :
    ∃ c w g, s.view record.generationId = ⟨some c, some w, some g⟩ ∧
      s.Replaceable P record outcome preserve c w g := by
  simp only [recoverWorker, bind_eq_ok, okOr_eq_ok] at h
  obtain ⟨row, hload, _, -, w, hw, _, -, h⟩ := h
  obtain ⟨c, g, hc, hg, rfl⟩ := Row.load_eq_ok.mp hload
  have hview : s.view record.generationId = ⟨some c, some w, some g⟩ := by
    rw [← hc, ← hg, ← hw]
    rfl
  refine ⟨c, w, g, hview, ?_⟩
  split at h
  · split at h
    · simp only [bind_eq_ok, pure_eq_ok, Prod.mk.injEq, reduceCtorEq, and_false,
        exists_false] at h
    · cases pure_eq_ok.mp h
  · next hlive =>
    simp only [bind_eq_ok, Prod.exists] at h
    obtain ⟨s₁, hfence, s₂, complete, hcomplete, h⟩ := h
    split at h
    · simp only [bind_eq_ok, pure_eq_ok, Prod.mk.injEq, reduceCtorEq, and_false,
        exists_false] at h
    · next hreplace =>
      simp only [not_or, not_not, not_and, Bool.not_eq_true, Bool.not_eq_false] at hreplace
      obtain ⟨houtcome, hpreserve, hinput, hcomplete'⟩ := hreplace
      subst hcomplete'
      have hg₁ : (s₁.view record.generationId).generation = some g := by
        rw [insertFence_view hfence, hg]
      obtain ⟨document, hstores, hproof⟩ := complete_of_completeState hg₁ hcomplete
      refine ⟨hlive, houtcome, hpreserve, hinput, document, hstores, ?_⟩
      cases hproof with
      | neverStarted hnever => exact .neverStarted hnever
      | matched hmatched => exact .matched hmatched
      | wholeShape hresult hfailed hshape hwhole =>
        refine .wholeShape hresult hfailed ?_ hwhole
        rw [← hshape, CreateProof.manifestShape, CreateProof.manifestShape,
          insertFence_revisions hfence]

theorem issued_of_any {x : StateResult (Store × Option WorkerAdmission)}
    (h : x.toOption.any (fun answer => answer.2.isSome) = true) :
    ∃ s admission, x = .ok (s, some admission) := by
  cases x with
  | error e => cases h
  | ok answer =>
    obtain ⟨s, issued⟩ := answer
    cases issued with
    | none => cases h
    | some admission => exact ⟨s, admission, rfl⟩

/-- The facts recovery lists are those of the rows. -/
theorem recoveryRecord_flags {id : Uuid} {record : RecoveryRecord} {c : StateColumns}
    {w : WorkerColumns} (hc : (s.view id).state = some c) (hw : (s.view id).worker = some w)
    (h : s.recoveryRecord id = some record) :
    record.createStarted = c.createStarted ∧ record.hasInput = w.protectedInput.isSome := by
  simp only [recoveryRecord, Option.bind_eq_bind, Option.bind_eq_some_iff] at h
  obtain ⟨w', hw', row, hrow, g, -, h⟩ := h
  have hworker : w' = w := Option.some.inj (hw'.symm.trans hw)
  have hcolumns : row.val = c := by
    have hview : (s.view id).state = some row.val := by simp [view, hrow]
    exact Option.some.inj (hview.symm.trans hc)
  subst hworker hcolumns
  split at h
  · cases h
    exact ⟨rfl, rfl⟩
  · cases h

end Store

/-! ## Quarantined attempts -/

/-- The attempt is quarantined: its credentials are revoked, and its generation occupies a slot
until an operator ends it. -/
def View.Quarantined (v : View) : Prop :=
  ∃ c w g, v = ⟨some c, some w, some g⟩ ∧ c.revoked = true ∧ w.phase = .quarantined ∧
    g.state = .quarantined ∧ g.state.countsOccupancy = true

/-- The generation of a quarantined attempt is quarantined with it. -/
def View.QuarantineHeld (v : View) : Prop :=
  ∀ w, v.worker = some w → w.phase = .quarantined →
    ∃ g, v.generation = some g ∧ g.state = .quarantined

/-- A listener message moves no quarantined generation. -/
theorem activityRow_quarantined (fleet : String) (started completed : List RunnerEvent)
    (now : Int) (g : GenerationRow) (hg : g.state = .quarantined) :
    (activityRow fleet started completed now g).state = .quarantined := by
  have hstep : ∀ next froms (event : RunnerEvent) (g : GenerationRow),
      .quarantined ∉ froms → g.state = .quarantined →
        (activityStep fleet next froms now event g).state = .quarantined := by
    intro next froms event g hfroms hg
    have hother : g.state ∉ froms := by rw [hg]; exact hfroms
    unfold activityStep
    rw [if_neg fun hmoves => hother hmoves.2.2.2.2]
    exact hg
  exact activityRow_relates
    (R := fun g g' => g.state = .quarantined → g'.state = .quarantined)
    (fun _ h => h) (fun _ _ _ h h' hg => h' (h hg))
    (fun event g => hstep _ _ event g (by decide))
    (fun event g => hstep _ _ event g (by decide)) started completed g hg

/-- A quarantined attempt stays with a quarantined generation, or an operator completes it. -/
theorem Change.quarantineHeld {id : Uuid} {r : Request P} {v v' : View}
    (h : Change P id r v v') (hv : v.QuarantineHeld) : v'.QuarantineHeld := by
  intro w' hw' hphase
  cases h with
  | quarantined => exact ⟨_, rfl, rfl⟩
  | inserted _ hnone _ | generationInserted _ _ hnone =>
    obtain ⟨g, hg, -⟩ := hv w' hw' hphase
    cases hnone.symm.trans hg
  | written =>
    obtain ⟨w, hw, rfl⟩ := Option.map_eq_some_iff.mp hw'
    refine hv w hw ?_
    rw [← hphase]
    unfold WorkerColumns.noteSeen
    split <;> rfl
  | inputRetained _ hl _ | cleanupVerified _ hl _ | spawnAcked _ hl _ | commandEnded _ hl _ =>
    cases hw'
    exact hv _ hl.worker hphase
  | reaped _ hworker _ | createStarting _ _ _ _ hworker _ | destroyStarting _ _ _ _ hworker _
  | bootstrapStarted _ hworker _ | released _ _ _ hworker _ =>
    cases hw'
    exact hv _ hworker hphase
  | launchPending | registered | workerFenced | admitted | imported | completed | finalized
  | replaced =>
    cases hw'
    cases hphase
  | finalizedBare hnone => cases hnone.symm.trans hw'
  | anchored hg _ _ hanchored =>
    obtain ⟨g, hg', hstate⟩ := hv w' hw' hphase
    cases Option.some.inj (hg'.symm.trans hg)
    exact ⟨_, rfl, hanchored.state_eq.trans hstate⟩
  | importQuarantined => exact ⟨_, rfl, rfl⟩
  | @advanced next requestId now _ g hg hallowed hdestroyed =>
    obtain ⟨g', hg', hstate⟩ := hv w' hw' hphase
    cases Option.some.inj (hg'.symm.trans hg)
    rw [hstate] at hallowed
    -- the one way out of quarantine needs a generation without a worker
    have hnext : next = .destroyed := by
      cases next <;> first | rfl | cases hallowed
    cases (hdestroyed hnext).symm.trans hw'
  | activity hg =>
    obtain ⟨g, hg', hstate⟩ := hv w' hw' hphase
    cases Option.some.inj (hg'.symm.trans hg)
    exact ⟨_, rfl, activityRow_quarantined _ _ _ _ _ hstate⟩
  | jitSet hg | resultSet hg | expiryRequested hg _ | resourcesDestroyed hg _ _ =>
    obtain ⟨g, hg', hstate⟩ := hv w' hw' hphase
    cases Option.some.inj (hg'.symm.trans hg)
    exact ⟨_, rfl, hstate⟩
  | _ => exact hv w' hw' hphase

/-- What a recovery answers without a successor is a quarantined attempt. -/
theorem Store.Recovered.quarantined_of_none {record : RecoveryRecord} {outcome : FenceOutcome}
    {draw : Draw} {v v' : View} {c : StateColumns} {w : WorkerColumns}
    (h : Store.Recovered P record outcome draw v c w v' none) (hc : v.state = some c)
    (hw : v.worker = some w) (hrevoked : v.QuarantineRevoked) (hheld : v.QuarantineHeld) :
    v'.Quarantined := by
  have hsettled : w.phase = .quarantined → c.revoked = true ∧
      ∃ g, v.generation = some g ∧ g.state = .quarantined := by
    intro hphase
    obtain ⟨c', hc', hcredentials⟩ := hrevoked w hw hphase
    cases Option.some.inj (hc'.symm.trans hc)
    exact ⟨hcredentials, hheld w hw hphase⟩
  cases h with
  | untouched hphase =>
    obtain ⟨hcredentials, g, hg, hstate⟩ := hsettled hphase
    refine ⟨c, w, g, ?_, hcredentials, hphase, hstate, by rw [hstate]; rfl⟩
    rw [← hc, ← hw, ← hg]
  | released hphase =>
    obtain ⟨hcredentials, g, hg, hstate⟩ := hsettled hphase
    refine ⟨c, w.released, g, ?_, hcredentials, hphase, hstate, by rw [hstate]; rfl⟩
    rw [← hc, ← hg]
  | quarantined hg hlive hw' =>
    refine ⟨_, _, _, rfl, rfl, ?_, rfl, rfl⟩
    rcases hw' with rfl | rfl <;> rfl

namespace System

variable {σ : System}

theorem Reached.quarantineHeld (hσ : Reached P σ) (id : Uuid) : (σ.view id).QuarantineHeld :=
  hσ.view_invariant (fun _ h => by cases h) fun _ _ _ hchange hv => hchange.quarantineHeld hv

/-- **Conservative recovery.**  A refused recovery changes nothing.  One that answers a successor
found a live attempt that is fenced, preserved no evidence, kept its input if the record lists a
Create, as the rows do where the record was listed from them, and whose stored state accounts for
that Create; the successor only cleans up, and inherits the cleanup proof only of the current
revision, with no command and no lock outstanding.  Every other one leaves the attempt quarantined,
revoked, and its generation occupying its slot. -/
theorem recovery_conservative (hσ : Reached P σ) (record : RecoveryRecord)
    (outcome : FenceOutcome) (preserve : Bool) (draw : Draw) :
    (∀ e, σ.daemon.store.recoverWorker P record outcome preserve draw = .error e →
      (σ.serve P (.recoverWorker record outcome preserve draw)).daemon = σ.daemon) ∧
    (∀ s, σ.daemon.store.recoverWorker P record outcome preserve draw = .ok (s, none) →
      (σ.serve P (.recoverWorker record outcome preserve draw)).daemon.store = s ∧
        (s.view record.generationId).Quarantined) ∧
    ∀ s admission,
      σ.daemon.store.recoverWorker P record outcome preserve draw = .ok (s, some admission) →
      (σ.serve P (.recoverWorker record outcome preserve draw)).daemon.store = s ∧
        admission.cleanupOnly = true ∧
        ∃ c w g w', σ.view record.generationId = ⟨some c, some w, some g⟩ ∧
          σ.daemon.store.Replaceable P record outcome preserve c w g ∧
          (σ.daemon.store.recoveryRecord record.generationId = some record →
            c.createStarted = true → w.protectedInput.isSome = true) ∧
          (s.view record.generationId).worker = some w' ∧ Store.Succeeds c w w' := by
  refine ⟨?_, ?_, ?_⟩
  · intro e hresult
    simp only [serve, Daemon.exec, hresult, Daemon.transactIssuing]
  · intro s hresult
    obtain ⟨c, w, v', hc, hw, -, -, -, hrecovered, hview⟩ := Store.recoverWorker_ok hresult
    refine ⟨?_, ?_⟩
    · simp only [serve, Daemon.exec, hresult, Daemon.transactIssuing, Daemon.publishAfter_store]
    · rw [hview, Function.update_self]
      exact hrecovered.quarantined_of_none hc hw (hσ.quarantineRevoked _) (hσ.quarantineHeld _)
  · intro s admission hresult
    obtain ⟨c, w, v', hc, hw, -, -, -, hrecovered, hview⟩ := Store.recoverWorker_ok hresult
    obtain ⟨c₁, w₁, g, hrows, hreplaceable⟩ := Store.recoverWorker_replaceable hresult
    have hsame : c₁ = c ∧ w₁ = w := by
      rw [hrows] at hc hw
      exact ⟨Option.some.inj hc, Option.some.inj hw⟩
    obtain ⟨rfl, rfl⟩ := hsame
    cases hrecovered with
    | replaced =>
      refine ⟨?_, rfl, c₁, w₁, g, _, hrows, hreplaceable, ?_, by rw [hview, Function.update_self],
        Store.succeeds_replaced _ _ hc⟩
      · simp only [serve, Daemon.exec, hresult, Daemon.transactIssuing, Daemon.publishAfter_store]
      · intro hlisted hstarted
        obtain ⟨hcreate, hinput⟩ := Store.recoveryRecord_flags hc hw hlisted
        rw [← hinput]
        exact hreplaceable.input (hcreate.trans hstarted)

open Script in
/-- A fenced first worker that never started a Create has a cleanup-only successor. -/
theorem recovery_conservative_sample :
    ∃ σ : System, ∃ s, ∃ admission : WorkerAdmission, ∃ c w g w', Reached platform σ ∧
      (σ.serve platform (.recoverWorker firstRecord .fenced false secondDraw)).daemon.store = s ∧
      admission.cleanupOnly = true ∧
      σ.view firstRecord.generationId = ⟨some c, some w, some g⟩ ∧
      σ.daemon.store.Replaceable platform firstRecord .fenced false c w g ∧
      (s.view firstRecord.generationId).worker = some w' ∧ Store.Succeeds c w w' := by
  have hstart : (initial 2).Plays platform admitted := by decide +kernel
  obtain ⟨s, admission, hresult⟩ := Store.issued_of_any
    (x := ((initial 2).play platform admitted).daemon.store.recoverWorker platform firstRecord
      .fenced false secondDraw) (by decide +kernel)
  obtain ⟨hstore, hcleanup, c, w, g, w', hrows, hreplaceable, -, hworker, hsucceeds⟩ :=
    (recovery_conservative hstart.reached firstRecord .fenced false secondDraw).2.2 s admission
      hresult
  exact ⟨_, s, admission, c, w, g, w', hstart.reached, hstore, hcleanup, hrows, hreplaceable,
    hworker, hsucceeds⟩

open Script in
/-- A recovery of an attempt that is not the row's neither replaces nor quarantines: the worker
stays admitted with its credentials. -/
theorem stale_recovery_refused :
    ∃ σ : System, ∃ record : RecoveryRecord, Reached platform σ ∧
      record.generationId = generation ∧
      (∃ e, σ.daemon.store.recoverWorker platform record .fenced false secondDraw = .error e) ∧
      ((σ.serve platform (.recoverWorker record .fenced false secondDraw)).view
        generation).state.any (fun c => !c.revoked) = true ∧
      ((σ.serve platform (.recoverWorker record .fenced false secondDraw)).view
        generation).worker.any (fun w => w.phase == .admitted && !w.cleanupOnly) = true ∧
      ((σ.serve platform (.recoverWorker record .fenced false secondDraw)).view
        generation).generation.any (fun g => g.state == .createPending) = true := by
  have hstart : (initial 2).Plays platform admitted := by decide +kernel
  have hrefused : (((initial 2).play platform admitted).daemon.store.recoverWorker platform
      { firstRecord with workerAttempt := secondDraw.workerAttempt } .fenced false
        secondDraw).isOk = false := by
    decide +kernel
  refine ⟨_, { firstRecord with workerAttempt := secondDraw.workerAttempt }, hstart.reached, rfl,
    ?_, ?_, ?_, ?_⟩
  · cases hresult : ((initial 2).play platform admitted).daemon.store.recoverWorker platform
        { firstRecord with workerAttempt := secondDraw.workerAttempt } .fenced false
          secondDraw with
    | error e => exact ⟨e, rfl⟩
    | ok answer =>
      rw [hresult] at hrefused
      cases hrefused
  · decide +kernel
  · decide +kernel
  · decide +kernel

end System

end Shaula
