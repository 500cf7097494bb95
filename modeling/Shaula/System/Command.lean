import Shaula.System.Fencing

/-! # One command in flight

A worker runs one command at a time.  Once an effect or a bootstrap was admitted, the next one waits
until the owner of the row reported that the command ended (and, of an effect, before that it was
spawned), or until a fence of exactly that owner is on record.
-/

namespace Shaula

open Core Library Library.Outcome

variable {P : Platform} {id : Uuid}

/-! ## The two fields of a row -/

/-- A command handed over is the active one, and a worker has its backend's row. -/
structure View.Commanded (v : View) : Prop where
  handed : ∀ w a, v.worker = some w → w.handover = some a → w.activeCommand = some a
  backed : ∀ w, v.worker = some w → ∃ c, v.state = some c

theorem WorkerColumns.noteSeen_command (document : StateDocument P) (w : WorkerColumns) :
    (w.noteSeen document).phase = w.phase ∧ (w.noteSeen document).handover = w.handover ∧
      (w.noteSeen document).activeCommand = w.activeCommand := by
  unfold noteSeen
  split <;> exact ⟨rfl, rfl, rfl⟩

/-- A change that hands a command over makes it the active one. -/
theorem Change.handed {r : Request P} {v v' : View} {w' : WorkerColumns} {a : String}
    (h : Change P id r v v') (hv : v.Commanded) (hw' : v'.worker = some w')
    (ha : w'.handover = some a) : w'.activeCommand = some a := by
  cases h with
  | written =>
    obtain ⟨w, hw, rfl⟩ := Option.map_eq_some_iff.mp hw'
    rw [(w.noteSeen_command _).2.1] at ha
    rw [(w.noteSeen_command _).2.2]
    exact hv.handed w a hw ha
  | launchPending _ hl | registered _ hl | inputRetained _ hl | cleanupVerified _ hl =>
    cases hw'
    have hold := hv.handed _ a hl.worker
    exact hold ha
  | spawnAcked | workerFenced | released | replaced | admitted | imported =>
    cases hw'
    cases ha
  | commandEnded _ _ _ hnone =>
    cases hw'
    cases hnone.symm.trans ha
  | createStarting | destroyStarting =>
    cases hw'
    exact ha
  | bootstrapStarted _ _ _ _ hidle =>
    cases hw'
    cases hidle.1.symm.trans ha
  | reaped _ hw | completed _ _ hw | finalized _ hw =>
    cases hw'
    have hold := hv.handed _ a hw
    exact hold ha
  | quarantined _ _ _ hw _ _ _ _ _ hkept =>
    cases hw'
    rcases hkept with rfl | rfl
    · have hold := hv.handed _ a hw
      exact hold ha
    · cases ha
  | _ => exact hv.handed w' a hw' ha

/-- No change takes the backend of a worker away. -/
theorem Change.backed {r : Request P} {v v' : View} {w' : WorkerColumns}
    (h : Change P id r v v') (hv : v.Commanded) (hw' : v'.worker = some w') :
    ∃ c', v'.state = some c' := by
  have hkept : ∀ c, v.state = some c → ∃ c', v'.state = some c' := by
    intro c hc
    rcases h.authority hc with ⟨c', hc', -⟩ | ⟨w, draw, hreplaces⟩
    · exact ⟨c', hc'⟩
    · obtain ⟨record, -, -, -, -, hc', -⟩ := hreplaces.rotated
      exact ⟨_, hc'⟩
  cases hw : v.worker with
  | some w =>
    obtain ⟨c, hc⟩ := hv.backed w hw
    exact hkept c hc
  | none =>
    cases h with
    | admitted | imported => exact ⟨_, rfl⟩
    | written =>
      obtain ⟨w, hsome, -⟩ := Option.map_eq_some_iff.mp hw'
      cases hw.symm.trans hsome
    | launchPending _ hl | registered _ hl | inputRetained _ hl | cleanupVerified _ hl
    | spawnAcked _ hl | commandEnded _ hl | workerFenced _ hl => cases hw.symm.trans hl.worker
    | reaped _ hsome | createStarting _ _ _ _ hsome | destroyStarting _ _ _ _ hsome
    | bootstrapStarted _ hsome | completed _ _ hsome | finalized _ hsome | released _ _ _ hsome
    | quarantined _ _ _ hsome | replaced _ _ _ hsome => cases hw.symm.trans hsome
    | _ => cases hw.symm.trans hw'

theorem View.Commanded.change {r : Request P} {v v' : View} (hv : v.Commanded)
    (h : Change P id r v v') : v'.Commanded :=
  ⟨fun _ _ hw' ha => h.handed hv hw' ha, fun _ hw' => h.backed hv hw'⟩

theorem System.Reached.commanded {σ : System} (hσ : System.Reached P σ) (id : Uuid) :
    (σ.view id).Commanded :=
  hσ.view_invariant ⟨fun _ _ h => (by cases h), fun _ h => (by cases h)⟩
    fun _ _ _ hchange hv => hv.change hchange

/-! ## Admission of a command -/

/-- Serving `r` admits the command `a` of generation `id`: an effect, which is handed over and has to
be spawned, or a bootstrap. -/
inductive Admits (P : Platform) (s : Store) (id : Uuid) : Request P → String → Bool → Store → Prop
  | effect {proof : PlanProvenance} {path : String} {now : Int} {s' : Store} :
      proof.generationId = id → s.recordApplyStarting P proof path now = .ok s' →
      Admits P s id (.recordApplyStarting proof path now) proof.attemptId true s'
  | control {session : ControlAccess} {capability : ControlCapability} {claim : StateClaim}
      {proof : PlanProvenance} {path : String} {now : Int} {s' : Store} :
      proof.generationId = id →
      s.applyStarting P session capability claim proof path now = .ok s' →
      Admits P s id (.applyStarting session capability claim proof path now) proof.attemptId true s'
  | bootstrap {proof : PlanProvenance} {now : Int} {s' : Store} : proof.generationId = id →
      s.operationBootstrapStarting proof now = .ok (some s') →
      Admits P s id (.recordBootstrapStarting proof now) ("bootstrap:" ++ proof.attemptId) false s'

/-- The command `a` runs and, if it has to be spawned yet, is handed over; or the worker stopped and
starts nothing any more. -/
def WorkerColumns.Busy (w : WorkerColumns) (a : String) (handed : Bool) : Prop :=
  (w.phase = .running ∧ w.activeCommand = some a ∧ (handed = true → w.handover = some a)) ∨
    w.phase = .fenced ∨ w.phase = .quarantined ∨ w.phase = .completed

theorem WorkerColumns.Busy.not_ready {w : WorkerColumns} {a : String} {handed : Bool}
    (h : w.Busy a handed) (hrunning : w.phase = .running) : ¬ w.Idle := by
  intro hidle
  rcases h with ⟨-, hactive, -⟩ | hphase | hphase | hphase
  · cases hidle.2.symm.trans hactive
  all_goals cases hrunning.symm.trans hphase

/-- What the gate checked of a worker, and what it wrote into its row. -/
structure Store.Gated (s s' : Store) (id : Uuid) (w : WorkerColumns) (a : String) (handed : Bool) :
    Prop where
  running : w.phase = .running
  idle : w.Idle
  busy : ∃ w', (s'.view id).worker = some w' ∧ w'.Busy a handed
  owner : ∀ c, (s.view id).state = some c →
    ∃ c', (s'.view id).state = some c' ∧ ∀ claim, c.Owns claim → c'.Owns claim

theorem Store.Gated.of_view {s s₁ s' : Store} {w : WorkerColumns} {a : String} {handed : Bool}
    (h : s₁.Gated s' id w a handed) (hview : s₁.view = s.view) : s.Gated s' id w a handed :=
  ⟨h.running, h.idle, h.busy, fun c hc => h.owner c (by rw [hview]; exact hc)⟩

theorem Store.workerEffectOn_gated {s s' : Store} {proof : PlanProvenance} {w : WorkerColumns}
    (hw : (s.view proof.generationId).worker = some w) (h : s.workerEffectOn P proof = .ok s') :
    s.Gated s' proof.generationId w proof.attemptId true := by
  cases hintent : proof.intent with
  | create =>
    obtain ⟨c, document, input, v', hstarted, hview⟩ := workerEffectOn_create hintent hw h
    have hafter := hstarted.after
    subst hafter
    refine ⟨hstarted.running, hstarted.idle, ?_, ?_⟩
    · rw [hview, Function.update_self]
      exact ⟨_, rfl, .inl ⟨hstarted.running, rfl, fun _ => rfl⟩⟩
    · intro c₁ hc₁
      cases Option.some.inj (hc₁.symm.trans hstarted.state)
      rw [hview, Function.update_self]
      exact ⟨_, rfl, fun claim howns => howns⟩
  | destroy =>
    have hread : s.readWorker proof.generationId = some w := hw
    simp only [workerEffectOn, hread, hintent, bind_eq_ok, okOr_eq_ok] at h
    obtain ⟨_, hphase, _, -, _, -, _, -, _, -, _, -, _, -, _, -, hset⟩ := h
    obtain ⟨hrunning, hidle⟩ := ensure_eq_ok.mp hphase
    have hview := handOver_view hw hset
    refine ⟨hrunning, hidle, ?_, ?_⟩
    · rw [hview, Function.update_self]
      exact ⟨_, rfl, .inl ⟨hrunning, rfl, fun _ => rfl⟩⟩
    · intro c hc
      rw [hview, Function.update_self]
      exact ⟨c, hc, fun claim howns => howns⟩

theorem Store.workerBootstrapOn_gated {s s' : Store} {proof : PlanProvenance} {w : WorkerColumns}
    (hw : (s.view proof.generationId).worker = some w) (h : s.workerBootstrapOn proof = .ok s') :
    s.Gated s' proof.generationId w ("bootstrap:" ++ proof.attemptId) false := by
  have hread : s.readWorker proof.generationId = some w := hw
  simp only [workerBootstrapOn, hread, bind_eq_ok] at h
  obtain ⟨_, hphase, hset⟩ := h
  obtain ⟨hrunning, -, hidle⟩ := ensure_eq_ok.mp hphase
  obtain ⟨hview, -⟩ := setWorker_ok hset
  refine ⟨hrunning, hidle, ?_, ?_⟩
  · rw [hview, Function.update_self]
    simp only [hw, Option.map_some]
    exact ⟨_, rfl, .inl ⟨hrunning, rfl, nofun⟩⟩
  · intro c hc
    rw [hview, Function.update_self]
    exact ⟨c, hc, fun claim howns => howns⟩

namespace Admits

variable {s s' : Store} {r : Request P} {a : String} {handed : Bool}

/-- Only an idle, running worker is admitted a command, and is busy with it afterwards. -/
theorem gated {w : WorkerColumns} (h : Admits P s id r a handed s')
    (hw : (s.view id).worker = some w) : s.Gated s' id w a handed := by
  cases h with
  | @effect proof path now s' hid hok =>
    subst hid
    obtain ⟨s₁, hview, heffect⟩ := Store.recordApplyStarting_ok hok
    rw [← hview] at hw
    exact (Store.workerEffectOn_gated hw heffect).of_view hview
  | @control session capability claim proof path now s' hid hok =>
    subst hid
    obtain ⟨s₁, hview, heffect⟩ := Store.recordApplyStarting_ok (Store.applyStarting_ok hok)
    rw [← hview] at hw
    exact (Store.workerEffectOn_gated hw heffect).of_view hview
  | @bootstrap proof now s' hid hok =>
    subst hid
    unfold Store.operationBootstrapStarting at hok
    split at hok
    · cases hok
    · split at hok
      · cases hok
      · simp only [bind_eq_ok, mapError_eq_ok, pure_eq_ok, Option.some.injEq] at hok
        obtain ⟨s₁, hboot, rfl⟩ := hok
        refine Store.Gated.of_view (Store.workerBootstrapOn_gated ?_ hboot) rfl
        exact hw

/-- The request of an admission leaves the store it admitted in. -/
theorem exec {d : Daemon} (h : Admits P d.store id r a handed s') :
    (d.exec P r).1.store = s' := by
  cases h with
  | effect _ hok | control _ hok => simp only [Daemon.exec, hok, Daemon.transact]
  | bootstrap _ hok => simp only [Daemon.exec, hok]

end Admits

/-! ## Fences of an owner -/

/-- A fence with a proof is on record for exactly this owner. -/
def Store.Fenced (s : Store) (claim : StateClaim) : Prop :=
  ∃ f, s.fences.find claim.workerAttempt = some f ∧ f.generationId = claim.generationId ∧
    f.workerEpoch = claim.workerEpoch ∧ f.outcome = .fenced

/-- Serving `r` commits a recovery of exactly this owner, whose executor is proved gone. -/
inductive Fences (P : Platform) (s : Store) (claim : StateClaim) : Request P → Prop
  | direct {record : RecoveryRecord} {preserve : Bool} {draw : Draw} {s' : Store}
      {issued : Option WorkerAdmission} : record.claim = claim →
      s.recoverWorker P record .fenced preserve draw = .ok (s', issued) →
      Fences P s claim (.recoverWorker record .fenced preserve draw)
  | reported {access : ControlAccess} {draw : Draw} {s' : Store}
      {issued : Option WorkerAdmission} : access.claim = claim →
      s.replaceFenced P access draw = .ok (s', issued) →
      Fences P s claim (.replaceFenced access draw)

namespace Store

variable {s s' : Store}

theorem completeState_fences {row : Row} {anchorable b : Bool}
    (h : s.completeState P row anchorable = .ok (s', b)) : s'.fences = s.fences := by
  unfold completeState at h
  split at h
  · split at h
    · obtain ⟨g, g', -, -, -, hsame, -⟩ := CreateProof.verified_ok h
      rw [hsame]
    · cases h
      rfl
  · cases h
    rfl

theorem quarantineWorker_fences {outcome : FenceOutcome}
    (h : s.quarantineWorker id outcome = .ok s') : s'.fences = s.fences := by
  simp only [quarantineWorker, bind_eq_ok] at h
  obtain ⟨s₁, hstate, s₂, hworker, h⟩ := h
  have hkept : s₂.fences = s.fences := by
    rw [(setWorker_ok hworker).2, (setState_ok hstate).2]
  split at h
  · rw [(setWorker_ok h).2]
    exact hkept
  · cases pure_eq_ok.mp h
    exact hkept

theorem replaceWorker_fences {admission : WorkerAdmission} {cleanupRevision : Option Int}
    (h : s.replaceWorker P id admission cleanupRevision = .ok s') : s'.fences = s.fences := by
  simp only [replaceWorker, bind_eq_ok, pure_eq_ok] at h
  obtain ⟨s₁, hstate, s₂, hworker, rfl⟩ := h
  show s₂.fences = s.fences
  rw [(setWorker_ok hworker).2, (setState_ok hstate).2]

/-- A recovery of an attempt that is not quarantined yet records its fence. -/
theorem recoverWorker_fences {record : RecoveryRecord} {outcome : FenceOutcome} {preserve : Bool}
    {draw : Draw} {issued : Option WorkerAdmission} {w : WorkerColumns}
    (hw : (s.view record.generationId).worker = some w) (hlive : w.phase ≠ .quarantined)
    (h : s.recoverWorker P record outcome preserve draw = .ok (s', issued)) :
    ∃ f, s'.fences.find record.workerAttempt = some f ∧ f.generationId = record.generationId ∧
      f.workerEpoch = record.workerEpoch ∧ f.outcome = outcome := by
  simp only [recoverWorker, bind_eq_ok, okOr_eq_ok] at h
  obtain ⟨row, -, _, -, w₁, hw₁, _, -, h⟩ := h
  cases Option.some.inj (hw₁.symm.trans hw)
  rw [if_neg hlive] at h
  simp only [bind_eq_ok, Prod.exists] at h
  obtain ⟨s₁, hfence, s₂, complete, hcomplete, h⟩ := h
  have hkept : s'.fences = s₁.fences := by
    split at h
    · simp only [bind_eq_ok, pure_eq_ok, Prod.mk.injEq] at h
      obtain ⟨s₃, hset, rfl, -⟩ := h
      rw [quarantineWorker_fences hset, completeState_fences hcomplete]
    · simp only [bind_eq_ok, okOr_eq_ok, pure_eq_ok, Prod.mk.injEq] at h
      obtain ⟨epoch, -, s₃, hset, rfl, -⟩ := h
      rw [replaceWorker_fences hset, completeState_fences hcomplete]
  simp only [insertFence, bind_eq_ok, okOr_eq_ok, pure_eq_ok] at hfence
  obtain ⟨fences, hcreate, rfl⟩ := hfence
  obtain ⟨-, rfl⟩ := Table.create_eq_some.mp hcreate
  rw [hkept]
  exact ⟨_, (Table.find_put ..).trans (if_pos rfl), rfl, rfl, rfl⟩

/-- A recovery that could prove nothing leaves the command of the attempt as it was. -/
theorem recoverWorker_unknown {record : RecoveryRecord} {preserve : Bool} {draw : Draw}
    {issued : Option WorkerAdmission} {w : WorkerColumns}
    (hw : (s.view record.generationId).worker = some w)
    (h : s.recoverWorker P record .unknown preserve draw = .ok (s', issued)) :
    ∃ w', (s'.view record.generationId).worker = some w' ∧ w'.phase = .quarantined ∧
      w'.handover = w.handover ∧ w'.activeCommand = w.activeCommand := by
  simp only [recoverWorker, bind_eq_ok, okOr_eq_ok] at h
  obtain ⟨row, hload, _, -, w₁, hw₁, _, -, h⟩ := h
  cases Option.some.inj (hw₁.symm.trans hw)
  split at h
  · next hphase =>
    cases pure_eq_ok.mp h
    exact ⟨w, hw, hphase, rfl, rfl⟩
  · simp only [bind_eq_ok, Prod.exists] at h
    obtain ⟨s₁, hfence, s₂, complete, hcomplete, h⟩ := h
    rw [if_pos (.inl (by decide))] at h
    simp only [quarantineWorker, bind_eq_ok, pure_eq_ok, Prod.mk.injEq] at h
    obtain ⟨s₃, ⟨s₄, hstate, s₅, hworker, rfl⟩, rfl, -⟩ := h
    have hw₂ : (s₂.view record.generationId).worker = some w := by
      obtain ⟨c, g, hc, hg, rfl⟩ := Row.load_eq_ok.mp hload
      have hview := insertFence_view hfence
      obtain ⟨g', hview', -⟩ := completeState_ok (by rw [hview]; exact hg) hcomplete
      rw [hview', Function.update_self, hview]
      exact hw
    rw [view_setGeneration, Function.update_self, (setWorker_ok hworker).1, Function.update_self,
      (setState_ok hstate).1, Function.update_self, hw₂]
    exact ⟨_, rfl, rfl, rfl, rfl⟩

end Store

/-- What a recovery request left: the store, or the result of a recovery of the same owner. -/
theorem Recovers.commits {d : Daemon} {record : RecoveryRecord} {outcome : FenceOutcome}
    {preserve : Bool} {draw : Draw} {r : Request P}
    (h : Recovers record outcome preserve draw r) :
    (d.exec P r).1.store = d.store ∨ ∃ record' issued, record'.claim = record.claim ∧
      d.store.recoverWorker P record' outcome preserve draw =
        .ok ((d.exec P r).1.store, issued) ∧
      (outcome = .fenced → Fences P d.store record.claim r) := by
  cases h with
  | direct =>
    rcases Daemon.transactIssuing_store (d := d) (P := P)
      (d.store.recoverWorker P record outcome preserve draw) with hsame | ⟨issued, hok⟩
    · exact .inl hsame
    · refine .inr ⟨record, issued, rfl, hok, ?_⟩
      rintro rfl
      exact .direct rfl hok
  | @fenced access hclaim houtcome hpreserve =>
    subst houtcome hpreserve
    rcases Daemon.transactIssuing_store (d := d) (P := P)
      (d.store.replaceFenced P access draw) with hsame | ⟨issued, hok⟩
    · exact .inl hsame
    · obtain ⟨record', hclaim', hrecover, -⟩ := Store.replaceFenced_changes hok
      exact .inr ⟨record', issued, hclaim'.trans hclaim.symm, hrecover,
        fun _ => .reported hclaim.symm hok⟩

/-- The claim that owns a row of generation `id`. -/
def StateColumns.claim (id : Uuid) (c : StateColumns) : StateClaim where
  generationId := id
  workerEpoch := c.workerEpoch
  workerAttempt := c.workerAttempt

theorem StateColumns.Owns.claim_eq {c : StateColumns} {claim : StateClaim} (h : c.Owns claim)
    (hid : claim.generationId = id) : claim = c.claim id := by
  obtain ⟨generation, epoch, attempt⟩ := claim
  obtain ⟨rfl, rfl⟩ := h
  cases hid
  rfl

/-- A replacement puts the fence of the owner it ends on record. -/
theorem Replaces.fenced {d : Daemon} {r : Request P} {c : StateColumns} {w : WorkerColumns}
    {draw : Draw}
    (h : Replaces P id r (d.store.view id) ((d.exec P r).1.store.view id) c w draw) :
    (d.exec P r).1.store.Fenced (c.claim id) ∧ Fences P d.store (c.claim id) r := by
  obtain ⟨record, preserve, hrecovers, hid, howns, hrow, -⟩ := h.rotated
  have hclaim : record.claim = c.claim id := howns.claim_eq hid
  rcases hrecovers.commits (d := d) with hsame | ⟨record', issued, hclaim', hok, hfences⟩
  · rw [hsame] at hrow
    have hepoch : c.workerEpoch = c.workerEpoch + 1 :=
      congrArg StateColumns.workerEpoch (Option.some.inj (h.state.symm.trans hrow))
    omega
  · rw [hclaim] at hclaim' hfences
    have hid' : record'.generationId = id := congrArg StateClaim.generationId hclaim'
    have hw : (d.store.view record'.generationId).worker = some w := by
      rw [hid']
      exact h.worker
    obtain ⟨f, hf, hgeneration, hepoch, houtcome⟩ := Store.recoverWorker_fences hw h.live hok
    refine ⟨⟨f, ?_, hgeneration.trans hid', ?_, houtcome⟩, hfences rfl⟩
    · rw [← hclaim']
      exact hf
    · rw [← hclaim']
      exact hepoch

/-! ## What one step does to a command -/

/-- A busy worker stays busy until its owner reports the command, or until it is replaced. -/
theorem Change.command {r : Request P} {v v' : View} {w : WorkerColumns} {a : String}
    {handed : Bool} (h : Change P id r v v') (hw : v.worker = some w) (hbusy : w.Busy a handed) :
    (∃ w', v'.worker = some w' ∧ w'.Busy a handed) ∨
      (∃ access c, r = .spawnAck access a ∧ access.claim.generationId = id ∧ v.state = some c ∧
        c.Owns access.claim ∧ handed = true ∧ v' ≠ v ∧
        ∃ w', v'.worker = some w' ∧ w'.Busy a false) ∨
      (∃ access c, r = .commandEnded access a ∧ access.claim.generationId = id ∧
        v.state = some c ∧ c.Owns access.claim ∧ handed = false ∧ v' ≠ v) ∨
      ∃ c draw, Replaces P id r v v' c w draw := by
  cases h with
  | written =>
    refine .inl ⟨_, by rw [hw]; rfl, ?_⟩
    obtain ⟨hphase, hhandover, hactive⟩ := w.noteSeen_command _
    unfold WorkerColumns.Busy
    rw [hphase, hhandover, hactive]
    exact hbusy
  | admitted _ _ _ hnone | imported _ _ hnone => cases hnone.symm.trans hw
  | launchPending _ hl hphase | registered _ hl hphase =>
    cases Option.some.inj (hl.worker.symm.trans hw)
    rcases hbusy with ⟨hother, -⟩ | hother | hother | hother <;> cases hphase.symm.trans hother
  | inputRetained _ hl =>
    cases Option.some.inj (hl.worker.symm.trans hw)
    exact .inl ⟨_, rfl, hbusy⟩
  | cleanupVerified _ hl =>
    cases Option.some.inj (hl.worker.symm.trans hw)
    exact .inl ⟨_, rfl, hbusy⟩
  | @spawnAcked access attempt _ c _ _ hid hl hrunning hattempt =>
    cases Option.some.inj (hl.worker.symm.trans hw)
    rcases hbusy with ⟨-, hactive, hhanded⟩ | hphase | hphase | hphase
    · cases Option.some.inj (hattempt.symm.trans hactive)
      cases handed with
      | false => exact .inl ⟨_, rfl, .inl ⟨hrunning, hactive, nofun⟩⟩
      | true =>
        refine .inr (.inl ⟨access, c, rfl, hid, hl.state, hl.owns, rfl, ?_, _, rfl,
          .inl ⟨hrunning, hactive, nofun⟩⟩)
        intro hsame
        have hhandover : some a = none := by
          rw [← hhanded rfl, ← Option.some.inj ((congrArg View.worker hsame).trans hw)]
        cases hhandover
    all_goals cases hrunning.symm.trans hphase
  | @commandEnded access attempt _ c _ _ hid hl hrunning hnone hattempt =>
    cases Option.some.inj (hl.worker.symm.trans hw)
    rcases hbusy with ⟨-, hactive, hhanded⟩ | hphase | hphase | hphase
    · cases Option.some.inj (hattempt.symm.trans hactive)
      cases handed with
      | true => cases hnone.symm.trans (hhanded rfl)
      | false =>
        refine .inr (.inr (.inl ⟨access, c, rfl, hid, hl.state, hl.owns, rfl, ?_⟩))
        intro hsame
        have hended : some a = none := by
          rw [← hactive, ← Option.some.inj ((congrArg View.worker hsame).trans hw)]
        cases hended
    all_goals cases hrunning.symm.trans hphase
  | workerFenced _ hl =>
    cases Option.some.inj (hl.worker.symm.trans hw)
    exact .inl ⟨_, rfl, .inr (.inl rfl)⟩
  | reaped _ hworker =>
    cases Option.some.inj (hworker.symm.trans hw)
    exact .inl ⟨_, rfl, hbusy⟩
  | createStarting _ _ _ _ hworker hrunning hidle | destroyStarting _ _ _ _ hworker hrunning hidle
  | bootstrapStarted _ hworker hrunning _ hidle =>
    cases Option.some.inj (hworker.symm.trans hw)
    exact absurd hidle (hbusy.not_ready hrunning)
  | completed _ _ hworker | finalized _ hworker =>
    cases Option.some.inj (hworker.symm.trans hw)
    exact .inl ⟨_, rfl, .inr (.inr (.inr rfl))⟩
  | released _ _ _ hworker _ _ hphase =>
    cases Option.some.inj (hworker.symm.trans hw)
    exact .inl ⟨_, rfl, .inr (.inr (.inl hphase))⟩
  | quarantined _ _ _ _ _ _ _ _ _ hkept =>
    refine .inl ⟨_, rfl, .inr (.inr (.inl ?_))⟩
    rcases hkept with rfl | rfl <;> rfl
  | replaced hrecovers hid hstate hworker _ howns hunsealed _ hlive =>
    cases Option.some.inj (hworker.symm.trans hw)
    exact .inr (.inr (.inr ⟨_, _, hstate, hworker, hunsealed, hlive, _, _, hrecovers, hid, howns,
      rfl, rfl⟩))
  | _ => exact .inl ⟨w, hw, hbusy⟩

/-- The command `a` of the owner is in flight. -/
def View.InFlight (v : View) (claim : StateClaim) (a : String) (handed : Bool) : Prop :=
  ∃ c w, v.state = some c ∧ c.Owns claim ∧ v.worker = some w ∧ w.Busy a handed

namespace System

variable {σ τ υ : System} {l : Label P} {claim : StateClaim} {a : String} {handed : Bool}
  {trace : List (System × Label P × System)}

/-- The step serves `r`, and answers that it succeeded. -/
def Accepted (r : Request P) (e : System × Label P × System) : Prop :=
  e.2.1.request = some r ∧ ∃ reply, (e.1.daemon.exec P r).2 = .ok reply

/-- The store after a step is the one before, or the one its request left. -/
theorem Step.store (h : Step P σ l τ) : τ.daemon.store = σ.daemon.store ∨
    ∃ r, l.request = some r ∧ τ.daemon.store = (σ.daemon.exec P r).1.store := by
  cases h with
  | served r | crashed r => exact .inr ⟨r, rfl, rfl⟩
  | failed | restarted => exact .inl rfl

/-- A transaction that changed something was accepted. -/
theorem accepted_of_transact {ε : Type} {r : Request P} {wrap : ε → RequestError}
    {result : Except ε Store} (hr : l.request = some r)
    (hexec : σ.daemon.exec P r = σ.daemon.transact wrap result)
    (hchanged : (σ.daemon.exec P r).1 ≠ σ.daemon) : Accepted r (σ, l, τ) := by
  refine ⟨hr, ?_⟩
  cases hresult : result with
  | ok store => exact ⟨.done, by rw [hexec, hresult]; rfl⟩
  | error e =>
    refine absurd ?_ hchanged
    rw [hexec, hresult]
    rfl

/-- What one step does to a command in flight: it stays so, its spawn or its end is reported under
exactly its owner and name, or exactly its owner is fenced. -/
theorem Step.inFlight (h : Step P σ l τ)
    (hσ : (σ.view claim.generationId).InFlight claim a handed) :
    (τ.view claim.generationId).InFlight claim a handed ∨
      (handed = true ∧ (τ.view claim.generationId).InFlight claim a false ∧
        ∃ access, access.claim = claim ∧ Accepted (.spawnAck access a) (σ, l, τ)) ∨
      (handed = false ∧
        ∃ access, access.claim = claim ∧ Accepted (.commandEnded access a) (σ, l, τ)) ∨
      τ.daemon.store.Fenced claim := by
  rcases h.store with hsame | ⟨r, hr, hstore⟩
  · left
    show (τ.daemon.store.view claim.generationId).InFlight claim a handed
    rw [hsame]
    exact hσ
  obtain ⟨c, w, hc, howns, hw, hbusy⟩ := hσ
  have hchange := σ.daemon.exec_change r claim.generationId
  have hclaim : claim = c.claim claim.generationId := howns.claim_eq rfl
  have hfences : ∀ {c₁ w₁ draw}, Replaces P claim.generationId r
      (σ.daemon.store.view claim.generationId)
      ((σ.daemon.exec P r).1.store.view claim.generationId) c₁ w₁ draw →
      τ.daemon.store.Fenced claim := by
    intro c₁ w₁ draw hreplaces
    cases Option.some.inj (hreplaces.state.symm.trans hc)
    rw [hstore, hclaim]
    exact hreplaces.fenced.1
  have hview : τ.view claim.generationId =
      (σ.daemon.exec P r).1.store.view claim.generationId :=
    congrArg (fun s : Store => s.view claim.generationId) hstore
  have hother : ∀ access : ControlAccess, access.claim.generationId = claim.generationId →
      ∀ c₁, (σ.daemon.store.view claim.generationId).state = some c₁ → c₁.Owns access.claim →
      access.claim = claim := by
    intro access hid c₁ hc₁ howns₁
    cases Option.some.inj (hc₁.symm.trans hc)
    rw [howns₁.claim_eq hid, ← hclaim]
  have hmoved : (σ.daemon.exec P r).1.store.view claim.generationId ≠
      σ.daemon.store.view claim.generationId → (σ.daemon.exec P r).1 ≠ σ.daemon := by
    intro hne hdaemon
    exact hne (by rw [hdaemon])
  rcases hchange.authority hc with ⟨c', hc', hkeeps⟩ | ⟨w₁, draw, hreplaces⟩
  · have howns' : c'.Owns claim :=
      ⟨hkeeps.workerEpoch.trans howns.1, hkeeps.workerAttempt.trans howns.2⟩
    rw [hview]
    rcases hchange.command hw hbusy with ⟨w', hw', hbusy'⟩ |
      ⟨access, c₁, rfl, hid, hc₁, howns₁, hhanded, hne, w', hw', hbusy'⟩ |
      ⟨access, c₁, rfl, hid, hc₁, howns₁, hhanded, hne⟩ | ⟨c₁, draw, hreplaces⟩
    · exact .inl ⟨c', w', hc', howns', hw', hbusy'⟩
    · exact .inr (.inl ⟨hhanded, ⟨c', w', hc', howns', hw', hbusy'⟩, access,
        hother access hid c₁ hc₁ howns₁, accepted_of_transact hr rfl (hmoved hne)⟩)
    · exact .inr (.inr (.inl ⟨hhanded, access, hother access hid c₁ hc₁ howns₁,
        accepted_of_transact hr rfl (hmoved hne)⟩))
    · exact .inr (.inr (.inr (hfences hreplaces)))
  · exact .inr (.inr (.inr (hfences hreplaces)))

/-- The command is over: the owner reported its spawn, if it was handed over, and later its end, or
a fence of exactly the owner is on record. -/
inductive Over (claim : StateClaim) (a : String) :
    Bool → List (System × Label P × System) → Prop
  | later {handed : Bool} {e : System × Label P × System}
      {trace : List (System × Label P × System)} :
      Over claim a handed trace → Over claim a handed (e :: trace)
  | spawned {access : ControlAccess} {e : System × Label P × System}
      {trace : List (System × Label P × System)} : access.claim = claim →
      Accepted (.spawnAck access a) e → Over claim a false trace → Over claim a true (e :: trace)
  | ended {access : ControlAccess} {e : System × Label P × System}
      {trace : List (System × Label P × System)} : access.claim = claim →
      Accepted (.commandEnded access a) e → Over claim a false (e :: trace)
  | fenced {handed : Bool} {e : System × Label P × System}
      {trace : List (System × Label P × System)} : e.2.2.daemon.store.Fenced claim →
      Over claim a handed (e :: trace)

/-- Along a run a command stays in flight until it is over. -/
theorem Run.inFlight (hrun : Run (Step P) σ trace τ)
    (hσ : (σ.view claim.generationId).InFlight claim a handed) :
    (∃ handed', (τ.view claim.generationId).InFlight claim a handed') ∨
      Over claim a handed trace := by
  induction hrun generalizing handed with
  | nil => exact .inl ⟨handed, hσ⟩
  | cons hstep _ ih =>
    rcases hstep.inFlight hσ with hstays | ⟨rfl, hstays, access, hclaim, hack⟩ |
      ⟨rfl, access, hclaim, hend⟩ | hfenced
    · exact (ih hstays).imp_right .later
    · exact (ih hstays).imp_right fun hover => .spawned hclaim hack hover
    · exact .inr (.ended hclaim hend)
    · exact .inr (.fenced hfenced)

/-- An admission puts the command in flight under the owner of the row. -/
theorem Step.admits {r : Request P} {s' : Store} {c : StateColumns} {w : WorkerColumns}
    (h : Step P σ l τ) (hr : l.request = some r) (hadmits : Admits P σ.daemon.store id r a handed s')
    (hc : (σ.view id).state = some c) (hw : (σ.view id).worker = some w) :
    (τ.view id).InFlight (c.claim id) a handed := by
  have hstore : τ.daemon.store = s' := by
    cases h with
    | served _ _ | crashed _ _ =>
      cases hr
      exact hadmits.exec
    | failed | restarted => cases hr
  have hgated := hadmits.gated hw
  obtain ⟨c', hc', howns⟩ := hgated.owner c hc
  obtain ⟨w', hw', hbusy⟩ := hgated.busy
  rw [← hstore] at hc' hw'
  exact ⟨c', w', hc', howns _ ⟨rfl, rfl⟩, hw', hbusy⟩

/-- Between two admissions the first command is over. -/
theorem over_between {r r' : Request P} {s₁ s₂ : Store} {a' : String} {handed' : Bool}
    (hσ : Reached P σ) (hstep : Step P σ l τ) (hr : l.request = some r)
    (hfirst : Admits P σ.daemon.store id r a handed s₁)
    (hworker : (σ.view id).worker.isSome = true) (hrun : Run (Step P) τ trace υ)
    (hsecond : Admits P υ.daemon.store id r' a' handed' s₂) :
    ∃ c, (σ.view id).state = some c ∧ Over (c.claim id) a handed trace := by
  obtain ⟨w, hw⟩ := Option.isSome_iff_exists.mp hworker
  obtain ⟨c, hc⟩ := (hσ.commanded id).backed w hw
  refine ⟨c, hc, ?_⟩
  have hflight : (τ.view (c.claim id).generationId).InFlight (c.claim id) a handed :=
    hstep.admits hr hfirst hc hw
  rcases Run.inFlight hrun hflight with ⟨handed₁, c₁, w₁, -, -, hw₁, hbusy⟩ | hover
  · have hgated := hsecond.gated hw₁
    exact absurd hgated.idle (hbusy.not_ready hgated.running)
  · exact hover

end System

/-! ## A quarantined attempt -/

/-- The attempt is quarantined, or an operator ended it. -/
def View.Halted (v : View) (w : WorkerColumns) : Prop :=
  w.phase = .quarantined ∨ (w.phase = .completed ∧ ∃ c, v.state = some c ∧ c.sealed = true)

/-- A quarantined attempt keeps its command, unless a recovery of its owner released it. -/
theorem Change.halted {r : Request P} {v v' : View} {w : WorkerColumns} (h : Change P id r v v')
    (hv : v.QuarantineRevoked) (hw : v.worker = some w) (hhalted : v.Halted w) :
    (∃ w', v'.worker = some w' ∧ w'.handover = w.handover ∧
        w'.activeCommand = w.activeCommand ∧ v'.Halted w') ∨
      ∃ record outcome preserve draw c, Recovers record outcome preserve draw r ∧
        record.generationId = id ∧ v.state = some c ∧ c.Owns record.claim := by
  have hsealed : ∀ {v₁ : View} {w₁ : WorkerColumns}, w₁.phase = w.phase →
      (∀ c, v.state = some c → c.sealed = true → ∃ c', v₁.state = some c' ∧ c'.sealed = true) →
      v₁.Halted w₁ := by
    intro v₁ w₁ hsame hkeeps
    unfold View.Halted
    rw [hsame]
    exact hhalted.imp_right fun ⟨hphase, c, hc, hseal⟩ => ⟨hphase, hkeeps c hc hseal⟩
  cases h with
  | locked _ hgranted | unlocked _ hgranted =>
    refine .inl ⟨w, hw, rfl, rfl, hsealed rfl fun c hc hseal => ?_⟩
    cases Option.some.inj (hgranted.state.symm.trans hc)
    exact ⟨_, rfl, hseal⟩
  | written _ hgranted =>
    obtain ⟨hphase, hhandover, hactive⟩ := w.noteSeen_command _
    refine .inl ⟨_, by rw [hw]; rfl, hhandover, hactive, hsealed hphase fun c hc hseal => ?_⟩
    cases Option.some.inj (hgranted.state.symm.trans hc)
    exact ⟨_, rfl, hseal⟩
  | inserted _ _ hnone =>
    exact .inl ⟨w, hw, rfl, rfl, hsealed rfl fun c hc _ => by cases hnone.symm.trans hc⟩
  | revoked _ hstate | createNoted _ hstate | sealed _ hstate =>
    refine .inl ⟨w, hw, rfl, rfl, hsealed rfl fun c hc hseal => ?_⟩
    cases Option.some.inj (hstate.symm.trans hc)
    exact ⟨_, rfl, by first | exact hseal | rfl⟩
  | admitted _ _ _ hnone | imported _ _ hnone => cases hnone.symm.trans hw
  | launchPending _ hl hphase | registered _ hl hphase | inputRetained _ hl hphase
  | cleanupVerified _ hl hphase | spawnAcked _ hl hphase | commandEnded _ hl hphase =>
    cases Option.some.inj (hl.worker.symm.trans hw)
    rcases hhalted with hother | ⟨hother, -⟩ <;> cases hphase.symm.trans hother
  | workerFenced _ hl _ hopen =>
    cases Option.some.inj (hl.worker.symm.trans hw)
    rcases hhalted with hphase | ⟨hphase, -⟩
    · obtain ⟨c, hc, hrevoked⟩ := hv w hw hphase
      cases Option.some.inj (hl.state.symm.trans hc)
      cases hl.unrevoked.symm.trans hrevoked
    · exact absurd hphase hopen
  | reaped _ hworker =>
    cases Option.some.inj (hworker.symm.trans hw)
    exact .inl ⟨_, rfl, rfl, rfl, hhalted⟩
  | createStarting _ _ _ _ hworker hphase | destroyStarting _ _ _ _ hworker hphase
  | bootstrapStarted _ hworker hphase =>
    cases Option.some.inj (hworker.symm.trans hw)
    rcases hhalted with hother | ⟨hother, -⟩ <;> cases hphase.symm.trans hother
  | completed _ _ hworker _ _ _ hphase =>
    cases Option.some.inj (hworker.symm.trans hw)
    exact .inl ⟨_, rfl, rfl, rfl, .inr ⟨rfl, _, rfl, rfl⟩⟩
  | finalized _ hworker =>
    cases Option.some.inj (hworker.symm.trans hw)
    exact .inl ⟨_, rfl, rfl, rfl, .inr ⟨rfl, _, rfl, rfl⟩⟩
  | finalizedBare hnone => cases hnone.symm.trans hw
  | released hrecovers hid hstate _ howns | quarantined hrecovers hid hstate _ _ howns
  | replaced hrecovers hid hstate _ _ howns =>
    exact .inr ⟨_, _, _, _, _, hrecovers, hid, hstate, howns⟩
  | importQuarantined =>
    refine .inl ⟨w, hw, rfl, rfl, hsealed rfl fun c hc hseal => ?_⟩
    exact ⟨{ c with revoked := true }, by rw [hc]; rfl, hseal⟩
  | _ => exact .inl ⟨w, hw, rfl, rfl, hhalted⟩

/-- The attempt of `claim` is halted with these two fields. -/
def View.Held (v : View) (claim : StateClaim) (handover activeCommand : Option String) : Prop :=
  ∃ c w, v.state = some c ∧ c.Owns claim ∧ v.worker = some w ∧ w.handover = handover ∧
    w.activeCommand = activeCommand ∧ v.Halted w

namespace System

variable {σ τ υ : System} {l : Label P} {claim : StateClaim} {a : String} {handed : Bool}
  {trace : List (System × Label P × System)} {handover activeCommand : Option String}

theorem Reached.quarantineRevoked (hσ : Reached P σ) (id : Uuid) :
    (σ.view id).QuarantineRevoked :=
  hσ.view_invariant (fun _ h => by cases h) fun _ _ _ hchange hv => hchange.quarantineRevoked hv

/-- The step commits a recovery that proves exactly this owner gone. -/
def FencedBy (claim : StateClaim) (e : System × Label P × System) : Prop :=
  ∃ r, e.2.1.request = some r ∧ Fences P e.1.daemon.store claim r

theorem Step.held (hσ : Reached P σ) (h : Step P σ l τ)
    (hheld : (σ.view claim.generationId).Held claim handover activeCommand) :
    (τ.view claim.generationId).Held claim handover activeCommand ∨ FencedBy claim (σ, l, τ) := by
  rcases h.store with hsame | ⟨r, hr, hstore⟩
  · left
    show (τ.daemon.store.view claim.generationId).Held claim handover activeCommand
    rw [hsame]
    exact hheld
  have hview : τ.view claim.generationId =
      (σ.daemon.exec P r).1.store.view claim.generationId :=
    congrArg (fun s : Store => s.view claim.generationId) hstore
  have hstays := hheld
  obtain ⟨c, w, hc, howns, hw, rfl, rfl, hhalted⟩ := hheld
  have hclaim : claim = c.claim claim.generationId := howns.claim_eq rfl
  have hchange := σ.daemon.exec_change r claim.generationId
  rcases hchange.authority hc with ⟨c', hc', hkeeps⟩ | ⟨w₁, draw, hreplaces⟩
  · have howns' : c'.Owns claim :=
      ⟨hkeeps.workerEpoch.trans howns.1, hkeeps.workerAttempt.trans howns.2⟩
    rw [hview]
    rcases hchange.halted (hσ.quarantineRevoked _) hw hhalted with
      ⟨w', hw', hhandover, hactive, hhalted'⟩ |
      ⟨record, outcome, preserve, draw, c₁, hrecovers, hid, hc₁, howns₁⟩
    · exact .inl ⟨c', w', hc', howns', hw', hhandover, hactive, hhalted'⟩
    · cases Option.some.inj (hc₁.symm.trans hc)
      have hrecord : record.claim = claim := (howns₁.claim_eq hid).trans hclaim.symm
      rcases hrecovers.commits (d := σ.daemon) with
        hsame | ⟨record', issued, hclaim', hok, hfences⟩
      · rw [hsame]
        exact .inl hstays
      · rw [hrecord] at hclaim' hfences
        have hid' : record'.generationId = claim.generationId :=
          congrArg StateClaim.generationId hclaim'
        cases houtcome : outcome with
        | fenced => exact .inr ⟨r, hr, hfences houtcome⟩
        | unknown =>
          subst houtcome
          obtain ⟨w', hw', hphase, hhandover, hactive⟩ :=
            Store.recoverWorker_unknown (by rw [hid']; exact hw) hok
          rw [hid'] at hw'
          exact .inl ⟨c', w', hc', howns', hw', hhandover, hactive, .inl hphase⟩
  · cases Option.some.inj (hreplaces.state.symm.trans hc)
    refine .inr ⟨r, hr, ?_⟩
    rw [hclaim]
    exact hreplaces.fenced.2

theorem Run.held (hσ : Reached P σ) (hrun : Run (Step P) σ trace τ)
    (hheld : (σ.view claim.generationId).Held claim handover activeCommand) :
    (τ.view claim.generationId).Held claim handover activeCommand ∨
      ∃ e ∈ trace, FencedBy claim e := by
  induction hrun with
  | nil => exact .inl hheld
  | cons hstep _ ih =>
    rcases hstep.held hσ hheld with hstays | hfenced
    · refine (ih (hσ.next hstep) hstays).imp_right ?_
      rintro ⟨e, he, hfenced⟩
      exact ⟨e, List.mem_cons_of_mem _ he, hfenced⟩
    · exact .inr ⟨_, List.mem_cons_self .., hfenced⟩

/-! ## The rows of a command -/

/-- **One command in flight.**  A command handed over is the active one.  Between two admissions of
a generation with a worker the first command is over: its owner reported its spawn, if it is an
effect, and then its end, or was fenced.  An attempt that is quarantined for want of a fence keeps
both fields, until a recovery proves it fenced. -/
theorem one_command_in_flight (hσ : Reached P σ) :
    (∀ id w a, (σ.view id).worker = some w → w.handover = some a → w.activeCommand = some a) ∧
      (∀ {l l' : Label P} {τ υ ρ : System} {r r' : Request P} {s₁ s₂ : Store}
        {trace : List (System × Label P × System)} {id : Uuid} {a a' : String}
        {handed handed' : Bool}, Step P σ l τ → l.request = some r →
        Admits P σ.daemon.store id r a handed s₁ → (σ.view id).worker.isSome = true →
        Run (Step P) τ trace υ → Step P υ l' ρ → l'.request = some r' →
        Admits P υ.daemon.store id r' a' handed' s₂ →
        ∃ c, (σ.view id).state = some c ∧ Over (c.claim id) a handed trace) ∧
      (∀ {record : RecoveryRecord} {preserve : Bool} {draw : Draw} {s' : Store}
        {issued : Option WorkerAdmission} {w : WorkerColumns},
        (σ.view record.generationId).worker = some w →
        σ.daemon.store.recoverWorker P record .unknown preserve draw = .ok (s', issued) →
        ∃ w', (s'.view record.generationId).worker = some w' ∧ w'.phase = .quarantined ∧
          w'.handover = w.handover ∧ w'.activeCommand = w.activeCommand) ∧
      ∀ {τ : System} {trace : List (System × Label P × System)} {id : Uuid} {c : StateColumns}
        {w : WorkerColumns}, (σ.view id).state = some c → (σ.view id).worker = some w →
        w.phase = .quarantined → Run (Step P) σ trace τ →
        (∃ e ∈ trace, FencedBy (c.claim id) e) ∨ ∃ w', (τ.view id).worker = some w' ∧
          w'.handover = w.handover ∧ w'.activeCommand = w.activeCommand := by
  refine ⟨?_, ?_, ?_, ?_⟩
  · intro id w a hw ha
    exact (hσ.commanded id).handed w a hw ha
  · intro l l' τ υ ρ r r' s₁ s₂ trace id a a' handed handed' hstep hr hfirst hworker hrun _ _
      hsecond
    exact over_between hσ hstep hr hfirst hworker hrun hsecond
  · intro record preserve draw s' issued w hw hok
    exact Store.recoverWorker_unknown hw hok
  · intro τ trace id c w hc hw hphase hrun
    have hheld : (σ.view (c.claim id).generationId).Held (c.claim id) w.handover
        w.activeCommand :=
      ⟨c, w, hc, ⟨rfl, rfl⟩, hw, rfl, rfl, .inl hphase⟩
    rcases Run.held hσ hrun hheld with ⟨c', w', -, -, hw', hhandover, hactive, -⟩ | hfenced
    · exact .inr ⟨w', hw', hhandover, hactive⟩
    · exact .inl hfenced

end System

/-! ## A Create with its bootstrap -/

namespace Script

/-- The platform of the scripts, which also reads one retained Create result. -/
def resultPlatform : Platform :=
  { platform with
    readIdentity := fun text => if text = "result" then some ⟨lineage.text, 0⟩ else none }

/-- The first worker is about to start the Create. -/
def prepared : List (Request resultPlatform) :=
  [.fleetChanged "fleet" fleet, .activate,
    .generationInsertGuarded record guard (some ⟨firstDraw, lineage⟩), .takeAdmission generation,
    .generationAdvance generation .creating ⟨90⟩ 190, .launchPending firstAccess,
    .register firstAccess process, .retainInput firstAccess input]

def startCreate : Request resultPlatform :=
  .recordApplyStarting (createProof "attempt-1") "plan" 200

/-- The Create is spawned and ends. -/
def applied : List (Request resultPlatform) :=
  [.spawnAck firstAccess "attempt-1", .commandEnded firstAccess "attempt-1"]

def startBootstrap : Request resultPlatform :=
  .recordBootstrapStarting (createProof "attempt-1") 210

/-- The bootstrap ends, and the result of the Create is kept. -/
def bootstrapped : List (Request resultPlatform) :=
  [.commandEnded firstAccess "bootstrap:attempt-1",
    .generationSetResult generation "result" "digest" 220]

def destroyProof : PlanProvenance := { createProof "attempt-2" with intent := .destroy }

def startDestroy : Request resultPlatform := .recordApplyStarting destroyProof "plan" 230

end Script

theorem Store.operationBootstrap_ok {s : Store} {proof : PlanProvenance} {now : Int}
    (h : (s.operationBootstrapStarting proof now).toOption.join.isSome = true) :
    ∃ s', s.operationBootstrapStarting proof now = .ok (some s') := by
  cases hresult : s.operationBootstrapStarting proof now with
  | error e => simp [hresult, Except.toOption] at h
  | ok found =>
    cases found with
    | none => simp [hresult, Except.toOption] at h
    | some s' => exact ⟨s', rfl⟩

namespace System

open Script in
/-- A Create is spawned and ends before its bootstrap starts. -/
theorem one_command_in_flight_sample :
    ∃ σ υ : System, ∃ c trace, Reached resultPlatform σ ∧
      Run (Step resultPlatform) (σ.serve resultPlatform startCreate) trace υ ∧
      ((υ.serve resultPlatform startBootstrap).view generation).worker.any (fun w =>
        w.activeCommand == some "bootstrap:attempt-1") = true ∧
      Over (P := resultPlatform) (StateColumns.claim generation c) "attempt-1" true trace := by
  have hstart : (initial 2).Plays resultPlatform prepared := by decide +kernel
  have hpermits : ((initial 2).play resultPlatform prepared).Permits resultPlatform
      startCreate := by
    decide +kernel
  have hplay : (((initial 2).play resultPlatform prepared).serve resultPlatform
      startCreate).Plays resultPlatform applied := by
    decide +kernel
  have hnext : ((((initial 2).play resultPlatform prepared).serve resultPlatform
      startCreate).play resultPlatform applied).Permits resultPlatform startBootstrap := by
    decide +kernel
  obtain ⟨s₁, hcreate⟩ := exists_ok_of_isOk
    (x := ((initial 2).play resultPlatform prepared).daemon.store.recordApplyStarting
      resultPlatform (createProof "attempt-1") "plan" 200) (by decide +kernel)
  obtain ⟨s₂, hboot⟩ := @Store.operationBootstrap_ok
    ((((initial 2).play resultPlatform prepared).serve resultPlatform startCreate).play
      resultPlatform applied).daemon.store (createProof "attempt-1") 210 (by decide +kernel)
  have hworker : (((initial 2).play resultPlatform prepared).view generation).worker.isSome =
      true := by
    decide +kernel
  have hcommand := (one_command_in_flight hstart.reached).2.1
    (.served _ startCreate hpermits) rfl (.effect rfl hcreate) hworker hplay.run
    (.served _ startBootstrap hnext) rfl (.bootstrap rfl hboot)
  obtain ⟨c, -, hover⟩ := hcommand
  refine ⟨_, _, c, _, hstart.reached, hplay.run, ?_, hover⟩
  decide +kernel

open Script in
/-- A Destroy is admitted after a bootstrap that ended, whose spawn nobody reported, and with no
fence of anyone on record. -/
theorem bootstrap_has_no_spawn_ack :
    ∃ σ τ υ ρ : System, ∃ l l' r r' s₁ s₂ a a' trace, Reached resultPlatform σ ∧
      Step resultPlatform σ l τ ∧ l.request = some r ∧
      Admits resultPlatform σ.daemon.store generation r a false s₁ ∧
      (σ.view generation).worker.isSome = true ∧ Run (Step resultPlatform) τ trace υ ∧
      Step resultPlatform υ l' ρ ∧ l'.request = some r' ∧
      Admits resultPlatform υ.daemon.store generation r' a' true s₂ ∧
      (∀ e ∈ trace, ∀ access attempt, ¬ Accepted (P := resultPlatform)
        (.spawnAck access attempt) e) ∧
      ∀ claim, ¬ υ.daemon.store.Fenced claim := by
  have hstart : (initial 2).Plays resultPlatform (prepared ++ startCreate :: applied) := by
    decide +kernel
  have hpermits : ((initial 2).play resultPlatform (prepared ++ startCreate :: applied)).Permits
      resultPlatform startBootstrap := by
    decide +kernel
  have hplay : (((initial 2).play resultPlatform (prepared ++ startCreate :: applied)).serve
      resultPlatform startBootstrap).Plays resultPlatform bootstrapped := by
    decide +kernel
  have hnext : ((((initial 2).play resultPlatform (prepared ++ startCreate :: applied)).serve
      resultPlatform startBootstrap).play resultPlatform bootstrapped).Permits resultPlatform
        startDestroy := by
    decide +kernel
  obtain ⟨s₁, hboot⟩ := @Store.operationBootstrap_ok
    ((initial 2).play resultPlatform (prepared ++ startCreate :: applied)).daemon.store
    (createProof "attempt-1") 210 (by decide +kernel)
  obtain ⟨s₂, hdestroy⟩ := exists_ok_of_isOk
    (x := ((((initial 2).play resultPlatform (prepared ++ startCreate :: applied)).serve
      resultPlatform startBootstrap).play resultPlatform
        bootstrapped).daemon.store.recordApplyStarting resultPlatform destroyProof "plan" 230)
    (by decide +kernel)
  have hfences : ((((initial 2).play resultPlatform (prepared ++ startCreate :: applied)).serve
      resultPlatform startBootstrap).play resultPlatform
        bootstrapped).daemon.store.fences.rows.isEmpty = true := by
    decide +kernel
  refine ⟨_, _, _, _, _, _, _, _, s₁, s₂, _, _, _, hstart.reached, .served _ _ hpermits, rfl,
    .bootstrap rfl hboot, by decide +kernel, hplay.run, .served _ _ hnext, rfl,
    .effect rfl hdestroy, ?_, ?_⟩
  · rintro e he access attempt ⟨hrequest, -⟩
    simp only [history, bootstrapped, List.mem_cons, List.not_mem_nil, or_false] at he
    rcases he with rfl | rfl <;> cases hrequest
  · rintro claim ⟨f, hf, -⟩
    have hmem := Table.mem_rows.mpr hf
    rw [List.isEmpty_iff.mp hfences] at hmem
    cases hmem

end System

end Shaula
