import Shaula.System.Authority
import Shaula.System.Script

/-! # Fencing by worker epoch

Once a recovery of a generation committed, the credentials drawn before it are worth nothing there:
either the generation stays revoked for good, or its epoch and both its verifiers have moved on.
-/

namespace Shaula

open Core Library Library.Outcome

variable {P : Platform} {id : Uuid}

/-! ## Credentials are checked first -/

namespace Daemon

variable {d : Daemon}

theorem answer_cases {ε α : Type} (wrap : ε → RequestError) (reply : α → Reply P)
    (result : Except ε α) :
    (∃ e, d.answer wrap reply result = (d, .error e)) ∨ ∃ a, result = .ok a := by
  cases result with
  | ok a => exact .inr ⟨a, rfl⟩
  | error e => exact .inl ⟨_, rfl⟩

theorem transact_cases {ε : Type} (wrap : ε → RequestError) (result : Except ε Store) :
    (∃ e, d.transact (P := P) wrap result = (d, .error e)) ∨ ∃ store, result = .ok store := by
  cases result with
  | ok store => exact .inr ⟨store, rfl⟩
  | error e => exact .inl ⟨_, rfl⟩

theorem transactWith_cases {ε α : Type} (wrap : ε → RequestError) (reply : α → Reply P)
    (result : Except ε (Store × α)) :
    (∃ e, d.transactWith wrap reply result = (d, .error e)) ∨
      ∃ store a, result = .ok (store, a) := by
  cases result with
  | ok answer => exact .inr ⟨answer.1, answer.2, rfl⟩
  | error e => exact .inl ⟨_, rfl⟩

theorem transactIssuing_cases (result : StateResult (Store × Option WorkerAdmission)) :
    (∃ e, d.transactIssuing (P := P) result = (d, .error e)) ∨
      ∃ store issued, result = .ok (store, issued) := by
  cases result with
  | ok answer => exact .inr ⟨answer.1, answer.2, rfl⟩
  | error e => exact .inl ⟨_, rfl⟩

/-- A state credential works only against an unrevoked row with its verifier. -/
def Authorizes (P : Platform) (d : Daemon) (access : StateAccess) : Prop :=
  ∃ c, (d.store.view access.generationId).state = some c ∧ c.revoked = false ∧
    access.capability.verifier P = c.capabilityHash

theorem authorizes_of_authorize {access : StateAccess} {row : Row} {u : Unit}
    (hload : Row.load d.store access.generationId = .ok row)
    (hauth : row.authorize P access = .ok u) : d.Authorizes P access := by
  obtain ⟨c, g, hc, -, rfl⟩ := Row.load_eq_ok.mp hload
  obtain ⟨hrevoked, hmatch⟩ := ensure_eq_ok.mp hauth
  exact ⟨c, hc, hrevoked, beq_iff_eq.mp hmatch⟩

/-- A request with a state credential is refused, or the credential works. -/
theorem exec_authorizes {r : Request P} {access : StateAccess} (h : r.stateAccess = some access) :
    (∃ e, d.exec P r = (d, .error e)) ∨ d.Authorizes P access := by
  cases r with
  | authenticate access' =>
    cases h
    refine (answer_cases _ _ _).imp_right ?_
    rintro ⟨_, hok⟩
    simp only [Store.authenticate, bind_eq_ok] at hok
    obtain ⟨row, hload, hauth⟩ := hok
    exact authorizes_of_authorize hload hauth
  | read access' =>
    cases h
    refine (answer_cases _ _ _).imp_right ?_
    rintro ⟨_, hok⟩
    simp only [Store.read, bind_eq_ok] at hok
    obtain ⟨row, hload, _, hauth, -⟩ := hok
    exact authorizes_of_authorize hload hauth
  | lock | unlock =>
    cases h
    refine (transact_cases _ _).imp_right ?_
    rintro ⟨_, hok⟩
    simp only [Store.lock, Store.unlock, bind_eq_ok] at hok
    obtain ⟨row, hload, _, hauth, -⟩ := hok
    exact authorizes_of_authorize hload hauth
  | write access' lockId document =>
    cases h
    refine (transactWith_cases _ _ _).imp_right ?_
    rintro ⟨_, _, hok⟩
    simp only [Store.write, bind_eq_ok] at hok
    obtain ⟨row, hload, _, hauth, -⟩ := hok
    exact authorizes_of_authorize hload hauth
  | _ => cases h

/-- A control credential works only for the unrevoked row's owner, with the worker's verifier. -/
def Controls (P : Platform) (d : Daemon) (capability : ControlCapability) (claim : StateClaim) :
    Prop :=
  ∃ c w, (d.store.view claim.generationId).state = some c ∧
    (d.store.view claim.generationId).worker = some w ∧ c.Owns claim ∧ c.revoked = false ∧
    capability.verifier P = w.controlHash

theorem controls_of_loadWorker {access : ControlAccess} {w : WorkerColumns}
    (h : d.store.loadWorker P access = .ok w) : d.Controls P access.capability access.claim := by
  obtain ⟨c, g, hl⟩ := Store.loadWorker_ok h
  exact ⟨c, w, hl.state, hl.worker, hl.owns, hl.unrevoked, beq_iff_eq.mp hl.control⟩

theorem controls_of_authenticateWorker {access : ControlAccess} {u : Unit}
    (h : d.store.authenticateWorker P access = .ok u) :
    d.Controls P access.capability access.claim := by
  simp only [Store.authenticateWorker, bind_eq_ok] at h
  obtain ⟨w, hload, -⟩ := h
  exact controls_of_loadWorker hload

/-- A request with a control credential is refused, or the credential works. -/
theorem exec_controls {r : Request P} {capability : ControlCapability} {claim : StateClaim}
    (h : r.controlAccess = some (capability, claim)) :
    (∃ e, d.exec P r = (d, .error e)) ∨ d.Controls P capability claim := by
  cases r with
  | authenticateWorker access =>
    cases h
    refine (answer_cases _ _ _).imp_right ?_
    rintro ⟨_, hok⟩
    exact controls_of_authenticateWorker hok
  | protectedInput | receipt =>
    cases h
    refine (answer_cases _ _ _).imp_right ?_
    rintro ⟨_, hok⟩
    simp only [Store.protectedInput, Store.receipt, bind_eq_ok] at hok
    obtain ⟨w, hload, -⟩ := hok
    exact controls_of_loadWorker hload
  | launchPending | verifyCleanup | spawnAck | commandEnded | fenced =>
    cases h
    refine (transact_cases _ _).imp_right ?_
    rintro ⟨_, hok⟩
    simp only [Store.launchPending, Store.verifyCleanup, Store.spawnAck, Store.commandEnded,
      Store.fenced, bind_eq_ok] at hok
    obtain ⟨w, hload, -⟩ := hok
    exact controls_of_loadWorker hload
  | register | retainInput =>
    cases h
    refine (transact_cases _ _).imp_right ?_
    rintro ⟨_, hok⟩
    simp only [Store.register, Store.retainInput, bind_eq_ok] at hok
    obtain ⟨_, -, w, hload, -⟩ := hok
    exact controls_of_loadWorker hload
  | completeWorker access requestId revision kind now =>
    cases h
    refine (transactWith_cases _ _ _).imp_right ?_
    rintro ⟨_, _, hok⟩
    simp only [Store.completeWorker, bind_eq_ok] at hok
    obtain ⟨w, hload, -⟩ := hok
    exact controls_of_loadWorker hload
  | replaceFenced access draw =>
    cases h
    refine (transactIssuing_cases _).imp_right ?_
    rintro ⟨_, _, hok⟩
    simp only [Store.replaceFenced, bind_eq_ok] at hok
    obtain ⟨_, hauth, -⟩ := hok
    exact controls_of_authenticateWorker hauth
  | applyStarting session capability' claim' proof path now =>
    cases h
    refine (transact_cases _ _).imp_right ?_
    rintro ⟨_, hok⟩
    simp only [Store.applyStarting, bind_eq_ok] at hok
    obtain ⟨_, hsession, _, hauth, _, hclaim, -⟩ := hok
    obtain rfl := ensure_eq_ok.mp hclaim
    have hsame : capability.verifier P = session.capability.verifier P :=
      beq_iff_eq.mp (ensure_eq_ok.mp hsession)
    obtain ⟨c, w, hc, hw, howns, hrevoked, hmatch⟩ := controls_of_authenticateWorker hauth
    exact ⟨c, w, hc, hw, howns, hrevoked, hsame.trans hmatch⟩
  | _ => cases h

end Daemon

/-! ## What a recovery leaves behind -/

/-- No credential of `states`, `controls` or an epoch up to `epoch` works on these rows again: they
are revoked for good, or they belong to a later epoch with other verifiers. -/
inductive Superseded (P : Platform) (states : List StateCapability)
    (controls : List ControlCapability) (epoch : Int) (v : View) : Prop
  | revoked {c : StateColumns} {w : WorkerColumns} : v.state = some c → v.worker = some w →
      c.revoked = true → (w.phase = .quarantined ∨ c.sealed = true) →
      Superseded P states controls epoch v
  | later {c : StateColumns} {w : WorkerColumns} : v.state = some c → v.worker = some w →
      epoch < c.workerEpoch → (∀ k ∈ states, k.verifier P ≠ c.capabilityHash) →
      (∀ k ∈ controls, k.verifier P ≠ w.controlHash) → Superseded P states controls epoch v

/-- A replacement supersedes what was drawn before it, in every epoch up to the one it ends. -/
theorem Replaces.superseded {σ : System} {r : Request P} {v v' : View} {c : StateColumns}
    {w : WorkerColumns} {draw : Draw} {states : List StateCapability}
    {controls : List ControlCapability} {epoch : Int} (h : Replaces P id r v v' c w draw)
    (hpermits : σ.Permits P r) (hstates : states ⊆ σ.stateDraws)
    (hcontrols : controls ⊆ σ.controlDraws) (hepoch : epoch ≤ c.workerEpoch) :
    Superseded P states controls epoch v' := by
  obtain ⟨record, -, -, -, -, hc, hw⟩ := h.rotated
  refine .later hc hw ?_ ?_ ?_
  · show epoch < c.workerEpoch + 1
    omega
  · exact fun k hk => hpermits.freshState _ h.draws.1 k (hstates hk)
  · exact fun k hk => hpermits.freshControl _ h.draws.2 k (hcontrols hk)

/-- A revoked, quarantined generation stays so until an operator seals it. -/
theorem Change.stays_quarantined {r : Request P} {v v' : View} {c : StateColumns}
    {w : WorkerColumns} (h : Change P id r v v') (hc : v.state = some c) (hw : v.worker = some w)
    (hrevoked : c.revoked = true) (hphase : w.phase = .quarantined) :
    ∃ c' w', v'.state = some c' ∧ v'.worker = some w' ∧ c'.revoked = true ∧
      (w'.phase = .quarantined ∨ c'.sealed = true) := by
  cases h with
  | locked _ hgranted | unlocked _ hgranted | written _ hgranted =>
    cases Option.some.inj (hgranted.state.symm.trans hc)
    cases hrevoked.symm.trans hgranted.unrevoked
  | launchPending _ hl | registered _ hl | inputRetained _ hl | cleanupVerified _ hl
  | spawnAcked _ hl | commandEnded _ hl | workerFenced _ hl =>
    cases Option.some.inj (hl.state.symm.trans hc)
    cases hrevoked.symm.trans hl.unrevoked
  | createNoted _ hstate _ _ hun | sealed _ hstate _ hun
  | createStarting _ _ _ hstate _ _ _ _ hun | destroyStarting _ _ _ hstate _ _ _ _ hun =>
    cases Option.some.inj (hstate.symm.trans hc)
    cases hrevoked.symm.trans hun
  | inserted _ _ hnone | admitted _ _ hnone | imported _ hnone => cases hnone.symm.trans hc
  | finalizedBare hnone => cases hnone.symm.trans hw
  | reaped _ hworker hother | bootstrapStarted _ hworker hother =>
    cases Option.some.inj (hworker.symm.trans hw)
    cases hphase.symm.trans hother
  | completed _ _ hworker _ _ _ hother =>
    cases Option.some.inj (hworker.symm.trans hw)
    rcases hother with hother | hother | hother <;> cases hphase.symm.trans hother
  | quarantined _ _ _ hworker _ _ _ _ hlive =>
    cases Option.some.inj (hworker.symm.trans hw)
    exact absurd hphase hlive
  | replaced _ _ _ hworker _ _ _ _ hlive =>
    cases Option.some.inj (hworker.symm.trans hw)
    exact absurd hphase hlive
  | revoked _ hstate =>
    cases Option.some.inj (hstate.symm.trans hc)
    exact ⟨_, w, rfl, hw, rfl, .inl hphase⟩
  | released _ _ _ hworker =>
    exact ⟨c, _, hc, rfl, hrevoked, .inl (Option.some.inj (hworker.symm.trans hw) ▸ hphase)⟩
  | finalized => exact ⟨_, _, rfl, rfl, rfl, .inr rfl⟩
  | importQuarantined =>
    simp only [hc, Option.map_some]
    exact ⟨_, w, rfl, hw, rfl, .inl hphase⟩
  | _ => exact ⟨c, w, hc, hw, hrevoked, .inl hphase⟩

/-- What is superseded stays superseded. -/
theorem Superseded.change {σ : System} {r : Request P} {v v' : View}
    {states : List StateCapability} {controls : List ControlCapability} {epoch : Int}
    (hv : Superseded P states controls epoch v) (h : Change P id r v v')
    (hpermits : σ.Permits P r) (hstates : states ⊆ σ.stateDraws)
    (hcontrols : controls ⊆ σ.controlDraws) : Superseded P states controls epoch v' := by
  cases hv with
  | revoked hc hw hrevoked hend =>
    rcases hend with hphase | hsealed
    · obtain ⟨c', w', hc', hw', hrevoked', hend'⟩ := h.stays_quarantined hc hw hrevoked hphase
      exact .revoked hc' hw' hrevoked' hend'
    · rcases h.control hw with ⟨w', hw', -⟩ | ⟨c', draw, hreplaces⟩
      · rcases h.authority hc with ⟨c', hc', hkeeps⟩ | ⟨w', draw, hreplaces⟩
        · exact .revoked hc' hw' (hkeeps.revoked hrevoked) (.inr (hkeeps.sealed hsealed))
        · cases hsealed.symm.trans hreplaces.unsealed
      · cases Option.some.inj (hreplaces.state.symm.trans hc)
        cases hsealed.symm.trans hreplaces.unsealed
  | later hc hw hepoch hstate hcontrol =>
    rcases h.control hw with ⟨w', hw', hkeeps'⟩ | ⟨c', draw, hreplaces⟩
    · rcases h.authority hc with ⟨c', hc', hkeeps⟩ | ⟨w', draw, hreplaces⟩
      · refine .later hc' hw' ?_ ?_ ?_
        · rw [hkeeps.workerEpoch]
          exact hepoch
        · rw [hkeeps.capabilityHash]
          exact hstate
        · rw [hkeeps'.controlHash]
          exact hcontrol
      · exact hreplaces.superseded hpermits hstates hcontrols (Int.le_of_lt hepoch)
    · cases Option.some.inj (hreplaces.state.symm.trans hc)
      exact hreplaces.superseded hpermits hstates hcontrols (Int.le_of_lt hepoch)

/-- Superseded rows accept no state capability of `states`. -/
theorem Superseded.not_authorizes {d : Daemon} {access : StateAccess}
    {states : List StateCapability} {controls : List ControlCapability} {epoch : Int}
    (h : Superseded P states controls epoch (d.store.view access.generationId))
    (hold : access.capability ∈ states) : ¬ d.Authorizes P access := by
  rintro ⟨c', hc', hrevoked', hmatch⟩
  cases h with
  | revoked hc _ hrevoked _ =>
    cases Option.some.inj (hc.symm.trans hc')
    cases hrevoked.symm.trans hrevoked'
  | later hc _ _ hstate _ =>
    cases Option.some.inj (hc.symm.trans hc')
    exact hstate _ hold hmatch

/-- Nor a control capability of `controls`, nor a claim of an epoch up to `epoch`. -/
theorem Superseded.not_controls {d : Daemon} {capability : ControlCapability}
    {claim : StateClaim} {states : List StateCapability} {controls : List ControlCapability}
    {epoch : Int} (h : Superseded P states controls epoch (d.store.view claim.generationId))
    (hold : capability ∈ controls ∨ claim.workerEpoch ≤ epoch) :
    ¬ d.Controls P capability claim := by
  rintro ⟨c', w', hc', hw', ⟨howns, -⟩, hrevoked', hmatch⟩
  cases h with
  | revoked hc _ hrevoked _ =>
    cases Option.some.inj (hc.symm.trans hc')
    cases hrevoked.symm.trans hrevoked'
  | later hc hw hlater _ hcontrol =>
    cases Option.some.inj (hc.symm.trans hc')
    cases Option.some.inj (hw.symm.trans hw')
    rcases hold with hold | hold
    · exact hcontrol _ hold hmatch
    · omega

/-! ## Quarantined generations are revoked -/

/-- A quarantined worker's generation is revoked. -/
def View.QuarantineRevoked (v : View) : Prop :=
  ∀ w, v.worker = some w → w.phase = .quarantined → ∃ c, v.state = some c ∧ c.revoked = true

/-- A worker is quarantined only where it was before, or together with a revocation. -/
theorem Change.quarantined_of {r : Request P} {v v' : View} {w' : WorkerColumns}
    (h : Change P id r v v') (hw' : v'.worker = some w') (hphase : w'.phase = .quarantined) :
    (∃ w, v.worker = some w ∧ w.phase = .quarantined) ∨
      ∃ c', v'.state = some c' ∧ c'.revoked = true := by
  cases h with
  | quarantined => exact .inr ⟨_, rfl, rfl⟩
  | written =>
    obtain ⟨w, hw, rfl⟩ := Option.map_eq_some_iff.mp hw'
    refine .inl ⟨w, hw, ?_⟩
    rw [← hphase]
    unfold WorkerColumns.noteSeen
    split <;> rfl
  | inputRetained _ hl | cleanupVerified _ hl | spawnAcked _ hl | commandEnded _ hl =>
    cases hw'
    exact .inl ⟨_, hl.worker, hphase⟩
  | reaped _ hworker | createStarting _ _ _ _ hworker | destroyStarting _ _ _ _ hworker
  | bootstrapStarted _ hworker | released _ _ _ hworker =>
    cases hw'
    exact .inl ⟨_, hworker, hphase⟩
  | launchPending | registered | workerFenced | admitted | imported | completed | finalized
  | replaced =>
    cases hw'
    cases hphase
  | _ => exact .inl ⟨w', hw', hphase⟩

theorem Change.quarantineRevoked {r : Request P} {v v' : View} (h : Change P id r v v')
    (hv : v.QuarantineRevoked) : v'.QuarantineRevoked := by
  intro w' hw' hphase
  rcases h.quarantined_of hw' hphase with ⟨w, hw, hold⟩ | hdone
  · obtain ⟨c, hc, hrevoked⟩ := hv w hw hold
    rcases h.authority hc with ⟨c', hc', hkeeps⟩ | ⟨w₁, draw, hreplaces⟩
    · exact ⟨c', hc', hkeeps.revoked hrevoked⟩
    · cases Option.some.inj (hreplaces.worker.symm.trans hw)
      exact absurd hold hreplaces.live
  · exact hdone

/-! ## Recoveries of a run -/

/-- Serving `r` commits a recovery of generation `id`, with the admission of the replacement if
there is one. -/
inductive Recovery (P : Platform) (s : Store) (id : Uuid) :
    Request P → Option WorkerAdmission → Prop
  | direct {record : RecoveryRecord} {outcome : FenceOutcome} {preserve : Bool} {draw : Draw}
      {s' : Store} {issued : Option WorkerAdmission} : record.generationId = id →
      s.recoverWorker P record outcome preserve draw = .ok (s', issued) →
      Recovery P s id (.recoverWorker record outcome preserve draw) issued
  | fenced {access : ControlAccess} {draw : Draw} {s' : Store}
      {issued : Option WorkerAdmission} : access.claim.generationId = id →
      s.replaceFenced P access draw = .ok (s', issued) →
      Recovery P s id (.replaceFenced access draw) issued

namespace Recovery

variable {d : Daemon} {r : Request P} {issued issued' : Option WorkerAdmission}

theorem unique {s : Store} (h : Recovery P s id r issued) (h' : Recovery P s id r issued') :
    issued = issued' := by
  cases h with
  | direct _ hok =>
    cases h' with
    | direct _ hok' => cases hok.symm.trans hok'; rfl
  | fenced _ hok =>
    cases h' with
    | fenced _ hok' => cases hok.symm.trans hok'; rfl

/-- What the rows are after a recovery that committed. -/
theorem recovered (h : Recovery P d.store id r issued) :
    ∃ record outcome draw c w v', c.Owns record.claim ∧ (d.store.view id).state = some c ∧
      (d.store.view id).worker = some w ∧ c.sealed = false ∧
      Store.Recovered P record outcome draw (d.store.view id) c w v' issued ∧
      (d.exec P r).1.store.view id = v' ∧ draw.state ∈ r.stateDraws ∧
      draw.control ∈ r.controlDraws := by
  cases h with
  | @direct record outcome preserve draw s' issued hid hok =>
    subst hid
    obtain ⟨c, w, v', hc, hw, howns, hunsealed, -, hrecovered, hview⟩ := Store.recoverWorker_ok hok
    refine ⟨record, outcome, draw, c, w, v', howns, hc, hw, hunsealed, hrecovered, ?_,
      List.mem_singleton_self _, List.mem_singleton_self _⟩
    simp only [Daemon.exec, hok, Daemon.transactIssuing, Daemon.publishAfter_store, hview,
      Function.update_self]
  | @fenced access draw s' issued hid hok =>
    subst hid
    obtain ⟨record, hclaim, hrecover, -⟩ := Store.replaceFenced_changes hok
    have hid : record.generationId = access.claim.generationId :=
      congrArg StateClaim.generationId hclaim
    obtain ⟨c, w, v', hc, hw, howns, hunsealed, -, hrecovered, hview⟩ :=
      Store.recoverWorker_ok hrecover
    rw [hid] at hc hw hrecovered hview
    refine ⟨record, .fenced, draw, c, w, v', howns, hc, hw, hunsealed, hrecovered, ?_,
      List.mem_singleton_self _, List.mem_singleton_self _⟩
    simp only [Daemon.exec, hok, Daemon.transactIssuing, Daemon.publishAfter_store, hview,
      Function.update_self]

/-- A recovery supersedes all that was drawn before it. -/
theorem superseded {σ : System} {c : StateColumns} (h : Recovery P σ.daemon.store id r issued)
    (hpermits : σ.Permits P r) (hquarantine : (σ.view id).QuarantineRevoked)
    (hc : (σ.view id).state = some c) :
    Superseded P σ.stateDraws σ.controlDraws c.workerEpoch ((σ.serve P r).view id) := by
  obtain ⟨record, outcome, draw, c', w, v', -, hc', hw, -, hrecovered, hview, hs, hk⟩ :=
    h.recovered
  cases Option.some.inj (hc'.symm.trans hc)
  have hview : (σ.serve P r).view id = v' := hview
  rw [hview]
  cases hrecovered with
  | untouched hphase =>
    obtain ⟨c₁, hc₁, hrevoked⟩ := hquarantine w hw hphase
    cases Option.some.inj (hc₁.symm.trans hc)
    exact .revoked hc hw hrevoked (.inl hphase)
  | released hphase =>
    obtain ⟨c₁, hc₁, hrevoked⟩ := hquarantine w hw hphase
    cases Option.some.inj (hc₁.symm.trans hc)
    exact .revoked hc rfl hrevoked (.inl hphase)
  | quarantined _ _ hw' =>
    refine .revoked rfl rfl rfl (.inl ?_)
    rcases hw' with rfl | rfl <;> rfl
  | replaced =>
    refine .later rfl rfl ?_ (hpermits.freshState _ hs) (hpermits.freshControl _ hk)
    show c.workerEpoch < c.workerEpoch + 1
    omega

end Recovery

/-- The epoch grows by exactly one when a recovery replaces the worker, and never otherwise. -/
theorem Daemon.exec_epoch (d : Daemon) (r : Request P) {c : StateColumns}
    (hc : (d.store.view id).state = some c) :
    ∃ c', ((d.exec P r).1.store.view id).state = some c' ∧
      (((∃ admission, Recovery P d.store id r (some admission)) ∧
          c'.workerEpoch = c.workerEpoch + 1) ∨
        ((¬ ∃ admission, Recovery P d.store id r (some admission)) ∧
          c'.workerEpoch = c.workerEpoch)) := by
  by_cases hrecovery : ∃ issued, Recovery P d.store id r issued
  · obtain ⟨issued, hrecovery⟩ := hrecovery
    obtain ⟨record, outcome, draw, c', w, v', -, hc', -, -, hrecovered, hview, -⟩ :=
      hrecovery.recovered
    cases Option.some.inj (hc'.symm.trans hc)
    rw [hview]
    have hnone : issued = none → ¬ ∃ admission, Recovery P d.store id r (some admission) := by
      rintro rfl ⟨admission, hother⟩
      cases hrecovery.unique hother
    cases hrecovered with
    | untouched | released => exact ⟨c, hc, .inr ⟨hnone rfl, rfl⟩⟩
    | quarantined => exact ⟨_, rfl, .inr ⟨hnone rfl, rfl⟩⟩
    | replaced => exact ⟨_, rfl, .inl ⟨⟨_, hrecovery⟩, rfl⟩⟩
  · have hno : ¬ ∃ admission, Recovery P d.store id r (some admission) :=
      fun ⟨admission, h⟩ => hrecovery ⟨_, h⟩
    rcases (d.exec_change r id).authority hc with ⟨c', hc', hkeeps⟩ | ⟨w, draw, hreplaces⟩
    · exact ⟨c', hc', .inr ⟨hno, hkeeps.workerEpoch⟩⟩
    · -- The rows of a replacement are those of a recovery that committed.
      obtain ⟨record, preserve, hrecovers, hid, -, hrow, -⟩ := hreplaces.rotated
      have hrejected : ∀ e, d.exec P r ≠ (d, .error e) := by
        intro e he
        rw [he] at hrow
        have hepoch : c.workerEpoch = c.workerEpoch + 1 :=
          congrArg StateColumns.workerEpoch (Option.some.inj (hc.symm.trans hrow))
        omega
      cases hrecovers with
      | direct =>
        rcases d.transactIssuing_cases (P := P) (d.store.recoverWorker P record .fenced preserve draw) with
          ⟨e, he⟩ | ⟨store, issued, hok⟩
        · exact absurd he (hrejected e)
        · exact absurd ⟨issued, .direct hid hok⟩ hrecovery
      | @fenced access hclaim =>
        rcases d.transactIssuing_cases (P := P) (d.store.replaceFenced P access draw) with
          ⟨e, he⟩ | ⟨store, issued, hok⟩
        · exact absurd he (hrejected e)
        · refine absurd ⟨issued, .fenced ?_ hok⟩ hrecovery
          rw [← hid, ← hclaim]
          rfl

namespace System

/-- The request presents a state capability, a control capability or a claim that is not newer than
the rows of generation `id` in `σ`. -/
inductive Stale (σ : System) (id : Uuid) (r : Request P) : Prop
  | state {access : StateAccess} : r.stateAccess = some access → access.generationId = id →
      access.capability ∈ σ.stateDraws → Stale σ id r
  | control {capability : ControlCapability} {claim : StateClaim} :
      r.controlAccess = some (capability, claim) → claim.generationId = id →
      capability ∈ σ.controlDraws → Stale σ id r
  | claim {capability : ControlCapability} {claim : StateClaim} {c : StateColumns} :
      r.controlAccess = some (capability, claim) → claim.generationId = id →
      (σ.view id).state = some c → claim.workerEpoch ≤ c.workerEpoch → Stale σ id r

/-- What a step does to the epoch of generation `id`. -/
def EpochLaw (P : Platform) (id : Uuid) (σ : System) (l : Label P) (τ : System) : Prop :=
  ∀ c, (σ.view id).state = some c → ∃ c', (τ.view id).state = some c' ∧
    (((∃ r admission, l.request = some r ∧ Recovery P σ.daemon.store id r (some admission)) ∧
        c'.workerEpoch = c.workerEpoch + 1) ∨
      ((¬ ∃ r admission, l.request = some r ∧
          Recovery P σ.daemon.store id r (some admission)) ∧
        c'.workerEpoch = c.workerEpoch))

variable {σ τ υ : System} {l : Label P}

theorem Step.epochLaw (h : Step P σ l τ) (id : Uuid) : EpochLaw P id σ l τ := by
  intro c hc
  cases h with
  | served r | crashed r =>
    obtain ⟨c', hc', hlaw⟩ := σ.daemon.exec_epoch r hc
    refine ⟨c', hc', hlaw.imp ?_ ?_⟩
    · exact fun ⟨⟨admission, hrecovery⟩, hepoch⟩ => ⟨⟨r, admission, rfl, hrecovery⟩, hepoch⟩
    · refine fun ⟨hno, hepoch⟩ => ⟨?_, hepoch⟩
      rintro ⟨r', admission, hr', hrecovery⟩
      cases hr'
      exact hno ⟨admission, hrecovery⟩
  | failed | restarted => exact ⟨c, hc, .inr ⟨by rintro ⟨_, _, ⟨⟩, _⟩, rfl⟩⟩

theorem Step.draws (h : Step P σ l τ) :
    σ.stateDraws ⊆ τ.stateDraws ∧ σ.controlDraws ⊆ τ.controlDraws := by
  cases h with
  | served r | crashed r => exact ⟨List.subset_append_right _ _, List.subset_append_right _ _⟩
  | failed | restarted => exact ⟨List.Subset.refl _, List.Subset.refl _⟩

/-- The rows of `id` are superseded, and all that was drawn for `states` and `controls` is known. -/
structure Ended (P : Platform) (id : Uuid) (states : List StateCapability)
    (controls : List ControlCapability) (epoch : Int) (σ : System) : Prop where
  superseded : Superseded P states controls epoch (σ.view id)
  states : states ⊆ σ.stateDraws
  controls : controls ⊆ σ.controlDraws

theorem Ended.step {states : List StateCapability} {controls : List ControlCapability}
    {epoch : Int} (hσ : Ended P id states controls epoch σ) (h : Step P σ l τ) :
    Ended P id states controls epoch τ := by
  refine ⟨?_, List.Subset.trans hσ.states h.draws.1, List.Subset.trans hσ.controls h.draws.2⟩
  rcases h.change id with hsame | ⟨r, -, hpermits, hchange⟩
  · rw [hsame]
    exact hσ.superseded
  · exact hσ.superseded.change hchange hpermits hσ.states hσ.controls

/-- A stale request is rejected, and changes nothing. -/
theorem Ended.rejects {c : StateColumns} (hc : (σ.view id).state = some c)
    (h : Ended P id σ.stateDraws σ.controlDraws c.workerEpoch τ) {r : Request P}
    (hstale : Stale σ id r) : ∃ e, τ.daemon.exec P r = (τ.daemon, .error e) := by
  have hsup := h.superseded
  cases hstale with
  | state haccess hid hold =>
    subst hid
    exact (Daemon.exec_authorizes haccess).resolve_right (hsup.not_authorizes hold)
  | control haccess hid hold =>
    subst hid
    exact (Daemon.exec_controls haccess).resolve_right (hsup.not_controls (.inl hold))
  | claim haccess hid hc' hold =>
    subst hid
    cases Option.some.inj (hc'.symm.trans hc)
    exact (Daemon.exec_controls haccess).resolve_right (hsup.not_controls (.inr hold))

/-- **Fencing by worker epoch.**  After a recovery of a generation committed, every request with a
capability or claim from before it is rejected and changes nothing; and in every step the epoch
grows by exactly one if the worker is replaced, and not at all otherwise. -/
theorem recovery_fences {r₀ : Request P} {issued : Option WorkerAdmission}
    {trace : List (System × Label P × System)} (hσ : Reached P σ) (hstep : Step P σ l τ)
    (hr₀ : l.request = some r₀) (hrecovery : Recovery P σ.daemon.store id r₀ issued)
    (hrun : Run (Step P) τ trace υ) :
    (∀ r : Request P, Stale σ id r → ∃ e, υ.daemon.exec P r = (υ.daemon, .error e)) ∧
      ∀ e ∈ (σ, l, τ) :: trace, EpochLaw P id e.1 e.2.1 e.2.2 := by
  constructor
  · obtain ⟨-, -, -, c, -, -, -, hc, -⟩ := hrecovery.recovered
    have hquarantine : (σ.view id).QuarantineRevoked :=
      hσ.view_invariant (fun _ h => by cases h) fun _ _ _ hchange hv =>
        hchange.quarantineRevoked hv
    have hended : Ended P id σ.stateDraws σ.controlDraws c.workerEpoch τ := by
      refine ⟨?_, hstep.draws.1, hstep.draws.2⟩
      cases hstep with
      | served r hpermits | crashed r hpermits =>
        cases hr₀
        exact hrecovery.superseded hpermits hquarantine hc
      | failed | restarted => cases hr₀
    have hend := hrun.invariant (fun _ _ _ h hstep => h.step hstep) hended
    exact fun r hstale => hend.rejects hc hstale
  · exact (Run.cons hstep hrun).forall_mem (fun _ _ _ (_ : True) _ => trivial)
      (fun _ _ _ _ hstep => hstep.epochLaw id) trivial

open Script in
/-- A worker is replaced before it launched; its state capability and its claim are then stale. -/
theorem recovery_fences_sample :
    ∃ σ τ υ : System, ∃ l trace, Step platform σ l τ ∧ Run (Step platform) τ trace υ ∧
      (∃ e, υ.daemon.exec platform (.lock stateAccess lockInfo) = (υ.daemon, .error e)) ∧
      (∃ e, υ.daemon.exec platform (.launchPending ⟨firstClaim, secondDraw.control⟩) =
        (υ.daemon, .error e)) ∧
      ∀ e ∈ (σ, l, τ) :: trace, EpochLaw platform generation e.1 e.2.1 e.2.2 := by
  have hstart : (initial 2).Plays platform admitted := by decide +kernel
  have hpermits : ((initial 2).play platform admitted).Permits platform replaceFirst := by
    decide +kernel
  have hplay : (((initial 2).play platform admitted).serve platform replaceFirst).Plays platform
      [.takeAdmission generation] := by
    decide +kernel
  obtain ⟨⟨s', issued⟩, hok⟩ := exists_ok_of_isOk
    (x := ((initial 2).play platform admitted).daemon.store.recoverWorker platform firstRecord
      .fenced false secondDraw) (by decide +kernel)
  obtain ⟨c, -, -, hc, -, howns, -⟩ := Store.recoverWorker_ok hok
  have hfences := recovery_fences hstart.reached (.served _ replaceFirst hpermits) rfl
    (.direct rfl hok) hplay.run
  refine ⟨_, _, _, _, _, .served _ replaceFirst hpermits, hplay.run, ?_, ?_, hfences.2⟩
  · exact hfences.1 _ (.state rfl rfl (by decide +kernel))
  · exact hfences.1 _ (.claim rfl rfl hc (Int.le_of_eq howns.1.symm))

end System

end Shaula
