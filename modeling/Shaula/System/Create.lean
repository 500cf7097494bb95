import Shaula.System.Authority
import Shaula.System.Script

/-! # At most one Create

The effect gate lets a worker start a Create only while none was started, and the flag it raises
never comes down again.  A generation without a worker is not the gate's business.
-/

namespace Shaula

open Core Library Library.Outcome

variable {P : Platform} {id : Uuid}

/-- The provenance of the Create whose start a request records. -/
def Request.createStart : Request P → Option PlanProvenance
  | recordApplyStarting proof _ _ | applyStarting _ _ _ proof _ _ =>
    if proof.intent = .create then some proof else none
  | _ => none

/-- A transaction that was answered moved the store to its result. -/
theorem Daemon.transact_isOk {ε : Type} {d : Daemon} {wrap : ε → RequestError}
    {result : Except ε Store} (h : (d.transact (P := P) wrap result).2.isOk = true) :
    result = .ok (d.transact (P := P) wrap result).1.store := by
  cases result with
  | ok store => rfl
  | error e => cases h

/-- A Create start that was answered is a Create, and went through the effect gate. -/
theorem Daemon.exec_createStart {d : Daemon} {r : Request P} {proof : PlanProvenance}
    (h : r.createStart = some proof) (hok : (d.exec P r).2.isOk = true) :
    proof.intent = .create ∧ ∃ s : Store, s.view = d.store.view ∧
      s.workerEffectOn P proof = .ok (d.exec P r).1.store := by
  cases r with
  | recordApplyStarting proof' path now =>
    obtain ⟨hintent, ⟨⟩⟩ := Option.ite_none_right_eq_some.mp h
    exact ⟨hintent, Store.recordApplyStarting_ok (transact_isOk hok)⟩
  | applyStarting session capability claim proof' path now =>
    obtain ⟨hintent, ⟨⟩⟩ := Option.ite_none_right_eq_some.mp h
    exact ⟨hintent, Store.recordApplyStarting_ok (Store.applyStarting_ok (transact_isOk hok))⟩
  | _ => cases h

namespace System

variable {σ τ : System} {l : Label P}

/-- In this step the effect gate succeeded with a Create intent for generation `id`. -/
def createGate (P : Platform) (id : Uuid) (e : System × Label P × System) : Bool :=
  match e.2.1.request with
  | some r =>
    match r.createStart with
    | some proof => proof.generationId == id && (e.1.daemon.exec P r).2.isOk
    | none => false
  | none => false

/-- In this step the effect gate succeeded with a Create intent for generation `id` and its
worker. -/
def workerCreate (P : Platform) (id : Uuid) (e : System × Label P × System) : Bool :=
  createGate P id e && (e.1.view id).worker.isSome

/-- A worker's Create went through only after all checks of the gate. -/
theorem Step.workerCreate (h : Step P σ l τ) (hcreate : workerCreate P id (σ, l, τ) = true) :
    ∃ proof c w document input, proof.intent = .create ∧ proof.generationId = id ∧
      Store.CreateStarted P (σ.view id) (τ.view id) proof c w document input := by
  simp only [System.workerCreate, createGate, Bool.and_eq_true] at hcreate
  obtain ⟨hgate, hworker⟩ := hcreate
  obtain ⟨w, hw⟩ := Option.isSome_iff_exists.mp hworker
  split at hgate
  · next r hr =>
    split at hgate
    · next proof hproof =>
      simp only [Bool.and_eq_true, beq_iff_eq] at hgate
      obtain ⟨rfl, hok⟩ := hgate
      obtain ⟨hintent, s, hview, heffect⟩ := Daemon.exec_createStart hproof hok
      have hstore : (σ.daemon.exec P r).1.store = τ.daemon.store := by
        cases h with
        | served | crashed => cases hr; rfl
        | failed | restarted => cases hr
      have hw : (s.view proof.generationId).worker = some w := by rw [hview]; exact hw
      obtain ⟨c, document, input, v', hstarted, hafter⟩ :=
        Store.workerEffectOn_create hintent hw heffect
      refine ⟨proof, c, w, document, input, hintent, rfl, ?_⟩
      have hv' : τ.view proof.generationId = v' := by
        rw [System.view, ← hstore, hafter, Function.update_self]
      rw [hv', System.view, ← hview]
      exact hstarted
    · cases hgate
  · cases hgate

/-- A Create of generation `id` was started. -/
def CreateBegun (id : Uuid) (σ : System) : Prop :=
  ∃ c, (σ.view id).state = some c ∧ c.createStarted = true

/-- The worker of generation `id` is for cleanup only. -/
def CleanupOnly (id : Uuid) (σ : System) : Prop :=
  ∃ w, (σ.view id).worker = some w ∧ w.cleanupOnly = true

theorem Step.createBegun (h : Step P σ l τ) (hσ : CreateBegun id σ) : CreateBegun id τ := by
  obtain ⟨c, hc, hstarted⟩ := hσ
  rcases h.change id with hsame | ⟨r, -, -, hchange⟩
  · exact ⟨c, hsame ▸ hc, hstarted⟩
  · rcases hchange.authority hc with ⟨c', hc', hkeeps⟩ | ⟨w, draw, hreplaces⟩
    · exact ⟨c', hc', hkeeps.createStarted hstarted⟩
    · obtain ⟨record, preserve, -, -, -, hc', -⟩ := hreplaces.rotated
      exact ⟨_, hc', hstarted⟩

theorem Step.cleanupOnly (h : Step P σ l τ) (hσ : CleanupOnly id σ) : CleanupOnly id τ := by
  obtain ⟨w, hw, hcleanup⟩ := hσ
  rcases h.change id with hsame | ⟨r, -, -, hchange⟩
  · exact ⟨w, hsame ▸ hw, hcleanup⟩
  · rcases hchange.control hw with ⟨w', hw', hkeeps⟩ | ⟨c, draw, hreplaces⟩
    · exact ⟨w', hw', hkeeps.cleanupOnly hcleanup⟩
    · obtain ⟨record, preserve, -, -, -, -, hw'⟩ := hreplaces.rotated
      exact ⟨_, hw', rfl⟩

/-- What a step does to the flags of a Create, and what a Create of the worker needed. -/
structure CreateLaw (P : Platform) (id : Uuid) (σ : System) (l : Label P) (τ : System) : Prop where
  begun : CreateBegun id σ → CreateBegun id τ
  cleanup : CleanupOnly id σ → CleanupOnly id τ
  fresh : workerCreate P id (σ, l, τ) = true →
    ¬ CreateBegun id σ ∧ ¬ CleanupOnly id σ ∧ CreateBegun id τ
  matching : workerCreate P id (σ, l, τ) = true →
    ∃ (proof : PlanProvenance) (c : StateColumns) (w : WorkerColumns) (document : StateDocument P)
      (input : Bytes), proof.generationId = id ∧
      (σ.view id).state = some c ∧ (σ.view id).worker = some w ∧
      w.protectedInput = some input ∧ contentDigest P input = proof.protectedInputDigest ∧
      c.Stores document ∧ document.managedEmpty = true

theorem Step.createLaw (h : Step P σ l τ) (id : Uuid) : CreateLaw P id σ l τ := by
  refine ⟨h.createBegun, h.cleanupOnly, fun hcreate => ?_, fun hcreate => ?_⟩
  all_goals
    obtain ⟨proof, c, w, document, input, hintent, hid, hstarted⟩ := h.workerCreate hcreate
  · refine ⟨?_, ?_, ?_⟩
    · rintro ⟨c', hc', hbegun⟩
      cases Option.some.inj (hc'.symm.trans hstarted.state)
      cases hbegun.symm.trans hstarted.fresh
    · rintro ⟨w', hw', hcleanup⟩
      cases Option.some.inj (hw'.symm.trans hstarted.worker)
      cases hcleanup.symm.trans hstarted.allowed
    · exact ⟨_, by rw [hstarted.after], rfl⟩
  · exact ⟨proof, c, w, document, input, hid, hstarted.state, hstarted.worker, hstarted.retained,
      hstarted.digest, hstarted.stores, hstarted.empty⟩

/-- **At most one Create.**  In every run the effect gate lets a generation's worker start a Create
at most once, and every step keeps the law of its flags. -/
theorem create_at_most_once {trace : List (System × Label P × System)}
    (h : Run (Step P) σ trace τ) (id : Uuid) :
    trace.countP (workerCreate P id) ≤ 1 ∧ ∀ e ∈ trace, CreateLaw P id e.1 e.2.1 e.2.2 := by
  constructor
  · refine h.countP_le_one (I := fun _ => True) (f := CreateBegun id) (fun _ _ _ _ _ => trivial)
      (fun _ _ _ _ hstep => hstep.createBegun) (fun _ _ _ _ hstep hcreate => ?_) trivial
    obtain ⟨hfresh, -, hbegun⟩ := (hstep.createLaw id).fresh hcreate
    exact ⟨hfresh, hbegun⟩
  · exact h.forall_mem (fun _ _ _ (_ : True) _ => trivial)
      (fun _ _ _ _ hstep => hstep.createLaw id) trivial

open Script in
/-- A worker's one Create. -/
theorem create_at_most_once_sample :
    ∃ τ : System, ∃ trace, Run (Step platform) (initial 2) trace τ ∧
      trace.countP (workerCreate platform generation) = 1 ∧
      trace.countP (workerCreate platform generation) ≤ 1 ∧
      ∀ e ∈ trace, CreateLaw platform generation e.1 e.2.1 e.2.2 := by
  have hplay : (initial 2).Plays platform createdOnce := by decide +kernel
  have hlaw := create_at_most_once hplay.run generation
  exact ⟨_, _, hplay.run, by decide +kernel, hlaw⟩

open Script in
/-- Without a worker the gate lets every Create through. -/
theorem create_twice_without_worker :
    ∃ τ : System, ∃ trace, Run (Step platform) (initial 2) trace τ ∧
      trace.countP (createGate platform generation) = 2 := by
  have hplay : (initial 2).Plays platform createdTwice := by decide +kernel
  exact ⟨_, _, hplay.run, by decide +kernel⟩

end System

end Shaula
