import Shaula.System.Conformance

/-! # Interleaved advances

`generation_advance` reads a generation's state and writes its successor in two statements, with no
transaction around them.  Here the two are steps of their own, and anything that the rest of the
system commits may come between them: listener messages, recoveries, other advances.  A request
that advances in one go is the schedule in which nothing does.

The UPDATE names the generation only.  What it writes over is what the writes between the two
statements leave of the state that was read, so each advance in flight is followed by these writes.
-/

namespace Shaula

open Core Library Library.Outcome

variable {P : Platform} {id : Uuid}

/-! ## Writes of the lifecycle state -/

/-- A write of a generation's lifecycle state, by the operation that makes it. -/
inductive LedgerWrite where
  /-- A listener message saw its runner start a job. -/
  | jobStarted
  /-- A listener message saw its runner complete one. -/
  | jobCompleted
  /-- Recovery admitted a replacement of its worker. -/
  | replaced
  /-- Recovery or an import set its worker apart. -/
  | quarantined
  /-- Its worker completed, or its operator finalized it. -/
  | destroyed
  /-- The UPDATE of an advance. -/
  | advanced (next : GenerationState)
  deriving DecidableEq

/-- The state a write leaves, by the state it finds. -/
def LedgerWrite.leaves : LedgerWrite → GenerationState → GenerationState
  | jobStarted, .waitingOnline | jobStarted, .idle => .busy
  | jobCompleted, .idle | jobCompleted, .busy => .retiring
  | replaced, .createPending | replaced, .creating | replaced, .waitingOnline => .cleanupRequired
  | quarantined, _ => .quarantined
  | destroyed, _ => .destroyed
  | advanced next, _ => next
  | _, s => s

def View.lifecycle (v : View) : Option GenerationState := v.generation.map (·.state)

/-- The job event is one of the runner of `g`. -/
def GenerationRow.Runs (g : GenerationRow) (fleet : String) (event : RunnerEvent) : Prop :=
  0 < event.runnerId ∧ g.fleetKey = fleet ∧ g.githubRunnerId = some event.runnerId ∧
    g.runnerName = event.runnerName

instance (g : GenerationRow) (fleet : String) (event : RunnerEvent) :
    Decidable (g.Runs fleet event) := inferInstanceAs (Decidable (_ ∧ _ ∧ _ ∧ _))

/-- The writes of a listener message: its starts first. -/
def GenerationRow.jobWrites (g : GenerationRow) (fleet : String)
    (started completed : List RunnerEvent) : List LedgerWrite :=
  (started.filter fun event => g.Runs fleet event).map (fun _ => .jobStarted) ++
    (completed.filter fun event => g.Runs fleet event).map fun _ => .jobCompleted

/-- What a request wrote to the state of a generation, when that moved. -/
def Request.ledgerWrites (r : Request P) (v v' : View) : List LedgerWrite :=
  if v'.lifecycle = v.lifecycle then []
  else match r with
    | .listenerActivity fleet started completed _ =>
      v.generation.toList.flatMap fun g => g.jobWrites fleet started completed
    | .recoverWorker .. | .replaceFenced .. =>
      if v'.worker.any (·.phase = .quarantined) then [.quarantined] else [.replaced]
    | .importLegacy .. => [.quarantined]
    | .completeWorker .. | .generationFinalize .. => [.destroyed]
    | .generationAdvance _ next _ _ => [.advanced next]
    | _ => []

namespace LedgerWrite

/-- The state that writes leave, the latest of which comes first. -/
def left (read : GenerationState) (writes : List LedgerWrite) : GenerationState :=
  writes.foldr leaves read

theorem left_append (read : GenerationState) (later earlier : List LedgerWrite) :
    left read (later ++ earlier) = left (left read earlier) later :=
  List.foldr_append

/-- The write may come last before the UPDATE of an advance to `next`, by the state it finds. -/
def mayFall : LedgerWrite → GenerationState → GenerationState → Bool
  | jobStarted, .waitingOnline, next | jobStarted, .idle, next =>
    next = .retiring || next = .quarantined
  | jobCompleted, .idle, next | jobCompleted, .busy, next =>
    next = .retiring || next = .destroyPending || next = .quarantined
  | replaced, .createPending, next | replaced, .creating, next | replaced, .waitingOnline, next =>
    next = .retiring || next = .quarantined
  | quarantined, _, next => next = .destroyed
  | destroyed, _, _ => false
  | advanced other, _, next => transitionAllowed other next
  | _, s, next => transitionAllowed s next

theorem mayFall_eq (w : LedgerWrite) (s next : GenerationState) :
    w.mayFall s next = transitionAllowed (w.leaves s) next := by
  cases w with
  | advanced => rfl
  | _ => cases s <;> cases next <;> rfl

end LedgerWrite

/-! ### What requests write -/

section Writes

variable (fleet : String) (now : Int)

@[simp] theorem activityStep_runs (next : GenerationState) (froms : List GenerationState)
    (event event' : RunnerEvent) (g : GenerationRow) :
    (activityStep fleet next froms now event g).Runs fleet event' ↔ g.Runs fleet event' := by
  unfold activityStep
  split <;> exact Iff.rfl

theorem activityStep_state (next : GenerationState) (froms : List GenerationState)
    (event : RunnerEvent) (g : GenerationRow) :
    (activityStep fleet next froms now event g).state =
      if g.Runs fleet event ∧ g.state ∈ froms then next else g.state := by
  unfold activityStep GenerationRow.Runs
  simp only [and_assoc]
  split <;> rfl

/-- Job events of one kind make as many writes of one kind. -/
theorem foldl_activityStep_state {w : LedgerWrite} {next : GenerationState}
    {froms : List GenerationState} (hw : ∀ s, w.leaves s = if s ∈ froms then next else s)
    (events : List RunnerEvent) (g : GenerationRow) :
    let after := events.foldl (fun g event => activityStep fleet next froms now event g) g
    after.state = LedgerWrite.left g.state
      ((events.filter fun event => g.Runs fleet event).map fun _ => w).reverse ∧
      ∀ event, after.Runs fleet event ↔ g.Runs fleet event := by
  induction events generalizing g with
  | nil => exact ⟨rfl, fun _ => Iff.rfl⟩
  | cons event events ih =>
    obtain ⟨hstate, hruns⟩ := ih (activityStep fleet next froms now event g)
    refine ⟨?_, fun event' => (hruns event').trans (activityStep_runs ..)⟩
    simp only [List.foldl_cons, hstate, activityStep_runs, activityStep_state]
    by_cases hmine : g.Runs fleet event
    · simp only [hmine, true_and, decide_true, List.filter_cons_of_pos, List.map_cons,
        List.reverse_cons, LedgerWrite.left_append, ← hw]
      rfl
    · simp only [hmine, false_and, if_false, decide_false, Bool.false_eq_true, not_false_eq_true,
        List.filter_cons_of_neg]

theorem activityRow_state (started completed : List RunnerEvent) (g : GenerationRow) :
    (activityRow fleet started completed now g).state =
      LedgerWrite.left g.state (g.jobWrites fleet started completed).reverse := by
  have hstart : ∀ s, LedgerWrite.jobStarted.leaves s =
      if s ∈ [.waitingOnline, .idle] then .busy else s := fun s => by cases s <;> rfl
  have hdone : ∀ s, LedgerWrite.jobCompleted.leaves s =
      if s ∈ [.idle, .busy] then .retiring else s := fun s => by cases s <;> rfl
  obtain ⟨hfirst, hruns⟩ := foldl_activityStep_state fleet now hstart started g
  obtain ⟨hthen, -⟩ := foldl_activityStep_state fleet now hdone completed _
  unfold activityRow GenerationRow.jobWrites
  rw [hthen, List.reverse_append, LedgerWrite.left_append, hfirst]
  simp only [hruns]

/-- The writes of a change take the state to where the change does. -/
theorem Change.lifecycle {r : Request P} {v v' : View} {g : GenerationRow} (h : Change P id r v v')
    (hg : v.generation = some g) : ∃ g', v'.generation = some g' ∧
      g'.state = LedgerWrite.left g.state (r.ledgerWrites v v').reverse := by
  obtain ⟨g', hg'⟩ := h.generation_stays hg
  refine ⟨g', hg', ?_⟩
  have hbefore : v.lifecycle = some g.state := by simp [View.lifecycle, hg]
  have hafter : v'.lifecycle = some g'.state := by simp [View.lifecycle, hg']
  unfold Request.ledgerWrites
  split
  · next hsame =>
    rw [hafter, hbefore] at hsame
    exact Option.some.inj hsame
  · next hchanged =>
    have hmoved : ¬ g'.state = g.state := by
      rwa [hafter, hbefore, Option.some.injEq] at hchanged
    clear hchanged hbefore hafter
    cases h with
    | inserted _ hnone | admitted _ hnone | generationInserted _ _ hnone =>
      cases hnone.symm.trans hg
    | completed hcompletes =>
      cases hg'
      cases hcompletes <;> rfl
    | finalized | finalizedBare | importQuarantined | advanced =>
      cases hg'
      rfl
    | quarantined hrecovers _ _ _ _ _ _ _ _ hw =>
      cases hg'
      cases hrecovers <;> rcases hw with rfl | rfl <;> rfl
    | replaced hrecovers _ _ _ hg₁ =>
      cases hg'
      cases Option.some.inj (hg₁.symm.trans hg)
      have hleaves : ∀ s, replacedState s = LedgerWrite.replaced.leaves s :=
        fun s => by cases s <;> rfl
      cases hrecovers <;> exact hleaves _
    | activity hg₁ =>
      cases hg'
      cases Option.some.inj (hg₁.symm.trans hg)
      simp only [hg, Option.toList_some, List.flatMap_cons, List.flatMap_nil, List.append_nil]
      exact activityRow_state ..
    | anchored hg₁ _ _ hanchored =>
      cases hg'
      cases Option.some.inj (hg₁.symm.trans hg)
      exact absurd hanchored.state_eq hmoved
    | imported _ _ _ hg₁ | jitSet hg₁ | resultSet hg₁ | expiryRequested hg₁
    | resourcesDestroyed hg₁ =>
      cases hg'
      cases Option.some.inj (hg₁.symm.trans hg)
      exact absurd rfl hmoved
    | _ =>
      cases hg.symm.trans hg'
      exact absurd rfl hmoved

end Writes

/-! ## Statements -/

/-- The daemon dies, and with it the calls it was serving. -/
def Label.dies : Label P → Bool
  | .crashed _ | .restarted => true
  | .served _ _ | .failed _ => false

/-- What a step of the system wrote to the state of a generation. -/
def Label.ledgerWrites (l : Label P) (v v' : View) : List LedgerWrite :=
  l.request.toList.flatMap fun r => r.ledgerWrites v v'

/-- A call of `generation_advance`. -/
structure Advance where
  id : Uuid
  next : GenerationState
  subphase : Option String
  now : Int
  deriving DecidableEq

/-- An advance between its two statements. -/
structure Flight extends Advance where
  /-- The state that the SELECT read. -/
  read : GenerationState
  /-- The writes of its generation's state since, the latest first. -/
  between : List LedgerWrite
  deriving DecidableEq

namespace Flight

def note (f : Flight) (writes : List LedgerWrite) : Flight :=
  { f with between := writes.reverse ++ f.between }

/-- The state that the writes between the statements leave. -/
def left (f : Flight) : GenerationState := LedgerWrite.left f.read f.between

@[simp] theorem note_left (f : Flight) (writes : List LedgerWrite) :
    (f.note writes).left = LedgerWrite.left f.left writes.reverse :=
  LedgerWrite.left_append ..

/-- Nothing came between the statements, or the last write was one that may. -/
def Spared (f : Flight) : Prop :=
  match f.between with
  | [] => True
  | w :: earlier => w.mayFall (LedgerWrite.left f.read earlier) f.next = true

instance (f : Flight) : Decidable f.Spared := by
  unfold Spared
  split <;> infer_instance

theorem spared_iff {f : Flight} (hread : transitionAllowed f.read f.next = true) :
    f.Spared ↔ transitionAllowed f.left f.next = true := by
  unfold Spared left
  cases f.between with
  | nil => exact ⟨fun _ => hread, fun _ => trivial⟩
  | cons w earlier =>
    show w.mayFall _ _ = true ↔ _
    rw [LedgerWrite.mayFall_eq]
    rfl

end Flight

/-- The system and the advances that were checked but did not write yet. -/
structure Interleaved where
  system : System
  flights : List Flight

inductive Statement (P : Platform) where
  | request (l : Label P)
  /-- The SELECT of an advance, and its check. -/
  | selected (a : Advance)
  /-- The UPDATE of an advance, which then returns Ok. -/
  | updated (f : Flight)
  /-- The call ends between its statements, or its UPDATE fails. -/
  | abandoned (f : Flight)

namespace Interleaved

def store (ι : Interleaved) : Store := ι.system.daemon.store

def view (ι : Interleaved) (id : Uuid) : View := ι.system.view id

/-- Another store behind the same daemon. -/
def withStore (ι : Interleaved) (store : Store) : Interleaved :=
  { ι with system := { ι.system with daemon := { ι.system.daemon with store } } }

def Initial (ι : Interleaved) : Prop := System.Initial ι.system ∧ ι.flights = []

inductive Step (P : Platform) : Interleaved → Statement P → Interleaved → Prop
  | request {ι : Interleaved} {l : Label P} {τ : System} : System.Step P ι.system l τ →
      Step P ι (.request l) {
        system := τ
        flights := if l.dies then []
          else ι.flights.map fun f => f.note (l.ledgerWrites (ι.view f.id) (τ.view f.id)) }
  | selected {ι : Interleaved} {a : Advance} {u : Unit} {g : GenerationRow} :
      (ι.view a.id).generation = some g → ι.store.advanceCheck a.id a.next = .ok u →
      Step P ι (.selected a)
        { ι with flights := { a with read := g.state, between := [] } :: ι.flights }
  | updated {ι : Interleaved} {f : Flight} {store : Store} : f ∈ ι.flights →
      ι.store.advanceWrite f.id f.next f.subphase f.now = .ok store →
      Step P ι (.updated f)
        { ι.withStore store with
          flights := (ι.flights.erase f).map fun other =>
            if other.id = f.id then other.note [.advanced f.next] else other }
  | abandoned {ι : Interleaved} {f : Flight} :
      Step P ι (.abandoned f) { ι with flights := ι.flights.erase f }

variable {ι κ υ : Interleaved} {l : Statement P} {a : Advance} {f : Flight}

/-- The lifecycle state of generation `id`. -/
def state (ι : Interleaved) (id : Uuid) : Option GenerationState := (ι.view id).lifecycle

/-- The generation is in a state with an allowed transition to where the advance takes it. -/
def Allows (ι : Interleaved) (a : Advance) : Prop :=
  ∃ s, ι.state a.id = some s ∧ transitionAllowed s a.next = true

theorem state_eq_some {s : GenerationState} :
    ι.state id = some s ↔ ∃ g, (ι.view id).generation = some g ∧ g.state = s :=
  Option.map_eq_some_iff

/-! ## Steps -/

/-- The UPDATE of an advance writes its generation's row, and no other. -/
theorem Step.updated_view (h : Step P ι (.updated f) κ) :
    f ∈ ι.flights ∧ ∃ g, (ι.view f.id).generation = some g ∧
      κ.view = Function.update ι.view f.id { ι.view f.id with
        generation := some { g with
          state := f.next, subphase := f.subphase, updatedAt := f.now } } := by
  cases h with
  | updated hf hwrite =>
    obtain ⟨g, hg, -⟩ := bind_eq_ok.mp hwrite
    exact ⟨hf, g, okOr_eq_ok.mp hg, Store.advanceWrite_view (okOr_eq_ok.mp hg) hwrite⟩

theorem Step.updated_state (h : Step P ι (.updated f) κ) (id : Uuid) :
    κ.state id = if id = f.id then some f.next else ι.state id := by
  obtain ⟨-, g, -, hview⟩ := h.updated_view
  unfold state
  rw [hview]
  by_cases hid : id = f.id
  · subst hid
    simp [View.lifecycle]
  · rw [Function.update_of_ne hid, if_neg hid]

/-- What a step of the system does to a generation's state, its writes do. -/
theorem request_state {l : Label P} {τ : System} {s : GenerationState}
    (h : System.Step P ι.system l τ) (hs : ι.state id = some s) :
    (τ.view id).lifecycle =
      some (LedgerWrite.left s (l.ledgerWrites (ι.view id) (τ.view id)).reverse) := by
  obtain ⟨g, hg, rfl⟩ := state_eq_some.mp hs
  rcases h.change id with hsame | ⟨r, hr, -, hchange⟩
  · have hnone : l.ledgerWrites (ι.view id) (τ.view id) = [] := by
      unfold Label.ledgerWrites Request.ledgerWrites
      rw [hsame]
      simp [view]
    rw [hnone, hsame]
    exact hs
  · obtain ⟨g', hg', hstate⟩ := hchange.lifecycle hg
    have hwrites : l.ledgerWrites (ι.view id) (τ.view id) =
        r.ledgerWrites (ι.view id) (τ.view id) := by
      simp [Label.ledgerWrites, hr]
    rw [hwrites]
    exact (congrArg (Option.map (·.state)) hg').trans (congrArg some hstate)

/-! ## The writes in between -/

/-- Each advance in flight passed its check, and its generation's state is what the writes since
leave of the state it read. -/
def Followed (ι : Interleaved) : Prop :=
  ∀ f ∈ ι.flights, transitionAllowed f.read f.next = true ∧ ι.state f.id = some f.left

theorem Step.followed (h : Step P ι l κ) (hι : ι.Followed) : κ.Followed := by
  intro f hf
  cases h with
  | @request label _ hstep =>
    cases hdies : label.dies with
    | true => simp [hdies] at hf
    | false =>
      simp only [hdies, Bool.false_eq_true, if_false] at hf
      obtain ⟨f, hbefore, rfl⟩ := List.mem_map.mp hf
      obtain ⟨hread, hs⟩ := hι f hbefore
      refine ⟨hread, ?_⟩
      rw [Flight.note_left]
      exact request_state hstep hs
  | selected hg hcheck =>
    rcases List.mem_cons.mp hf with rfl | hf
    · obtain ⟨g', hg', hallowed⟩ := Store.advanceCheck_ok hcheck
      cases hg.symm.trans hg'
      exact ⟨hallowed, state_eq_some.mpr ⟨_, hg, rfl⟩⟩
    · exact hι f hf
  | @updated update _ hmem hwrite =>
    obtain ⟨f, hbefore, rfl⟩ := List.mem_map.mp hf
    obtain ⟨hread, hs⟩ := hι f (List.mem_of_mem_erase hbefore)
    have hstate := (Step.updated (P := P) hmem hwrite).updated_state f.id
    split
    · next hid =>
      rw [if_pos hid] at hstate
      exact ⟨hread, hstate⟩
    · next hid =>
      rw [if_neg hid] at hstate
      exact ⟨hread, hstate.trans hs⟩
  | abandoned => exact hι f (List.mem_of_mem_erase hf)

theorem Initial.followed (h : ι.Initial) : ι.Followed := by
  intro f hf
  rw [h.2] at hf
  cases hf

theorem Step.allows_iff (h : Step P ι (.updated f) κ) (hι : ι.Followed) :
    ι.Allows f.toAdvance ↔ f.Spared := by
  obtain ⟨hread, hs⟩ := hι f h.updated_view.1
  rw [Flight.spared_iff hread]
  refine ⟨?_, fun hallowed => ⟨_, hs, hallowed⟩⟩
  rintro ⟨s, hs', hallowed⟩
  cases hs.symm.trans hs'
  exact hallowed

/-- The UPDATE of this step, if it is one, writes over a state with an allowed transition. -/
def Lawful (ι : Interleaved) (l : Statement P) : Prop :=
  ∀ f, l = .updated f → ι.Allows f.toAdvance

/-- The UPDATE of this step, if it is one, is of an advance that was spared. -/
def Considerate (l : Statement P) : Prop := ∀ f, l = .updated f → f.Spared

/-- **Advances lose no update.**  In a run, an UPDATE writes over a state with an allowed transition
exactly if the writes between the two statements of its advance are ones that may come there. -/
theorem lawful_iff_considerate {trace : List (Interleaved × Statement P × Interleaved)}
    (hι : Initial ι) (h : Run (Step P) ι trace κ) :
    (∀ e ∈ trace, Lawful e.1 e.2.1 ↔ Considerate e.2.1) ∧
      ((∀ e ∈ trace, Lawful e.1 e.2.1) ↔ ∀ e ∈ trace, Considerate e.2.1) := by
  have hstep : ∀ e ∈ trace, Lawful e.1 e.2.1 ↔ Considerate e.2.1 := by
    refine h.forall_mem (I := Followed) (Q := fun ι l _ => Lawful ι l ↔ Considerate l)
      (fun _ _ _ hs hstep => hstep.followed hs) ?_ hι.followed
    intro ι l κ hs hstep
    refine forall₂_congr fun f hf => ?_
    subst hf
    exact hstep.allows_iff hs
  exact ⟨hstep, forall₂_congr hstep⟩

/-! ## Conformance -/

/-- The UPDATE of this step, if it is one, leads along a path from what the writes in between left;
and one that destroys finds no worker, as completing the worker found none before its SELECT. -/
def Orderly (ι : Interleaved) (l : Statement P) : Prop :=
  ∀ f, l = .updated f →
    f.next ∈ f.left.onward ∧ (f.next = .destroyed → (ι.view f.id).worker = none)

def OrderlyStep (P : Platform) (ι : Interleaved) (l : Statement P) (κ : Interleaved) : Prop :=
  Step P ι l κ ∧ Orderly ι l

structure Sound (ι : Interleaved) : Prop where
  followed : ι.Followed
  terminal : ∀ id, (ι.view id).TerminalSound

theorem Initial.sound (P : Platform) (h : ι.Initial) : ι.Sound :=
  ⟨h.followed, System.Reached.terminalSound (P := P) (.of_init h.1)⟩

theorem Followed.left_eq {g : GenerationRow} (hι : ι.Followed) (hf : f ∈ ι.flights)
    (hg : (ι.view f.id).generation = some g) : g.state = f.left := by
  obtain ⟨g', hg', hleft⟩ := state_eq_some.mp (hι f hf).2
  cases hg.symm.trans hg'
  exact hleft

theorem Step.conforms_iff (h : Step P ι (.updated f) κ) (hι : ι.Followed) :
    System.Conforms f.id ι.system κ.system ↔ f.next ∈ f.left.onward := by
  obtain ⟨hf, g, hg, hview⟩ := h.updated_view
  have hleft := hι.left_eq hf hg
  have hafter := congrFun hview f.id
  rw [Function.update_self] at hafter
  rw [← Reaches.iff_mem_onward, ← hleft]
  constructor
  · intro hconforms
    obtain ⟨g', hg', hreaches⟩ := hconforms g hg
    cases (congrArg View.generation hafter).symm.trans hg'
    exact hreaches
  · intro hreaches g₁ hg₁
    cases hg.symm.trans hg₁
    exact ⟨_, congrArg View.generation hafter, hreaches⟩

theorem OrderlyStep.sound (h : OrderlyStep P ι l κ) (hι : ι.Sound) : κ.Sound := by
  refine ⟨h.1.followed hι.followed, fun id => ?_⟩
  have hid := hι.terminal id
  obtain ⟨hstep, horderly⟩ := h
  cases hstep with
  | request hstep => exact hstep.preserves (fun _ _ _ hchange hv => hv.change hchange) hid
  | selected | abandoned => exact hid
  | @updated f _ hmem hwrite =>
    have hupdated := Step.updated (P := P) hmem hwrite
    obtain ⟨-, g, hg, hview⟩ := hupdated.updated_view
    obtain ⟨honward, hworker⟩ := horderly f rfl
    by_cases heq : id = f.id
    · subst heq
      have hleft := hι.followed.left_eq hmem hg
      rw [congrFun hview f.id, Function.update_self]
      constructor
      · -- A completed generation is destroyed, and nothing leads on from there.
        intro w receipt hw hreceipt
        obtain ⟨hstate, hcompleted, g₁, hg₁, hdestroyed⟩ := hid.completed w receipt hw hreceipt
        cases hg.symm.trans hg₁
        rw [← hleft, hdestroyed] at honward
        exact ⟨hstate, hcompleted, _, rfl, List.mem_singleton.mp honward⟩
      · intro w g' hw hg' hdestroyed
        cases hg'
        cases (hworker hdestroyed).symm.trans hw
    · rw [congrFun hview id, Function.update_of_ne heq]
      exact hid

theorem OrderlyStep.conforms (h : OrderlyStep P ι l κ) (hι : ι.Sound) (id : Uuid) :
    System.Conforms id ι.system κ.system := by
  obtain ⟨hstep, horderly⟩ := h
  cases hstep with
  | request hstep => exact hstep.conforms (hι.terminal id)
  | selected | abandoned => exact fun g hg => ⟨g, hg, .refl _⟩
  | @updated f _ hmem hwrite =>
    have hupdated := Step.updated (P := P) hmem hwrite
    by_cases heq : id = f.id
    · subst heq
      exact (hupdated.conforms_iff hι.followed).mpr (horderly f rfl).1
    · obtain ⟨-, _, -, hview⟩ := hupdated.updated_view
      refine fun g hg => ⟨g, ?_, .refl _⟩
      have hsame := congrFun hview id
      rw [Function.update_of_ne heq] at hsame
      exact (congrArg View.generation hsame).trans hg

/-- **Ledger conformance.**  Where every UPDATE is orderly, every step of a run, and so the whole
run, moves a generation only along paths of allowed transitions; and an UPDATE that leads along no
path from what the writes in between left breaks that. -/
theorem ledger_conforms {trace : List (Interleaved × Statement P × Interleaved)}
    (hι : Reachable Initial (OrderlyStep P) ι) (h : Run (OrderlyStep P) ι trace κ) (id : Uuid) :
    ((∀ e ∈ trace, System.Conforms id e.1.system e.2.2.system) ∧
        System.Conforms id ι.system κ.system) ∧
      ∀ f υ, Step P κ (.updated f) υ →
        (System.Conforms f.id κ.system υ.system ↔ f.next ∈ f.left.onward) := by
  have hkeeps : ∀ ι l κ, Sound ι → OrderlyStep P ι l κ → Sound κ :=
    fun _ _ _ hs hstep => hstep.sound hs
  have hsound : ι.Sound := Reachable.invariant (I := Sound) (fun _ h => h.sound P) hkeeps hι
  refine ⟨⟨?_, ?_⟩, fun f υ hupdated => hupdated.conforms_iff (h.invariant hkeeps hsound).followed⟩
  · exact h.forall_mem (I := Sound) (Q := fun ι _ κ => System.Conforms id ι.system κ.system) hkeeps
      (fun _ _ _ hs hstep => hstep.conforms hs id) hsound
  · exact h.relates (I := Sound) (R := fun ι κ => System.Conforms id ι.system κ.system)
      (fun _ g hg => ⟨g, hg, .refl _⟩) (fun _ _ _ => System.Conforms.trans) hkeeps
      (fun _ _ _ hs hstep => hstep.conforms hs id) hsound

/-! ## An advance and a job start -/

/-- An advance in flight can write whenever its generation exists. -/
theorem exists_updated {s : GenerationState} (hf : f ∈ ι.flights) (hs : ι.state f.id = some s) :
    ∃ κ, Step P ι (.updated f) κ := by
  obtain ⟨g, hg, -⟩ := state_eq_some.mp hs
  have hfind : ι.store.generations.find f.id = some g := hg
  have hwrite : (ι.store.advanceWrite f.id f.next f.subphase f.now).isOk = true := by
    simp only [Store.advanceWrite, hfind]
    rfl
  obtain ⟨store, hstore⟩ := exists_ok_of_isOk hwrite
  exact ⟨_, .updated hf hstore⟩

/-- A run of the system alone is an interleaved run with no advance in flight. -/
theorem run_of_run {σ τ : System} {trace : List (System × Label P × System)}
    (h : Run (System.Step P) σ trace τ) :
    ∃ trace', Run (OrderlyStep P) ⟨σ, []⟩ trace' ⟨τ, []⟩ := by
  induction h with
  | nil => exact ⟨_, .nil _⟩
  | @cons _ _ _ label _ hstep _ ih =>
    obtain ⟨trace', hrest⟩ := ih
    have hrequest := Step.request (ι := ⟨_, []⟩) hstep
    rw [List.map_nil, ite_self] at hrequest
    refine ⟨_, .cons (l := .request label) ⟨hrequest, ?_⟩ hrest⟩
    rintro f ⟨⟩

/-- The SELECT of an advance succeeds in a state with an allowed transition. -/
theorem Step.of_state {s : GenerationState} (hs : ι.state a.id = some s)
    (hallowed : transitionAllowed s a.next = true) :
    Step P ι (.selected a)
      { ι with flights := { a with read := s, between := [] } :: ι.flights } := by
  obtain ⟨g, hg, rfl⟩ := state_eq_some.mp hs
  have hfind : ι.store.generations.find a.id = some g := hg
  exact .selected (u := ()) hg
    (bind_eq_ok.mpr ⟨g, okOr_eq_ok.mpr hfind, ensure_eq_ok.mpr hallowed⟩)

theorem Step.of_permits {r : Request P} (h : ι.system.Permits P r) :
    ∃ l, Step P ι (.request l) {
      system := ι.system.serve P r
      flights := ι.flights.map fun f =>
        f.note (r.ledgerWrites (ι.view f.id) ((ι.system.serve P r).view f.id)) } := by
  refine ⟨.served r (ι.system.daemon.exec P r).2, ?_⟩
  have hstep := Step.request (ι := ι) (.served _ r h)
  simpa [Label.dies, Label.ledgerWrites, Label.request] using hstep

open Script

/-- The waiting generation of the script. -/
def waitingSystem : System := (System.initial 2).play platform waiting

/-- It, with its runner at work on a job. -/
def busySystem : System := waitingSystem.serve platform busy

/-- An advance of the waiting generation to `next`. -/
def flight (next : GenerationState) (between : List LedgerWrite) : Flight where
  id := generation
  next
  subphase := none
  now := 400
  read := .waitingOnline
  between

/-- The job starts under the advance. -/
def raced (next : GenerationState) : Interleaved := ⟨busySystem, [flight next [.jobStarted]]⟩

theorem waiting_plays : (System.initial 2).Plays platform waiting ∧
    state ⟨waitingSystem, []⟩ generation = some .waitingOnline ∧
    waitingSystem.Permits platform busy ∧
    state ⟨busySystem, []⟩ generation = some .busy ∧
    busy.ledgerWrites (view ⟨waitingSystem, []⟩ generation) (view ⟨busySystem, []⟩ generation) =
      [.jobStarted] := by
  decide +kernel

/-- Any advance that the waiting state allows may be checked, and then the job starts. -/
theorem raced_reached (next : GenerationState)
    (hallowed : transitionAllowed .waitingOnline next = true) :
    ∃ ι trace, Initial ι ∧ Run (OrderlyStep platform) ι trace (raced next) := by
  obtain ⟨hplays, hwaiting, hpermits, -, hwrites⟩ := waiting_plays
  obtain ⟨trace, hrun⟩ := run_of_run hplays.run
  have hselected : Step platform ⟨waitingSystem, []⟩ _ ⟨waitingSystem, [flight next []]⟩ :=
    .of_state (a := (flight next []).toAdvance) hwaiting hallowed
  obtain ⟨l, hrequest⟩ := Step.of_permits (ι := ⟨waitingSystem, [flight next []]⟩) hpermits
  have hraced : Step platform ⟨waitingSystem, [flight next []]⟩ (.request l) (raced next) := by
    have hnote : (flight next []).note (busy.ledgerWrites (view ⟨waitingSystem, []⟩ generation)
        (view ⟨busySystem, []⟩ generation)) = flight next [.jobStarted] := by
      rw [hwrites]
      rfl
    unfold raced
    rw [← hnote]
    exact hrequest
  refine ⟨_, _, ⟨⟨2, rfl⟩, rfl⟩, hrun.append (.cons ⟨hselected, ?_⟩ (.single ⟨hraced, ?_⟩))⟩
  · rintro f ⟨⟩
  · rintro f ⟨⟩

theorem raced_updated (next : GenerationState) : ∃ κ,
    Step platform (raced next) (.updated (flight next [.jobStarted])) κ ∧
      κ.state generation = some next := by
  obtain ⟨κ, hupdated⟩ := exists_updated (P := platform) (ι := raced next)
    (f := flight next [.jobStarted]) List.mem_cons_self waiting_plays.2.2.2.1
  exact ⟨κ, hupdated, (hupdated.updated_state generation).trans (if_pos rfl)⟩

/-- A quarantine may write over the job start. -/
theorem lawful_iff_considerate_sample :
    ∃ ι trace κ, Initial ι ∧ Run (Step platform) ι trace κ ∧
      (∃ e ∈ trace, ∃ f, e.2.1 = .updated f ∧ f.between = [.jobStarted] ∧
        e.1.Allows f.toAdvance ∧ κ.state generation = some .quarantined) ∧
      (∀ e ∈ trace, Lawful e.1 e.2.1 ↔ Considerate e.2.1) ∧
      ((∀ e ∈ trace, Lawful e.1 e.2.1) ↔ ∀ e ∈ trace, Considerate e.2.1) := by
  obtain ⟨ι, trace, hι, hrun⟩ := raced_reached .quarantined rfl
  obtain ⟨κ, hupdated, hstate⟩ := raced_updated .quarantined
  have hwhole := (hrun.mono fun _ _ _ h => h.1).append (.single hupdated)
  have hallows : (raced .quarantined).Allows (flight .quarantined [.jobStarted]).toAdvance :=
    ⟨.busy, waiting_plays.2.2.2.1, rfl⟩
  exact ⟨ι, _, κ, hι, hwhole,
    ⟨_, List.mem_append_right _ List.mem_cons_self, _, rfl, rfl, hallows, hstate⟩,
    lawful_iff_considerate hι hwhole⟩

/-- A runner comes online and starts a job between the SELECT and the UPDATE of its advance to
idle, and the UPDATE makes the busy generation idle. -/
theorem advance_overwrites_busy :
    ∃ ι κ f, Reachable Initial (Step platform) ι ∧ Step platform ι (.updated f) κ ∧
      ι.state generation = some .busy ∧ ¬ ι.Allows f.toAdvance ∧
      κ.state generation = some .idle := by
  obtain ⟨ι, trace, hι, hrun⟩ := raced_reached .idle rfl
  obtain ⟨κ, hupdated, hstate⟩ := raced_updated .idle
  have hbusy : (raced .idle).state generation = some .busy := waiting_plays.2.2.2.1
  refine ⟨raced .idle, κ, _, ⟨ι, trace, hι, hrun.mono fun _ _ _ h => h.1⟩, hupdated, hbusy, ?_,
    hstate⟩
  rintro ⟨s, hs, hallowed⟩
  cases hbusy.symm.trans hs
  cases hallowed

/-- The quarantine that writes over a job start leads on from it. -/
theorem ledger_conforms_sample :
    ∃ ι trace κ, Run (OrderlyStep platform) ι trace κ ∧ ι.state generation = some .busy ∧
      κ.state generation = some .quarantined ∧
      ((∀ e ∈ trace, System.Conforms generation e.1.system e.2.2.system) ∧
        System.Conforms generation ι.system κ.system) ∧
      ∀ f υ, Step platform κ (.updated f) υ →
        (System.Conforms f.id κ.system υ.system ↔ f.next ∈ f.left.onward) := by
  obtain ⟨ι, trace, hι, hrun⟩ := raced_reached .quarantined rfl
  obtain ⟨κ, hupdated, hstate⟩ := raced_updated .quarantined
  have horderly : OrderlyStep platform (raced .quarantined)
      (.updated (flight .quarantined [.jobStarted])) κ := by
    refine ⟨hupdated, ?_⟩
    rintro f ⟨⟩
    exact ⟨by decide, by rintro ⟨⟩⟩
  exact ⟨_, _, κ, .single horderly, waiting_plays.2.2.2.1, hstate,
    ledger_conforms ⟨ι, trace, hι, hrun⟩ (.single horderly) generation⟩

/-- The UPDATE of an advance to idle takes a busy generation back, where no path leads. -/
theorem advance_leaves_ledger :
    ∃ ι κ f, Reachable Initial (Step platform) ι ∧ Step platform ι (.updated f) κ ∧
      ι.state generation = some .busy ∧ κ.state generation = some .idle ∧
      ¬ Reaches .busy .idle ∧ ¬ System.Conforms generation ι.system κ.system := by
  obtain ⟨ι, trace, hι, hrun⟩ := raced_reached .idle rfl
  obtain ⟨κ, hupdated, hstate⟩ := raced_updated .idle
  have hbusy : (raced .idle).state generation = some .busy := waiting_plays.2.2.2.1
  have hno : ¬ Reaches .busy .idle := by
    rw [Reaches.iff_mem_onward]
    decide
  refine ⟨raced .idle, κ, _, ⟨ι, trace, hι, hrun.mono fun _ _ _ h => h.1⟩, hupdated, hbusy,
    hstate, hno, fun hconforms => ?_⟩
  obtain ⟨g, hg, hgbusy⟩ := state_eq_some.mp hbusy
  obtain ⟨g', hg', hreaches⟩ := hconforms g hg
  obtain ⟨g₁, hg₁, hidle⟩ := state_eq_some.mp hstate
  cases hg'.symm.trans hg₁
  rw [hgbusy, hidle] at hreaches
  exact hno hreaches

end Interleaved

end Shaula
