import Shaula.Listener.AtMostOnce
import Shaula.Listener.Broker

/-! # Custody of broker sessions

Who has a session that the broker gave out, and what each effect of a listener keeps of that.
-/

namespace Shaula

open Library Library.Outcome Core Jobs Registry

namespace Listener

/-- How a session is told to the broker: its scale set and its id. -/
abbrev SessionId := Int × String

def PersistedSession.id (session : PersistedSession) : SessionId :=
  (session.scaleSetId, session.handle.sessionId)

/-! ## The world of a fleet -/

/-- The store and the fleet's listeners.  Three ghosts beside them: sessions that were definitely
established and not answered deleted, the one that a call was just given and has not noted, and
those that were dropped like that. -/
structure BrokerWorld (δ : Type) where
  store : ListenerStore δ
  listeners : Nat → ListenerState
  opened : List SessionId
  inHand : Option SessionId
  dropped : List SessionId

namespace BrokerWorld

variable {δ : Type} (w : BrokerWorld δ)

def modify (listener : Nat) (f : ListenerState → ListenerState) : BrokerWorld δ :=
  { w with listeners := fun l => if l = listener then f (w.listeners l) else w.listeners l }

/-- The call under way is gone, with what it had in hand. -/
def abandon : BrokerWorld δ :=
  { w with inHand := none, dropped := w.inHand.toList ++ w.dropped }

end BrokerWorld

section Machine

variable {δ : Type} [DecidableEq δ] (E : Encoding δ) (fleet : String)

/-- A store transaction answers, or fails with what it did kept or not. -/
def Transacts {α : Type} (w : BrokerWorld δ) (outcome : StoreResult (α × ListenerStore δ))
    (answer : Except StoreError α) (w' : BrokerWorld δ) : Prop :=
  match answer with
  | .ok a => ∃ t, outcome = .ok (a, t) ∧ w' = { w with store := t }
  | .error _ => w' = w ∨ ∃ a t, outcome = .ok (a, t) ∧ w' = { w with store := t }

/-- What an effect answers and leaves. -/
def BrokerActs (w : BrokerWorld δ) : (op : BrokerEffect) → op.Answer → BrokerWorld δ → Prop
  | .state listener, state, w' => state = w.listeners listener ∧ w' = w
  | .setEnabled listener enabled, _, w' => w' = w.modify listener fun s => { s with enabled }
  | .setStopped listener stopped, _, w' => w' = w.modify listener fun s => { s with stopped }
  | .setReason listener reason, _, w' =>
    w' = w.modify listener fun s => { s with reason := some reason }
  | .failed listener failure, _, w' =>
    ∃ now, w' = w.modify listener (ListenerState.setFailure fleet failure none now)
  | .noteUncommitted listener scaleSetId handle, _, w' =>
    w' = { w.modify listener fun s =>
        { s with uncommittedSession := some (scaleSetId, handle) } with inHand := none }
  | .forgetUncommitted listener, _, w' =>
    w' = w.modify listener fun s => { s with uncommittedSession := none }
  | .remember listener session, _, w' => w' = w.modify listener fun _ =>
      { session := some session, uncommittedSession := none, retryAt := 0, failures := 0,
        reason := none, enabled := true, reconnect := false, stopped := false }
  | .forgetSession listener, _, w' => w' = w.modify listener fun s => { s with session := none }
  | .sessionGet, session, w' => w.store.sessionHandle fleet = .ok session ∧ w' = w
  | .sessionEpoch, epoch, w' => epoch = (w.store.sessions.find fleet).map (·.epoch) ∧ w' = w
  | .sessionInstall install, answer, w' =>
    Transacts w (w.store.sessionInstall fleet install) answer w'
  | .sessionClear epoch, answer, w' =>
    Transacts w (w.store.sessionClear fleet epoch) (.ok answer) w'
  | .establishSession _ scaleSetId _, .ok (.definite handle), w' =>
    w' = { w with
      opened := (scaleSetId, handle.sessionId) :: w.opened
      inHand := some (scaleSetId, handle.sessionId) }
  | .deleteSession _ scaleSetId sessionId, deleted, w' =>
    w' = if leftBy deleted = none then
      { w with opened := w.opened.filter (· ≠ (scaleSetId, sessionId)) } else w
  | _, _, w' => w' = w

/-- What polls leave of a listener's state. -/
inductive Polls : ListenerState → ListenerState → Prop
  | reconnects (s : ListenerState) : Polls s { s with reconnect := true }
  | failed (s : ListenerState) (failure : AccessFailure) (epoch now : Int) :
    Polls s (s.setFailure fleet failure (some epoch) now)
  | recovered (s : ListenerState) (epoch : Int) : Polls s (s.recovered epoch)

/-- The operation replaces no session of the fleet. -/
def SparesSession : Op → Prop
  | .install key _ | .clear key _ => key ≠ fleet
  | _ => True

/-- Beside the fleet's calls there are polls, their transactions and those of other components. -/
inductive Interferes (w : BrokerWorld δ) : BrokerWorld δ → Prop
  | poll (listener : Nat) (s : ListenerState) : Polls fleet (w.listeners listener) s →
    Interferes w (w.modify listener fun _ => s)
  | store (op : Op) : SparesSession fleet op → Interferes w { w with store := w.store.perform E op }

/-- A request that is broken off has given nobody a session. -/
def BrokerEffect.Establishes : BrokerEffect → Prop
  | .establishSession _ _ _ => True
  | _ => False

def brokerMachine : Machine brokerEffects (BrokerWorld δ) where
  env := Interferes E fleet
  act := BrokerActs fleet
  lost w op w' := w' = w.abandon ∨ ∃ answer w₁, ¬ op.Establishes ∧ BrokerActs fleet w op answer w₁ ∧
    w' = w₁.abandon

inductive BrokerCall where
  | ensureSession (listener : FleetListener) (scaleSetId : Int)
  | stop (listener : FleetListener)

def BrokerCall.listener : BrokerCall → FleetListener
  | ensureSession listener _ | stop listener => listener

def BrokerCall.body : BrokerCall → BrokerRoutine Unit
  | ensureSession listener scaleSetId => do
    let _ ← listener.ensureSession scaleSetId
    return ()
  | stop listener => do
    let _ ← listener.stop
    return ()

/-- The calls of a fleet's listeners exclude each other by the fleet's gate.  The future of a call
may be dropped anywhere. -/
def brokerSession : Session brokerEffects BrokerCall (BrokerWorld δ) StoreError Unit where
  machine := brokerMachine E fleet
  body := BrokerCall.body
  begins w _ := w.inHand = none
  idle := Interferes E fleet
  crash := BrokerWorld.abandon

end Machine

/-! ## Who has a session -/

/-- What the world says about sessions. -/
structure Custody where
  /-- The epoch of the stored row, and its session when there is one. -/
  stored : Option (Int × Option SessionId)
  remembered : Nat → Option (Int × SessionId)
  uncommitted : Nat → Option SessionId
  opened : List SessionId
  inHand : Option SessionId
  dropped : List SessionId

def SessionRow.holding (row : SessionRow) : Int × Option SessionId :=
  (row.epoch, if row.active then some (row.scaleSetId, row.sessionId) else none)

section Custody

variable {δ : Type} (fleet : String)

def ListenerState.rememberedId (s : ListenerState) : Option (Int × SessionId) :=
  s.session.map fun session => (session.epoch, session.id)

def ListenerState.uncommittedId (s : ListenerState) : Option SessionId :=
  s.uncommittedSession.map fun session => (session.1, session.2.sessionId)

def BrokerWorld.custody (w : BrokerWorld δ) : Custody where
  stored := (w.store.sessions.find fleet).map SessionRow.holding
  remembered l := (w.listeners l).rememberedId
  uncommitted l := (w.listeners l).uncommittedId
  opened := w.opened
  inHand := w.inHand
  dropped := w.dropped

namespace Custody

variable (c : Custody)

/-- The store has the session. -/
def Stored (x : SessionId) : Prop := ∃ epoch, c.stored = some (epoch, some x)

/-- Somebody has every open session: the store, a listener that has not committed it, or the call
under way, unless it was dropped.  An epoch is remembered for the session it was stored for. -/
structure Sound : Prop where
  kept : ∀ x ∈ c.opened, c.Stored x ∨ (∃ l, c.uncommitted l = some x) ∨ c.inHand = some x ∨
    x ∈ c.dropped
  remembered : ∀ l epoch x, c.remembered l = some (epoch, x) → ∃ current holding,
    c.stored = some (current, holding) ∧ epoch ≤ current ∧
      (epoch = current → ∀ y, holding = some y → y = x)

/-- No session is known to the listener. -/
def Unknown (l : Nat) : Prop :=
  (∀ x, ¬ c.Stored x) ∧ c.remembered l = none ∧ c.uncommitted l = none

end Custody

/-! ## What others leave alone -/

section Others

variable [DecidableEq δ] {E : Encoding δ} {fleet : String} {w w' : BrokerWorld δ}

open ListenerStore (perform_effect Effect install_sessions) in
/-- An operation that spares the fleet's session changes at most its last message. -/
theorem holding_perform {s : ListenerStore δ} {op : Op} (h : SparesSession fleet op) :
    ((s.perform E op).sessions.find fleet).map SessionRow.holding =
      (s.sessions.find fleet).map SessionRow.holding := by
  have heffect := perform_effect E s op
  generalize s.perform E op = t at heffect ⊢
  cases heffect with
  | unchanged | upgraded | started | completed | others => rfl
  | ingested _ _ _ hingested => rw [hingested.sessions]
  | acknowledged =>
    simp only [ListenerStore.markAcked, Table.find_update, Option.map_map]
    congr 1
    funext row
    simp only [Function.comp_apply]
    split <;> rfl
  | installed =>
    rw [install_sessions, Table.find_put, if_neg (Ne.symm h)]
  | cleared =>
    rw [ListenerStore.retireSession, Table.find_put, if_neg (Ne.symm h)]
    rfl

theorem setFailure_keeps (failure : AccessFailure) (epoch : Option Int) (now : Int)
    (s : ListenerState) : (s.setFailure fleet failure epoch now).session = s.session ∧
      (s.setFailure fleet failure epoch now).uncommittedSession = s.uncommittedSession := by
  unfold ListenerState.setFailure
  split <;> exact ⟨rfl, rfl⟩

theorem Polls.keeps {s t : ListenerState} (h : Polls fleet s t) :
    t.session = s.session ∧ t.uncommittedSession = s.uncommittedSession := by
  cases h with
  | reconnects => exact ⟨rfl, rfl⟩
  | failed => exact setFailure_keeps ..
  | recovered =>
    unfold ListenerState.recovered
    split <;> exact ⟨rfl, rfl⟩

omit [DecidableEq δ] in
/-- A change of one listener. -/
theorem custody_modify (listener : Nat) (f : ListenerState → ListenerState) :
    (w.modify listener f).custody fleet = { w.custody fleet with
      remembered := Function.update (w.custody fleet).remembered listener
        (f (w.listeners listener)).rememberedId
      uncommitted := Function.update (w.custody fleet).uncommitted listener
        (f (w.listeners listener)).uncommittedId } := by
  simp only [BrokerWorld.custody, BrokerWorld.modify, Custody.mk.injEq, true_and, and_true]
  constructor
  · funext l
    by_cases hl : l = listener
    · rw [if_pos hl, hl, Function.update_self]
    · rw [if_neg hl, Function.update_of_ne hl]
  · funext l
    by_cases hl : l = listener
    · rw [if_pos hl, hl, Function.update_self]
    · rw [if_neg hl, Function.update_of_ne hl]

omit [DecidableEq δ] in
theorem custody_modify_uncommitted {listener : Nat} {f : ListenerState → ListenerState}
    (h : (f (w.listeners listener)).session = (w.listeners listener).session) :
    (w.modify listener f).custody fleet = { w.custody fleet with
      uncommitted := Function.update (w.custody fleet).uncommitted listener
        (f (w.listeners listener)).uncommittedId } := by
  have hsame : Function.update (w.custody fleet).remembered listener
      (f (w.listeners listener)).rememberedId = (w.custody fleet).remembered := by
    rw [ListenerState.rememberedId, h]
    exact Function.update_eq_self listener (w.custody fleet).remembered
  rw [custody_modify, hsame]

omit [DecidableEq δ] in
theorem custody_modify_remembered {listener : Nat} {f : ListenerState → ListenerState}
    (h : (f (w.listeners listener)).uncommittedSession =
      (w.listeners listener).uncommittedSession) :
    (w.modify listener f).custody fleet = { w.custody fleet with
      remembered := Function.update (w.custody fleet).remembered listener
        (f (w.listeners listener)).rememberedId } := by
  have hsame : Function.update (w.custody fleet).uncommitted listener
      (f (w.listeners listener)).uncommittedId = (w.custody fleet).uncommitted := by
    rw [ListenerState.uncommittedId, h]
    exact Function.update_eq_self listener (w.custody fleet).uncommitted
  rw [custody_modify, hsame]

omit [DecidableEq δ] in
/-- A change of a listener that keeps its sessions keeps the custody. -/
theorem custody_modify_kept {listener : Nat} {f : ListenerState → ListenerState}
    (h : (f (w.listeners listener)).session = (w.listeners listener).session ∧
      (f (w.listeners listener)).uncommittedSession =
        (w.listeners listener).uncommittedSession) :
    (w.modify listener f).custody fleet = w.custody fleet := by
  have hsame : Function.update (w.custody fleet).uncommitted listener
      (f (w.listeners listener)).uncommittedId = (w.custody fleet).uncommitted := by
    rw [ListenerState.uncommittedId, h.2]
    exact Function.update_eq_self listener (w.custody fleet).uncommitted
  rw [custody_modify_uncommitted h.1, hsame]

theorem Interferes.custody (h : Interferes E fleet w w') : w'.custody fleet = w.custody fleet := by
  cases h with
  | poll listener s hpolls => exact custody_modify_kept hpolls.keeps
  | store op hspares =>
    simp only [BrokerWorld.custody, holding_perform hspares]

end Others

/-! ## Changes of custody -/

namespace Custody

variable {c : Custody} {l : Nat} {x : SessionId} {epoch : Int}

/-- The call under way is gone. -/
theorem Sound.abandon (h : c.Sound) :
    Sound { c with inHand := none, dropped := c.inHand.toList ++ c.dropped } := by
  refine ⟨fun y hy => ?_, h.remembered⟩
  rcases h.kept y hy with hstored | huncommitted | hhand | hdropped
  · exact .inl hstored
  · exact .inr (.inl huncommitted)
  · refine .inr (.inr (.inr (List.mem_append_left _ ?_)))
    rw [hhand]
    exact List.mem_singleton_self y
  · exact .inr (.inr (.inr (List.mem_append_right _ hdropped)))

/-- The broker has closed a session. -/
theorem Sound.close (h : c.Sound) (x : SessionId) :
    Sound { c with opened := c.opened.filter (· ≠ x) } :=
  ⟨fun y hy => h.kept y (List.mem_filter.mp hy).1, h.remembered⟩

theorem not_mem_close (opened : List SessionId) : x ∉ opened.filter (· ≠ x) := by
  intro hmem
  have hne := (List.mem_filter.mp hmem).2
  simp at hne

/-- The broker has given out a session. -/
theorem Sound.give (h : c.Sound) (hhand : c.inHand = none) :
    Sound { c with opened := x :: c.opened, inHand := some x } := by
  refine ⟨fun y hy => ?_, h.remembered⟩
  rcases List.mem_cons.mp hy with rfl | hy
  · exact .inr (.inr (.inl rfl))
  · rcases h.kept y hy with hstored | huncommitted | hother | hdropped
    · exact .inl hstored
    · exact .inr (.inl huncommitted)
    · rw [hhand] at hother
      cases hother
    · exact .inr (.inr (.inr hdropped))

/-- The session in hand is noted. -/
theorem Sound.note (h : c.Sound) (hhand : c.inHand = some x) (hnone : c.uncommitted l = none) :
    Sound { c with uncommitted := Function.update c.uncommitted l (some x), inHand := none } := by
  refine ⟨fun y hy => ?_, h.remembered⟩
  rcases h.kept y hy with hstored | ⟨k, hk⟩ | hother | hdropped
  · exact .inl hstored
  · refine .inr (.inl ⟨k, ?_⟩)
    have hne : k ≠ l := by
      rintro rfl
      rw [hnone] at hk
      cases hk
    exact (Function.update_of_ne hne _ _).trans hk
  · rw [hhand] at hother
    cases hother
    exact .inr (.inl ⟨l, Function.update_self ..⟩)
  · exact .inr (.inr (.inr hdropped))

/-- A listener forgets an uncommitted session that is closed or stored. -/
theorem Sound.forget (h : c.Sound)
    (hclosed : ∀ x, c.uncommitted l = some x → x ∈ c.opened → c.Stored x) :
    Sound { c with uncommitted := Function.update c.uncommitted l none } := by
  refine ⟨fun y hy => ?_, h.remembered⟩
  rcases h.kept y hy with hstored | ⟨k, hk⟩ | hother | hdropped
  · exact .inl hstored
  · by_cases hl : k = l
    · exact .inl (hclosed y (hl ▸ hk) hy)
    · exact .inr (.inl ⟨k, (Function.update_of_ne hl _ _).trans hk⟩)
  · exact .inr (.inr (.inl hother))
  · exact .inr (.inr (.inr hdropped))

/-- A listener remembers the session of the current epoch, or none. -/
theorem Sound.remember (h : c.Sound) {session : Option (Int × SessionId)}
    (hstored : ∀ epoch x, session = some (epoch, x) → c.stored = some (epoch, some x)) :
    Sound { c with remembered := Function.update c.remembered l session } := by
  refine ⟨h.kept, fun k epoch x hk => ?_⟩
  have hk : Function.update c.remembered l session k = some (epoch, x) := hk
  by_cases hl : k = l
  · rw [hl, Function.update_self] at hk
    refine ⟨epoch, some x, hstored epoch x hk, le_refl epoch, fun _ y hy => ?_⟩
    cases hy
    rfl
  · rw [Function.update_of_ne hl] at hk
    exact h.remembered k epoch x hk

/-- The row of the next epoch replaces one that holds no open session. -/
theorem Sound.store (h : c.Sound) {holding : Option SessionId}
    (hnext : ∀ current held, c.stored = some (current, held) →
      epoch = current + 1 ∧ ∀ y, held = some y → y ∉ c.opened) :
    Sound { c with stored := some (epoch, holding) } := by
  refine ⟨fun y hy => ?_, fun k e x hk => ?_⟩
  · rcases h.kept y hy with ⟨current, hstored⟩ | hrest
    · exact absurd hy ((hnext current _ hstored).2 y rfl)
    · exact .inr hrest
  · obtain ⟨current, held, hstored, hle, -⟩ := h.remembered k e x hk
    have hepoch := (hnext current held hstored).1
    refine ⟨epoch, holding, rfl, by omega, fun heq => ?_⟩
    omega

end Custody

end Custody

/-! ## What each effect keeps -/

section Effects

variable {δ : Type} [DecidableEq δ]

/-- A session is asked for by the listener of the call alone, and while it knows of none. -/
def BrokerAllowed (fleet : String) (c : BrokerCall) (w : BrokerWorld δ) (op : BrokerEffect) :
    Prop :=
  ∀ l scaleSetId owner, op = .establishSession l scaleSetId owner →
    l = c.listener.id ∧ (w.custody fleet).Unknown l

/-- A specification in terms of the custody, which stays sound. -/
abbrev Keeps (E : Encoding δ) (fleet : String) (c : BrokerCall) {α : Type} (A : Custody → Prop)
    (p : BrokerRoutine α) (B : α → Custody → Prop) : Prop :=
  ViewSpec (brokerMachine E fleet) (fun w => (w.custody fleet).Sound) (BrokerAllowed fleet c)
    (fun w => w.custody fleet) A p B

variable {E : Encoding δ} {fleet : String} {c : BrokerCall} {A : Custody → Prop}
  {op : BrokerEffect} {w w' : BrokerWorld δ}

theorem spares_custody : (brokerMachine E fleet).Spares (fun w => (w.custody fleet).Sound)
    fun w => w.custody fleet := by
  intro w w' hsound henv
  have hsame := Interferes.custody henv
  refine ⟨?_, hsame⟩
  simp only [hsame]
  exact hsound

/-- An effect that is lost leaves what it did, or nothing, and the call is gone. -/
theorem sound_lost (hsound : (w.custody fleet).Sound)
    (hact : ¬ op.Establishes → ∀ answer w₁, BrokerActs fleet w op answer w₁ →
      (w₁.custody fleet).Sound)
    (hlost : (brokerMachine E fleet).lost w op w') : (w'.custody fleet).Sound := by
  rcases hlost with rfl | ⟨answer, w₁, hop, hacts, rfl⟩
  · exact hsound.abandon
  · exact (hact hop answer w₁ hacts).abandon

theorem Keeps.ask {B : op.Answer → Custody → Prop} (hop : ¬ op.Establishes)
    (hact : ∀ (w : BrokerWorld δ) answer w', (w.custody fleet).Sound → A (w.custody fleet) →
      BrokerActs fleet w op answer w' →
      (w'.custody fleet).Sound ∧ B answer (w'.custody fleet)) :
    Keeps E fleet c A (Listener.ask op) B := by
  refine ViewSpec.lift spares_custody ?_ ?_ fun w a w' hsound hA => hact w a w' hsound hA
  · rintro w - - l scaleSetId owner rfl
    exact absurd trivial hop
  · intro w w' hsound hA hlost
    exact sound_lost hsound (fun _ a w₁ hacts => (hact w a w₁ hsound hA hacts).1) hlost

/-- An effect that leaves the custody as it is, and what its answer says about it. -/
theorem Keeps.quiet {P : op.Answer → Custody → Prop} (hop : ¬ op.Establishes)
    (h : ∀ (w : BrokerWorld δ) answer w', BrokerActs fleet w op answer w' →
      w'.custody fleet = w.custody fleet ∧ P answer (w.custody fleet)) :
    Keeps E fleet c A (Listener.ask op) fun answer v => A v ∧ P answer v := by
  refine .ask hop fun w answer w' hsound hA hact => ?_
  obtain ⟨hsame, hP⟩ := h w answer w' hact
  rw [hsame]
  exact ⟨hsound, hA, hP⟩

theorem keeps_state (l : Nat) : Keeps E fleet c A (Listener.ask (.state l))
    fun (state : ListenerState) v => A v ∧ v.remembered l = state.rememberedId ∧
      v.uncommitted l = state.uncommittedId := by
  refine .quiet nofun fun w state w' hact => ?_
  obtain ⟨rfl, rfl⟩ := hact
  exact ⟨rfl, rfl, rfl⟩

/-- Reads that say nothing about the custody, and writes that do not touch it. -/
def BrokerEffect.Plain : BrokerEffect → Prop
  | nowUnixMs | setEnabled _ _ | setStopped _ _ | setReason _ _ | failed _ _
  | sessionAuthorize _ _ | sessionCloseAuthorize _ | listenerCurrent _ | sessionEpoch => True
  | _ => False

theorem keeps_plain (hop : op.Plain) : Keeps E fleet c A (Listener.ask op) fun _ => A := by
  have hnot : ¬ op.Establishes := by
    cases op <;> first | exact id | exact absurd hop id
  refine ViewSpec.weaken (Keeps.quiet (P := fun _ _ => True) hnot fun w answer w' hact => ?_)
    (fun _ h => h) fun _ _ h => h.1
  refine ⟨?_, trivial⟩
  cases op with
  | setEnabled | setStopped | setReason =>
    cases hact
    exact custody_modify_kept ⟨rfl, rfl⟩
  | failed =>
    obtain ⟨now, rfl⟩ := hact
    exact custody_modify_kept (setFailure_keeps ..)
  | sessionEpoch => rw [hact.2]
  | nowUnixMs | sessionAuthorize | sessionCloseAuthorize | listenerCurrent => rw [hact]
  | _ => cases hop

theorem keeps_after_plain {α : Type} {f : op.Answer → BrokerRoutine α} {B : α → Custody → Prop}
    (hop : op.Plain) (h : ∀ answer, Keeps E fleet c A (f answer) B) :
    Keeps E fleet c A (Listener.ask op >>= f) B :=
  (keeps_plain hop).bind h

/-- The session is closed with the broker, unless there was a failure. -/
theorem keeps_deleteSession {client : Client} {scaleSetId : Int} {sessionId : String}
    (hA : ∀ v opened, A v → A { v with opened := opened }) :
    Keeps E fleet c A (Listener.ask (.deleteSession client scaleSetId sessionId))
      fun (deleted : Except AccessFailure Unit) v => A v ∧
        (leftBy deleted = none → (scaleSetId, sessionId) ∉ v.opened) := by
  refine .ask nofun fun w deleted w' hsound hv hact => ?_
  cases hact
  split
  · exact ⟨hsound.close _, hA _ _ hv, fun _ => Custody.not_mem_close w.opened⟩
  · next hleft => exact ⟨hsound, hv, fun h => absurd h hleft⟩

theorem keeps_forgetUncommitted {l : Nat}
    (hclosed : ∀ v, A v → ∀ x, v.uncommitted l = some x → x ∈ v.opened → v.Stored x) :
    Keeps E fleet c A (Listener.ask (.forgetUncommitted l)) fun _ v => v.uncommitted l = none ∧
      ∃ before, A before ∧ v = { before with
        uncommitted := Function.update before.uncommitted l none } := by
  refine .ask nofun fun w _ w' hsound hv hact => ?_
  have hcustody : w'.custody fleet = { w.custody fleet with
      uncommitted := Function.update (w.custody fleet).uncommitted l none } := by
    cases hact
    exact custody_modify_uncommitted rfl
  rw [hcustody]
  exact ⟨hsound.forget (hclosed _ hv), Function.update_self .., _, hv, rfl⟩

/-! ### The stored session -/

omit [DecidableEq δ] in
open ListenerStore (install_sessions) in
/-- An install answers an epoch exactly when it publishes the session in it. -/
theorem sessionInstall_holding {s t : ListenerStore δ} {install : SessionInstall}
    {answer : Option Int} (h : s.sessionInstall fleet install = .ok (answer, t)) :
    (answer = none ∧ t = s) ∨ ∃ epoch, answer = some epoch ∧
      epoch = ((s.sessions.find fleet).map (·.epoch)).getD 0 + 1 ∧
      (t.sessions.find fleet).map SessionRow.holding =
        some (epoch, some (install.scaleSetId, install.handle.sessionId)) := by
  simp only [ListenerStore.sessionInstall, bind_eq_ok, ensure_eq_ok] at h
  obtain ⟨-, hcomplete, current, -, h⟩ := h
  split at h
  · cases h
    exact .inl ⟨rfl, rfl⟩
  split at h
  · cases h
    exact .inl ⟨rfl, rfl⟩
  split at h
  · cases h
    exact .inl ⟨rfl, rfl⟩
  simp only [bind_eq_ok, okOr_eq_ok, pure_eq_ok, Prod.mk.injEq] at h
  obtain ⟨epoch, hepoch, rfl, rfl⟩ := h
  refine .inr ⟨epoch, rfl, checkedAdd_eq_some hepoch, ?_⟩
  simp only [not_or] at hcomplete
  rw [install_sessions, Table.find_put, if_pos rfl, Option.map_some, SessionRow.holding,
    SessionRow.active]
  simp [hcomplete.1, hcomplete.2.1, hcomplete.2.2.1]

omit [DecidableEq δ] in
/-- A clear ends the session of its epoch, and nothing else. -/
theorem sessionClear_holding {s t : ListenerStore δ} {epoch : Int} {answer : Bool}
    (h : s.sessionClear fleet epoch = .ok (answer, t)) :
    (t = s ∧ ∀ held, (s.sessions.find fleet).map SessionRow.holding ≠ some (epoch, held)) ∨
      ∃ held, (s.sessions.find fleet).map SessionRow.holding = some (epoch, held) ∧
        (t.sessions.find fleet).map SessionRow.holding = some (epoch + 1, none) := by
  unfold ListenerStore.sessionClear at h
  cases hrow : s.sessions.find fleet with
  | none =>
    rw [hrow] at h
    cases h
    exact .inl ⟨rfl, fun held => nofun⟩
  | some row =>
    simp only [hrow] at h
    split at h
    · next hepoch =>
      cases h
      refine .inl ⟨rfl, fun held heq => hepoch ?_⟩
      exact (Prod.mk.inj (Option.some.inj heq)).1
    · next hepoch =>
      simp only [bind_eq_ok, okOr_eq_ok, pure_eq_ok, Prod.mk.injEq] at h
      obtain ⟨next, hnext, -, rfl⟩ := h
      rw [not_not] at hepoch
      refine .inr ⟨row.holding.2, ?_, ?_⟩
      · rw [Option.map_some, SessionRow.holding, hepoch]
      · rw [ListenerStore.retireSession, Table.find_put, if_pos rfl, checkedAdd_eq_some hnext,
          hepoch]
        rfl

theorem keeps_sessionGet : Keeps E fleet c A (Listener.ask .sessionGet)
    fun (stored : Option PersistedSession) v => A v ∧
      (∀ session, stored = some session → v.stored = some (session.epoch, some session.id)) ∧
      (stored = none → ∀ x, ¬ v.Stored x) := by
  refine .quiet nofun fun w stored w' hact => ?_
  obtain ⟨hget, rfl⟩ := hact
  refine ⟨rfl, ?_⟩
  unfold ListenerStore.sessionHandle at hget
  simp only [Custody.Stored, BrokerWorld.custody]
  cases hrow : w'.store.sessions.find fleet with
  | none =>
    simp only [hrow, Except.ok.injEq] at hget
    subst hget
    refine ⟨fun session h => ?_, fun _ x => by simp⟩
    cases h
  | some row =>
    simp only [hrow] at hget
    split at hget
    · next hinactive =>
      simp only [Except.ok.injEq] at hget
      subst hget
      refine ⟨fun session h => ?_, fun _ x => ?_⟩
      · cases h
      · simp [SessionRow.holding, hinactive]
    · next hactive =>
      simp only [bind_eq_ok, okOr_eq_ok, pure_eq_ok] at hget
      obtain ⟨-, -, context, -, rfl⟩ := hget
      rw [not_not] at hactive
      refine ⟨fun session hsession => ?_, fun h => ?_⟩
      · cases hsession
        rw [Option.map_some, SessionRow.holding, if_pos hactive]
        rfl
      · cases h

theorem keeps_sessionClear {epoch : Int}
    (hclosed : ∀ v, A v → ∀ x, v.stored = some (epoch, some x) → x ∉ v.opened) :
    Keeps E fleet c A (Listener.ask (.sessionClear epoch)) fun (_ : Bool) v => ∃ before, A before ∧
      ((v = before ∧ ∀ held, before.stored ≠ some (epoch, held)) ∨
        v = { before with stored := some (epoch + 1, none) }) := by
  refine .ask nofun fun w answer w' hsound hv hact => ?_
  obtain ⟨t, hclear, rfl⟩ := hact
  rcases sessionClear_holding hclear with ⟨rfl, hother⟩ | ⟨held, hbefore, hafter⟩
  · exact ⟨hsound, _, hv, .inl ⟨rfl, hother⟩⟩
  · have hcustody : ({ w with store := t } : BrokerWorld δ).custody fleet =
        { w.custody fleet with stored := some (epoch + 1, none) } := by
      simp only [BrokerWorld.custody, hafter]
    rw [hcustody]
    refine ⟨hsound.store fun current held' hstored => ?_, _, hv, .inr rfl⟩
    obtain ⟨rfl, rfl⟩ := Prod.mk.inj (Option.some.inj (hbefore.symm.trans hstored))
    refine ⟨rfl, fun y hy => hclosed _ hv y ?_⟩
    rw [hstored, hy]

/-! ### The new session -/

/-- What is known of a session between its note and its install. -/
def Noted (l : Nat) (x : SessionId) (v : Custody) : Prop :=
  v.inHand = none ∧ v.uncommitted l = some x

theorem keeps_establishSession {scaleSetId : Int} {owner : String}
    (hunknown : ∀ v, A v → v.inHand = none ∧ v.Unknown c.listener.id) :
    Keeps E fleet c A (Listener.ask (.establishSession c.listener.id scaleSetId owner))
      fun (result : Except AccessFailure (EffectOutcome SessionHandle)) v =>
        v.Unknown c.listener.id ∧
          match result with
          | .ok (.definite handle) => v.inHand = some (scaleSetId, handle.sessionId)
          | _ => v.inHand = none := by
  refine ViewSpec.lift spares_custody ?_ ?_ ?_
  · rintro w - hv l scaleSetId owner heq
    cases heq
    exact ⟨rfl, (hunknown _ hv).2⟩
  · intro w w' hsound _ hlost
    refine sound_lost hsound (fun hop => ?_) hlost
    exact absurd trivial hop
  · intro w result w' hsound hv hact
    obtain ⟨hhand, hfree⟩ := hunknown _ hv
    match result, hact with
    | .ok (.definite handle), hact =>
      cases hact
      exact ⟨hsound.give hhand, hfree, rfl⟩
    | .ok .uncertain, hact =>
      cases hact
      exact ⟨hsound, hfree, hhand⟩
    | .error failure, hact =>
      cases hact
      exact ⟨hsound, hfree, hhand⟩

theorem keeps_noteUncommitted {l : Nat} {scaleSetId : Int} {handle : SessionHandle}
    (h : ∀ v, A v → v.Unknown l ∧ v.inHand = some (scaleSetId, handle.sessionId)) :
    Keeps E fleet c A (Listener.ask (.noteUncommitted l scaleSetId handle)) fun _ v =>
      Noted l (scaleSetId, handle.sessionId) v ∧ ∀ x, ¬ v.Stored x := by
  refine .ask nofun fun w _ w' hsound hv hact => ?_
  obtain ⟨⟨hstored, -, hnone⟩, hhand⟩ := h _ hv
  have hcustody : w'.custody fleet = { w.custody fleet with
      uncommitted := Function.update (w.custody fleet).uncommitted l
        (some (scaleSetId, handle.sessionId))
      inHand := none } := by
    have hnoted : w'.custody fleet = { (w.modify l fun s =>
        { s with uncommittedSession := some (scaleSetId, handle) }).custody fleet with
      inHand := none } := by
      cases hact
      rfl
    rw [hnoted, custody_modify_uncommitted rfl]
    rfl
  rw [hcustody]
  exact ⟨hsound.note hhand hnone, ⟨rfl, Function.update_self ..⟩, hstored⟩

theorem keeps_sessionInstall {l : Nat} (install : SessionInstall)
    (hA : ∀ v, A v → Noted l (install.scaleSetId, install.handle.sessionId) v ∧
      ∀ x, ¬ v.Stored x) :
    Keeps E fleet c A (Listener.ask (.sessionInstall install))
      fun (answer : Except StoreError (Option Int)) v =>
        Noted l (install.scaleSetId, install.handle.sessionId) v ∧
          ∀ epoch, answer = .ok (some epoch) → v.stored = some (epoch, some (install.scaleSetId, install.handle.sessionId)) := by
  have hinstalled : ∀ (w : BrokerWorld δ) answer t, (w.custody fleet).Sound → A (w.custody fleet) →
      w.store.sessionInstall fleet install = .ok (answer, t) →
      (({ w with store := t } : BrokerWorld δ).custody fleet).Sound ∧
        Noted l (install.scaleSetId, install.handle.sessionId)
          (({ w with store := t } : BrokerWorld δ).custody fleet) ∧
        ∀ epoch, answer = some epoch →
          (({ w with store := t } : BrokerWorld δ).custody fleet).stored =
            some (epoch, some (install.scaleSetId, install.handle.sessionId)) := by
    intro w answer t hsound hv hinstall
    obtain ⟨hnoted, hfree⟩ := hA _ hv
    rcases sessionInstall_holding hinstall with ⟨rfl, rfl⟩ | ⟨epoch, rfl, hepoch, hholding⟩
    · exact ⟨hsound, hnoted, fun _ h => by cases h⟩
    · have hcustody : ({ w with store := t } : BrokerWorld δ).custody fleet =
          { w.custody fleet with
            stored := some (epoch, some (install.scaleSetId, install.handle.sessionId)) } := by
        simp only [BrokerWorld.custody, hholding]
      rw [hcustody]
      refine ⟨hsound.store fun current held hstored => ⟨?_, fun y hy => ?_⟩, hnoted, fun e he => ?_⟩
      · cases hrow : w.store.sessions.find fleet with
        | none => simp [BrokerWorld.custody, hrow] at hstored
        | some row =>
          simp only [BrokerWorld.custody, hrow, Option.map_some, SessionRow.holding,
            Option.some.injEq, Prod.mk.injEq] at hstored
          rw [hepoch, hrow, ← hstored.1]
          rfl
      · exact absurd ⟨current, hy ▸ hstored⟩ (hfree y)
      · cases he
        rfl
  refine .ask (fun h => h) fun w answer w' hsound hv hact => ?_
  cases answer with
  | ok answer =>
    obtain ⟨t, hinstall, hw⟩ := hact
    obtain ⟨hsound', hnoted, hstored⟩ := hinstalled w answer t hsound hv hinstall
    cases hw
    refine ⟨hsound', hnoted, fun epoch h => ?_⟩
    cases h
    exact hstored epoch rfl
  | error e =>
    obtain hw | ⟨answer, t, hinstall, hw⟩ := hact
    · cases hw
      exact ⟨hsound, (hA _ hv).1, fun _ h => by cases h⟩
    · obtain ⟨hsound', hnoted, -⟩ := hinstalled w answer t hsound hv hinstall
      cases hw
      exact ⟨hsound', hnoted, fun _ h => by cases h⟩

theorem keeps_remember {l : Nat} {session : PersistedSession}
    (hA : ∀ v, A v → Noted l session.id v ∧ v.stored = some (session.epoch, some session.id)) :
    Keeps E fleet c A (Listener.ask (.remember l session)) fun _ v => v.inHand = none := by
  refine .ask nofun fun w _ w' hsound hv hact => ?_
  obtain ⟨⟨hhand, hnoted⟩, hstored⟩ := hA _ hv
  cases hact
  rw [custody_modify]
  refine ⟨?_, hhand⟩
  have hforgot := hsound.forget (l := l) fun x hx _ => ⟨session.epoch, ?_⟩
  · refine hforgot.remember fun epoch x h => ?_
    cases h
    exact hstored
  · cases hnoted.symm.trans hx
    exact hstored

theorem keeps_forgetSession {l : Nat}
    (hA : ∀ v, A v → A { v with remembered := Function.update v.remembered l none }) :
    Keeps E fleet c A (Listener.ask (.forgetSession l)) fun _ v =>
      A v ∧ v.remembered l = none := by
  refine .ask nofun fun w _ w' hsound hv hact => ?_
  have hcustody : w'.custody fleet = { w.custody fleet with
      remembered := Function.update (w.custody fleet).remembered l none } := by
    cases hact
    exact custody_modify_remembered rfl
  rw [hcustody]
  refine ⟨hsound.remember fun _ _ h => ?_, hA _ hv, Function.update_self ..⟩
  cases h

end Effects

end Listener

end Shaula
