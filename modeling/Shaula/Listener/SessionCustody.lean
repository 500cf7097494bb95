import Shaula.Listener.Custody

/-! # Sessions in custody

A session that the broker gave out is closed with the broker before it is forgotten, and none is
asked for while one is known.
-/

namespace Shaula

open Library Library.Outcome Core Jobs Registry

namespace Listener

/-! ## What each call keeps -/

section Calls

variable {δ : Type} [DecidableEq δ] {E : Encoding δ} {fleet : String} {c : BrokerCall}
  {A : Custody → Prop}

/-- What is sound may be used. -/
theorem Keeps.sound {α : Type} {p : BrokerRoutine α} {B : α → Custody → Prop}
    (h : Keeps E fleet c (fun v => A v ∧ v.Sound) p B) : Keeps E fleet c A p B :=
  Spec.weaken h (fun _ hw => ⟨hw.1, hw.2, hw.1⟩) fun _ _ hw => hw

theorem keeps_clearUncommitted {l : FleetListener} :
    Keeps E fleet c (fun v => v.inHand = none) l.clearUncommitted fun (cleared : Bool) v =>
      v.inHand = none ∧ (cleared = true → v.uncommitted l.id = none) := by
  refine (keeps_state l.id).bind fun (state : ListenerState) => ?_
  cases hstate : state.uncommittedSession with
  | none =>
    refine .done fun v hv => ⟨hv.1, fun _ => ?_⟩
    rw [hv.2.2, ListenerState.uncommittedId, hstate]
    rfl
  | some session =>
    obtain ⟨scaleSetId, handle⟩ := session
    refine (keeps_deleteSession fun _ _ hv => hv).bind
      fun (deleted : Except AccessFailure Unit) => ?_
    cases leftBy deleted with
    | some failure =>
      refine keeps_after_plain trivial fun _ => .done fun v hv => ⟨hv.1.1, fun h => ?_⟩
      cases h
    | none =>
      refine (keeps_forgetUncommitted fun v hv x hx hopen => ?_).bind fun _ => ?_
      · have huncommitted := hv.1.2.2
        rw [hx, ListenerState.uncommittedId, hstate] at huncommitted
        cases huncommitted
        exact absurd hopen (hv.2 rfl)
      · refine .done fun v hv => ?_
        obtain ⟨hnone, before, hbefore, rfl⟩ := hv
        exact ⟨hbefore.1.1, fun _ => hnone⟩

/-- Nothing is in hand, and the listener has nothing uncommitted. -/
def Settled (l : FleetListener) (v : Custody) : Prop :=
  v.inHand = none ∧ v.uncommitted l.id = none

theorem keeps_keepSession {l : FleetListener} {now scaleSetId : Int} :
    Keeps E fleet c A (l.keepSession now scaleSetId) fun _ => A := by
  refine (keeps_state l.id).bind fun (state : ListenerState) => ?_
  split
  · exact .done fun v hv => hv.1
  split
  · exact .done fun v hv => hv.1
  split
  · exact .done fun v hv => hv.1
  refine keeps_after_plain trivial fun (current : Bool) => ?_
  split
  · exact .done fun v hv => hv.1
  · exact keeps_after_plain trivial fun _ => .done fun v hv => hv.1

/-- What is known of a session before it is closed. -/
structure Closes (l : FleetListener) (replace : Bool) (session : PersistedSession) (v : Custody) :
    Prop where
  settled : Settled l v
  same : ∀ x, v.stored = some (session.epoch, some x) → x = session.id
  stored : replace = true →
    v.stored = some (session.epoch, some session.id) ∨ ∀ x, ¬ v.Stored x

/-- The fleet has no session that it replaces. -/
def Cleared (l : FleetListener) (v : Custody) : Prop :=
  (∀ x, ¬ v.Stored x) ∧ v.remembered l.id = none

theorem keeps_closeSession {l : FleetListener} {replace : Bool} {session : PersistedSession} :
    Keeps E fleet c (Closes l replace session) (l.closeSession session) fun (closed : Bool) v =>
      Settled l v ∧ (closed = true → replace = true → Cleared l v) := by
  unfold FleetListener.closeSession
  cases l.clientFor session.authContext with
  | none =>
    refine keeps_after_plain trivial fun _ => .done fun v hv => ⟨hv.settled, fun h => ?_⟩
    cases h
  | some client =>
    refine (keeps_deleteSession fun _ _ hv => ⟨hv.settled, hv.same, hv.stored⟩).bind
      fun (deleted : Except AccessFailure Unit) => ?_
    cases leftBy deleted with
    | some failure =>
      refine keeps_after_plain trivial fun _ => .done fun v hv => ⟨hv.1.settled, fun h => ?_⟩
      cases h
    | none =>
      refine (keeps_sessionClear fun v hv x hx => ?_).bind fun (_ : Bool) => ?_
      · rw [hv.1.same x hx]
        exact hv.2 rfl
      refine ViewSpec.weaken
        (C := fun v => Settled l v ∧ (replace = true → ∀ x, ¬ v.Stored x)) ?_ ?_ fun _ _ h => h
      · refine (keeps_forgetSession fun v hv => hv).bind fun _ => .done fun v hv => ?_
        exact ⟨hv.1.1, fun _ hreplace => ⟨hv.1.2 hreplace, hv.2⟩⟩
      · rintro v ⟨before, ⟨hv, -⟩, ⟨rfl, hother⟩ | rfl⟩
        · refine ⟨hv.settled, fun hreplace => ?_⟩
          rcases hv.stored hreplace with hstored | hnone
          · exact absurd hstored (hother _)
          · exact hnone
        · refine ⟨hv.settled, fun _ x hx => ?_⟩
          obtain ⟨epoch, hx⟩ := hx
          cases hx

theorem keeps_sessionToClear {l : FleetListener} {replace : Bool}
    {stored remembered : Option PersistedSession} :
    Keeps E fleet c (fun v => (Settled l v ∧
        (∀ session, stored = some session → v.stored = some (session.epoch, some session.id)) ∧
          (stored = none → ∀ x, ¬ v.Stored x)) ∧
        v.remembered l.id = remembered.map fun session => (session.epoch, session.id))
      (l.sessionToClear replace stored remembered) fun (session : Option PersistedSession) v =>
        match session with
        | none => Settled l v ∧ (replace = true → Cleared l v)
        | some session => Closes l replace session v := by
  refine Keeps.sound ?_
  unfold FleetListener.sessionToClear
  have hstored : ∀ session (v : Custody), Settled l v →
      v.stored = some (session.epoch, some session.id) → Closes l replace session v := by
    intro session v hsettled h
    refine ⟨hsettled, fun x hx => ?_, fun _ => .inl h⟩
    cases h.symm.trans hx
    rfl
  have hremembered : ∀ session (v : Custody), Settled l v → v.Sound →
      v.remembered l.id = some (session.epoch, session.id) →
      (replace = true → ∀ x, ¬ v.Stored x) → Closes l replace session v := by
    intro session v hsettled hsound h hnone
    refine ⟨hsettled, fun x hx => ?_, fun hreplace => .inr (hnone hreplace)⟩
    obtain ⟨current, holding, hcurrent, -, hsame⟩ := hsound.remembered _ _ _ h
    cases hcurrent.symm.trans hx
    exact hsame rfl x rfl
  cases replace with
  | true =>
    refine .done fun v hv => ?_
    obtain ⟨⟨⟨hsettled, hsome, hnone⟩, hrem⟩, hsound⟩ := hv
    cases stored with
    | some session => exact hstored session v hsettled (hsome session rfl)
    | none =>
      cases remembered with
      | none => exact ⟨hsettled, fun _ => ⟨hnone rfl, hrem⟩⟩
      | some session =>
        exact hremembered session v hsettled hsound hrem fun _ => hnone rfl
  | false =>
    cases remembered with
    | some session =>
      refine .done fun v hv => ?_
      obtain ⟨⟨⟨hsettled, -, -⟩, hrem⟩, hsound⟩ := hv
      refine hremembered session v hsettled hsound hrem fun h => ?_
      cases h
    | none =>
      refine keeps_after_plain trivial fun (authorized : Bool) => .done fun v hv => ?_
      obtain ⟨⟨⟨hsettled, hsome, -⟩, -⟩, -⟩ := hv
      cases authorized with
      | false =>
        refine ⟨hsettled, fun h => ?_⟩
        cases h
      | true =>
        cases stored with
        | none =>
          refine ⟨hsettled, fun h => ?_⟩
          cases h
        | some session => exact hstored session v hsettled (hsome session rfl)

theorem keeps_clearSession {l : FleetListener} {replace : Bool} :
    Keeps E fleet c (Settled l) (l.clearSession replace) fun (cleared : Bool) v =>
      Settled l v ∧ (cleared = true → replace = true → Cleared l v) := by
  refine keeps_after_plain trivial fun _ => ?_
  refine keeps_sessionGet.bind fun (stored : Option PersistedSession) => ?_
  refine (keeps_state l.id).bind fun (state : ListenerState) => ?_
  refine (keeps_sessionToClear.weaken (fun v hv => ⟨hv.1, hv.2.1⟩) fun _ _ h => h).bind
    fun (session : Option PersistedSession) => ?_
  cases session with
  | none => exact .done fun v hv => ⟨hv.1, fun _ => hv.2⟩
  | some session => exact keeps_closeSession

theorem keeps_installSession {l : FleetListener} {expectedEpoch : Option Int} {scaleSetId : Int}
    {handle : SessionHandle} :
    Keeps E fleet c
      (fun v => v.Unknown l.id ∧ v.inHand = some (scaleSetId, handle.sessionId))
      (l.installSession expectedEpoch scaleSetId handle) fun _ v => v.inHand = none := by
  refine (keeps_noteUncommitted fun v hv => hv).bind fun _ => ?_
  refine (keeps_sessionInstall ⟨l.guard, expectedEpoch, l.authContext, scaleSetId, handle⟩
    fun v hv => hv).bind
    fun (answer : Except StoreError (Option Int)) => ?_
  match answer with
  | .ok (some epoch) =>
    refine (keeps_remember fun v hv => ⟨hv.1, hv.2 epoch rfl⟩).bind fun _ => .done fun v hv => hv
  | .ok none =>
    exact (keeps_clearUncommitted.weaken (fun v hv => hv.1.1) fun _ _ h => h).bind
      fun _ => .done fun v hv => hv.1
  | .error e =>
    exact (keeps_clearUncommitted.weaken (fun v hv => hv.1.1) fun _ _ h => h).bind fun _ => .fail

theorem keeps_replaceSession {scaleSetId : Int} :
    Keeps E fleet c (Settled c.listener) (c.listener.replaceSession scaleSetId)
      fun _ v => v.inHand = none := by
  refine keeps_clearSession.bind fun (cleared : Bool) => ?_
  split
  · exact .done fun v hv => hv.1.1
  next hcleared =>
  rw [Bool.not_eq_true, Bool.not_eq_false] at hcleared
  refine keeps_after_plain trivial fun (authorized : Bool) => ?_
  split
  · exact .done fun v hv => hv.1.1
  refine keeps_after_plain trivial fun (expectedEpoch : Option Int) => ?_
  refine (keeps_establishSession fun v hv => ?_).bind
    fun (result : Except AccessFailure (EffectOutcome SessionHandle)) => ?_
  · obtain ⟨⟨hhand, huncommitted⟩, hknown⟩ := hv
    obtain ⟨hstored, hremembered⟩ := hknown hcleared rfl
    exact ⟨hhand, hstored, hremembered, huncommitted⟩
  match result with
  | .ok (.definite handle) => exact keeps_installSession
  | .ok .uncertain => exact keeps_after_plain trivial fun _ => .done fun v hv => hv.2
  | .error failure => exact keeps_after_plain trivial fun _ => .done fun v hv => hv.2

theorem keeps_ensureSession {scaleSetId : Int} :
    Keeps E fleet c (fun v => v.inHand = none) (c.listener.ensureSession scaleSetId)
      fun _ v => v.inHand = none := by
  refine keeps_after_plain trivial fun (now : Int) => ?_
  refine (keeps_state _).bind fun (state : ListenerState) => ?_
  split
  · exact .done fun v hv => hv.1
  refine (keeps_clearUncommitted.weaken (fun v hv => hv.1) fun _ _ h => h).bind
    fun (cleared : Bool) => ?_
  split
  · exact .done fun v hv => hv.1
  next hcleared =>
  rw [Bool.not_eq_true, Bool.not_eq_false] at hcleared
  refine keeps_after_plain trivial fun (authorized : Bool) => ?_
  split
  · exact .done fun v hv => hv.1
  refine keeps_keepSession.bind fun (kept : Option (Option Int)) => ?_
  cases kept with
  | some answer => exact .done fun v hv => hv.1
  | none => exact keeps_replaceSession.weaken (fun v hv => ⟨hv.1, hv.2 hcleared⟩) fun _ _ h => h

theorem keeps_stop {l : FleetListener} :
    Keeps E fleet c (fun v => v.inHand = none) l.stop fun _ v => v.inHand = none := by
  refine keeps_clearUncommitted.bind fun (cleared : Bool) => ?_
  split
  · exact .done fun v hv => hv.1
  next hcleared =>
  rw [Bool.not_eq_true, Bool.not_eq_false] at hcleared
  refine (keeps_state _).bind fun (state : ListenerState) => ?_
  split
  · exact .done fun v hv => hv.1.1
  refine (keeps_clearSession.weaken (fun v hv => ⟨hv.1.1, hv.1.2 hcleared⟩) fun _ _ h => h).bind
    fun (stopped : Bool) => ?_
  exact keeps_after_plain trivial fun _ => .done fun v hv => hv.1.1

theorem keeps_body :
    Keeps E fleet c (fun v => v.inHand = none) c.body fun _ v => v.inHand = none := by
  cases c with
  | ensureSession l scaleSetId =>
    exact (keeps_ensureSession (c := .ensureSession l scaleSetId)).bind
      fun _ => .done fun v hv => hv
  | stop l => exact keeps_stop.bind fun _ => .done fun v hv => hv

end Calls

/-! ## What is in hand -/

/-- The session that an answer gives to the call. -/
def BrokerEffect.gives : (op : BrokerEffect) → op.Answer → Option SessionId
  | .establishSession _ scaleSetId _, .ok (.definite handle) => some (scaleSetId, handle.sessionId)
  | _, _ => none

def BrokerEffect.notes : BrokerEffect → Option SessionId
  | .noteUncommitted _ scaleSetId handle => some (scaleSetId, handle.sessionId)
  | _ => none

/-- What a program does next with the session it was given. -/
def notesNext {α : Type} (p : BrokerRoutine α) : Option SessionId := p.next.bind BrokerEffect.notes

/-- A session that is given is noted by the next effect. -/
def Hands {α : Type} : BrokerRoutine α → Prop
  | .done _ | .fail _ => True
  | .perform op k => ∀ a, (∀ x, BrokerEffect.gives op a = some x → notesNext (k a) = some x) ∧
    Hands (k a)

section Hands

variable {α β : Type}

theorem gives_of_not_establishes {op : BrokerEffect} (hop : ¬ op.Establishes) (a : op.Answer) :
    op.gives a = none := by
  cases op with
  | establishSession => exact absurd trivial hop
  | _ => rfl

theorem notesNext_bind {p : BrokerRoutine α} {f : α → BrokerRoutine β} {x : SessionId}
    (h : notesNext p = some x) : notesNext (p >>= f) = some x := by
  cases p with
  | perform op k => exact h
  | done | fail => cases h

theorem Hands.bind {p : BrokerRoutine α} {f : α → BrokerRoutine β} (hp : Hands p)
    (hf : ∀ a, Hands (f a)) : Hands (p >>= f) := by
  induction p with
  | done a => exact hf a
  | fail e => exact trivial
  | perform op k ih =>
    exact fun a => ⟨fun x hx => notesNext_bind ((hp a).1 x hx), ih a (hp a).2⟩

theorem Hands.after {op : BrokerEffect} {f : op.Answer → BrokerRoutine α}
    (hop : ¬ op.Establishes) (hf : ∀ a, Hands (f a)) : Hands (ask op >>= f) := by
  refine fun a => ⟨fun x hx => ?_, hf a⟩
  rw [gives_of_not_establishes hop] at hx
  cases hx

variable (l : FleetListener)

theorem hands_clearUncommitted : Hands l.clearUncommitted := by
  refine .after id fun (state : ListenerState) => ?_
  split
  · exact trivial
  refine .after id fun (deleted : Except AccessFailure Unit) => ?_
  split
  · exact .after id fun _ => trivial
  · exact .after id fun _ => trivial

theorem hands_clearSession (replace : Bool) : Hands (l.clearSession replace) := by
  refine .after id fun _ => .after id fun stored => .after id fun (state : ListenerState) => ?_
  refine Hands.bind ?_ fun (session : Option PersistedSession) => ?_
  · unfold FleetListener.sessionToClear
    split
    · exact trivial
    split
    · exact trivial
    · exact .after id fun _ => trivial
  split
  · exact trivial
  unfold FleetListener.closeSession
  split
  · exact .after id fun _ => trivial
  refine .after id fun (deleted : Except AccessFailure Unit) => ?_
  split
  · exact .after id fun _ => trivial
  · exact .after id fun _ => .after id fun _ => trivial

theorem hands_keepSession (now scaleSetId : Int) : Hands (l.keepSession now scaleSetId) := by
  refine .after id fun (state : ListenerState) => ?_
  split
  · exact trivial
  split
  · exact trivial
  split
  · exact trivial
  refine .after id fun (current : Bool) => ?_
  split
  · exact trivial
  · exact .after id fun _ => trivial

theorem hands_installSession (expectedEpoch : Option Int) (scaleSetId : Int)
    (handle : SessionHandle) : Hands (l.installSession expectedEpoch scaleSetId handle) := by
  refine .after id fun _ => .after id fun (answer : Except StoreError (Option Int)) => ?_
  match answer with
  | .ok (some epoch) => exact .after id fun _ => trivial
  | .ok none => exact (hands_clearUncommitted l).bind fun _ => trivial
  | .error e => exact (hands_clearUncommitted l).bind fun _ => trivial

theorem hands_replaceSession (scaleSetId : Int) : Hands (l.replaceSession scaleSetId) := by
  refine (hands_clearSession l true).bind fun (cleared : Bool) => ?_
  split
  · exact trivial
  refine .after id fun (authorized : Bool) => ?_
  split
  · exact trivial
  refine .after id fun (expectedEpoch : Option Int) =>
    fun (result : Except AccessFailure (EffectOutcome SessionHandle)) => ?_
  match result with
  | .ok (.definite handle) =>
    exact ⟨fun x hx => hx, hands_installSession l expectedEpoch scaleSetId handle⟩
  | .ok .uncertain =>
    refine ⟨fun x hx => ?_, .after id fun _ => trivial⟩
    cases hx
  | .error failure =>
    refine ⟨fun x hx => ?_, .after id fun _ => trivial⟩
    cases hx

theorem hands_body (c : BrokerCall) : Hands c.body := by
  cases c with
  | ensureSession l scaleSetId =>
    refine Hands.bind ?_ fun _ => trivial
    refine .after id fun (now : Int) => .after id fun (state : ListenerState) => ?_
    split
    · exact trivial
    refine (hands_clearUncommitted l).bind fun (cleared : Bool) => ?_
    split
    · exact trivial
    refine .after id fun (authorized : Bool) => ?_
    split
    · exact trivial
    refine (hands_keepSession l now scaleSetId).bind fun (kept : Option (Option Int)) => ?_
    cases kept with
    | some answer => exact trivial
    | none => exact hands_replaceSession l scaleSetId
  | stop l =>
    refine Hands.bind ?_ fun _ => trivial
    refine (hands_clearUncommitted l).bind fun (cleared : Bool) => ?_
    split
    · exact trivial
    refine .after id fun (state : ListenerState) => ?_
    split
    · exact trivial
    · exact (hands_clearSession l false).bind fun _ => .after id fun _ => trivial

end Hands

/-! ## Runs -/

section Runs

variable {δ : Type} {fleet : String}

abbrev BrokerConfig (δ : Type) :=
  Session.Config brokerEffects BrokerCall (BrokerWorld δ) StoreError Unit

abbrev BrokerEvent := Session.Event brokerEffects BrokerCall StoreError Unit

/-- Listeners that were just made know of no session; the store has every open one. -/
def FirstStart (fleet : String) (w : BrokerWorld δ) : Prop :=
  (∀ l, (w.listeners l).session = none ∧ (w.listeners l).uncommittedSession = none) ∧
    (∀ x ∈ w.opened, (w.custody fleet).Stored x) ∧ w.inHand = none ∧ w.dropped = []

/-- The call under way ends here without being heard of. -/
def Drops : BrokerEvent → Prop
  | .lost _ _ | .crashed => True
  | _ => False

theorem FirstStart.sound {w : BrokerWorld δ} (h : FirstStart fleet w) :
    (w.custody fleet).Sound := by
  obtain ⟨hlisteners, hopened, -, -⟩ := h
  refine ⟨fun x hx => .inl (hopened x hx), fun l epoch x hl => ?_⟩
  have hnone : (w.custody fleet).remembered l = none := by
    simp [BrokerWorld.custody, ListenerState.rememberedId, (hlisteners l).1]
  cases hnone.symm.trans hl

/-- What an effect does to the session in hand. -/
theorem BrokerActs.inHand {w w' : BrokerWorld δ} {op : BrokerEffect} {a : op.Answer}
    (h : BrokerActs fleet w op a w') : w'.dropped = w.dropped ∧
      ((∃ x, op.gives a = some x ∧ w'.inHand = some x) ∨
        op.gives a = none ∧ (w'.inHand = none ∨ w'.inHand = w.inHand ∧ op.notes = none)) := by
  cases op with
  | establishSession l scaleSetId owner =>
    match a, h with
    | .ok (.definite handle), h =>
      cases h
      exact ⟨rfl, .inl ⟨_, rfl, rfl⟩⟩
    | .ok .uncertain, h =>
      cases h
      exact ⟨rfl, .inr ⟨rfl, .inr ⟨rfl, rfl⟩⟩⟩
    | .error failure, h =>
      cases h
      exact ⟨rfl, .inr ⟨rfl, .inr ⟨rfl, rfl⟩⟩⟩
  | noteUncommitted =>
    cases h
    exact ⟨rfl, .inr ⟨rfl, .inl rfl⟩⟩
  | state | sessionGet | sessionEpoch =>
    obtain ⟨-, rfl⟩ := h
    exact ⟨rfl, .inr ⟨rfl, .inr ⟨rfl, rfl⟩⟩⟩
  | failed =>
    obtain ⟨-, rfl⟩ := h
    exact ⟨rfl, .inr ⟨rfl, .inr ⟨rfl, rfl⟩⟩⟩
  | sessionClear =>
    obtain ⟨t, -, rfl⟩ := h
    exact ⟨rfl, .inr ⟨rfl, .inr ⟨rfl, rfl⟩⟩⟩
  | sessionInstall =>
    match a, h with
    | .ok _, ⟨t, _, hw⟩ | .error _, .inr ⟨_, t, _, hw⟩ =>
      cases hw
      exact ⟨rfl, .inr ⟨rfl, .inr ⟨rfl, rfl⟩⟩⟩
    | .error _, .inl hw =>
      cases hw
      exact ⟨rfl, .inr ⟨rfl, .inr ⟨rfl, rfl⟩⟩⟩
  | deleteSession =>
    have hw : w' = _ := h
    split at hw <;> cases hw <;> exact ⟨rfl, .inr ⟨rfl, .inr ⟨rfl, rfl⟩⟩⟩
  | _ =>
    cases h
    exact ⟨rfl, .inr ⟨rfl, .inr ⟨rfl, rfl⟩⟩⟩

/-- Only a call that is about to note it has a session in hand, and none was dropped. -/
structure Careful (κ : BrokerConfig δ) : Prop where
  dropped : κ.world.dropped = []
  hands : ∀ c p, κ.call = some (c, p) → Hands p
  notes : ∀ x, κ.world.inHand = some x → ∃ c p, κ.call = some (c, p) ∧ notesNext p = some x

theorem Careful.ended {w : BrokerWorld δ} (hdropped : w.dropped = []) (hhand : w.inHand = none) :
    Careful ⟨w, none⟩ := by
  refine ⟨hdropped, fun c p hc => ?_, fun x hx => ?_⟩
  · cases hc
  · cases hhand.symm.trans hx

/-- A call that has nothing in hand may be dropped. -/
theorem Careful.abandoned {w : BrokerWorld δ} (hdropped : w.dropped = [])
    (hhand : w.inHand = none) : Careful ⟨w.abandon, none⟩ := by
  refine .ended ?_ rfl
  rw [BrokerWorld.abandon, hhand, hdropped]
  rfl

/-- A call that performs nothing more has nothing in hand. -/
theorem Careful.finished {w : BrokerWorld δ} {c : BrokerCall} {p : BrokerRoutine Unit}
    (h : Careful ⟨w, some (c, p)⟩) (hp : notesNext p = none) : Careful ⟨w, none⟩ := by
  refine .ended h.dropped ?_
  cases hhand : w.inHand with
  | none => rfl
  | some x =>
    obtain ⟨_, _, hcall, hnote⟩ := h.notes x hhand
    cases hcall
    cases hp.symm.trans hnote

theorem Careful.performed {w w' : BrokerWorld δ} {c : BrokerCall} {op : BrokerEffect}
    {k : op.Answer → BrokerRoutine Unit} {a : op.Answer}
    (h : Careful ⟨w, some (c, .perform op k)⟩) (hact : BrokerActs fleet w op a w') :
    Careful ⟨w', some (c, k a)⟩ := by
  obtain ⟨hdrop, hhand⟩ := hact.inHand
  have hnext := h.hands _ _ rfl a
  refine ⟨hdrop.trans h.dropped, fun c p hc => ?_, fun x hx => ?_⟩
  · cases hc
    exact hnext.2
  rcases hhand with ⟨y, hgives, hy⟩ | ⟨-, hnone | ⟨hsame, hother⟩⟩
  · cases hy.symm.trans hx
    exact ⟨c, k a, rfl, hnext.1 x hgives⟩
  · cases hnone.symm.trans hx
  · obtain ⟨_, _, hcall, hnote⟩ := h.notes x (hsame.symm.trans hx)
    cases hcall
    cases hother.symm.trans hnote

variable [DecidableEq δ] {E : Encoding δ}

/-- No call is dropped with a session that it was given and has not noted. -/
def CarefulStep (E : Encoding δ) (fleet : String) (κ : BrokerConfig δ) (event : BrokerEvent)
    (κ' : BrokerConfig δ) : Prop :=
  (brokerSession E fleet).Step κ event κ' ∧ (Drops event → κ.world.inHand = none)

theorem broker_disciplined : (brokerSession E fleet).Disciplined
    (fun w => (w.custody fleet).Sound) (BrokerAllowed fleet) where
  env := fun w w' hsound henv => (spares_custody w w' hsound henv).1
  idle := fun w w' hsound henv => (spares_custody w w' hsound henv).1
  crash := fun _ hsound => hsound.abandon
  safe := fun _ _ hsound hbegins =>
    (keeps_body _ ⟨hsound, hbegins⟩).mono fun _ _ _ => trivial

theorem Interferes.inHand {w w' : BrokerWorld δ} (h : Interferes E fleet w w') :
    w'.inHand = w.inHand ∧ w'.dropped = w.dropped := by
  have hsame := h.custody
  exact ⟨congrArg Custody.inHand hsame, congrArg Custody.dropped hsame⟩

theorem Careful.interfered {w w' : BrokerWorld δ} {call : Option (BrokerCall × BrokerRoutine Unit)}
    (h : Careful ⟨w, call⟩) (henv : Interferes E fleet w w') : Careful ⟨w', call⟩ := by
  obtain ⟨hhand, hdrop⟩ := henv.inHand
  exact ⟨hdrop.trans h.dropped, h.hands, fun x hx => h.notes x (hhand.symm.trans hx)⟩

theorem Careful.step {κ κ' : BrokerConfig δ} {event : BrokerEvent} (h : Careful κ)
    (hstep : CarefulStep E fleet κ event κ') : Careful κ' := by
  obtain ⟨hstep, hdrops⟩ := hstep
  cases hstep with
  | passed henv => exact h.interfered henv
  | interfered henv => exact h.interfered henv
  | begun hbegins =>
    refine ⟨h.dropped, fun c p hc => ?_, fun x hx => ?_⟩
    · cases hc
      exact hands_body _
    · cases (show _ = none from hbegins).symm.trans hx
  | performed hact => exact h.performed hact
  | lost hlost =>
    have hnone := hdrops trivial
    rcases hlost with rfl | ⟨answer, w₁, hop, hact, rfl⟩
    · exact .abandoned h.dropped hnone
    obtain ⟨hdrop, hhand⟩ := BrokerActs.inHand hact
    refine .abandoned (hdrop.trans h.dropped) ?_
    rcases hhand with ⟨y, hgives, -⟩ | ⟨-, hhand | ⟨hsame, -⟩⟩
    · cases (gives_of_not_establishes hop answer).symm.trans hgives
    · exact hhand
    · exact hsame.trans hnone
  | done => exact h.finished rfl
  | fail => exact h.finished rfl
  | crashed => exact .abandoned h.dropped (hdrops trivial)

/-- **Custody.**  In every run that drops no call with a session it was just given, every session
that was given out and is not closed is stored or some listener has it uncommitted, or it is in the
hand of the call whose next effect notes it; between calls nothing is in hand.  A session is asked
for only by a listener of a call to which none is known. -/
theorem sessions_kept {κ : BrokerConfig δ}
    (hκ : Reachable (Session.Initial (FirstStart fleet)) (CarefulStep E fleet) κ) :
    (∀ x ∈ κ.world.opened, (κ.world.custody fleet).Stored x ∨
      (∃ l, (κ.world.custody fleet).uncommitted l = some x) ∨
      ∃ c p, κ.call = some (c, p) ∧ notesNext p = some x) ∧
    (κ.call = none → κ.world.inHand = none) ∧
    ∀ event κ', (brokerSession E fleet).Step κ event κ' →
      ∀ c l scaleSetId owner, event.effect = some (c, .establishSession l scaleSetId owner) →
        l = c.listener.id ∧ (κ.world.custody fleet).Unknown l := by
  have hguarded : (brokerSession E fleet).Guarded (fun w => (w.custody fleet).Sound)
      (BrokerAllowed fleet) κ := by
    refine hκ.invariant (I := (brokerSession E fleet).Guarded _ _) ?_
      fun _ _ _ hκ hstep => broker_disciplined.step hκ hstep.1
    rintro κ ⟨hstart, hcall⟩
    refine ⟨hstart.sound, fun c p hc => ?_⟩
    cases hcall.symm.trans hc
  have hcareful : Careful κ := by
    refine hκ.invariant (I := Careful) ?_ fun _ _ _ hκ hstep => hκ.step hstep
    rintro κ ⟨⟨-, -, hhand, hdropped⟩, hcall⟩
    refine ⟨hdropped, fun c p hc => ?_, fun x hx => ?_⟩
    · cases hcall.symm.trans hc
    · cases hhand.symm.trans hx
  refine ⟨fun x hx => ?_, fun hcall => ?_, fun event κ' hstep c l scaleSetId owner heffect => ?_⟩
  · rcases hguarded.1.kept x hx with hstored | huncommitted | hhand | hdropped
    · exact .inl hstored
    · exact .inr (.inl huncommitted)
    · exact .inr (.inr (hcareful.notes x hhand))
    · have hnone : (κ.world.custody fleet).dropped = [] := hcareful.dropped
      rw [hnone] at hdropped
      cases hdropped
  · cases hhand : κ.world.inHand with
    | none => rfl
    | some x =>
      obtain ⟨c, p, hsome, -⟩ := hcareful.notes x hhand
      cases hcall.symm.trans hsome
  · exact hguarded.obliged hstep heffect l scaleSetId owner rfl

/-! ### A dropped call -/

def sampleCall : BrokerCall := .ensureSession ⟨0, Sample.guard, Sample.verified, []⟩ 9

def sampleWorld : BrokerWorld PollMessage where
  store := Sample.store
  listeners _ := ⟨none, none, 0, 0, none, false, false, false⟩
  opened := []
  inHand := none
  dropped := []

def sampleHandle : SessionHandle := ⟨"session", "https://queue", "token", ⟨1, 0, 0, 0⟩⟩

/-- The broker gives out a session, of which nothing is noted. -/
def brokerAnswer (w : BrokerWorld PollMessage) :
    (op : BrokerEffect) → Option (op.Answer × BrokerWorld PollMessage)
  | .nowUnixMs => some ((0 : Int), w)
  | .state l => some (w.listeners l, w)
  | .setEnabled l enabled => some ((), w.modify l fun s => { s with enabled })
  | .sessionAuthorize _ _ => some (true, w)
  | .sessionGet =>
    match w.store.sessionHandle "fleet" with
    | .ok session => some (session, w)
    | .error _ => none
  | .sessionEpoch => some ((w.store.sessions.find "fleet").map (·.epoch), w)
  | .establishSession _ scaleSetId _ => some (.ok (.definite sampleHandle), { w with
      opened := (scaleSetId, sampleHandle.sessionId) :: w.opened
      inHand := some (scaleSetId, sampleHandle.sessionId) })
  | _ => none

theorem brokerAnswer_acts {w w' : BrokerWorld PollMessage} {op : BrokerEffect} {a : op.Answer}
    (h : brokerAnswer w op = some (a, w')) : BrokerActs "fleet" w op a w' := by
  cases op with
  | nowUnixMs | sessionAuthorize | setEnabled | establishSession =>
    cases h
    rfl
  | state | sessionEpoch =>
    cases h
    exact ⟨rfl, rfl⟩
  | sessionGet =>
    simp only [brokerAnswer] at h
    split at h
    · next session hget =>
      cases h
      exact ⟨hget, rfl⟩
    · cases h
  | _ => cases h

/-- What is left of the call, and the world, when the session was given out. -/
def sampleGiven : BrokerWorld PollMessage × BrokerRoutine Unit :=
  sampleCall.body.play brokerAnswer sampleWorld

theorem sampleGiven_reached :
    Reachable (Session.Initial (FirstStart "fleet")) (CarefulStep Sample.encoding "fleet")
      ⟨sampleGiven.1, some (sampleCall, sampleGiven.2)⟩ := by
  have hinit : Session.Initial (FirstStart "fleet")
      (⟨sampleWorld, none⟩ : BrokerConfig PollMessage) :=
    ⟨⟨fun _ => ⟨rfl, rfl⟩, nofun, rfl, rfl⟩, rfl⟩
  have hbegun : CarefulStep Sample.encoding "fleet" ⟨sampleWorld, none⟩ (.begun sampleCall)
      ⟨sampleWorld, some (sampleCall, sampleCall.body)⟩ := ⟨.begun rfl, fun h => by cases h⟩
  refine Session.reaches_play_by (fun w op a w' hop => ?_) (Reachable.next (.of_init hinit) hbegun)
  refine ⟨w, .inl rfl, fun k => ⟨.performed (brokerAnswer_acts hop), fun h => ?_⟩⟩
  cases h

theorem sampleGiven_opened : sampleGiven.1.opened = [(9, "session")] := rfl

theorem sampleGiven_unknown : (sampleGiven.1.custody "fleet").stored = none ∧
    ∀ l, (sampleGiven.1.custody "fleet").remembered l = none ∧
      (sampleGiven.1.custody "fleet").uncommitted l = none := by
  refine ⟨rfl, fun l => ?_⟩
  have hlistener : sampleGiven.1.listeners l = if l = 0 then _ else _ := rfl
  simp only [BrokerWorld.custody, hlistener]
  split <;> exact ⟨rfl, rfl⟩

/-- The session that was given out is about to be noted. -/
theorem sessions_kept_sample : (sampleGiven.1.custody "fleet").Stored (9, "session") ∨
    (∃ l, (sampleGiven.1.custody "fleet").uncommitted l = some (9, "session")) ∨
    ∃ c p, some (sampleCall, sampleGiven.2) = some (c, p) ∧ notesNext p = some (9, "session") :=
  (sessions_kept sampleGiven_reached).1 _ (sampleGiven_opened ▸ List.mem_singleton_self _)

/-- A call that is dropped right after the broker's answer leaves its session to nobody. -/
theorem session_forgotten : ¬ ∀ κ : BrokerConfig PollMessage,
    Reachable (Session.Initial (FirstStart "fleet"))
        (brokerSession Sample.encoding "fleet").Step κ →
      ∀ x ∈ κ.world.opened, (κ.world.custody "fleet").Stored x ∨
        (∃ l epoch, (κ.world.custody "fleet").remembered l = some (epoch, x)) ∨
        (∃ l, (κ.world.custody "fleet").uncommitted l = some x) ∨
        ∃ c p, κ.call = some (c, p) ∧ notesNext p = some x := by
  intro h
  have hreached := sampleGiven_reached.mono fun _ _ _ hstep => hstep.1
  obtain ⟨hstored, hlisteners⟩ := sampleGiven_unknown
  have hopened : (9, "session") ∈ sampleGiven.1.abandon.opened :=
    sampleGiven_opened ▸ List.mem_singleton_self _
  rcases h _ (hreached.next .crashed) (9, "session") hopened
    with ⟨epoch, hx⟩ | ⟨l, epoch, hx⟩ | ⟨l, hx⟩ | ⟨c, p, hcall, -⟩
  · cases hstored.symm.trans hx
  · cases (hlisteners l).1.symm.trans hx
  · cases (hlisteners l).2.symm.trans hx
  · cases hcall

end Runs

end Listener

end Shaula
