import Shaula.Library.Digest
import Shaula.Library.Run
import Shaula.Workers.Session

/-! # Replayed control calls

A run of a session makes control calls in any order and repeats them at will, while the daemon
offers material, stops waiting, and fences the worker.  An effect happens once for each request id,
and a result goes to the waiter of the material it is about, once.
-/

namespace Shaula.Workers

open Core Library Library.Outcome

variable {Created Destroyed : Type}

/-! ## Runs of a session -/

/-- A session and those who wait for its results. -/
structure World (Created Destroyed : Type) where
  state : State
  /-- Receivers that nobody gave up yet. -/
  waiting : List Waiter
  received : List (Delivery Created Destroyed)
  /-- The materials offered so far, each with the waiter of its result. -/
  offers : List (Uuid × Waiter)
  /-- The channels made so far. -/
  channels : List Waiter

inductive Event (Created Destroyed : Type) where
  | called (capability : ControlCapability) (request : ControlRequest Created Destroyed)
      (answers : Answers) (outcome : StateResult ControlResponse)
      (delivery : Option (Delivery Created Destroyed))
  | offered (id : Uuid) (waiter : Waiter)
  | left (waiter : Waiter)
  | fenced

namespace World

def start (prepared : Waiter) : World Created Destroyed where
  state := .new prepared
  waiting := [prepared]
  received := []
  offers := []
  channels := [prepared]

/-- Sending a result: it arrives if its receiver is still there. -/
def send (w : World Created Destroyed) :
    Option (Delivery Created Destroyed) → World Created Destroyed
  | none => w
  | some delivery =>
    if delivery.waiter ∈ w.waiting then
      { w with
        waiting := w.waiting.erase delivery.waiter
        received := w.received ++ [delivery] }
    else w

/-- An offer, with a material id and a channel made for it. -/
def offer (w : World Created Destroyed) (state : State) (id : Uuid) (waiter : Waiter) :
    World Created Destroyed where
  state
  waiting := waiter :: w.waiting
  received := w.received
  offers := (id, waiter) :: w.offers
  channels := waiter :: w.channels

end World

section Step

variable (P : Platform) (encode : ControlRequest Created Destroyed → Bytes) (access : ControlAccess)

inductive Step : World Created Destroyed → Event Created Destroyed → World Created Destroyed → Prop
  | answered {w : World Created Destroyed} {capability : ControlCapability}
      {request : ControlRequest Created Destroyed} {a : Answers} {state : State}
      {response : ControlResponse} {delivery : Option (Delivery Created Destroyed)} :
      w.state.call P encode access capability request a = .ok (state, response, delivery) →
      Step w (.called capability request a (.ok response) delivery)
        (World.send { w with state } delivery)
  | refused {w : World Created Destroyed} {capability : ControlCapability}
      {request : ControlRequest Created Destroyed} {a : Answers} {e : StateError} :
      w.state.call P encode access capability request a = .error e →
      Step w (.called capability request a (.error e) none) w
  | create {w : World Created Destroyed} {id : Uuid} {bytes : Bytes} {sink : Bool} {waiter : Waiter}
      {state : State} : id ∉ w.offers.map Prod.fst → waiter ∉ w.channels →
      w.state.create P id bytes sink waiter = .ok state →
      Step w (.offered id waiter) (w.offer state id waiter)
  | destroy {w : World Created Destroyed} {id : Uuid} {bytes : Option Bytes} {sink : Bool}
      {waiter : Waiter} {state : State} : id ∉ w.offers.map Prod.fst → waiter ∉ w.channels →
      w.state.destroy P id bytes sink waiter = .ok state →
      Step w (.offered id waiter) (w.offer state id waiter)
  | left {w : World Created Destroyed} {waiter : Waiter} :
      Step w (.left waiter) { w with waiting := w.waiting.erase waiter }
  | fenced {w : World Created Destroyed} : Step w .fenced { w with state := w.state.fence }

end Step

/-- The request whose effect a step applied: it was answered, is no poll, and no answer was on record
under its id. -/
def applied (e : World Created Destroyed × Event Created Destroyed × World Created Destroyed) :
    Option (ControlRequest Created Destroyed) :=
  match e.2.1 with
  | .called _ request _ (.ok _) _ =>
    if request.message.isPoll = false ∧ e.1.state.replay.find request.requestId = none then
      some request
    else none
  | _ => none

/-- The result a step sent. -/
def sent (e : World Created Destroyed × Event Created Destroyed × World Created Destroyed) :
    List (Delivery Created Destroyed) :=
  match e.2.1 with
  | .called _ _ _ _ delivery => delivery.toList
  | _ => []

/-! ## What one step does -/

section Steps

variable {P : Platform} {encode : ControlRequest Created Destroyed → Bytes} {access : ControlAccess}
  {w w' : World Created Destroyed} {l : Event Created Destroyed}

@[simp] theorem World.send_state (w : World Created Destroyed)
    (delivery : Option (Delivery Created Destroyed)) : (w.send delivery).state = w.state := by
  unfold World.send
  split
  · rfl
  · split <;> rfl

@[simp] theorem World.send_offers (w : World Created Destroyed)
    (delivery : Option (Delivery Created Destroyed)) : (w.send delivery).offers = w.offers := by
  unfold World.send
  split
  · rfl
  · split <;> rfl

@[simp] theorem World.send_channels (w : World Created Destroyed)
    (delivery : Option (Delivery Created Destroyed)) : (w.send delivery).channels = w.channels := by
  unfold World.send
  split
  · rfl
  · split <;> rfl

/-- The senders that a session holds. -/
def State.senders (s : State) : List Waiter :=
  s.prepared.toList ++ s.createdResult.toList ++ s.destroyedResult.toList

/-- What is offered is not answered yet, nothing else waits for an answer, and the senders are
different channels. -/
structure World.Valid (w : World Created Destroyed) : Prop where
  create : ∀ value, w.state.desired = some (.create value) → w.state.destroyedResult = none ∧
    ∃ waiter, w.state.createdResult = some waiter ∧ (value.id, waiter) ∈ w.offers
  destroy : ∀ value, w.state.desired = some (.destroy value) → w.state.createdResult = none ∧
    ∃ waiter, w.state.destroyedResult = some waiter ∧ (value.id, waiter) ∈ w.offers
  idle : w.state.desired = none → w.state.createdResult = none ∧ w.state.destroyedResult = none
  distinct : w.state.senders.Nodup
  made : ∀ waiter ∈ w.state.senders, waiter ∈ w.channels

variable {s s' : State} {a : Answers} {message : ControlMessage Created Destroyed}
  {delivery : Option (Delivery Created Destroyed)}

theorem Effect.replay (h : Effect s a message s' delivery) : s'.replay = s.replay := by
  cases h <;> rfl

/-- A sender is used up by the result sent with it. -/
theorem Effect.senders (h : Effect s a message s' delivery) :
    s.senders.Perm (delivery.toList.map (·.waiter) ++ s'.senders) := by
  cases h with
  | silent => exact .refl _
  | prepared hwaiter => simp [State.senders, hwaiter]
  | created _ _ _ _ hwaiter =>
    simp only [State.senders, hwaiter, Option.toList_some, Option.toList_none, List.map_cons,
      List.map_nil, List.append_nil]
    exact List.perm_append_comm.append_right _
  | destroyed _ _ _ _ _ hwaiter =>
    simp only [State.senders, hwaiter, Option.toList_some, Option.toList_none, List.map_cons,
      List.map_nil, List.append_nil]
    exact List.perm_append_comm

/-- An offer succeeds while nothing else is offered. -/
theorem State.create_spec {id : Uuid} {bytes : Bytes} {sink : Bool} {waiter : Waiter}
    (h : s.create P id bytes sink waiter = .ok s') :
    s.desired = none ∧ ∃ value : MaterialRef, value.id = id ∧
      s' = { s with
        created := true, sink, createdResult := some waiter,
        desired := some (.create value), material := some (id, bytes) } := by
  simp only [create, withMaterial, bind_eq_ok, ensure_eq_ok, pure_eq_ok, mapError_eq_ok] at h
  obtain ⟨⟨⟩, hready, ⟨next, value⟩, ⟨⟨⟩, -, heq⟩, rfl⟩ := h
  cases heq
  have hdesired : s.desired = none := by
    cases hdesired : s.desired with
    | none => rfl
    | some directive => exact absurd (.inr (.inl (by rw [hdesired]; rfl))) hready
  exact ⟨hdesired, _, rfl, rfl⟩

theorem State.destroy_spec {id : Uuid} {bytes : Option Bytes} {sink : Bool} {waiter : Waiter}
    (h : s.destroy P id bytes sink waiter = .ok s') :
    s.desired = none ∧ ∃ (value : MaterialRef) (bytes : Bytes), value.id = id ∧
      s' = { s with
        sink, destroyedResult := some waiter,
        desired := some (.destroy value), material := some (id, bytes) } := by
  simp only [destroy, withMaterial, bind_eq_ok, ensure_eq_ok, okOr_eq_ok, pure_eq_ok,
    mapError_eq_ok] at h
  obtain ⟨⟨⟩, hdesired, bytes, -, ⟨next, value⟩, ⟨⟨⟩, -, heq⟩, rfl⟩ := h
  cases heq
  exact ⟨hdesired, _, bytes, rfl, rfl⟩

theorem World.Valid.start (prepared : Waiter) :
    World.Valid (World.start prepared : World Created Destroyed) where
  create := fun _ h => by cases h
  destroy := fun _ h => by cases h
  idle := fun _ => ⟨rfl, rfl⟩
  distinct := List.nodup_singleton _
  made := fun _ h => h

/-- What a control call leaves: the world as it was, or the effect of its message. -/
theorem Step.called_cases {capability : ControlCapability}
    {request : ControlRequest Created Destroyed} {outcome : StateResult ControlResponse}
    (h : Step P encode access w (.called capability request a outcome delivery) w') :
    (w' = w ∧ applied (w, .called capability request a outcome delivery, w') = none ∧
      delivery = none) ∨
    (w.state.replay.find request.requestId = none ∧ request.message.isPoll = false ∧
      outcome = .ok .ack ∧ ∃ next, Effect w.state a request.message next delivery ∧
        w' = World.send
          { w with state := next.record request.requestId (requestDigest P encode request) }
          delivery) := by
  cases h with
  | refused => exact .inl ⟨rfl, rfl, rfl⟩
  | answered hcall =>
    obtain ⟨hadmitted, hrespond⟩ := State.call_admitted hcall
    rcases State.respond_cases hrespond with ⟨hfind, rfl, rfl⟩ | ⟨hfind, hpoll, rfl, rfl⟩ |
      ⟨hfind, hpoll, rfl, next, heffect, rfl⟩
    · exact .inl ⟨rfl, by simp [applied, hfind], rfl⟩
    · exact .inl ⟨rfl, by simp [applied, hpoll], rfl⟩
    · exact .inr ⟨hfind, hpoll, rfl, next, heffect, rfl⟩

/-- An effect keeps what is offered consistent. -/
theorem World.Valid.effect (hw : w.Valid) (h : Effect w.state a message s' delivery) {id : Uuid}
    {digest : String} : (World.send { w with state := s'.record id digest } delivery).Valid := by
  have hperm := h.senders
  have hnodup := hperm.nodup_iff.mp hw.distinct
  have hdistinct : s'.senders.Nodup := (List.nodup_append.mp hnodup).2.1
  have hmade : ∀ waiter ∈ s'.senders, waiter ∈ w.channels :=
    fun waiter hmem => hw.made waiter (hperm.mem_iff.mpr (List.mem_append_right _ hmem))
  have hslots : (∀ value, s'.desired = some (.create value) → s'.destroyedResult = none ∧
        ∃ waiter, s'.createdResult = some waiter ∧ (value.id, waiter) ∈ w.offers) ∧
      (∀ value, s'.desired = some (.destroy value) → s'.createdResult = none ∧
        ∃ waiter, s'.destroyedResult = some waiter ∧ (value.id, waiter) ∈ w.offers) ∧
      (s'.desired = none → s'.createdResult = none ∧ s'.destroyedResult = none) := by
    cases h with
    | silent => exact ⟨hw.create, hw.destroy, hw.idle⟩
    | prepared => exact ⟨hw.create, hw.destroy, hw.idle⟩
    | created hdesired =>
      exact ⟨nofun, nofun, fun _ => ⟨rfl, (hw.create _ hdesired).1⟩⟩
    | destroyed hdesired =>
      exact ⟨nofun, nofun, fun _ => ⟨(hw.destroy _ hdesired).1, rfl⟩⟩
  obtain ⟨hcreate, hdestroy, hidle⟩ := hslots
  refine ⟨?_, ?_, ?_, ?_, ?_⟩
  · simpa [State.record] using hcreate
  · simpa [State.record] using hdestroy
  · simpa [State.record] using hidle
  · simpa [State.record, State.senders] using hdistinct
  · simpa [State.record, State.senders] using hmade

/-- The sender of a new channel joins those that wait for the preparation. -/
theorem World.Valid.fresh (hw : w.Valid) (hdesired : w.state.desired = none) {waiter : Waiter}
    (hfresh : waiter ∉ w.channels) :
    (w.state.prepared.toList ++ [waiter]).Nodup ∧
      ∀ other ∈ w.state.prepared.toList ++ [waiter], other ∈ waiter :: w.channels := by
  obtain ⟨hcreated, hdestroyed⟩ := hw.idle hdesired
  have hdistinct := hw.distinct
  have hmade := hw.made
  simp only [State.senders, hcreated, hdestroyed, Option.toList_none, List.append_nil] at hdistinct hmade
  constructor
  · rw [List.nodup_append]
    refine ⟨hdistinct, List.nodup_singleton _, ?_⟩
    intro other hother waiter' hwaiter heq
    rw [List.mem_singleton] at hwaiter
    rw [← hwaiter, ← heq] at hfresh
    exact hfresh (hmade other hother)
  · intro other hother
    rcases List.mem_append.mp hother with hother | hother
    · exact List.mem_cons_of_mem _ (hmade other hother)
    · rw [List.mem_singleton.mp hother]
      exact List.mem_cons_self

theorem Step.valid (h : Step P encode access w l w') (hw : w.Valid) : w'.Valid := by
  cases l with
  | called capability request a outcome delivery =>
    rcases h.called_cases with ⟨rfl, -, -⟩ | ⟨-, -, -, next, heffect, rfl⟩
    · exact hw
    · exact hw.effect heffect
  | offered id waiter =>
    cases h with
    | create hid hfresh hcreate =>
      obtain ⟨hdesired, value, rfl, rfl⟩ := State.create_spec hcreate
      obtain ⟨hnodup, hmem⟩ := hw.fresh hdesired hfresh
      obtain ⟨hcreated, hdestroyed⟩ := hw.idle hdesired
      refine ⟨?_, nofun, nofun, ?_, ?_⟩
      · intro value' hvalue
        cases hvalue
        exact ⟨hdestroyed, waiter, rfl, List.mem_cons_self⟩
      · simpa [World.offer, State.senders, hdestroyed] using hnodup
      · simpa [World.offer, State.senders, hdestroyed] using hmem
    | destroy hid hfresh hdestroy =>
      obtain ⟨hdesired, value, bytes, rfl, rfl⟩ := State.destroy_spec hdestroy
      obtain ⟨hnodup, hmem⟩ := hw.fresh hdesired hfresh
      obtain ⟨hcreated, hdestroyed⟩ := hw.idle hdesired
      refine ⟨nofun, ?_, nofun, ?_, ?_⟩
      · intro value' hvalue
        cases hvalue
        exact ⟨hcreated, waiter, rfl, List.mem_cons_self⟩
      · simpa [World.offer, State.senders, hcreated] using hnodup
      · simpa [World.offer, State.senders, hcreated] using hmem
  | left waiter =>
    cases h
    exact ⟨hw.create, hw.destroy, hw.idle, hw.distinct, hw.made⟩
  | fenced =>
    cases h
    exact ⟨hw.create, hw.destroy, hw.idle, hw.distinct, hw.made⟩

/-- An answer on record stays. -/
theorem Step.replay (h : Step P encode access w l w') {id : Uuid}
    {recorded : String × ControlResponse} (hfind : w.state.replay.find id = some recorded) :
    w'.state.replay.find id = some recorded := by
  cases l with
  | called capability request a outcome delivery =>
    rcases h.called_cases with ⟨rfl, -, -⟩ | ⟨hnone, -, -, next, heffect, rfl⟩
    · exact hfind
    · have hne : id ≠ request.requestId := by
        rintro rfl
        rw [hnone] at hfind
        cases hfind
      simp [State.record, heffect.replay, hne, hfind]
  | offered id waiter =>
    cases h with
    | create _ _ hcreate =>
      obtain ⟨-, value, -, rfl⟩ := State.create_spec hcreate
      exact hfind
    | destroy _ _ hdestroy =>
      obtain ⟨-, value, bytes, -, rfl⟩ := State.destroy_spec hdestroy
      exact hfind
  | left waiter =>
    cases h
    exact hfind
  | fenced =>
    cases h
    exact hfind

/-- An applied request is recorded with its bytes. -/
theorem Step.applied_cases {request : ControlRequest Created Destroyed}
    (h : Step P encode access w l w') (happlied : applied (w, l, w') = some request) :
    ∃ capability a delivery next, l = .called capability request a (.ok .ack) delivery ∧
      w.state.replay.find request.requestId = none ∧
      Effect w.state a request.message next delivery ∧
      w' = World.send
        { w with state := next.record request.requestId (requestDigest P encode request) }
        delivery := by
  cases l with
  | called capability request' a outcome delivery =>
    rcases h.called_cases with ⟨-, hnone, -⟩ | ⟨hfind, hpoll, rfl, next, heffect, heq⟩
    · rw [hnone] at happlied
      cases happlied
    · obtain rfl : request' = request := by
        simpa [applied, hpoll, hfind] using happlied
      exact ⟨capability, a, delivery, next, rfl, hfind, heffect, heq⟩
  | offered => cases happlied
  | left => cases happlied
  | fenced => cases happlied

/-! ## Runs -/

/-- The material was offered, and its result is no longer awaited. -/
def World.Answered (w : World Created Destroyed) (id : Uuid) : Prop :=
  id ∈ w.offers.map Prod.fst ∧ ∀ directive, w.state.desired = some directive →
    directive.creates id = false ∧ directive.destroys id = false

theorem Step.keeps_answered (h : Step P encode access w l w') {id : Uuid} (hw : w.Answered id) :
    w'.Answered id := by
  obtain ⟨hoffered, hdesired⟩ := hw
  cases l with
  | called capability request a outcome delivery =>
    rcases h.called_cases with ⟨rfl, -, -⟩ | ⟨-, -, -, next, heffect, rfl⟩
    · exact ⟨hoffered, hdesired⟩
    · refine ⟨by simpa using hoffered, ?_⟩
      rw [World.send_state]
      generalize request.message = message at heffect
      cases heffect with
      | silent => exact hdesired
      | prepared => exact hdesired
      | created => exact nofun
      | destroyed => exact nofun
  | offered other waiter =>
    have hne : other ∉ w.offers.map Prod.fst → other ≠ id := by
      rintro hfresh rfl
      exact hfresh hoffered
    cases h with
    | create hfresh _ hcreate =>
      obtain ⟨-, value, rfl, rfl⟩ := State.create_spec hcreate
      refine ⟨List.mem_cons_of_mem _ hoffered, ?_⟩
      intro directive hdirective
      cases hdirective
      exact ⟨decide_eq_false (hne hfresh), rfl⟩
    | destroy hfresh _ hdestroy =>
      obtain ⟨-, value, bytes, rfl, rfl⟩ := State.destroy_spec hdestroy
      refine ⟨List.mem_cons_of_mem _ hoffered, ?_⟩
      intro directive hdirective
      cases hdirective
      exact ⟨rfl, decide_eq_false (hne hfresh)⟩
  | left waiter =>
    cases h
    exact ⟨hoffered, hdesired⟩
  | fenced =>
    cases h
    exact ⟨hoffered, hdesired⟩

/-- A channel whose sender is gone. -/
def World.Used (w : World Created Destroyed) (waiter : Waiter) : Prop :=
  waiter ∈ w.channels ∧ waiter ∉ w.state.senders

theorem Step.keeps_used (h : Step P encode access w l w') {waiter : Waiter} (hw : w.Used waiter) :
    w'.Used waiter := by
  obtain ⟨hmade, hgone⟩ := hw
  cases l with
  | called capability request a outcome delivery =>
    rcases h.called_cases with ⟨rfl, -, -⟩ | ⟨-, -, -, next, heffect, rfl⟩
    · exact ⟨hmade, hgone⟩
    · refine ⟨by simpa using hmade, ?_⟩
      intro hmem
      rw [World.send_state] at hmem
      exact hgone (heffect.senders.mem_iff.mpr (List.mem_append_right _ hmem))
  | offered id other =>
    have hne : other ∉ w.channels → waiter ≠ other := by
      rintro hfresh rfl
      exact hfresh hmade
    simp only [State.senders, List.mem_append, not_or] at hgone
    obtain ⟨⟨hprepared, hcreated⟩, hdestroyed⟩ := hgone
    cases h with
    | create _ hfresh hcreate =>
      obtain ⟨-, value, -, rfl⟩ := State.create_spec hcreate
      refine ⟨List.mem_cons_of_mem _ hmade, ?_⟩
      simp [World.offer, State.senders, hne hfresh] at hprepared hdestroyed ⊢
      exact ⟨hprepared, hdestroyed⟩
    | destroy _ hfresh hdestroy =>
      obtain ⟨-, value, bytes, -, rfl⟩ := State.destroy_spec hdestroy
      refine ⟨List.mem_cons_of_mem _ hmade, ?_⟩
      simp [World.offer, State.senders, hne hfresh] at hprepared hcreated ⊢
      exact ⟨hprepared, hcreated⟩
  | left other =>
    cases h
    exact ⟨hmade, hgone⟩
  | fenced =>
    cases h
    exact ⟨hmade, hgone⟩

/-- A sent result uses up its sender, and is of the message that was applied. -/
theorem Step.sent_cases (h : Step P encode access w l w') (hw : w.Valid)
    {d : Delivery Created Destroyed} (hd : d ∈ sent (w, l, w')) :
    ¬w.Used d.waiter ∧ w'.Used d.waiter ∧ sent (w, l, w') = [d] := by
  cases l with
  | called capability request a outcome delivery =>
    rcases h.called_cases with ⟨-, -, rfl⟩ | ⟨-, -, -, next, heffect, rfl⟩
    · cases hd
    · obtain rfl : delivery = some d := by simpa [sent] using hd
      have hperm := heffect.senders
      have hmem : d.waiter ∈ w.state.senders :=
        hperm.mem_iff.mpr (List.mem_append_left _ (List.mem_singleton.mpr rfl))
      refine ⟨fun hused => hused.2 hmem, ⟨?_, ?_⟩, rfl⟩
      · simpa using hw.made d.waiter hmem
      · have hnodup := hperm.nodup_iff.mp hw.distinct
        rw [World.send_state]
        intro hleft
        exact (List.nodup_append.mp hnodup).2.2 d.waiter (List.mem_singleton.mpr rfl) d.waiter hleft rfl
  | offered => cases hd
  | left => cases hd
  | fenced => cases hd

/-- What a run of control calls keeps to. -/
structure ControlOnce (P : Platform) (encode : ControlRequest Created Destroyed → Bytes)
    (access : ControlAccess)
    (trace : List (World Created Destroyed × Event Created Destroyed × World Created Destroyed)) :
    Prop where
  /-- An effect is applied at most once under each request id. -/
  once : ∀ id, trace.countP (fun e => (applied e).any fun r => r.requestId = id) ≤ 1
  /-- After that, a call under the id that is admitted changes nothing, and gets the recorded answer
  or, with other bytes, a conflict. -/
  replayed : ∀ before e after request, trace = before ++ e :: after → applied e = some request →
    ∀ e' ∈ after, ∀ capability request' a outcome delivery,
      e'.2.1 = .called capability request' a outcome delivery →
      request'.requestId = request.requestId → Admitted P encode access capability request' a →
      e'.2.2 = e'.1 ∧ delivery = none ∧
        outcome = if encode request' = encode request then .ok .ack else .error .conflict
  /-- A call that applies nothing changes nothing. -/
  unapplied : ∀ e ∈ trace, ∀ capability request a outcome delivery,
    e.2.1 = .called capability request a outcome delivery → applied e = none →
    e.2.2 = e.1 ∧ delivery = none
  prepared : trace.countP (fun e => (applied e).any fun r => r.message.isPrepared) ≤ 1
  /-- One result is accepted for each material. -/
  finished : ∀ id, trace.countP (fun e => (applied e).any fun r => r.message.finishes = some id) ≤ 1
  /-- It is the result of what is offered, comes while no guard is held, goes to the waiter of the
  offer, and arrives if that is still there. -/
  delivered : ∀ e ∈ trace, ∀ request id, applied e = some request →
    request.message.finishes = some id →
    e.1.state.guard = none ∧ e.1.state.bootstrapGuard = none ∧
    (∃ directive, e.1.state.desired = some directive ∧ request.message.answersTo directive = true) ∧
    ∃ waiter report, (id, waiter) ∈ e.1.offers ∧ request.message.report = some report ∧
      sent e = [⟨waiter, report⟩] ∧
      (waiter ∈ e.1.waiting → e.2.2.received = e.1.received ++ [⟨waiter, report⟩])
  /-- No waiter is sent two results. -/
  sentOnce : ((trace.flatMap sent).map (·.waiter)).Nodup
  /-- A successful destroy is accepted after the journal verified the cleanup. -/
  verified : ∀ e ∈ trace, ∀ capability request a outcome delivery id result,
    e.2.1 = .called capability request a outcome delivery → applied e = some request →
    request.message = .destroyFinished id (.ok result) → a.verifyCleanup = .ok ()

section Run

variable {trace : List (World Created Destroyed × Event Created Destroyed × World Created Destroyed)}

theorem applied_once (h : Run (Step P encode access) w trace w') (id : Uuid) :
    trace.countP (fun e => (applied e).any fun r => r.requestId = id) ≤ 1 := by
  refine h.countP_le_one (I := fun _ => True)
    (f := fun w => (w.state.replay.find id).isSome = true) (fun _ _ _ _ _ => trivial) ?_ ?_ trivial
  · intro w l w' _ hstep hfind
    obtain ⟨recorded, hfind⟩ := Option.isSome_iff_exists.mp hfind
    rw [hstep.replay hfind]
    rfl
  · intro w l w' _ hstep happlied
    obtain ⟨request, hrequest, hid⟩ := (Option.any_eq_true _ _).mp happlied
    obtain rfl : request.requestId = id := of_decide_eq_true hid
    obtain ⟨-, -, -, next, -, hnone, -, rfl⟩ := hstep.applied_cases hrequest
    refine ⟨by simp [hnone], ?_⟩
    simp [State.record]

theorem finished_once (h : Run (Step P encode access) w trace w') (hw : w.Valid) (id : Uuid) :
    trace.countP (fun e => (applied e).any fun r => r.message.finishes = some id) ≤ 1 := by
  refine h.countP_le_one (I := World.Valid) (f := fun w => w.Answered id)
    (fun _ _ _ hvalid hstep => hstep.valid hvalid)
    (fun _ _ _ _ hstep hanswered => hstep.keeps_answered hanswered) ?_ hw
  intro w l w' hvalid hstep happlied
  obtain ⟨request, hrequest, hid⟩ := (Option.any_eq_true _ _).mp happlied
  obtain ⟨-, a, delivery, next, -, -, heffect, rfl⟩ := hstep.applied_cases hrequest
  have hfinishes : request.message.finishes = some id := of_decide_eq_true hid
  generalize request.message = message at heffect hfinishes
  cases heffect with
  | silent _ _ _ hno => cases hno.symm.trans hfinishes
  | prepared => cases hfinishes
  | created hdesired hvalue =>
    cases hfinishes
    obtain ⟨-, waiter, -, hoffered⟩ := hvalid.create _ hdesired
    rw [hvalue] at hoffered
    refine ⟨fun hanswered => ?_, ?_, ?_⟩
    · have hno := (hanswered.2 _ hdesired).1
      simp [Directive.creates, hvalue] at hno
    · simpa using ⟨waiter, hoffered⟩
    · rw [World.send_state]
      exact nofun
  | destroyed hdesired hvalue =>
    cases hfinishes
    obtain ⟨-, waiter, -, hoffered⟩ := hvalid.destroy _ hdesired
    rw [hvalue] at hoffered
    refine ⟨fun hanswered => ?_, ?_, ?_⟩
    · have hno := (hanswered.2 _ hdesired).2
      simp [Directive.destroys, hvalue] at hno
    · simpa using ⟨waiter, hoffered⟩
    · rw [World.send_state]
      exact nofun

theorem prepared_once (h : Run (Step P encode access) w trace w') :
    trace.countP (fun e => (applied e).any fun r => r.message.isPrepared) ≤ 1 := by
  refine h.countP_le_one (I := fun _ => True) (f := fun w => w.state.prepared = none)
    (fun _ _ _ _ _ => trivial) ?_ ?_ trivial
  · intro w l w' _ hstep hnone
    cases l with
    | called capability request a outcome delivery =>
      rcases hstep.called_cases with ⟨rfl, -, -⟩ | ⟨-, -, -, next, heffect, rfl⟩
      · exact hnone
      · rw [World.send_state]
        generalize request.message = message at heffect
        cases heffect with
        | silent => exact hnone
        | prepared => rfl
        | created => exact hnone
        | destroyed => exact hnone
    | offered id waiter =>
      cases hstep with
      | create _ _ hcreate =>
        obtain ⟨-, value, -, rfl⟩ := State.create_spec hcreate
        exact hnone
      | destroy _ _ hdestroy =>
        obtain ⟨-, value, bytes, -, rfl⟩ := State.destroy_spec hdestroy
        exact hnone
    | left waiter =>
      cases hstep
      exact hnone
    | fenced =>
      cases hstep
      exact hnone
  · intro w l w' _ hstep happlied
    obtain ⟨request, hrequest, hprepared⟩ := (Option.any_eq_true _ _).mp happlied
    obtain ⟨-, a, delivery, next, -, -, heffect, rfl⟩ := hstep.applied_cases hrequest
    rw [World.send_state]
    generalize request.message = message at heffect hprepared
    cases heffect with
    | silent _ _ hno => cases hno.symm.trans hprepared
    | prepared hwaiter =>
      refine ⟨?_, rfl⟩
      rw [hwaiter]
      exact nofun
    | created => cases hprepared
    | destroyed => cases hprepared

/-- The result that an applied message reports goes to the waiter of what was offered. -/
theorem delivered_of_applied {request : ControlRequest Created Destroyed} {id : Uuid}
    (hstep : Step P encode access w l w') (hw : w.Valid) (happlied : applied (w, l, w') = some request)
    (hfinishes : request.message.finishes = some id) :
    w.state.guard = none ∧ w.state.bootstrapGuard = none ∧
    (∃ directive, w.state.desired = some directive ∧ request.message.answersTo directive = true) ∧
    ∃ waiter report, (id, waiter) ∈ w.offers ∧ request.message.report = some report ∧
      sent (w, l, w') = [⟨waiter, report⟩] ∧
      (waiter ∈ w.waiting → w'.received = w.received ++ [⟨waiter, report⟩]) := by
  obtain ⟨capability, a, delivery, next, rfl, -, heffect, rfl⟩ := hstep.applied_cases happlied
  have harrives : ∀ (state : State) (d : Delivery Created Destroyed), d.waiter ∈ w.waiting →
      (World.send { w with state } (some d)).received = w.received ++ [d] := by
    intro state d hwaiting
    simp [World.send, hwaiting]
  generalize hmessage : request.message = message at heffect hfinishes
  cases heffect with
  | silent _ _ _ hno => cases hno.symm.trans hfinishes
  | prepared => cases hfinishes
  | @created materialId result waiter value hdesired hvalue hguard hbootstrap hwaiter =>
    cases hfinishes
    obtain ⟨-, other, hother, hoffered⟩ := hw.create _ hdesired
    obtain rfl : waiter = other := Option.some.inj (hwaiter.symm.trans hother)
    rw [hvalue] at hoffered
    exact ⟨hguard, hbootstrap, ⟨_, hdesired, decide_eq_true hvalue⟩, waiter, .created result, hoffered,
      rfl, rfl, harrives _ ⟨waiter, .created result⟩⟩
  | @destroyed materialId result waiter value hdesired hvalue hguard hbootstrap _ hwaiter =>
    cases hfinishes
    obtain ⟨-, other, hother, hoffered⟩ := hw.destroy _ hdesired
    obtain rfl : waiter = other := Option.some.inj (hwaiter.symm.trans hother)
    rw [hvalue] at hoffered
    exact ⟨hguard, hbootstrap, ⟨_, hdesired, decide_eq_true hvalue⟩, waiter, .destroyed result,
      hoffered, rfl, rfl, harrives _ ⟨waiter, .destroyed result⟩⟩

theorem sent_once (h : Run (Step P encode access) w trace w') (hw : w.Valid) :
    ((trace.flatMap sent).map (·.waiter)).Nodup := by
  rw [List.map_flatMap]
  refine (h.nodup_flatMap (I := World.Valid) (f := fun waiter w => w.Used waiter)
    (fun _ _ _ hvalid hstep => hstep.valid hvalid)
    (fun _ _ _ _ _ hstep hused => hstep.keeps_used hused) ?_ hw).1
  intro w l w' hvalid hstep
  by_cases hnone : sent (w, l, w') = []
  · rw [hnone]
    exact ⟨List.nodup_nil, fun _ hmem => by cases hmem⟩
  · obtain ⟨d, hd⟩ := List.exists_mem_of_ne_nil _ hnone
    obtain ⟨hbefore, hafter, hsent⟩ := hstep.sent_cases hvalid hd
    rw [hsent]
    refine ⟨List.nodup_singleton _, ?_⟩
    intro waiter hwaiter
    rw [List.mem_singleton.mp hwaiter]
    exact ⟨hbefore, hafter⟩

/-- What a request left on record answers every later call under its id. -/
theorem replayed_of_applied (hsha : Function.Injective P.sha256)
    {before after : List (World Created Destroyed × Event Created Destroyed × World Created Destroyed)}
    {e : World Created Destroyed × Event Created Destroyed × World Created Destroyed}
    {request : ControlRequest Created Destroyed}
    (h : Run (Step P encode access) w (before ++ e :: after) w')
    (happlied : applied e = some request) :
    ∀ e' ∈ after, ∀ capability request' a outcome delivery,
      e'.2.1 = .called capability request' a outcome delivery →
      request'.requestId = request.requestId → Admitted P encode access capability request' a →
      e'.2.2 = e'.1 ∧ delivery = none ∧
        outcome = if encode request' = encode request then .ok .ack else .error .conflict := by
  obtain ⟨first, -, hrun⟩ := Run.of_append h
  cases hrun with
  | @cons s t u l trace hstep hlater =>
    have hrecorded : t.state.replay.find request.requestId =
        some (requestDigest P encode request, .ack) := by
      obtain ⟨-, -, -, next, -, -, -, rfl⟩ := hstep.applied_cases happlied
      simp [State.record]
    refine hlater.forall_mem
      (I := fun w : World Created Destroyed => w.state.replay.find request.requestId =
        some (requestDigest P encode request, ControlResponse.ack))
      (Q := fun w l w' => ∀ capability request' a outcome delivery,
        l = .called capability request' a outcome delivery →
        request'.requestId = request.requestId → Admitted P encode access capability request' a →
        w' = w ∧ delivery = none ∧
          outcome = if encode request' = encode request then .ok .ack else .error .conflict)
      (fun _ _ _ hfind hstep => hstep.replay hfind) ?_ hrecorded
    intro w l w' hfind hstep capability request' a outcome delivery hl hid hadmitted
    subst hl
    rw [← hid] at hfind
    have hcall := State.call_recorded hadmitted hfind
    have hdigest : requestDigest P encode request = requestDigest P encode request' ↔
        encode request' = encode request := by
      constructor
      · intro heq
        exact (hsha (hexEncode_injective heq)).symm
      · intro heq
        rw [requestDigest, requestDigest, heq]
    simp only [hdigest] at hcall
    cases hstep with
    | answered hok =>
      rw [hok] at hcall
      split at hcall
      · next hsame =>
        cases hcall
        exact ⟨rfl, rfl, (if_pos hsame).symm⟩
      · cases hcall
    | refused hrefused =>
      rw [hrefused] at hcall
      split at hcall
      · cases hcall
      · next hdiffers =>
        cases hcall
        exact ⟨rfl, rfl, (if_neg hdiffers).symm⟩

/-- **Control calls.** -/
theorem control_once (hsha : Function.Injective P.sha256) {prepared : Waiter}
    (h : Run (Step P encode access) (World.start prepared) trace w') :
    ControlOnce P encode access trace where
  once := applied_once h
  replayed := by
    rintro before e after request rfl happlied
    exact replayed_of_applied hsha h happlied
  unapplied := by
    intro e he capability request a outcome delivery hl hnone
    have hstep := h.mem_step he
    obtain ⟨w, l, w'⟩ := e
    obtain rfl : l = .called capability request a outcome delivery := hl
    rcases hstep.called_cases with ⟨hsame, -, hsilent⟩ | ⟨hfind, hpoll, rfl, -⟩
    · exact ⟨hsame, hsilent⟩
    · simp [applied, hfind, hpoll] at hnone
  prepared := prepared_once h
  finished := finished_once h (.start prepared)
  delivered := by
    intro e he request id happlied hfinishes
    exact h.forall_mem (I := World.Valid)
      (Q := fun w l w' => ∀ request id, applied (w, l, w') = some request →
        request.message.finishes = some id → w.state.guard = none ∧ w.state.bootstrapGuard = none ∧
        (∃ directive, w.state.desired = some directive ∧
          request.message.answersTo directive = true) ∧
        ∃ waiter report, (id, waiter) ∈ w.offers ∧ request.message.report = some report ∧
          sent (w, l, w') = [⟨waiter, report⟩] ∧
          (waiter ∈ w.waiting → w'.received = w.received ++ [⟨waiter, report⟩]))
      (fun _ _ _ hvalid hstep => hstep.valid hvalid)
      (fun _ _ _ hvalid hstep _ _ happlied hfinishes =>
        delivered_of_applied hstep hvalid happlied hfinishes)
      (.start prepared) e he request id happlied hfinishes
  sentOnce := sent_once h (.start prepared)
  verified := by
    intro e he capability request a outcome delivery id result hl happlied hmessage
    have hstep := h.mem_step he
    obtain ⟨w, l, w'⟩ := e
    obtain ⟨_, a', _, next, hcalled, -, heffect, -⟩ := hstep.applied_cases happlied
    cases hl.symm.trans hcalled
    rw [hmessage] at heffect
    cases heffect with
    | silent _ _ _ hno => cases hno
    | destroyed _ _ _ _ hverified _ => exact hverified rfl

end Run

end Steps

/-! ## A session with one worker -/

namespace Sample

def claim : StateClaim where
  generationId := ⟨1⟩
  workerEpoch := 1
  workerAttempt := ⟨11⟩

theorem capabilityForm : CapabilityForm "sc1_"
    "sc1_1111111111111111111111111111111111111111111111111111111111111111" := by
  decide

def access : ControlAccess where
  claim
  capability :=
    ⟨"sc1_1111111111111111111111111111111111111111111111111111111111111111", capabilityForm⟩

def request (requestId : Uuid) (message : ControlMessage Unit Unit) : ControlRequest Unit Unit where
  claim
  requestId
  message

/-- The text of a message, for those that are sent below. -/
def messageText : ControlMessage Unit Unit → String
  | .handshake 1 => "\x7b\"kind\":\"handshake\",\"payload\":\x7b\"protocol\":1\x7d\x7d"
  | .poll => "\x7b\"kind\":\"poll\"\x7d"
  | .prepared (.ok ()) => "\x7b\"kind\":\"prepared\",\"payload\":\x7b\"Ok\":null\x7d\x7d"
  | .createFinished materialId (.error (.executionFailed phase)) =>
    "\x7b\"kind\":\"create_finished\",\"payload\":\x7b\"material_id\":\"" ++ materialId.text ++
      "\",\"result\":\x7b\"Err\":\x7b\"ExecutionFailed\":\x7b\"phase\":\"" ++ phase ++
      "\"\x7d\x7d\x7d\x7d"
  | _ => ""

def encode (request : ControlRequest Unit Unit) : Bytes :=
  utf8 ("\x7b\"claim\":\x7b\"generation_id\":\"" ++ request.claim.generationId.text ++
    "\",\"worker_epoch\":" ++ toString request.claim.workerEpoch ++ ",\"worker_attempt\":\"" ++
    request.claim.workerAttempt.text ++ "\"\x7d,\"request_id\":\"" ++ request.requestId.text ++
    "\",\"message\":" ++ messageText request.message ++ "\x7d")

/-- The report that the apply failed. -/
def applyFailed : ControlMessage Unit Unit :=
  .createFinished ⟨31⟩ (.error (.executionFailed "apply"))

def platform : Platform where
  sha256 := knownDigest [
    (encode (request ⟨21⟩ (.handshake 1)),
      0x7877564d0b9e35422037363621097bb8e19248f69916350d6b65f499e5a2505d),
    (encode (request ⟨21⟩ .poll), 0x2403d3190a50ef22e53f3517cb3837086c5c3a09d736f78f7f049fbfb95db336),
    (encode (request ⟨21⟩ (.prepared (.ok ()))),
      0x11220b0db0265d21b4f40494f1228974c0d553ed6c46ef077d9ce2759cb7e32d),
    (encode (request ⟨22⟩ (.prepared (.ok ()))),
      0xc022a12594c1a1a7d9d2ebd598a18546134e6b8b439d61782526346630159f52),
    (utf8 "\x7b\x7d", 0x44136fa355b3678a1146ad16f7e8649e94fb4fc21fe77e8310c060f61caaff8a),
    (encode (request ⟨23⟩ applyFailed),
      0x33aca11c935f0d66b3e2a00d926caac3278c90b076a665cf6e8f35e54455ef0b)]
  readHeader _ := none
  readWireLock _ := none
  writeWireLock _ := []
  readIdentity _ := none
  readManifest _ := none
  legacyJson _ := []
  contentJson _ _ _ := []

def answers : Answers where
  authenticate := .ok ()
  receipt := .ok none
  spawnAck := .ok ()
  commandEnded := .ok ()
  verifyCleanup := .ok ()
  persistApplyStarting := .error "no sink"
  authorizeBootstrap := .error "no sink"
  stopping := false

theorem admitted {requestId : Uuid} {message : ControlMessage Unit Unit}
    (h : (encode (request requestId message)).length ≤ maxControlBytes) :
    Admitted platform encode access access.capability (request requestId message) answers where
  capability := beq_self_eq_true _
  authenticated := rfl
  claim := rfl
  bounded := h

/-- The state after a message was applied. -/
def after (requestId : Uuid) (message : ControlMessage Unit Unit) (next : State) : State :=
  next.record requestId (requestDigest platform encode (request requestId message))

theorem apply_step {w : World Unit Unit} {requestId : Uuid} {message : ControlMessage Unit Unit}
    {next : State} {delivery : Option (Delivery Unit Unit)}
    (hbound : (encode (request requestId message)).length ≤ maxControlBytes)
    (hfind : w.state.replay.find requestId = none) (hroom : w.state.replay.rows.length < 256)
    (hpoll : message.isPoll = false)
    (heffect : w.state.effect ⟨1⟩ answers message = .ok (next, delivery)) :
    Step platform encode access w
      (.called access.capability (request requestId message) answers (.ok .ack) delivery)
      (World.send { w with state := after requestId message next } delivery) := by
  refine .answered ?_
  rw [State.call_of_admitted (admitted hbound)]
  simp only [State.respond, request, claim, hfind, hpoll, Bool.false_eq_true, if_false]
  rw [heffect]
  simp [ensure, hroom, bind, Except.bind, pure, Except.pure, after, request, claim]

/-- The session after its handshake. -/
def greeted : World Unit Unit :=
  World.send { World.start 0 with state := after ⟨21⟩ (.handshake 1) (State.new 0) } none

/-- The session after the worker was prepared. -/
def readied : World Unit Unit :=
  World.send
    { greeted with
      state := after ⟨22⟩ (.prepared (.ok ()))
        { greeted.state with prepared := none, preparedOk := true } }
    (some ⟨0, .prepared (.ok ())⟩)

def material : MaterialRef :=
  ⟨⟨31⟩, "sha256:" ++ hexEncode (platform.sha256 (utf8 "\x7b\x7d"))⟩

/-- The session while its material is offered. -/
def asked : World Unit Unit :=
  readied.offer
    { readied.state with
      created := true
      sink := true
      createdResult := some 1
      desired := some (.create material)
      material := some (⟨31⟩, utf8 "\x7b\x7d") }
    ⟨31⟩ 1

/-- The session after the worker reported that its apply failed. -/
def reported : World Unit Unit :=
  World.send
    { asked with
      state := after ⟨23⟩ applyFailed
        { asked.state with createdResult := none, desired := none, material := none } }
    (some ⟨1, .created (.error (.executionFailed "apply"))⟩)

theorem bounds : (encode (request ⟨21⟩ (.handshake 1))).length ≤ maxControlBytes ∧
    (encode (request ⟨22⟩ (.prepared (.ok ())))).length ≤ maxControlBytes ∧
    (encode (request ⟨23⟩ applyFailed)).length ≤ maxControlBytes := by
  decide +kernel

end Sample

/-- A handshake is repeated, the worker is prepared, and reports the result of what it is offered. -/
theorem control_once_sample :
    ∃ trace, Run (Step Sample.platform Sample.encode Sample.access) (World.start 0) trace
        Sample.reported ∧ trace.length = 5 ∧
      Sample.reported.received =
        [⟨0, .prepared (.ok ())⟩, ⟨1, .created (.error (.executionFailed "apply"))⟩] ∧
      ControlOnce Sample.platform Sample.encode Sample.access trace := by
  obtain ⟨hgreets, hreadies, hreports⟩ := Sample.bounds
  have hgreeted := Sample.apply_step (w := World.start 0) hgreets rfl (by decide) rfl rfl
  have hfind : Sample.greeted.state.replay.find (Sample.request ⟨21⟩ (.handshake 1)).requestId =
      some (requestDigest Sample.platform Sample.encode (Sample.request ⟨21⟩ (.handshake 1)),
        .ack) := by
    simp [Sample.greeted, Sample.after, State.record, Sample.request]
  have hrecorded := State.call_recorded (Sample.admitted hgreets) hfind
  rw [if_pos rfl] at hrecorded
  have hrepeated := Step.answered (w := Sample.greeted) hrecorded
  have hreadied := Sample.apply_step (w := Sample.greeted) hreadies (by decide) (by decide) rfl rfl
  have hcreate : Sample.readied.state.create Sample.platform ⟨31⟩ (utf8 "\x7b\x7d") true 1 =
      .ok Sample.asked.state := by
    rfl
  have hasked : Step Sample.platform Sample.encode Sample.access Sample.readied (.offered ⟨31⟩ 1)
      Sample.asked :=
    .create (by decide) (by decide) hcreate
  have hreported := Sample.apply_step (w := Sample.asked) hreports (by decide) (by decide) rfl rfl
  have hsha : Function.Injective Sample.platform.sha256 := knownDigest_injective (by decide +kernel)
  have hrun := (Run.single hgreeted).append ((Run.single hrepeated).append
    ((Run.single hreadied).append ((Run.single hasked).append (Run.single hreported))))
  exact ⟨_, hrun, rfl, rfl, control_once hsha hrun⟩

/-- The id of a poll is not on record: another message under it has its effect. -/
theorem poll_reserves_no_id :
    ∃ first second w', Run (Step Sample.platform Sample.encode Sample.access) (World.start 0)
        [first, second] w' ∧
      ∃ capability request request' a outcome outcome' delivery,
        first.2.1 = .called capability request a outcome none ∧
        second.2.1 = .called capability request' a outcome' delivery ∧
        Admitted Sample.platform Sample.encode Sample.access capability request a ∧
        Admitted Sample.platform Sample.encode Sample.access capability request' a ∧
        request'.requestId = request.requestId ∧
        Sample.encode request' ≠ Sample.encode request ∧
        outcome' ≠ .error .conflict ∧ second.2.2.state.preparedOk ≠ second.1.state.preparedOk := by
  have hbound : (Sample.encode (Sample.request ⟨21⟩ .poll)).length ≤ maxControlBytes := by
    decide +kernel
  have hbound' : (Sample.encode (Sample.request ⟨21⟩ (.prepared (.ok ())))).length ≤
      maxControlBytes := by
    decide +kernel
  have hpolled : (State.new 0).call Sample.platform Sample.encode Sample.access
      Sample.access.capability (Sample.request ⟨21⟩ .poll) Sample.answers =
        .ok (State.new 0, .desired .wait, none) := by
    rw [State.call_of_admitted (Sample.admitted hbound)]
    rfl
  have hfirst := Step.answered (w := World.start 0) hpolled
  have hsecond := Sample.apply_step (w := World.start 0) hbound' rfl (by decide) rfl rfl
  refine ⟨_, _, _, (Run.single hfirst).append (Run.single hsecond), _, _, _, _, _, _, _, rfl, rfl,
    Sample.admitted hbound, Sample.admitted hbound', rfl, by decide +kernel, nofun, nofun⟩

end Shaula.Workers
