import Shaula.Core.Worker
import Shaula.Library.Outcome
import Shaula.Library.Table
import Shaula.RunnerOperation.Effects

/-! # Worker sessions

A worker reports over control calls what it did, and may repeat a call whose answer it did not get.
The daemon offers it material and waits for the results.  Both meet in the state of a session; what
the journal and the apply intent sink answer is up to them.
-/

namespace Shaula.Workers

open Core Library Library.Outcome
open RunnerOperation (TemplateOutcomeError)

def protocolVersion : Nat := 1

def maxControlBytes : Nat := 64 * 1024

/-! ## Messages -/

structure MaterialRef where
  id : Uuid
  digest : String
  deriving DecidableEq

inductive Directive where
  | wait
  | create (value : MaterialRef)
  | destroy (value : MaterialRef)
  | complete (receipt : CompletionReceipt)
  | quiesce
  deriving DecidableEq

def Directive.creates (id : Uuid) : Directive → Bool
  | .create value => value.id = id
  | _ => false

def Directive.destroys (id : Uuid) : Directive → Bool
  | .destroy value => value.id = id
  | _ => false

/-- A result of the template runtime, which a session only hands on. -/
abbrev Result (α : Type) := Except TemplateOutcomeError α

inductive ControlMessage (Created Destroyed : Type) where
  | handshake (protocol : Nat)
  | poll
  | prepared (result : Result Unit)
  | createFinished (materialId : Uuid) (result : Result Created)
  | destroyFinished (materialId : Uuid) (result : Result Destroyed)
  | applyStarting (proof : PlanProvenance)
  | spawned (proof : PlanProvenance)
  | commandEnded (proof : PlanProvenance)
  | bootstrapStarting (proof : PlanProvenance)
  | bootstrapEnded (proof : PlanProvenance)

structure ControlRequest (Created Destroyed : Type) where
  claim : StateClaim
  requestId : Uuid
  message : ControlMessage Created Destroyed

inductive ControlResponse where
  | ack
  | desired (directive : Directive)
  deriving DecidableEq

/-! ## The state of a session -/

/-- The channel of one result: its sender is held here, its receiver by whoever waits. -/
abbrev Waiter := Nat

inductive Report (Created Destroyed : Type) where
  | prepared (result : Result Unit)
  | created (result : Result Created)
  | destroyed (result : Result Destroyed)

/-- A result sent to its waiter. -/
structure Delivery (Created Destroyed : Type) where
  waiter : Waiter
  report : Report Created Destroyed

/-- An admission claim, told by what it was given for. -/
abbrev ApplyClaim := PlanProvenance

structure State where
  prepared : Option Waiter
  preparedOk : Bool
  created : Bool
  createdResult : Option Waiter
  destroyedResult : Option Waiter
  desired : Option Directive
  material : Option (Uuid × Bytes)
  /-- The request came with an apply intent sink. -/
  sink : Bool
  guard : Option ApplyClaim
  bootstrapGuard : Option ApplyClaim
  replay : Table Uuid (String × ControlResponse)

/-- What the journal and the sink answer to the calls that a message makes, whether or not they
committed anything, and whether the daemon is stopping. -/
structure Answers where
  authenticate : StateResult Unit
  receipt : StateResult (Option CompletionReceipt)
  spawnAck : StateResult Unit
  commandEnded : StateResult Unit
  verifyCleanup : StateResult Unit
  persistApplyStarting : Except String ApplyClaim
  authorizeBootstrap : Except String ApplyClaim
  stopping : Bool

variable {Created Destroyed : Type}

namespace ControlMessage

def isPoll : ControlMessage Created Destroyed → Bool
  | .poll => true
  | _ => false

def isPrepared : ControlMessage Created Destroyed → Bool
  | .prepared _ => true
  | _ => false

/-- The material whose result the message reports. -/
def finishes : ControlMessage Created Destroyed → Option Uuid
  | .createFinished materialId _ => some materialId
  | .destroyFinished materialId _ => some materialId
  | _ => none

/-- The result it reports of what was offered. -/
def answersTo (message : ControlMessage Created Destroyed) (directive : Directive) : Bool :=
  match message with
  | .createFinished materialId _ => directive.creates materialId
  | .destroyFinished materialId _ => directive.destroys materialId
  | _ => false

/-- The result in it. -/
def report : ControlMessage Created Destroyed → Option (Report Created Destroyed)
  | .prepared result => some (.prepared result)
  | .createFinished _ result => some (.created result)
  | .destroyFinished _ result => some (.destroyed result)
  | _ => none

end ControlMessage

namespace State

def new (prepared : Waiter) : State where
  prepared := some prepared
  preparedOk := false
  created := false
  createdResult := none
  destroyedResult := none
  desired := none
  material := none
  sink := false
  guard := none
  bootstrapGuard := none
  replay := ∅

/-! ## Offers -/

def failed : TemplateOutcomeError := .stateUnavailable "worker.unavailable"

/-- Keeps the material of an offer, under an id that was drawn for it. -/
def withMaterial (P : Platform) (s : State) (id : Uuid) (bytes : Bytes) :
    StateResult (State × MaterialRef) := do
  ensure (bytes.length ≤ maxStateBytes) .tooLarge
  return ({ s with material := some (id, bytes) },
    { id, digest := "sha256:" ++ hexEncode (P.sha256 bytes) })

/-- What `create` does under the lock of the session. -/
def create (P : Platform) (s : State) (id : Uuid) (bytes : Bytes) (sink : Bool) (result : Waiter) :
    Result State := do
  ensure (¬(s.created = true ∨ s.desired.isSome = true ∨ s.preparedOk = false)) failed
  let (s, reference) ← (s.withMaterial P id bytes).mapError fun _ => failed
  return { s with
    created := true
    sink
    createdResult := some result
    desired := some (.create reference) }

/-- What `destroy` does under the lock; the material needs the input that the journal retained. -/
def destroy (P : Platform) (s : State) (id : Uuid) (bytes : Option Bytes) (sink : Bool)
    (result : Waiter) : Result State := do
  ensure (s.desired = none) failed
  let bytes ← okOr bytes failed
  let (s, reference) ← (s.withMaterial P id bytes).mapError fun _ => failed
  return { s with
    sink
    destroyedResult := some result
    desired := some (.destroy reference) }

/-- What `fence` does under the lock, once the worker's processes are gone. -/
def fence (s : State) : State := { s with guard := none, bootstrapGuard := none }

/-! ## Control calls -/

/-- What a poll gets. -/
def directive (s : State) (stopping : Bool) : Directive :=
  if stopping then .quiesce
  else
    match s.desired with
    | some (.create value) => .create value
    | some (.destroy value) => .destroy value
    | _ => .wait

/-- The effect of a message of generation `generation`. -/
def effect (s : State) (generation : Uuid) (a : Answers) :
    ControlMessage Created Destroyed → StateResult (State × Option (Delivery Created Destroyed))
  | .handshake protocol => do
    ensure (protocol = protocolVersion) .invalid
    return (s, none)
  | .poll => .error .invalid
  | .prepared result => do
    let waiter ← okOr s.prepared .conflict
    return ({ s with prepared := none, preparedOk := result.isOk },
      some { waiter, report := .prepared result })
  | .applyStarting proof => do
    ensure (proof.generationId = generation ∧ s.guard = none) .conflict
    ensure (s.sink = true) .conflict
    let claim ← a.persistApplyStarting.mapError fun _ => StateError.conflict
    return ({ s with guard := some claim }, none)
  | .spawned proof => do
    ensure (proof.generationId = generation) .conflict
    a.spawnAck
    return ({ s with guard := none }, none)
  | .commandEnded proof => do
    ensure (proof.generationId = generation) .conflict
    a.commandEnded
    return (s, none)
  | .bootstrapStarting proof => do
    ensure (proof.generationId = generation ∧ s.bootstrapGuard = none) .conflict
    ensure (s.sink = true) .conflict
    let claim ← a.authorizeBootstrap.mapError fun _ => StateError.conflict
    return ({ s with bootstrapGuard := some claim }, none)
  | .bootstrapEnded proof => do
    ensure (proof.generationId = generation) .conflict
    a.commandEnded
    return ({ s with bootstrapGuard := none }, none)
  | .createFinished materialId result => do
    ensure (s.desired.any (Directive.creates materialId) = true ∧ s.guard = none ∧
      s.bootstrapGuard = none) .conflict
    let waiter ← okOr s.createdResult .conflict
    return ({ s with createdResult := none, desired := none, material := none },
      some { waiter, report := .created result })
  | .destroyFinished materialId result => do
    ensure (s.desired.any (Directive.destroys materialId) = true ∧ s.guard = none ∧
      s.bootstrapGuard = none) .conflict
    if result.isOk then a.verifyCleanup
    let waiter ← okOr s.destroyedResult .conflict
    return ({ s with destroyedResult := none, desired := none, material := none },
      some { waiter, report := .destroyed result })

def record (s : State) (requestId : Uuid) (digest : String) : State :=
  { s with replay := s.replay.put requestId (digest, .ack) }

/-- The call once it was authenticated, with the digest of its bytes. -/
def respond (s : State) (digest : String) (request : ControlRequest Created Destroyed) (a : Answers) :
    StateResult (State × ControlResponse × Option (Delivery Created Destroyed)) :=
  match s.replay.find request.requestId with
  | some (saved, response) => do
    ensure (saved = digest) .conflict
    return (s, response, none)
  | none =>
    if request.message.isPoll then do
      let receipt ← a.receipt
      return (s, .desired (receipt.elim (s.directive a.stopping) .complete), none)
    else do
      ensure (s.replay.rows.length < 256) .tooLarge
      let (s, delivery) ← s.effect request.claim.generationId a request.message
      return (s.record request.requestId digest, .ack, delivery)

end State

section Call

variable (P : Platform) (encode : ControlRequest Created Destroyed → Bytes)

def requestDigest (request : ControlRequest Created Destroyed) : String :=
  hexEncode (P.sha256 (encode request))

/-- One control call. -/
def State.call (access : ControlAccess) (s : State) (capability : ControlCapability)
    (request : ControlRequest Created Destroyed) (a : Answers) :
    StateResult (State × ControlResponse × Option (Delivery Created Destroyed)) := do
  ensure (capability.matchesVerifier P (access.capability.verifier P) = true) .unauthorized
  a.authenticate
  ensure (request.claim = access.claim) .unauthorized
  ensure ((encode request).length ≤ maxControlBytes) .tooLarge
  s.respond (requestDigest P encode request) request a

end Call

/-! ## What a call can do -/

section Cases

variable {s s' : State} {generation : Uuid} {a : Answers} {message : ControlMessage Created Destroyed}
  {delivery : Option (Delivery Created Destroyed)}

/-- What a message does: it moves a guard at most, or sends a result to its waiter. -/
inductive Effect (s : State) (a : Answers) :
    ControlMessage Created Destroyed → State → Option (Delivery Created Destroyed) → Prop
  | silent {message : ControlMessage Created Destroyed} (guard bootstrapGuard : Option ApplyClaim) :
      message.isPrepared = false → message.finishes = none →
      Effect s a message { s with guard, bootstrapGuard } none
  | prepared {result : Result Unit} {waiter : Waiter} : s.prepared = some waiter →
      Effect s a (.prepared result) { s with prepared := none, preparedOk := result.isOk }
        (some { waiter, report := .prepared result })
  | created {materialId : Uuid} {result : Result Created} {waiter : Waiter} {value : MaterialRef} :
      s.desired = some (.create value) → value.id = materialId → s.guard = none →
      s.bootstrapGuard = none → s.createdResult = some waiter →
      Effect s a (.createFinished materialId result)
        { s with createdResult := none, desired := none, material := none }
        (some { waiter, report := .created result })
  | destroyed {materialId : Uuid} {result : Result Destroyed} {waiter : Waiter} {value : MaterialRef} :
      s.desired = some (.destroy value) → value.id = materialId → s.guard = none →
      s.bootstrapGuard = none → (result.isOk = true → a.verifyCleanup = .ok ()) →
      s.destroyedResult = some waiter →
      Effect s a (.destroyFinished materialId result)
        { s with destroyedResult := none, desired := none, material := none }
        (some { waiter, report := .destroyed result })

theorem Directive.any_creates {desired : Option Directive} {id : Uuid}
    (h : desired.any (Directive.creates id) = true) :
    ∃ value, desired = some (.create value) ∧ value.id = id := by
  obtain ⟨directive, rfl, hid⟩ := (Option.any_eq_true _ _).mp h
  cases directive with
  | create value => exact ⟨value, rfl, of_decide_eq_true hid⟩
  | wait | destroy | complete | quiesce => cases hid

theorem Directive.any_destroys {desired : Option Directive} {id : Uuid}
    (h : desired.any (Directive.destroys id) = true) :
    ∃ value, desired = some (.destroy value) ∧ value.id = id := by
  obtain ⟨directive, rfl, hid⟩ := (Option.any_eq_true _ _).mp h
  cases directive with
  | destroy value => exact ⟨value, rfl, of_decide_eq_true hid⟩
  | wait | create | complete | quiesce => cases hid

theorem State.effect_cases (h : s.effect generation a message = .ok (s', delivery)) :
    Effect s a message s' delivery := by
  cases message with
  | poll => cases h
  | handshake protocol =>
    simp only [effect, bind_eq_ok, pure_eq_ok, Prod.mk.injEq] at h
    obtain ⟨-, -, rfl, rfl⟩ := h
    exact .silent s.guard s.bootstrapGuard rfl rfl
  | prepared result =>
    simp only [effect, bind_eq_ok, okOr_eq_ok, pure_eq_ok, Prod.mk.injEq] at h
    obtain ⟨waiter, hwaiter, rfl, rfl⟩ := h
    exact .prepared hwaiter
  | applyStarting proof =>
    simp only [effect, bind_eq_ok, pure_eq_ok, Prod.mk.injEq] at h
    obtain ⟨-, -, -, -, claim, -, rfl, rfl⟩ := h
    exact .silent (some claim) s.bootstrapGuard rfl rfl
  | spawned proof =>
    simp only [effect, bind_eq_ok, pure_eq_ok, Prod.mk.injEq] at h
    obtain ⟨-, -, -, -, rfl, rfl⟩ := h
    exact .silent none s.bootstrapGuard rfl rfl
  | commandEnded proof =>
    simp only [effect, bind_eq_ok, pure_eq_ok, Prod.mk.injEq] at h
    obtain ⟨-, -, -, -, rfl, rfl⟩ := h
    exact .silent s.guard s.bootstrapGuard rfl rfl
  | bootstrapStarting proof =>
    simp only [effect, bind_eq_ok, pure_eq_ok, Prod.mk.injEq] at h
    obtain ⟨-, -, -, -, claim, -, rfl, rfl⟩ := h
    exact .silent s.guard (some claim) rfl rfl
  | bootstrapEnded proof =>
    simp only [effect, bind_eq_ok, pure_eq_ok, Prod.mk.injEq] at h
    obtain ⟨-, -, -, -, rfl, rfl⟩ := h
    exact .silent s.guard none rfl rfl
  | createFinished materialId result =>
    simp only [effect, bind_eq_ok, ensure_eq_ok, okOr_eq_ok, pure_eq_ok, Prod.mk.injEq] at h
    obtain ⟨⟨⟩, ⟨hdesired, hguard, hbootstrap⟩, waiter, hwaiter, rfl, rfl⟩ := h
    obtain ⟨value, hvalue, hid⟩ := Directive.any_creates hdesired
    exact .created hvalue hid hguard hbootstrap hwaiter
  | destroyFinished materialId result =>
    simp only [effect, bind_eq_ok, ensure_eq_ok] at h
    obtain ⟨⟨⟩, ⟨hdesired, hguard, hbootstrap⟩, h⟩ := h
    obtain ⟨value, hvalue, hid⟩ := Directive.any_destroys hdesired
    split at h
    · simp only [bind_eq_ok, okOr_eq_ok, pure_eq_ok, Prod.mk.injEq] at h
      obtain ⟨⟨⟩, hverified, waiter, hwaiter, rfl, rfl⟩ := h
      exact .destroyed hvalue hid hguard hbootstrap (fun _ => hverified) hwaiter
    · next hfailed =>
      simp only [bind_eq_ok, okOr_eq_ok, pure_eq_ok, Prod.mk.injEq] at h
      obtain ⟨waiter, hwaiter, rfl, rfl⟩ := h
      exact .destroyed hvalue hid hguard hbootstrap (fun hok => absurd hok hfailed) hwaiter

/-- A call that is answered found its answer on record, polled, or had its effect, which is then on
record. -/
theorem State.respond_cases {digest : String} {request : ControlRequest Created Destroyed}
    {response : ControlResponse} (h : s.respond digest request a = .ok (s', response, delivery)) :
    (s.replay.find request.requestId = some (digest, response) ∧ s' = s ∧ delivery = none) ∨
    (s.replay.find request.requestId = none ∧ request.message.isPoll = true ∧ s' = s ∧
      delivery = none) ∨
    (s.replay.find request.requestId = none ∧ request.message.isPoll = false ∧ response = .ack ∧
      ∃ next, Effect s a request.message next delivery ∧
        s' = next.record request.requestId digest) := by
  unfold respond at h
  split at h
  · next saved recorded hfind =>
    simp only [bind_eq_ok, ensure_eq_ok, pure_eq_ok, Prod.mk.injEq] at h
    obtain ⟨⟨⟩, rfl, rfl, rfl, rfl⟩ := h
    exact .inl ⟨hfind, rfl, rfl⟩
  · next hfind =>
    split at h
    · next hpoll =>
      simp only [bind_eq_ok, pure_eq_ok, Prod.mk.injEq] at h
      obtain ⟨receipt, -, rfl, -, rfl⟩ := h
      exact .inr (.inl ⟨hfind, hpoll, rfl, rfl⟩)
    · next hpoll =>
      simp only [bind_eq_ok, pure_eq_ok, Prod.mk.injEq] at h
      obtain ⟨-, -, ⟨next, delivery⟩, heffect, rfl, rfl, rfl⟩ := h
      exact .inr (.inr ⟨hfind, Bool.eq_false_iff.mpr hpoll, rfl, next, effect_cases heffect, rfl⟩)

end Cases

section Admission

variable {P : Platform} {encode : ControlRequest Created Destroyed → Bytes} {access : ControlAccess}
  {s s' : State} {capability : ControlCapability} {request : ControlRequest Created Destroyed}
  {a : Answers}

/-- The call is authenticated, of the session's claim, and within bounds. -/
structure Admitted (P : Platform) (encode : ControlRequest Created Destroyed → Bytes)
    (access : ControlAccess) (capability : ControlCapability)
    (request : ControlRequest Created Destroyed) (a : Answers) : Prop where
  capability : capability.matchesVerifier P (access.capability.verifier P) = true
  authenticated : a.authenticate = .ok ()
  claim : request.claim = access.claim
  bounded : (encode request).length ≤ maxControlBytes

theorem State.call_of_admitted (h : Admitted P encode access capability request a) :
    s.call P encode access capability request a =
      s.respond (requestDigest P encode request) request a := by
  unfold State.call
  rw [h.authenticated]
  simp [ensure, h.capability, h.claim, h.bounded, bind, Except.bind]

theorem State.call_admitted
    {answer : State × ControlResponse × Option (Delivery Created Destroyed)}
    (h : s.call P encode access capability request a = .ok answer) :
    Admitted P encode access capability request a ∧
      s.respond (requestDigest P encode request) request a = .ok answer := by
  simp only [State.call, bind_eq_ok, ensure_eq_ok] at h
  obtain ⟨⟨⟩, hcapability, ⟨⟩, hauthenticated, ⟨⟩, hclaim, ⟨⟩, hbounded, hrespond⟩ := h
  exact ⟨⟨hcapability, hauthenticated, hclaim, hbounded⟩, hrespond⟩

/-- A call under a recorded id gets the recorded answer if its bytes are the recorded ones. -/
theorem State.call_recorded (h : Admitted P encode access capability request a) {digest : String}
    {response : ControlResponse} (hfind : s.replay.find request.requestId = some (digest, response)) :
    s.call P encode access capability request a =
      if digest = requestDigest P encode request then .ok (s, response, none)
      else .error .conflict := by
  rw [State.call_of_admitted h, respond, hfind]
  simp only [ensure]
  split <;> rfl

end Admission

end Shaula.Workers
