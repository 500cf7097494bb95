import Shaula.Library.Run
import Shaula.Oidc.Sessions

/-! # Runs of the session store

Any number of browsers call the operations of the store, which one lock orders, and the clock moves
on between them.  A request whose session has run out holds the lock from its admission to the start
of the exchange that renews the session; the exchange runs on its own and finishes later.
-/

namespace Shaula.Oidc

open Library

/-- `drawn` are the session ids drawn so far, `live` the exchanges that have not finished, each with
its session, and `held` the session whose renewal was asked for under the lock. -/
structure Service where
  store : Sessions
  clock : Int
  drawn : List String
  flights : Nat
  live : List (Flight × String)
  held : Option String

inductive Call where
  | passed (nanoseconds : Nat)
  | begin (state : String) (transaction : Transaction)
  | consume (state binding : String)
  | insert (identity : Authenticated) (expires : Int) (refresh : Option RefreshGrant)
      (old : Option String) (id csrf : String)
  | create (identity : Authenticated) (exp timestamp : Nat) (old : Option String)
      (id csrf : String)
  | get (id : String)
  | retained (id : String)
  | remove (id : String)
  | admission (id : String)
  | start
  | defer (error : AuthError)
  | finish (id : String) (flight : Flight) (result : Except AuthError Refreshed)

namespace Service

def Initial (s : Service) : Prop := s.store = .empty ∧ s.drawn = [] ∧ s.live = [] ∧ s.held = none

variable (sha256 : String → String)

/-- The session of a request that goes on to renew it. -/
def renewing (id : String) : Except AuthError Admission → Option String
  | .ok (.renew _) => some id
  | _ => none

/-- `session_identity` marks the flight, and spawns its owner, before it gives the lock back. -/
def launch (s : Service) (id : String) : Service :=
  let started := s.store.start id s.flights
  match started.1 with
  | .error _ => { s with store := started.2, flights := s.flights + 1, held := none }
  | .ok () =>
    { s with
      store := started.2
      flights := s.flights + 1
      live := (s.flights, id) :: s.live
      held := none }

def perform (s : Service) : Call → Service
  | .passed nanoseconds => { s with clock := s.clock + nanoseconds }
  | .begin state transaction => { s with store := (s.store.begin s.clock state transaction).2 }
  | .consume state binding => { s with store := (s.store.consume sha256 s.clock state binding).2 }
  | .insert identity expires refresh old id csrf =>
    { s with
      store := (s.store.insert s.clock identity expires refresh old id csrf).2
      drawn := id :: s.drawn }
  | .create identity exp timestamp old id csrf =>
    { s with
      store := (s.store.create s.clock identity exp timestamp old id csrf).2
      drawn := id :: s.drawn }
  | .get id => { s with store := (s.store.get s.clock id).2 }
  | .retained id => { s with store := (s.store.retained s.clock id).2 }
  | .remove id => { s with store := s.store.remove id }
  | .admission id =>
    { s with
      store := (s.store.admission s.clock id).2
      held := renewing id (s.store.admission s.clock id).1 }
  | .start =>
    match s.held with
    | none => s
    | some id => s.launch id
  | .defer error =>
    match s.held with
    | none => s
    | some id => { s with store := s.store.defer s.clock id error, held := none }
  | .finish id flight result =>
    { s with
      store := (s.store.finish s.clock id flight result).2
      live := s.live.erase (flight, id) }

/-- The lock admits no other operation while a renewal is being started, and random ids are new.
`start` and `defer` are called in `session_identity` only, under the one guard of the lock that it
took for the admission, and right after this answered `Renew`. -/
def Allowed (s : Service) : Call → Prop
  | .passed _ => True
  | .start | .defer _ => s.held.isSome
  | .insert _ _ _ _ id _ | .create _ _ _ _ id _ => s.held = none ∧ id ∉ s.drawn
  | _ => s.held = none

def Step (s : Service) (c : Call) (t : Service) : Prop := s.Allowed c ∧ t = s.perform sha256 c

end Service

/-! ## What a session keeps -/

namespace Sessions

variable {s s' : Sessions} {id : String}

/-- Each session left is one that was there, with the same csrf token and the same grant or none. -/
def Descends (s s' : Sessions) : Prop :=
  ∀ id y, s'.sessions.find id = some y → ∃ x, s.sessions.find id = some x ∧
    y.identity.csrf = x.identity.csrf ∧ y.refresh.isSome = x.refresh.isSome

theorem Keeps.descends (h : s.Keeps s') : s.Descends s' := by
  intro id y hy
  obtain ⟨x, hx, hcsrf, hgrant, -⟩ := h id y hy
  exact ⟨x, hx, hcsrf, hgrant⟩

theorem descends_putSession {x y : Session} (hx : s.sessions.find id = some x)
    (hcsrf : y.identity.csrf = x.identity.csrf) (hgrant : y.refresh.isSome = x.refresh.isSome) :
    s.Descends (s.putSession id y) := by
  intro id' z hz
  rw [find_putSession] at hz
  split at hz
  · next hid =>
    cases hz
    exact ⟨x, hid ▸ hx, hcsrf, hgrant⟩
  · exact ⟨z, hz, rfl, rfl⟩

theorem Finished.descends {flight : Flight} {answer : Except AuthError Unit}
    (h : Finished s id flight answer s') : s.Descends s' := by
  cases h with
  | fenced => exact (Keeps.refl s).descends
  | renewed hx _ hcsrf hgrant _ => exact descends_putSession hx hcsrf hgrant
  | deferred hx _ => exact descends_putSession hx rfl rfl
  | removed _ _ => exact keeps_remove.descends

/-- An exchange that fails leaves the session as it is but for its owner, or removes it. -/
theorem Finished.of_error {flight : Flight} {answer : Except AuthError Unit}
    (h : Finished s id flight answer s') {error : AuthError} (herror : answer = .error error)
    {y : Session} (hy : s'.sessions.find id = some y) :
    ∃ x, s.sessions.find id = some x ∧ y.identity = x.identity ∧ y.expires = x.expires ∧
      y.idle = x.idle ∧ y.refresh = x.refresh := by
  cases h with
  | fenced => exact ⟨y, hy, rfl, rfl, rfl, rfl⟩
  | renewed => cases herror
  | @deferred x _ _ hx _ =>
    rw [find_putSession, if_pos rfl] at hy
    cases hy
    exact ⟨x, hx, rfl, rfl, rfl, rfl⟩
  | removed =>
    rw [find_remove, if_pos rfl] at hy
    cases hy

/-- An exchange that does not own the session, or finds none, is turned away. -/
theorem Finished.of_other {flight : Flight} {answer : Except AuthError Unit}
    (h : Finished s id flight answer s')
    (hother : ∀ x, s.sessions.find id = some x → x.renewal ≠ .running flight) :
    answer = .error .unauthorized ∧ s' = s := by
  cases h with
  | fenced => exact ⟨rfl, rfl⟩
  | renewed hx howner => exact absurd howner (hother _ hx)
  | deferred hx howner => exact absurd howner (hother _ hx)
  | removed hx howner => exact absurd howner (hother _ hx)

variable {now : Int}

theorem defer_eq {x : Session} (hx : s.sessions.find id = some x) (error : AuthError) :
    s.defer now id error = s.putSession id
      { x with renewal := .backoff (now + backoffTime) error } := by
  simp [defer, hx]

theorem create_cases {identity : Authenticated} {exp timestamp : Nat} {old : Option String}
    {csrf : String} (h : s.Bounded) :
    (s.create now identity exp timestamp old id csrf).2.Bounded ∧
      s.KeepsLogins (s.create now identity exp timestamp old id csrf).2 ∧
      (s.Keeps (s.create now identity exp timestamp old id csrf).2 ∨
        ∃ s' y, s.Keeps s' ∧ y.renewal = .idle ∧
          (s.create now identity exp timestamp old id csrf).2 = s'.putSession id y) := by
  unfold create
  dsimp only
  split
  · exact ⟨h, fun _ _ ht => ht, .inl (Keeps.refl s)⟩
  · exact insert_cases h

theorem keepsLogins_get (id : String) : s.KeepsLogins (s.get now id).2 := by
  unfold get
  dsimp only
  split
  · exact keepsLogins_evict
  · split
    · exact keepsLogins_evict
    · exact keepsLogins_evict

theorem keepsLogins_retained (id : String) : s.KeepsLogins (s.retained now id).2 := by
  unfold retained
  dsimp only
  split
  · exact keepsLogins_evict
  · exact keepsLogins_evict

theorem keepsLogins_admission (id : String) : s.KeepsLogins (s.admission now id).2 := by
  have hevict : s.KeepsLogins (s.evict now) := keepsLogins_evict
  unfold admission
  dsimp only
  split
  · exact hevict
  · split
    · exact fun state t ht => hevict state t (keepsLogins_get id state t ht)
    · split
      · exact hevict
      · split
        · exact hevict
        · exact hevict
        · split
          · exact hevict
          · exact hevict

theorem Finished.transactions {flight : Flight} {answer : Except AuthError Unit}
    (h : Finished s id flight answer s') : s'.transactions = s.transactions := by
  cases h with
  | fenced => rfl
  | renewed => rfl
  | deferred => rfl
  | removed => rfl

end Sessions

namespace Service

variable {sha256 : String → String} {s t : Service} {id : String}

/-! ## The invariant -/

/-- A session whose renewal is about to start. -/
def Renewable (store : Sessions) (id : String) : Prop :=
  ∃ x, store.sessions.find id = some x ∧ x.refresh.isSome ∧ ∀ flight, x.renewal ≠ .running flight

structure Ready (s : Service) : Prop where
  bounded : s.store.Bounded
  drawn : ∀ id x, s.store.sessions.find id = some x → id ∈ s.drawn
  granted : ∀ id x flight, s.store.sessions.find id = some x → x.renewal = .running flight →
    x.refresh.isSome
  flying : ∀ e ∈ s.live, e.2 ∈ s.drawn
  owner : ∀ e ∈ s.live, ∀ x, s.store.sessions.find e.2 = some x → x.renewal = .running e.1
  alone : (s.live.map Prod.snd).Nodup
  held : ∀ id, s.held = some id → Renewable s.store id

theorem Ready.of_initial (h : s.Initial) : s.Ready := by
  obtain ⟨hstore, hdrawn, hlive, hheld⟩ := h
  have hnone : ∀ id, s.store.sessions.find id = none := by
    intro id
    rw [hstore]
    rfl
  refine ⟨?_, ?_, ?_, ?_, ?_, ?_, ?_⟩
  · rw [hstore]
    exact ⟨Nat.zero_le _, Nat.zero_le _⟩
  · intro id x hx
    rw [hnone] at hx
    cases hx
  · intro id x flight hx
    rw [hnone] at hx
    cases hx
  · simp [hlive]
  · simp [hlive]
  · simp [hlive]
  · simp [hheld]

/-- What keeps the sessions keeps the invariant. -/
theorem Ready.kept (h : s.Ready) {store : Sessions} {held : Option String}
    (hbounded : store.Bounded) (hkeeps : s.store.Keeps store)
    (hheld : ∀ id, held = some id → Renewable store id) :
    Ready { s with store, held } := by
  refine ⟨hbounded, fun id y hy => ?_, fun id y flight hy hrunning => ?_, h.flying,
    fun e he y hy => ?_, h.alone, hheld⟩
  · obtain ⟨x, hx, -⟩ := hkeeps id y hy
    exact h.drawn id x hx
  · obtain ⟨x, hx, -, hgrant, howner⟩ := hkeeps id y hy
    rw [hgrant]
    exact h.granted id x flight hx (howner ▸ hrunning)
  · obtain ⟨x, hx, -, -, howner⟩ := hkeeps e.2 y hy
    rw [howner]
    exact h.owner e he x hx

/-- The store changed under a lock that no renewal holds. -/
theorem Ready.kept_free (h : s.Ready) {store : Sessions} (hfree : s.held = none)
    (hbounded : store.Bounded) (hkeeps : s.store.Keeps store) : Ready { s with store } :=
  h.kept hbounded hkeeps fun id hid => by rw [hfree] at hid; cases hid

/-- An id that was never drawn comes to name a new session, or none. -/
theorem Ready.drew (h : s.Ready) {store : Sessions} (hfree : s.held = none)
    (hbounded : store.Bounded) (hnew : id ∉ s.drawn)
    (hkept : s.store.Keeps store ∨ ∃ s' y, s.store.Keeps s' ∧ y.renewal = .idle ∧
      store = s'.putSession id y) :
    Ready { s with store, drawn := id :: s.drawn } := by
  have hfind : ∀ id' y, store.sessions.find id' = some y →
      (id' = id ∧ y.renewal = .idle) ∨ ∃ x, s.store.sessions.find id' = some x ∧
        y.refresh.isSome = x.refresh.isSome ∧ y.renewal = x.renewal := by
    intro id' y hy
    rcases hkept with hkeeps | ⟨s', z, hkeeps, hidle, rfl⟩
    · obtain ⟨x, hx, -, hgrant, howner⟩ := hkeeps id' y hy
      exact .inr ⟨x, hx, hgrant, howner⟩
    · rw [Sessions.find_putSession] at hy
      split at hy
      · next hid =>
        cases hy
        exact .inl ⟨hid, hidle⟩
      · obtain ⟨x, hx, -, hgrant, howner⟩ := hkeeps id' y hy
        exact .inr ⟨x, hx, hgrant, howner⟩
  refine ⟨hbounded, fun id' y hy => ?_, fun id' y flight hy hrunning => ?_,
    fun e he => List.mem_cons_of_mem _ (h.flying e he), fun e he y hy => ?_, h.alone,
    fun id hid => by rw [hfree] at hid; cases hid⟩
  · rcases hfind id' y hy with ⟨rfl, -⟩ | ⟨x, hx, -⟩
    · exact List.mem_cons_self
    · exact List.mem_cons_of_mem _ (h.drawn id' x hx)
  · rcases hfind id' y hy with ⟨-, hidle⟩ | ⟨x, hx, hgrant, howner⟩
    · rw [hidle] at hrunning
      cases hrunning
    · rw [hgrant]
      exact h.granted id' x flight hx (howner ▸ hrunning)
  · rcases hfind e.2 y hy with ⟨hid, -⟩ | ⟨x, hx, -, howner⟩
    · exact absurd (hid ▸ h.flying e he) hnew
    · rw [howner]
      exact h.owner e he x hx

/-- No exchange is under way for a session whose renewal is about to start. -/
theorem Ready.not_flying (h : s.Ready) (hid : Renewable s.store id) :
    ∀ e ∈ s.live, e.2 ≠ id := by
  rintro e he rfl
  obtain ⟨x, hx, -, hidle⟩ := hid
  exact hidle e.1 (h.owner e he x hx)

/-- A session is written anew with the exchanges that are under way. -/
theorem Ready.wrote (h : s.Ready) {x y : Session} {live : List (Flight × String)}
    {flights : Nat} (hx : s.store.sessions.find id = some x)
    (hgrant : ∀ flight, y.renewal = .running flight → y.refresh.isSome)
    (hlive : ∀ e ∈ live, e.2 ∈ s.drawn)
    (howner : ∀ e ∈ live, (e.2 = id → y.renewal = .running e.1) ∧ (e.2 ≠ id → e ∈ s.live))
    (halone : (live.map Prod.snd).Nodup) :
    Ready { s with store := s.store.putSession id y, flights, live, held := none } := by
  refine ⟨h.bounded.putSession hx, fun id' z hz => ?_, fun id' z flight hz hrunning => ?_, hlive,
    fun e he z hz => ?_, halone, nofun⟩
  all_goals
    dsimp only at hz
    rw [Sessions.find_putSession] at hz
    split at hz
  · next hid => exact hid ▸ h.drawn id x hx
  · exact h.drawn id' z hz
  · cases hz
    exact hgrant flight hrunning
  · exact h.granted id' z flight hz hrunning
  · next hid =>
    cases hz
    exact (howner e he).1 hid
  · next hid => exact h.owner e ((howner e he).2 hid) z hz

theorem launch_eq {x : Session} (hx : s.store.sessions.find id = some x) :
    s.launch id =
      { s with
        store := s.store.putSession id { x with renewal := .running s.flights }
        flights := s.flights + 1
        live := (s.flights, id) :: s.live
        held := none } := by
  simp [launch, Sessions.start, hx]

theorem perform_start (hid : s.held = some id) : s.perform sha256 .start = s.launch id := by
  simp [perform, hid]

theorem perform_defer (hid : s.held = some id) (error : AuthError) :
    s.perform sha256 (.defer error) =
      { s with store := s.store.defer s.clock id error, held := none } := by
  simp [perform, hid]

theorem Ready.launch (h : s.Ready) (hid : Renewable s.store id) : (s.launch id).Ready := by
  have hfree := h.not_flying hid
  obtain ⟨x, hx, hgrant, -⟩ := hid
  rw [launch_eq hx]
  refine h.wrote hx (fun _ _ => hgrant) (fun e he => ?_) (fun e he => ?_) ?_
  · rcases List.mem_cons.mp he with rfl | he
    · exact h.drawn id x hx
    · exact h.flying e he
  · rcases List.mem_cons.mp he with rfl | he
    · exact ⟨fun _ => rfl, fun hne => absurd rfl hne⟩
    · exact ⟨fun heq => absurd heq (hfree e he), fun _ => he⟩
  · rw [List.map_cons, List.nodup_cons]
    refine ⟨fun hmem => ?_, h.alone⟩
    obtain ⟨e, he, heq⟩ := List.mem_map.mp hmem
    exact hfree e he heq

theorem Ready.defer (h : s.Ready) (hid : Renewable s.store id) (error : AuthError) :
    Ready { s with store := s.store.defer s.clock id error, held := none } := by
  have hfree := h.not_flying hid
  obtain ⟨x, hx, -, -⟩ := hid
  rw [Sessions.defer_eq hx]
  refine h.wrote hx nofun h.flying (fun e he => ?_) h.alone
  exact ⟨fun heq => absurd heq (hfree e he), fun _ => he⟩

/-- The exchange of a session is the one that ends. -/
theorem Ready.ended (h : s.Ready) {flight : Flight} {x : Session}
    (hx : s.store.sessions.find id = some x) (howner : x.renewal = .running flight) :
    ∀ e ∈ s.live.erase (flight, id), e.2 ≠ id := by
  rintro ⟨flight', id'⟩ he rfl
  have hnodup : s.live.Nodup := h.alone.of_map
  rw [hnodup.mem_erase_iff] at he
  have hrunning := h.owner _ he.2 x hx
  rw [howner] at hrunning
  cases hrunning
  exact he.1 rfl

theorem Ready.finished (h : s.Ready) (hfree : s.held = none) {flight : Flight}
    {answer : Except AuthError Unit} {store : Sessions}
    (hfinished : Sessions.Finished s.store id flight answer store) :
    Ready { s with store, live := s.live.erase (flight, id) } := by
  have hsub : ∀ e ∈ s.live.erase (flight, id), e ∈ s.live := fun e he => List.mem_of_mem_erase he
  have halone : ((s.live.erase (flight, id)).map Prod.snd).Nodup :=
    h.alone.sublist (List.erase_sublist.map _)
  have hheld : ∀ {P : String → Prop}, ∀ id, s.held = some id → P id := by
    intro P id hid
    rw [hfree] at hid
    cases hid
  have hwrote : ∀ {x y : Session}, s.store.sessions.find id = some x →
      x.renewal = .running flight → (∀ flight, y.renewal ≠ .running flight) →
      Ready { s with store := s.store.putSession id y, live := s.live.erase (flight, id) } := by
    intro x y hx howner hidle
    have hother := h.ended hx howner
    have hready : Ready { s with
        store := s.store.putSession id y
        flights := s.flights
        live := s.live.erase (flight, id)
        held := none } :=
      h.wrote hx (fun flight hrunning => absurd hrunning (hidle flight))
        (fun e he => h.flying e (hsub e he))
        (fun e he => ⟨fun heq => absurd heq (hother e he), fun _ => hsub e he⟩) halone
    rwa [← hfree] at hready
  cases hfinished with
  | fenced =>
    exact ⟨h.bounded, h.drawn, h.granted, fun e he => h.flying e (hsub e he),
      fun e he => h.owner e (hsub e he), halone, hheld⟩
  | renewed hx howner _ _ hidle => exact hwrote hx howner fun _ => by rw [hidle]; nofun
  | deferred hx howner => exact hwrote hx howner nofun
  | removed hx howner =>
    have hkeeps : s.store.Keeps (s.store.remove id) := Sessions.keeps_remove
    have hbounded : (s.store.remove id).Bounded := h.bounded.dropOld (some id)
    have hready := h.kept_free hfree hbounded hkeeps
    exact ⟨hready.bounded, hready.drawn, hready.granted, fun e he => h.flying e (hsub e he),
      fun e he => hready.owner e (hsub e he), halone, hheld⟩

theorem renewing_eq_some {id' : String} {answer : Except AuthError Admission}
    (h : renewing id answer = some id') : id' = id ∧ ∃ input, answer = .ok (.renew input) := by
  unfold renewing at h
  split at h
  · cases h
    exact ⟨rfl, _, rfl⟩
  · cases h

theorem Ready.finish_finished (h : s.Ready) (id : String) (flight : Flight)
    (result : Except AuthError Refreshed) :
    Sessions.Finished s.store id flight (s.store.finish s.clock id flight result).1
      (s.store.finish s.clock id flight result).2 :=
  Sessions.finish_finished id flight result fun x hx howner => h.granted id x flight hx howner

theorem Ready.step {c : Call} (h : s.Ready) (hstep : Step sha256 s c t) : t.Ready := by
  obtain ⟨hallowed, rfl⟩ := hstep
  cases c with
  | passed => exact ⟨h.bounded, h.drawn, h.granted, h.flying, h.owner, h.alone, h.held⟩
  | begin state transaction =>
    exact h.kept_free hallowed (h.bounded.begin state transaction)
      (Sessions.keeps_begin state transaction)
  | consume state binding =>
    exact h.kept_free hallowed (h.bounded.consume sha256 state binding)
      (Sessions.keeps_consume sha256 state binding)
  | insert =>
    obtain ⟨hbounded, -, hkept⟩ := Sessions.insert_cases h.bounded
    exact h.drew hallowed.1 hbounded hallowed.2 hkept
  | create =>
    obtain ⟨hbounded, -, hkept⟩ := Sessions.create_cases h.bounded
    exact h.drew hallowed.1 hbounded hallowed.2 hkept
  | get id => exact h.kept_free hallowed (h.bounded.get id) (Sessions.get_cases id).1
  | retained id => exact h.kept_free hallowed (h.bounded.retained id) (Sessions.keeps_retained id)
  | remove id => exact h.kept_free hallowed (h.bounded.dropOld (some id)) Sessions.keeps_remove
  | admission id =>
    have hadmitted := @Sessions.admission_admitted s.store s.clock id
    refine h.kept (h.bounded.admission id) hadmitted.keeps fun id' hid' => ?_
    obtain ⟨rfl, input, hinput⟩ := renewing_eq_some hid'
    exact hadmitted.renew input hinput
  | start =>
    obtain ⟨id, hid⟩ := Option.isSome_iff_exists.mp hallowed
    rw [perform_start hid]
    exact h.launch (h.held id hid)
  | defer error =>
    obtain ⟨id, hid⟩ := Option.isSome_iff_exists.mp hallowed
    rw [perform_defer hid]
    exact h.defer (h.held id hid) error
  | finish id flight result => exact h.finished hallowed (h.finish_finished id flight result)

/-! ## Sessions over a run -/

/-- A session whose id was drawn before is never made again, and has the csrf token it had. -/
structure Follows (s t : Service) : Prop where
  drawn : ∀ id ∈ s.drawn, id ∈ t.drawn
  csrf : ∀ id ∈ s.drawn, ∀ y, t.store.sessions.find id = some y →
    ∃ x, s.store.sessions.find id = some x ∧ y.identity.csrf = x.identity.csrf

theorem Follows.refl (s : Service) : s.Follows s := ⟨fun _ h => h, fun _ _ y hy => ⟨y, hy, rfl⟩⟩

theorem Follows.trans {u : Service} (h : s.Follows t) (h' : t.Follows u) : s.Follows u := by
  refine ⟨fun id hid => h'.drawn id (h.drawn id hid), fun id hid z hz => ?_⟩
  obtain ⟨y, hy, hcsrf⟩ := h'.csrf id (h.drawn id hid) z hz
  obtain ⟨x, hx, hcsrf'⟩ := h.csrf id hid y hy
  exact ⟨x, hx, hcsrf.trans hcsrf'⟩

theorem follows_of_descends (hdrawn : t.drawn = s.drawn) (h : s.store.Descends t.store) :
    s.Follows t := by
  refine ⟨fun id hid => hdrawn ▸ hid, fun id _ y hy => ?_⟩
  obtain ⟨x, hx, hcsrf, -⟩ := h id y hy
  exact ⟨x, hx, hcsrf⟩

theorem follows_of_drew (hdrawn : t.drawn = id :: s.drawn) (hnew : id ∉ s.drawn)
    (hkept : s.store.Keeps t.store ∨ ∃ s' y, s.store.Keeps s' ∧ y.renewal = .idle ∧
      t.store = s'.putSession id y) : s.Follows t := by
  refine ⟨fun id' hid' => hdrawn ▸ List.mem_cons_of_mem _ hid', fun id' hid' y hy => ?_⟩
  rcases hkept with hkeeps | ⟨s', z, hkeeps, -, hput⟩
  · obtain ⟨x, hx, hcsrf, -⟩ := hkeeps id' y hy
    exact ⟨x, hx, hcsrf⟩
  · have hne : id' ≠ id := fun heq => hnew (heq ▸ hid')
    rw [hput, Sessions.find_putSession, if_neg hne] at hy
    obtain ⟨x, hx, hcsrf, -⟩ := hkeeps id' y hy
    exact ⟨x, hx, hcsrf⟩

theorem Ready.follows {c : Call} (h : s.Ready) (hstep : Step sha256 s c t) : s.Follows t := by
  obtain ⟨hallowed, rfl⟩ := hstep
  have hkeeps : ∀ {t : Service}, t.drawn = s.drawn → s.store.Keeps t.store → s.Follows t :=
    fun hdrawn hkeeps => follows_of_descends hdrawn hkeeps.descends
  cases c with
  | passed => exact hkeeps rfl (Sessions.Keeps.refl _)
  | begin state transaction => exact hkeeps rfl (Sessions.keeps_begin state transaction)
  | consume state binding => exact hkeeps rfl (Sessions.keeps_consume sha256 state binding)
  | insert =>
    obtain ⟨-, -, hkept⟩ := Sessions.insert_cases h.bounded
    exact follows_of_drew rfl hallowed.2 hkept
  | create =>
    obtain ⟨-, -, hkept⟩ := Sessions.create_cases h.bounded
    exact follows_of_drew rfl hallowed.2 hkept
  | get id => exact hkeeps rfl (Sessions.get_cases id).1
  | retained id => exact hkeeps rfl (Sessions.keeps_retained id)
  | remove id => exact hkeeps rfl Sessions.keeps_remove
  | admission id => exact hkeeps rfl (Sessions.admission_admitted id).keeps
  | start =>
    obtain ⟨id, hid⟩ := Option.isSome_iff_exists.mp hallowed
    obtain ⟨x, hx, -, -⟩ := h.held id hid
    rw [perform_start hid, launch_eq hx]
    exact follows_of_descends rfl (Sessions.descends_putSession hx rfl rfl)
  | defer error =>
    obtain ⟨id, hid⟩ := Option.isSome_iff_exists.mp hallowed
    obtain ⟨x, hx, -, -⟩ := h.held id hid
    rw [perform_defer hid, Sessions.defer_eq hx]
    exact follows_of_descends rfl (Sessions.descends_putSession hx rfl rfl)
  | finish id flight result =>
    exact follows_of_descends rfl (h.finish_finished id flight result).descends

/-! ## Logins over a run -/

def pending (s : Service) (state : String) : Nat := (s.store.transactions.find state).isSome.toNat

/-- A login was opened under this state. -/
def begun (state : String) : Service × Call × Service → Bool
  | (s, .begin state' transaction, _) =>
    state' = state && (s.store.begin s.clock state' transaction).1.isOk
  | _ => false

/-- The login of this state was consumed. -/
def consumed (sha256 : String → String) (state : String) : Service × Call × Service → Bool
  | (s, .consume state' binding, _) =>
    state' = state && (s.store.consume sha256 s.clock state' binding).1.isOk
  | _ => false

theorem pending_le {state : String} (h : ∀ x, t.store.transactions.find state = some x →
    s.store.transactions.find state = some x) : t.pending state ≤ s.pending state := by
  unfold pending
  cases ht : t.store.transactions.find state with
  | none => exact Nat.zero_le _
  | some x => rw [h x ht]

theorem Ready.keepsLogins {c : Call} (h : s.Ready) (hstep : Step sha256 s c t)
    (hbegin : ∀ state transaction, c ≠ .begin state transaction) :
    s.store.KeepsLogins t.store := by
  obtain ⟨hallowed, rfl⟩ := hstep
  have hsame : ∀ {store : Sessions}, store.transactions = s.store.transactions →
      s.store.KeepsLogins store := fun heq state x hx => heq ▸ hx
  cases c with
  | passed => exact hsame rfl
  | begin state transaction => exact absurd rfl (hbegin state transaction)
  | consume state binding => exact (Sessions.consume_cases sha256 state binding).1
  | insert =>
    obtain ⟨-, hlogins, -⟩ := Sessions.insert_cases h.bounded
    exact hlogins
  | create =>
    obtain ⟨-, hlogins, -⟩ := Sessions.create_cases h.bounded
    exact hlogins
  | get id => exact Sessions.keepsLogins_get id
  | retained id => exact Sessions.keepsLogins_retained id
  | remove id => exact hsame rfl
  | admission id => exact Sessions.keepsLogins_admission id
  | start =>
    obtain ⟨id, hid⟩ := Option.isSome_iff_exists.mp hallowed
    obtain ⟨x, hx, -, -⟩ := h.held id hid
    rw [perform_start hid, launch_eq hx]
    exact hsame rfl
  | defer error =>
    obtain ⟨id, hid⟩ := Option.isSome_iff_exists.mp hallowed
    obtain ⟨x, hx, -, -⟩ := h.held id hid
    rw [perform_defer hid, Sessions.defer_eq hx]
    exact hsame rfl
  | finish id flight result => exact hsame (h.finish_finished id flight result).transactions

/-- A consumption takes a pending login, and only `begin` makes one pending. -/
theorem Ready.pays {c : Call} (h : s.Ready) (hstep : Step sha256 s c t) (state : String) :
    (consumed sha256 state (s, c, t)).toNat + t.pending state ≤
      (begun state (s, c, t)).toNat + s.pending state := by
  by_cases hbegin : ∃ state' transaction, c = .begin state' transaction
  · obtain ⟨state', transaction, rfl⟩ := hbegin
    obtain ⟨-, rfl⟩ := hstep
    obtain ⟨hother, hrefused⟩ := @Sessions.begin_logins s.store s.clock state' transaction
    have hnot : consumed sha256 state (s, .begin state' transaction,
        s.perform sha256 (.begin state' transaction)) = false := rfl
    rw [hnot, Bool.toNat_false, Nat.zero_add]
    by_cases hstate : state' = state
    · subst hstate
      cases hanswer : (s.store.begin s.clock state' transaction).1 with
      | ok u =>
        have hbegun : begun state' (s, .begin state' transaction,
            s.perform sha256 (.begin state' transaction)) = true := by
          simp [begun, hanswer, Except.isOk, Except.toBool]
        rw [hbegun]
        have hone := Bool.toNat_le ((s.perform sha256
          (.begin state' transaction)).store.transactions.find state').isSome
        exact hone.trans (Nat.le_add_right _ _)
      | error e =>
        have hkeep := hrefused (by rw [hanswer]; nofun)
        exact (pending_le fun x hx => hkeep state' x hx).trans (Nat.le_add_left _ _)
    · exact (pending_le fun x hx => hother state x (Ne.symm hstate) hx).trans (Nat.le_add_left _ _)
  · have hkeep : s.store.KeepsLogins t.store :=
      h.keepsLogins hstep fun state' transaction heq => hbegin ⟨state', transaction, heq⟩
    have hle : t.pending state ≤ s.pending state := pending_le fun x hx => hkeep state x hx
    cases hconsumed : consumed sha256 state (s, c, t) with
    | false =>
      rw [Bool.toNat_false, Nat.zero_add]
      exact hle.trans (Nat.le_add_left _ _)
    | true =>
      obtain ⟨-, rfl⟩ := hstep
      cases c with
      | consume state' binding =>
        simp only [consumed, Bool.and_eq_true, decide_eq_true_eq] at hconsumed
        obtain ⟨rfl, hok⟩ := hconsumed
        cases hanswer : (s.store.consume sha256 s.clock state' binding).1 with
        | error e =>
          rw [hanswer] at hok
          cases hok
        | ok transaction =>
          obtain ⟨hfound, -, -, hgone⟩ :=
            (Sessions.consume_cases sha256 state' binding).2 transaction hanswer
          have hnone : (s.perform sha256 (.consume state' binding)).pending state' = 0 := by
            simp only [pending, perform, hgone, Option.isSome_none, Bool.toNat_false]
          have hone : s.pending state' = 1 := by
            simp only [pending, hfound, Option.isSome_some, Bool.toNat_true]
          rw [hnone, hone]
          exact Nat.le_add_left _ _
      | _ => cases hconsumed

/-! ## The theorem -/

/-- What an operation promises when it answers. -/
def Sound (sha256 : String → String) (s : Service) (c : Call) (t : Service) : Prop :=
  match c with
  | .consume state binding => ∀ transaction,
    (s.store.consume sha256 s.clock state binding).1 = .ok transaction →
      s.store.transactions.find state = some transaction ∧ s.clock < transaction.expires ∧
        sha256 transaction.binding = sha256 binding ∧
        (Function.Injective sha256 → transaction.binding = binding) ∧
        t.store.transactions.find state = none
  | .get id => ∀ identity, (s.store.get s.clock id).1 = .ok identity →
    ∃ x, s.store.sessions.find id = some x ∧ x.Current s.clock ∧ x.identity = identity
  | .admission id => ∀ identity, (s.store.admission s.clock id).1 = .ok (.fresh identity) →
    ∃ x, s.store.sessions.find id = some x ∧ x.Current s.clock ∧ x.identity = identity
  | .finish id flight result =>
    ((∀ x, s.store.sessions.find id = some x → x.renewal ≠ .running flight) →
      (s.store.finish s.clock id flight result).1 = .error .unauthorized ∧ t.store = s.store) ∧
    ∀ error, (s.store.finish s.clock id flight result).1 = .error error →
      ∀ y, t.store.sessions.find id = some y →
        ∃ x, s.store.sessions.find id = some x ∧ y.identity = x.identity ∧
          y.expires = x.expires ∧ y.idle = x.idle ∧ y.refresh = x.refresh
  | _ => True

theorem Ready.sound {c : Call} (h : s.Ready) (hstep : Step sha256 s c t) : Sound sha256 s c t := by
  obtain ⟨hallowed, rfl⟩ := hstep
  cases c with
  | consume state binding =>
    intro transaction hanswer
    obtain ⟨hfound, hexpires, hbinding, hgone⟩ :=
      (Sessions.consume_cases sha256 state binding).2 transaction hanswer
    exact ⟨hfound, hexpires, hbinding, fun hinjective => hinjective hbinding, hgone⟩
  | get id => exact (Sessions.get_cases id).2
  | admission id => exact (Sessions.admission_admitted id).fresh
  | finish id flight result =>
    have hfinished := h.finish_finished id flight result
    exact ⟨fun hother => hfinished.of_other hother,
      fun error herror y hy => hfinished.of_error herror hy⟩
  | _ => trivial

/-- No session is ever brought back or half renewed, whatever the order of the operations. -/
theorem renewal_never_resurrects {trace : List (Service × Call × Service)}
    (hs : Reachable Initial (Step sha256) s) (hrun : Run (Step sha256) s trace t) :
    (∀ e ∈ trace, Sound sha256 e.1 e.2.1 e.2.2) ∧
      (∀ state, trace.countP (consumed sha256 state) + t.pending state ≤
        trace.countP (begun state) + s.pending state) ∧
      ((t.live.map Prod.snd).Nodup ∧ ∀ e ∈ t.live, ∀ x, t.store.sessions.find e.2 = some x →
        x.renewal = .running e.1) ∧
      (∀ id x, s.store.sessions.find id = some x → id ∈ s.drawn) ∧
      s.Follows t ∧
      t.store.transactions.size ≤ 4096 ∧ t.store.sessions.size ≤ 4096 := by
  have hready : s.Ready := hs.invariant (fun s hinit => Ready.of_initial hinit)
    fun _ _ _ h hstep => h.step hstep
  have hlast : t.Ready := hrun.invariant (fun _ _ _ h hstep => h.step hstep) hready
  refine ⟨?_, fun state => ?_, ⟨hlast.alone, hlast.owner⟩, hready.drawn, ?_, hlast.bounded⟩
  · exact hrun.forall_mem (fun _ _ _ h hstep => Ready.step h hstep)
      (fun _ _ _ h hstep => h.sound hstep) hready
  · exact hrun.countP_add_le (fun _ _ _ h hstep => Ready.step h hstep)
      (fun _ _ _ h hstep => h.pays hstep state) hready
  · exact hrun.relates Follows.refl (fun _ _ _ => Follows.trans)
      (fun _ _ _ h hstep => Ready.step h hstep) (fun _ _ _ h hstep => h.follows hstep) hready

def opened : Service := ⟨.empty, 0, [], 0, [], none⟩

/-- A browser logs in, its session runs out, and the exchange renews it. -/
def visit : List Call :=
  [.begin "state" ⟨"nonce", "binding", "verifier", "/fleets", seconds 600, ["openid"]⟩,
    .consume "state" "binding",
    .insert ⟨"oidc", none, "user", "User", none⟩ (seconds 60)
      (some ⟨"token", ⟨"user", .one "shaula", "nonce", none⟩, ["openid"]⟩) none "id" "csrf",
    .passed 61000000000,
    .admission "id",
    .start,
    .finish "id" 0 (.ok ⟨⟨"oidc", none, "user", "User", none⟩, seconds 120, none⟩),
    .get "id"]

theorem renewal_never_resurrects_visit :
    (play (perform (fun text => text)) opened visit).countP (consumed (fun text => text) "state") ≤
        (play (perform (fun text => text)) opened visit).countP (begun "state") ∧
      (visit.foldl (perform (fun text => text)) opened).store.sessions.size ≤ 4096 := by
  have hinit : Reachable Initial (Step fun text => text) opened := .of_init ⟨rfl, rfl, rfl, rfl⟩
  have hrun : Run (Step fun text => text) opened (play (perform (fun text => text)) opened visit)
      (visit.foldl (perform (fun text => text)) opened) :=
    .cons ⟨rfl, rfl⟩ <| .cons ⟨rfl, rfl⟩ <| .cons ⟨⟨rfl, List.not_mem_nil⟩, rfl⟩ <|
      .cons ⟨trivial, rfl⟩ <| .cons ⟨rfl, rfl⟩ <| .cons ⟨rfl, rfl⟩ <| .cons ⟨rfl, rfl⟩ <|
      .cons ⟨rfl, rfl⟩ <| .nil _
  obtain ⟨-, hcount, -, -, -, -, hsize⟩ := renewal_never_resurrects hinit hrun
  exact ⟨(Nat.le_add_right _ _).trans (hcount "state"), hsize⟩

end Service

end Shaula.Oidc
