import Shaula.Library.TableSize
import Mathlib.Order.Basic

/-! # The session store

Pending logins and browser sessions, and the operations on them.  A session may hold a grant to
renew it; the exchange that does so owns it until it finishes.
-/

namespace Shaula.Oidc

open Library

inductive AuthError where
  | configuration (reason : String)
  | provider
  | unauthorized
  | csrf
  | capacity
  | unavailable
  deriving DecidableEq

structure Authenticated where
  credentialKind : String
  tokenId : Option String
  actor : String
  name : String
  csrf : Option String
  deriving DecidableEq

inductive Audience where
  | one (value : String)
  | many (values : List String)
  deriving DecidableEq

structure BrowserBinding where
  subject : String
  audience : Audience
  nonce : String
  authTime : Option Nat
  deriving DecidableEq

structure Transaction where
  nonce : String
  binding : String
  verifier : String
  target : String
  expires : Int
  scopes : List String
  deriving DecidableEq

structure RefreshGrant where
  token : String
  binding : BrowserBinding
  scopes : List String
  deriving DecidableEq

/-- A flight stands for the exchange that owns a session. -/
abbrev Flight := Nat

inductive RenewalState where
  | idle
  | running (flight : Flight)
  | backoff (deadline : Int) (error : AuthError)
  deriving DecidableEq

structure Session where
  identity : Authenticated
  expires : Int
  idle : Int
  refresh : Option RefreshGrant
  renewal : RenewalState
  deriving DecidableEq

structure Sessions where
  transactions : Table String Transaction
  sessions : Table String Session

def Sessions.empty : Sessions := ⟨∅, ∅⟩

/-- Time is counted in nanoseconds. -/
def seconds (n : Nat) : Int := n * 1000000000

def sessionLimit : Nat := 4096

def backoffTime : Int := seconds 10

structure RefreshInput where
  identity : Authenticated
  grant : RefreshGrant
  deriving DecidableEq

structure Refreshed where
  identity : Authenticated
  expires : Int
  token : Option String
  deriving DecidableEq

inductive Admission where
  | fresh (identity : Authenticated)
  | wait (flight : Flight)
  | renew (input : RefreshInput)
  deriving DecidableEq

/-- Both deadlines of the session lie in the future. -/
def Session.Current (session : Session) (now : Int) : Prop :=
  now < session.expires ∧ now < session.idle

instance (session : Session) (now : Int) : Decidable (session.Current now) :=
  inferInstanceAs (Decidable (_ ∧ _))

/-- The session after its exchange succeeded, but for a new refresh token. -/
def Session.renewed (session : Session) (refreshed : Refreshed) (now : Int) : Session :=
  { session with
    identity := { refreshed.identity with csrf := session.identity.csrf }
    expires := refreshed.expires
    idle := now + seconds 900 }

namespace Sessions

/-- What an operation answers, and the store it leaves. -/
abbrev Outcome (α : Type) := Except AuthError α × Sessions

variable (sha256 : String → String) (s : Sessions) (now : Int)

def evict : Sessions where
  transactions := s.transactions.retain fun _ t => now < t.expires
  sessions := s.sessions.retain fun _ session => session.refresh.isSome || session.Current now

def putSession (id : String) (session : Session) : Sessions :=
  { s with sessions := s.sessions.put id session }

def remove (id : String) : Sessions := { s with sessions := s.sessions.delete id }

def begin (state : String) (transaction : Transaction) : Outcome Unit :=
  let s := s.evict now
  if s.transactions.size ≥ sessionLimit then (.error .capacity, s)
  else (.ok (), { s with transactions := s.transactions.put state transaction })

/-- A comparison of digests. -/
def equal (a b : String) : Bool := sha256 a = sha256 b

def consume (state binding : String) : Outcome Transaction :=
  let s := s.evict now
  match s.transactions.find state with
  | none => (.error .unauthorized, s)
  | some transaction =>
    let s := { s with transactions := s.transactions.delete state }
    if equal sha256 transaction.binding binding then (.ok transaction, s)
    else (.error .unauthorized, s)

/-- The old session gives way even when there is no room for the new one. -/
def dropOld (old : Option String) : Sessions :=
  match old with
  | some old => s.remove old
  | none => s

/-- `id` and `csrf` are the random texts drawn for the session. -/
def insert (identity : Authenticated) (expires : Int) (refresh : Option RefreshGrant)
    (old : Option String) (id csrf : String) : Outcome String :=
  let s := s.evict now
  if expires ≤ now ∨ expires > now + seconds 3600 then (.error .unauthorized, s)
  else
    let s := s.dropOld old
    if s.sessions.size ≥ sessionLimit then (.error .capacity, s)
    else (.ok id, s.putSession id
      { identity := { identity with csrf := some csrf }
        expires
        idle := now + seconds 900
        refresh
        renewal := .idle })

/-- `timestamp` is the time of day in seconds. -/
def create (identity : Authenticated) (exp timestamp : Nat) (old : Option String)
    (id csrf : String) : Outcome (String × Nat) :=
  let lifetime := min (exp - timestamp) 3600
  if lifetime = 0 then (.error .unauthorized, s)
  else
    let inserted := s.insert now identity (now + seconds lifetime) none old id csrf
    (inserted.1.map fun id => (id, lifetime), inserted.2)

def get (id : String) : Outcome Authenticated :=
  let s := s.evict now
  match s.sessions.find id with
  | none => (.error .unauthorized, s)
  | some session =>
    if session.expires ≤ now ∨ session.idle ≤ now then (.error .unauthorized, s)
    else (.ok session.identity, s.putSession id { session with idle := now + seconds 900 })

/-- Retention permits local logout, never stale content access. -/
def retained (id : String) : Outcome Authenticated :=
  let s := s.evict now
  match s.sessions.find id with
  | none => (.error .unauthorized, s)
  | some session => (.ok session.identity, s)

/-! ## Renewal -/

def admission (id : String) : Outcome Admission :=
  let s := s.evict now
  match s.sessions.find id with
  | none => (.error .unauthorized, s)
  | some session =>
    if session.Current now then
      let got := s.get now id
      (got.1.map .fresh, got.2)
    else match session.refresh with
      | none => (.error .unauthorized, s)
      | some grant =>
        match session.renewal with
        | .running flight => (.ok (.wait flight), s)
        | .idle => (.ok (.renew ⟨session.identity, grant⟩), s)
        | .backoff deadline error =>
          if now < deadline then (.error error, s)
          else (.ok (.renew ⟨session.identity, grant⟩), s)

def start (id : String) (flight : Flight) : Outcome Unit :=
  match s.sessions.find id with
  | none => (.error .unauthorized, s)
  | some session => (.ok (), s.putSession id { session with renewal := .running flight })

def defer (id : String) (error : AuthError) : Sessions :=
  match s.sessions.find id with
  | none => s
  | some session =>
    s.putSession id { session with renewal := .backoff (now + backoffTime) error }

def succeed (id : String) (session : Session) (refreshed : Refreshed) : Outcome Unit :=
  let renewed := session.renewed refreshed now
  match refreshed.token with
  | none => (.ok (), s.putSession id { renewed with renewal := .idle })
  | some token =>
    match session.refresh with
    | none => (.error .unauthorized, s.putSession id renewed)
    | some grant =>
      (.ok (), s.putSession id
        { renewed with refresh := some { grant with token }, renewal := .idle })

/-- Membership and exact-flight fencing prevent logout or replacement resurrection. -/
def finish (id : String) (flight : Flight) (result : Except AuthError Refreshed) :
    Outcome Unit :=
  match s.sessions.find id with
  | none => (.error .unauthorized, s)
  | some session =>
    if session.renewal ≠ .running flight then (.error .unauthorized, s)
    else match result with
      | .ok refreshed =>
        if now < refreshed.expires then s.succeed now id session refreshed
        else (.error .unauthorized, s.remove id)
      | .error error =>
        if error = .provider ∨ error = .capacity then (.error error, s.defer now id error)
        else (.error .unauthorized, s.remove id)

/-! ## What the operations leave -/

variable {s now} {id : String}

@[simp] theorem find_evict : (s.evict now).sessions.find id =
    (s.sessions.find id).filter fun x => x.refresh.isSome || x.Current now :=
  Table.find_retain _ _ _

@[simp] theorem find_putSession (id' : String) (session : Session) :
    (s.putSession id session).sessions.find id' =
      if id' = id then some session else s.sessions.find id' :=
  Table.find_put _ _ _ _

@[simp] theorem find_remove (id' : String) : (s.remove id).sessions.find id' =
    if id' = id then none else s.sessions.find id' :=
  Table.find_delete _ _ _

theorem find_of_find_evict {x : Session} (h : (s.evict now).sessions.find id = some x) :
    s.sessions.find id = some x ∧ (x.refresh.isSome ∨ x.Current now) := by
  rw [find_evict, Option.filter_eq_some_iff] at h
  exact ⟨h.1, by simpa using h.2⟩

theorem find_of_find_dropOld {old : Option String} {x : Session}
    (h : (s.dropOld old).sessions.find id = some x) : s.sessions.find id = some x := by
  cases old with
  | none => exact h
  | some old =>
    have hremove : (s.remove old).sessions.find id = some x := h
    rw [find_remove] at hremove
    split at hremove
    · cases hremove
    · exact hremove

/-- Each session that an operation leaves is one it found, with the same csrf token, the same grant
or none, and the same owner. -/
def Keeps (s s' : Sessions) : Prop :=
  ∀ id y, s'.sessions.find id = some y → ∃ x, s.sessions.find id = some x ∧
    y.identity.csrf = x.identity.csrf ∧ y.refresh.isSome = x.refresh.isSome ∧
      y.renewal = x.renewal

theorem Keeps.refl (s : Sessions) : s.Keeps s := fun _ y hy => ⟨y, hy, rfl, rfl, rfl⟩

theorem Keeps.trans {s' s'' : Sessions} (h : s.Keeps s') (h' : s'.Keeps s'') : s.Keeps s'' := by
  intro id z hz
  obtain ⟨y, hy, hcsrf, hgrant, howner⟩ := h' id z hz
  obtain ⟨x, hx, hcsrf', hgrant', howner'⟩ := h id y hy
  exact ⟨x, hx, hcsrf.trans hcsrf', hgrant.trans hgrant', howner.trans howner'⟩

theorem keeps_of_find {s' : Sessions}
    (h : ∀ id y, s'.sessions.find id = some y → s.sessions.find id = some y) : s.Keeps s' :=
  fun id y hy => ⟨y, h id y hy, rfl, rfl, rfl⟩

theorem keeps_evict : s.Keeps (s.evict now) :=
  keeps_of_find fun _ _ hy => (find_of_find_evict hy).1

theorem keeps_dropOld {old : Option String} : s.Keeps (s.dropOld old) :=
  keeps_of_find fun _ _ hy => find_of_find_dropOld hy

theorem keeps_remove : s.Keeps (s.remove id) :=
  keeps_of_find fun _ _ hy => @find_of_find_dropOld s _ (some id) _ hy

/-- A session that is written anew keeps its csrf token, its grant and its owner. -/
theorem keeps_putSession {x y : Session} (hx : s.sessions.find id = some x)
    (hcsrf : y.identity.csrf = x.identity.csrf) (hgrant : y.refresh.isSome = x.refresh.isSome)
    (howner : y.renewal = x.renewal) : s.Keeps (s.putSession id y) := by
  intro id' z hz
  rw [find_putSession] at hz
  split at hz
  · next hid =>
    cases hz
    exact ⟨x, hid ▸ hx, hcsrf, hgrant, howner⟩
  · exact ⟨z, hz, rfl, rfl, rfl⟩

theorem keeps_begin (state : String) (transaction : Transaction) :
    s.Keeps (s.begin now state transaction).2 := by
  unfold begin
  dsimp only
  split
  · exact keeps_evict
  · exact keeps_evict

theorem keeps_consume (state binding : String) :
    s.Keeps (s.consume sha256 now state binding).2 := by
  unfold consume
  dsimp only
  split
  · exact keeps_evict
  · split
    · exact keeps_evict
    · exact keeps_evict

/-- A read answers only for a current session, and keeps every session. -/
theorem get_cases (id : String) : s.Keeps (s.get now id).2 ∧ ∀ identity,
    (s.get now id).1 = .ok identity →
      ∃ x, s.sessions.find id = some x ∧ x.Current now ∧ x.identity = identity := by
  unfold get
  dsimp only
  split
  · exact ⟨keeps_evict, fun _ h => by cases h⟩
  · next x hx =>
    split
    · exact ⟨keeps_evict, fun _ h => by cases h⟩
    · next hcurrent =>
      refine ⟨keeps_evict.trans (keeps_putSession hx rfl rfl rfl), fun identity h => ?_⟩
      cases h
      have hboth := not_or.mp hcurrent
      exact ⟨x, (find_of_find_evict hx).1, ⟨Int.not_le.mp hboth.1, Int.not_le.mp hboth.2⟩, rfl⟩

theorem keeps_retained (id : String) : s.Keeps (s.retained now id).2 := by
  unfold retained
  dsimp only
  split
  · exact keeps_evict
  · exact keeps_evict

/-- What an admission answers.  It asks for a renewal only of a session that has a grant and no
owner. -/
structure Admitted (s s' : Sessions) (now : Int) (id : String)
    (answer : Except AuthError Admission) : Prop where
  keeps : s.Keeps s'
  fresh : ∀ identity, answer = .ok (.fresh identity) →
    ∃ x, s.sessions.find id = some x ∧ x.Current now ∧ x.identity = identity
  renew : ∀ input, answer = .ok (.renew input) → ∃ x, s'.sessions.find id = some x ∧
    x.refresh.isSome ∧ (∀ flight, x.renewal ≠ .running flight)
  wait : ∀ flight, answer = .ok (.wait flight) →
    ∃ x, s.sessions.find id = some x ∧ x.renewal = .running flight

theorem admission_admitted (id : String) :
    Admitted s (s.admission now id).2 now id (s.admission now id).1 := by
  unfold admission
  dsimp only
  split
  · exact ⟨keeps_evict, nofun, nofun, nofun⟩
  · next x hx =>
    split
    · obtain ⟨hkeeps, hfresh⟩ := @get_cases (s.evict now) now id
      refine ⟨keeps_evict.trans hkeeps, fun identity h => ?_, fun input h => ?_, fun f h => ?_⟩
      · cases hget : ((s.evict now).get now id).1 with
        | error e =>
          rw [hget] at h
          cases h
        | ok found =>
          rw [hget] at h
          cases h
          obtain ⟨y, hy, hcurrent, hidentity⟩ := hfresh identity hget
          exact ⟨y, (find_of_find_evict hy).1, hcurrent, hidentity⟩
      all_goals
        cases hget : ((s.evict now).get now id).1 <;> rw [hget] at h <;> cases h
    · split
      · exact ⟨keeps_evict, nofun, nofun, nofun⟩
      · next grant hgrant =>
        have hsome : x.refresh.isSome := by rw [hgrant]; rfl
        split
        · next flight howner =>
          refine ⟨keeps_evict, nofun, nofun, fun f h => ?_⟩
          cases h
          exact ⟨x, (find_of_find_evict hx).1, howner⟩
        · next howner =>
          exact ⟨keeps_evict, nofun, fun _ _ => ⟨x, hx, hsome, by simp [howner]⟩, nofun⟩
        · next deadline error howner =>
          split
          · exact ⟨keeps_evict, nofun, nofun, nofun⟩
          · exact ⟨keeps_evict, nofun, fun _ _ => ⟨x, hx, hsome, by simp [howner]⟩, nofun⟩

/-! ## Logins -/

/-- No operation but `begin` puts a login into the store. -/
def KeepsLogins (s s' : Sessions) : Prop :=
  ∀ state t, s'.transactions.find state = some t → s.transactions.find state = some t

theorem keepsLogins_evict : s.KeepsLogins (s.evict now) := by
  intro state t ht
  have hfind : ((s.transactions.find state).filter fun t => decide (now < t.expires)) = some t :=
    (Table.find_retain _ _ _).symm.trans ht
  exact (Option.filter_eq_some_iff.mp hfind).1

theorem dropOld_transactions (old : Option String) :
    (s.dropOld old).transactions = s.transactions := by
  cases old <;> rfl

theorem begin_logins (state : String) (transaction : Transaction) :
    (∀ state' t, state' ≠ state → (s.begin now state transaction).2.transactions.find state' = some t →
        s.transactions.find state' = some t) ∧
      ((s.begin now state transaction).1 ≠ .ok () →
        s.KeepsLogins (s.begin now state transaction).2) := by
  unfold begin
  dsimp only
  split
  · exact ⟨fun state' t _ ht => keepsLogins_evict state' t ht, fun _ => keepsLogins_evict⟩
  · refine ⟨fun state' t hne ht => ?_, fun h => absurd rfl h⟩
    rw [Table.find_put, if_neg hne] at ht
    exact keepsLogins_evict state' t ht

/-- A login is consumed while it is pending, unexpired and presented with its own binding, and is
then no longer pending. -/
theorem consume_cases (state binding : String) :
    s.KeepsLogins (s.consume sha256 now state binding).2 ∧ ∀ t,
      (s.consume sha256 now state binding).1 = .ok t →
        s.transactions.find state = some t ∧ now < t.expires ∧ sha256 t.binding = sha256 binding ∧
          (s.consume sha256 now state binding).2.transactions.find state = none := by
  have hdelete : s.KeepsLogins { s.evict now with
      transactions := (s.evict now).transactions.delete state } := by
    intro state' t ht
    have hfind := (Table.find_delete (s.evict now).transactions state state').symm.trans ht
    split at hfind
    · cases hfind
    · exact keepsLogins_evict state' t hfind
  unfold consume
  dsimp only
  split
  · exact ⟨keepsLogins_evict, fun _ h => by cases h⟩
  · next t ht =>
    have hlive : s.transactions.find state = some t ∧ now < t.expires := by
      have hfind : ((s.transactions.find state).filter fun t => decide (now < t.expires)) =
          some t := (Table.find_retain _ _ _).symm.trans ht
      rw [Option.filter_eq_some_iff] at hfind
      exact ⟨hfind.1, by simpa using hfind.2⟩
    split
    · next hequal =>
      refine ⟨hdelete, fun t' h => ?_⟩
      cases h
      refine ⟨hlive.1, hlive.2, by simpa [equal] using hequal, ?_⟩
      rw [Table.find_delete, if_pos rfl]
    · exact ⟨hdelete, fun _ h => by cases h⟩

/-! ## Room -/

/-- The store holds no more than its limit of logins and of sessions. -/
def Bounded (s : Sessions) : Prop :=
  s.transactions.size ≤ sessionLimit ∧ s.sessions.size ≤ sessionLimit

theorem Bounded.evict (h : s.Bounded) : (s.evict now).Bounded :=
  ⟨(Table.size_retain_le _ _).trans h.1, (Table.size_retain_le _ _).trans h.2⟩

theorem Bounded.dropOld (h : s.Bounded) (old : Option String) : (s.dropOld old).Bounded := by
  cases old with
  | none => exact h
  | some old => exact ⟨h.1, (Table.size_delete_le _ _).trans h.2⟩

theorem Bounded.putSession (h : s.Bounded) {x y : Session}
    (hx : s.sessions.find id = some x) : (s.putSession id y).Bounded :=
  ⟨h.1, (Table.size_put_of_find _ hx).trans_le h.2⟩

theorem Bounded.begin (h : s.Bounded) (state : String) (transaction : Transaction) :
    (s.begin now state transaction).2.Bounded := by
  unfold Sessions.begin
  dsimp only
  split
  · exact h.evict
  · next hroom =>
    refine ⟨(Table.size_put_le _ _ _).trans ?_, h.evict.2⟩
    omega

theorem Bounded.consume (h : s.Bounded) (state binding : String) :
    (s.consume sha256 now state binding).2.Bounded := by
  have hdelete := Table.size_delete_le (s.evict now).transactions state
  unfold Sessions.consume
  dsimp only
  split
  · exact h.evict
  · split
    · exact ⟨hdelete.trans h.evict.1, h.evict.2⟩
    · exact ⟨hdelete.trans h.evict.1, h.evict.2⟩

theorem Bounded.get (h : s.Bounded) (id : String) : (s.get now id).2.Bounded := by
  unfold Sessions.get
  dsimp only
  split
  · exact h.evict
  · next x hx =>
    split
    · exact h.evict
    · exact h.evict.putSession hx

theorem Bounded.retained (h : s.Bounded) (id : String) : (s.retained now id).2.Bounded := by
  unfold Sessions.retained
  dsimp only
  split
  · exact h.evict
  · exact h.evict

theorem Bounded.admission (h : s.Bounded) (id : String) : (s.admission now id).2.Bounded := by
  unfold Sessions.admission
  dsimp only
  split
  · exact h.evict
  · split
    · exact h.evict.get id
    · split
      · exact h.evict
      · split
        · exact h.evict
        · exact h.evict
        · split
          · exact h.evict
          · exact h.evict

/-! ## New sessions -/

/-- An insert leaves sessions it found, and the new one when it succeeds. -/
theorem insert_cases {identity : Authenticated} {expires : Int} {refresh : Option RefreshGrant}
    {old : Option String} {csrf : String} (h : s.Bounded) :
    (s.insert now identity expires refresh old id csrf).2.Bounded ∧
      s.KeepsLogins (s.insert now identity expires refresh old id csrf).2 ∧
      (s.Keeps (s.insert now identity expires refresh old id csrf).2 ∨
        ∃ s' y, s.Keeps s' ∧ y.renewal = .idle ∧
          (s.insert now identity expires refresh old id csrf).2 = s'.putSession id y) := by
  have hlogins : s.KeepsLogins ((s.evict now).dropOld old) := by
    intro state t ht
    rw [dropOld_transactions] at ht
    exact keepsLogins_evict state t ht
  have hkeeps : s.Keeps ((s.evict now).dropOld old) := keeps_evict.trans keeps_dropOld
  have hbounded : ((s.evict now).dropOld old).Bounded := h.evict.dropOld old
  unfold Sessions.insert
  dsimp only
  split
  · exact ⟨h.evict, keepsLogins_evict, .inl keeps_evict⟩
  · split
    · exact ⟨hbounded, hlogins, .inl hkeeps⟩
    · next hroom =>
      refine ⟨⟨hbounded.1, (Table.size_put_le _ _ _).trans ?_⟩, hlogins,
        .inr ⟨_, _, hkeeps, rfl, rfl⟩⟩
      omega

/-! ## Exchanges -/

/-- What finishing an exchange does to the store, for a session that can be renewed.  A failure
leaves the session as it is but for its owner, or removes it. -/
inductive Finished (s : Sessions) (id : String) (flight : Flight) :
    Except AuthError Unit → Sessions → Prop
  | fenced : (∀ x, s.sessions.find id = some x → x.renewal ≠ .running flight) →
      Finished s id flight (.error .unauthorized) s
  | renewed {x y : Session} : s.sessions.find id = some x → x.renewal = .running flight →
      y.identity.csrf = x.identity.csrf → y.refresh.isSome = x.refresh.isSome →
      y.renewal = .idle → Finished s id flight (.ok ()) (s.putSession id y)
  | deferred {x : Session} {error : AuthError} {deadline : Int} :
      s.sessions.find id = some x → x.renewal = .running flight →
      Finished s id flight (.error error)
        (s.putSession id { x with renewal := .backoff deadline error })
  | removed {x : Session} : s.sessions.find id = some x → x.renewal = .running flight →
      Finished s id flight (.error .unauthorized) (s.remove id)

theorem finish_finished (id : String) (flight : Flight) (result : Except AuthError Refreshed)
    (hgrant : ∀ x, s.sessions.find id = some x → x.renewal = .running flight →
      x.refresh.isSome) :
    Finished s id flight (s.finish now id flight result).1 (s.finish now id flight result).2 := by
  unfold finish
  split
  · next hnone =>
    exact .fenced fun x hx => by rw [hnone] at hx; cases hx
  · next x hx =>
    split
    · next hother =>
      exact .fenced fun y hy => by rw [hx] at hy; cases hy; exact hother
    · next howner =>
      have howner : x.renewal = .running flight := not_not.mp howner
      split
      · next refreshed =>
        split
        · unfold succeed
          dsimp only
          split
          · exact .renewed hx howner rfl rfl rfl
          · next token =>
            split
            · next hnone =>
              have hsome := hgrant x hx howner
              rw [hnone] at hsome
              cases hsome
            · next grant hgrant =>
              exact .renewed hx howner rfl (by rw [hgrant]; rfl) rfl
        · exact .removed hx howner
      · next error =>
        split
        · unfold defer
          rw [hx]
          exact .deferred hx howner
        · exact .removed hx howner

end Sessions

end Shaula.Oidc
