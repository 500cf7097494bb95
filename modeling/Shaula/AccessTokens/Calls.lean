import Shaula.AccessTokens.Service
import Shaula.AccessTokens.Sound
import Shaula.Library.PoolHistory

/-! # Token requests at once

Any number of requests run at once, each against the configuration it was started under, with any
readings of the clock.  A transaction happens in one step; its answer may be lost, and it may fail
with nothing done.
-/

namespace Shaula.AccessTokens

open Core Library Library.Program

/-! ## Requests -/

inductive TokenCall where
  | authenticate (tokens : PersonalTokens) (raw : Bytes)
  | issue (tokens : PersonalTokens) (actor : Actor) (primary : Bool) (body : IssueToken)
      (key : String)
  | revoke (actor : Actor) (id : String) (revision : Option Int)

inductive TokenAnswer where
  | authenticated (actor : Actor) (id : String)
  | issued (token : IssuedToken)
  | revoked
  deriving DecidableEq

section

variable (crates : Crates)

def body : TokenCall → Served TokenAnswer
  | .authenticate tokens raw => do
    let (actor, id) ← tokens.authenticate crates raw
    return .authenticated actor id
  | .issue tokens actor primary request key => do
    let token ← tokens.issue crates actor primary request key
    return .issued token
  | .revoke actor id revision => do
    PersonalTokens.revoke actor id revision
    return .revoked

/-- What an effect answers, and the tables it leaves. -/
inductive Acts (s : TokenStore) : (op : TokenEffect) → op.Answer → TokenStore → Prop
  | tryAcquire {permit : Bool} : Acts s .tryAcquire permit s
  | clock {now : Reading} : Acts s .clock now s
  | mint {minted : TokenResult (String × Bytes)} : Acts s .mint minted s
  | got {id : String} : Acts s (.get id) (.ok (s.find id)) s
  | listed {owner : String} {before : Option (Int × String)} {limit : Nat} :
      Acts s (.list owner before limit) (.ok (s.list owner before limit)) s
  | issued {r r' : TokenRecord} {key hash : String} {policy : TokenPolicy} {s' : TokenStore}
      {created : Bool} : s.issue r key hash policy = .ok (s', r', created) →
      Acts s (.issue r key hash policy) (.ok (r', created)) s'
  | issueRefused {r : TokenRecord} {key hash : String} {policy : TokenPolicy} {e : TokenError} :
      s.issue r key hash policy = .error e → Acts s (.issue r key hash policy) (.error e) s
  | issueUnheard {r r' : TokenRecord} {key hash : String} {policy : TokenPolicy} {s' : TokenStore}
      {created : Bool} : s.issue r key hash policy = .ok (s', r', created) →
      Acts s (.issue r key hash policy) (.error .unavailable) s'
  | revoked {actor : Actor} {id : String} {revision : Option Int} {now : Int} {s' : TokenStore} :
      s.revoke actor id revision now = .ok s' → Acts s (.revoke actor id revision now) (.ok ()) s'
  | revokeRefused {actor : Actor} {id : String} {revision : Option Int} {now : Int}
      {e : TokenError} : s.revoke actor id revision now = .error e →
      Acts s (.revoke actor id revision now) (.error e) s
  | revokeUnheard {actor : Actor} {id : String} {revision : Option Int} {now : Int}
      {s' : TokenStore} : s.revoke actor id revision now = .ok s' →
      Acts s (.revoke actor id revision now) (.error .unavailable) s'
  | touched {id : String} {now : Int} : Acts s (.touch id now) (.ok ()) (s.touch id now)
  | touchUnheard {id : String} {now : Int} :
      Acts s (.touch id now) (.error .unavailable) (s.touch id now)
  | getFailed {id : String} : Acts s (.get id) (.error .unavailable) s
  | listFailed {owner : String} {before : Option (Int × String)} {limit : Nat} :
      Acts s (.list owner before limit) (.error .unavailable) s
  | issueFailed {r : TokenRecord} {key hash : String} {policy : TokenPolicy} :
      Acts s (.issue r key hash policy) (.error .unavailable) s
  | revokeFailed {actor : Actor} {id : String} {revision : Option Int} {now : Int} :
      Acts s (.revoke actor id revision now) (.error .unavailable) s
  | touchFailed {id : String} {now : Int} : Acts s (.touch id now) (.error .unavailable) s

/-- All requests against one registry, which nothing else writes. -/
def requests : Pool tokenEffects TokenCall TokenStore TokenError TokenAnswer where
  env _ _ := False
  act _ := Acts
  body := body crates
  leave _ s := s

abbrev Requests := Pool.Config tokenEffects TokenCall TokenStore TokenError TokenAnswer

abbrev RequestEvent := Pool.Event tokenEffects TokenCall TokenError TokenAnswer

/-- No token was issued yet, and nobody has called. -/
def Fresh : Requests → Prop := Pool.Initial fun s => s = .empty

/-! ## What requests ask of the store -/

/-- A new token is issued at a reading of the clock, and is not revoked. -/
def Proper : TokenEffect → Prop
  | .issue r _ _ _ => 0 ≤ r.createdAtMs ∧ r.createdAtMs ≤ i64Max ∧ r.revokedAtMs = none
  | _ => True

/-- A request issues only the token it was made for, under its own key and hash. -/
def Asks : TokenCall → TokenEffect → Prop
  | .issue tokens actor _ request key, .issue r key' hash policy =>
    Proper (.issue r key' hash policy) ∧ r.ownerPrincipal = actor.name ∧ key' = key ∧
      hash = crates.requestHash actor.name request.normalized ∧ policy = tokens.policy
  | _, .issue .. => False
  | _, _ => True

variable {crates}

theorem Asks.proper {call : TokenCall} {op : TokenEffect} (h : Asks crates call op) :
    Proper op := by
  cases op with
  | issue =>
    cases call with
    | issue => exact h.1
    | _ => exact h.elim
  | _ => exact trivial

theorem only_ofExcept {α : Type} {P : TokenEffect → Prop} (result : TokenResult α) :
    (ofExcept result : Served α).Only P := by
  cases result <;> exact trivial

theorem only_ask {P : TokenEffect → Prop} {op : TokenEffect} (h : P op) : (ask op).Only P :=
  .lift h

theorem body_only (call : TokenCall) : (body crates call).Only (Asks crates call) := by
  cases call with
  | authenticate tokens raw =>
    refine .bind (.bind .ensure fun _ => .bind (only_ofExcept _) fun parsed => ?_) fun _ => trivial
    refine .bind (only_ask trivial) fun _ => .bind .ensure fun _ => ?_
    refine .bind (.bind (only_ask trivial) only_ofExcept) fun found => .bind .okOr fun record => ?_
    refine .bind .ensure fun _ => .bind (only_ask trivial) fun now => .bind .ensure fun _ => ?_
    refine .bind (only_ask trivial) fun seen => ?_
    split
    · exact .bind (only_ask trivial) fun _ => trivial
    · exact trivial
  | issue tokens actor primary request key =>
    refine .bind (.bind (only_ofExcept _) fun checked => ?_) fun _ => trivial
    refine .bind .ensure fun _ => .bind (only_ask trivial) fun now => .bind .okOr fun expires => ?_
    refine .bind (only_ask trivial) fun _ => .bind (only_ofExcept _) fun minted => ?_
    have hasks : Asks crates (.issue tokens actor primary request key) (.issue
        (tokens.newRecord crates actor request checked.1 checked.2 minted.1 minted.2 now.ms expires)
        key (crates.requestHash actor.name request.normalized) tokens.policy) :=
      ⟨⟨now.nonneg, now.le_max, rfl⟩, rfl, rfl, rfl, rfl⟩
    refine .bind (only_ask hasks) fun _ => .bind (only_ofExcept _) ?_
    exact fun answer => .bind (only_ask trivial) fun _ => trivial
  | revoke actor id revision =>
    refine .bind (.bind (only_ask trivial) fun now => ?_) fun _ => trivial
    exact .bind (only_ask trivial) only_ofExcept

/-- A refused issue ends its request. -/
def refusal : (op : TokenEffect) → op.Answer → Option TokenError
  | .issue .., .error e => some e
  | _, _ => none

theorem body_failsOn (call : TokenCall) :
    (body crates call).FailsOn (F := tokenEffects) refusal := by
  have hquiet : ∀ {α : Type} {op : TokenEffect} {f : op.Answer → Served α},
      (∀ a, refusal op a = none) → (∀ a, (f a).FailsOn (F := tokenEffects) refusal) →
      (ask op >>= f).FailsOn (F := tokenEffects) refusal := by
    intro α op f hop hf
    exact .after (fun a e he => nomatch (hop a).symm.trans he) hf
  cases call with
  | authenticate tokens raw =>
    refine .bind ?_ fun _ => trivial
    refine .bind .ensure fun _ => .bind .ofExcept fun parsed => ?_
    refine hquiet (fun _ => rfl) fun (permit : Bool) => ?_
    refine .bind .ensure fun _ => .bind (hquiet (fun _ => rfl) fun _ => .ofExcept) fun found => ?_
    refine .bind .okOr fun record => .bind .ensure fun _ => hquiet (fun _ => rfl) fun now => ?_
    refine .bind .ensure fun _ => hquiet (fun _ => rfl) fun seen => ?_
    split
    · exact hquiet (fun _ => rfl) fun _ => trivial
    · exact trivial
  | issue tokens actor primary request key =>
    refine .bind (.bind .ofExcept fun checked => ?_) fun _ => trivial
    refine .bind .ensure fun _ => hquiet (fun _ => rfl) fun now => ?_
    refine .bind .okOr fun expires => hquiet (fun _ => rfl) fun _ => ?_
    refine .bind .ofExcept fun minted => ?_
    refine .after (fun answer e he => ?_) fun answer => .bind .ofExcept fun _ => ?_
    · rcases answer with e' | found
      · cases he
        rfl
      · cases he
    · exact hquiet (fun _ => rfl) fun _ => trivial
  | revoke actor id revision =>
    refine .bind (hquiet (fun _ => rfl) fun now => ?_) fun _ => trivial
    exact hquiet (fun _ => rfl) fun _ => .ofExcept

/-! ## What every effect keeps -/

/-- A revocation marks the row of its token, unless the record says already that it is revoked. -/
theorem TokenStore.revoke_eq_ok {s s' : TokenStore} {actor : Actor} {id : String}
    {revision : Option Int} {now : Int} (h : s.revoke actor id revision now = .ok s') :
    ∃ row, s.tokens.find id = some row ∧
      ((row.record.revokedAtMs.isSome ∧ s' = s) ∨
        s' = ⟨s.tokens.update (fun k _ => k = id) (.revoke actor.name now), s.issues⟩) := by
  unfold TokenStore.revoke at h
  simp only [Outcome.bind_eq_ok, Outcome.ensure_eq_ok, Outcome.okOr_eq_ok, exists_const] at h
  obtain ⟨row, hrow, -, -, h⟩ := h
  refine ⟨row, hrow, ?_⟩
  split at h
  · cases h
    exact .inr rfl
  · next hopen =>
    cases h
    exact .inl ⟨Option.isSome_iff_ne_none.mpr fun hnone => hopen (by simp [TokenRow.toRecord, hnone]),
      rfl⟩

/-- A token of the tables that is revoked. -/
def TokenStore.Revoked (s : TokenStore) (id : String) : Prop :=
  ∃ row, s.tokens.find id = some row ∧ row.revokedAt.isSome

theorem TokenStore.Revoked.grows {s s' : TokenStore} {id : String} (h : s.Revoked id)
    (hgrows : s.Grows s') : s'.Revoked id := by
  obtain ⟨row, hrow, hrevoked⟩ := h
  obtain ⟨row', hrow', hkept⟩ := hgrows.tokens id row hrow
  exact ⟨row', hrow', hkept hrevoked⟩

theorem TokenStore.revoked_of_revoke {s s' : TokenStore} {actor : Actor} {id : String}
    {revision : Option Int} {now : Int} (hs : s.Sound)
    (h : s.revoke actor id revision now = .ok s') : s'.Revoked id := by
  obtain ⟨row, hrow, ⟨hrevoked, rfl⟩ | rfl⟩ := TokenStore.revoke_eq_ok h
  · exact ⟨row, hrow, by rw [(hs.mirrors id row hrow).revokedAt]; exact hrevoked⟩
  · refine ⟨row.revoke actor.name now, ?_, rfl⟩
    rw [Table.find_update, hrow, Option.map_some, if_pos (by simp)]

/-- An update of rows that keeps their columns but for the last use and a revocation. -/
structure Amends (f : TokenRow → TokenRow) : Prop where
  mirrors : ∀ {id row}, row.Mirrors id → (f row).Mirrors id
  owner : ∀ row, (f row).owner = row.owner
  createdAt : ∀ row, (f row).createdAt = row.createdAt
  revokedAt : ∀ row, row.revokedAt.isSome → (f row).revokedAt.isSome

namespace Amends

variable {f : TokenRow → TokenRow} {p : String → TokenRow → Bool} {s : TokenStore}

theorem ite (h : Amends f) (b : Bool) : Amends fun row => if b then f row else row := by
  cases b with
  | false => exact ⟨id, fun _ => rfl, fun _ => rfl, fun _ => id⟩
  | true => exact h

theorem grows (h : Amends f) : s.Grows ⟨s.tokens.update p f, s.issues⟩ := by
  refine ⟨fun id row hrow => ⟨_, ?_, (h.ite (p id row)).revokedAt row⟩, List.suffix_refl _⟩
  rw [Table.find_update, hrow, Option.map_some]

theorem sound (h : Amends f) (hs : s.Sound) :
    (⟨s.tokens.update p f, s.issues⟩ : TokenStore).Sound := by
  refine ⟨fun id row hrow => ?_, fun issue hissue => ?_, fun id row hrow => ?_, hs.keys, hs.ids,
    hs.paced, hs.pacedOf⟩
  · rw [Table.find_update] at hrow
    obtain ⟨row', hrow', rfl⟩ := Option.map_eq_some_iff.mp hrow
    exact (h.ite (p id row')).mirrors (hs.mirrors id row' hrow')
  · obtain ⟨row, hrow, howner, hcreated⟩ := hs.issued issue hissue
    refine ⟨_, by rw [Table.find_update, hrow, Option.map_some], ?_, ?_⟩
    · exact ((h.ite (p issue.tokenId row)).owner row).trans howner
    · exact ((h.ite (p issue.tokenId row)).createdAt row).trans hcreated
  · rw [Table.find_update] at hrow
    obtain ⟨row', hrow', -⟩ := Option.map_eq_some_iff.mp hrow
    exact hs.requested id row' hrow'

theorem revoke (owner : String) (now : Int) : Amends (.revoke owner now) where
  mirrors h := ⟨h.id, h.owner, h.createdAt, h.expiresAt, rfl⟩
  owner _ := rfl
  createdAt _ := rfl
  revokedAt _ _ := rfl

theorem touch (now : Int) : Amends fun row => { row with lastUsedAt := some now } where
  mirrors h := ⟨h.id, h.owner, h.createdAt, h.expiresAt, h.revokedAt⟩
  owner _ := rfl
  createdAt _ := rfl
  revokedAt _ h := h

end Amends

theorem Acts.of_get {s s' : TokenStore} {id : String} {answer : TokenResult (Option TokenRecord)}
    (h : Acts s (.get id) answer s') : s' = s ∧ ∀ found, answer = .ok found → found = s.find id := by
  cases h with
  | got => exact ⟨rfl, fun found h => (Except.ok.inj h).symm⟩
  | getFailed => exact ⟨rfl, fun found h => by cases h⟩

theorem Acts.of_clock {s s' : TokenStore} {now : Reading} (h : Acts s .clock now s') : s' = s := by
  cases h
  rfl

/-- A revocation that is answered was committed. -/
theorem Acts.of_revoke {s s' : TokenStore} {actor : Actor} {id : String} {revision : Option Int}
    {now : Int} (h : Acts s (.revoke actor id revision now) (.ok ()) s') :
    s.revoke actor id revision now = .ok s' := by
  cases h with
  | revoked hrevoked => exact hrevoked

/-- What was issued may not be heard; what was refused changed nothing. -/
theorem Acts.of_issue {s s' : TokenStore} {r : TokenRecord} {key hash : String}
    {policy : TokenPolicy} {answer : TokenResult (TokenRecord × Bool)}
    (h : Acts s (.issue r key hash policy) answer s') :
    (∃ r' created, s.issue r key hash policy = .ok (s', r', created) ∧
      (answer = .ok (r', created) ∨ answer = .error .unavailable)) ∨
    s' = s ∧ (answer = .error .unavailable ∨
      ∃ e, s.issue r key hash policy = .error e ∧ answer = .error e) := by
  cases h with
  | issued hissue => exact .inl ⟨_, _, hissue, .inl rfl⟩
  | issueUnheard hissue => exact .inl ⟨_, _, hissue, .inr rfl⟩
  | issueRefused hrefused => exact .inr ⟨rfl, .inr ⟨_, hrefused, rfl⟩⟩
  | issueFailed => exact .inr ⟨rfl, .inl rfl⟩

/-- Only a new token changes the tables. -/
theorem Acts.created {s s' : TokenStore} {r : TokenRecord} {key hash : String}
    {policy : TokenPolicy} {answer : TokenResult (TokenRecord × Bool)}
    (h : Acts s (.issue r key hash policy) answer s') (hne : s' ≠ s) :
    TokenStore.Issued s r key hash policy s' r true := by
  rcases h.of_issue with ⟨r', created, hissue, -⟩ | ⟨hsame, -⟩
  · have hissued := TokenStore.issued_of_issue hissue
    have hcases := hissued
    cases hcases with
    | replayed => exact absurd rfl hne
    | created => exact hissued
  · exact absurd hsame hne

/-- **Step law of the tables.** -/
theorem Acts.keeps {s s' : TokenStore} {op : TokenEffect} {answer : op.Answer}
    (h : Acts s op answer s') (hop : Proper op) : s.Grows s' ∧ (s.Sound → s'.Sound) := by
  have hissue : ∀ {r r' : TokenRecord} {key hash policy created},
      s.issue r key hash policy = .ok (s', r', created) → Proper (.issue r key hash policy) →
      s.Grows s' ∧ (s.Sound → s'.Sound) := by
    intro r r' key hash policy created hissued hop
    have hwhat := TokenStore.issued_of_issue hissued
    exact ⟨hwhat.grows, fun hs => hwhat.sound hs ⟨hop.1, hop.2.1⟩ hop.2.2⟩
  have hrevoke : ∀ {actor id revision now}, s.revoke actor id revision now = .ok s' →
      s.Grows s' ∧ (s.Sound → s'.Sound) := by
    intro actor id revision now hrevoked
    obtain ⟨-, -, ⟨-, rfl⟩ | rfl⟩ := TokenStore.revoke_eq_ok hrevoked
    · exact ⟨.refl _, fun hs => hs⟩
    · exact ⟨(Amends.revoke _ _).grows, (Amends.revoke _ _).sound⟩
  cases h with
  | issued hissued | issueUnheard hissued => exact hissue hissued hop
  | revoked hrevoked | revokeUnheard hrevoked => exact hrevoke hrevoked
  | touched | touchUnheard => exact ⟨(Amends.touch _).grows, (Amends.touch _).sound⟩
  | _ => exact ⟨.refl _, fun hs => hs⟩

end

/-! ## A sample -/

/-- Nobody else calls. -/
abbrev idle (w : TokenStore) : Requests := ⟨w, fun _ => none⟩

/-- The call of one caller alone. -/
abbrev lone (w : TokenStore) (call : TokenCall) (p : Served TokenAnswer) : Requests :=
  ⟨w, Function.update (fun _ => none) 0 (some (call, p))⟩

/-- A call that finds nobody else runs to its end. -/
theorem served {crates : Crates} {w : TokenStore} {call : TokenCall}
    {result : Except TokenError TokenAnswer}
    {answer : TokenStore → (op : TokenEffect) → Option (op.Answer × TokenStore)}
    (hanswer : ∀ w op a w', answer w op = some (a, w') → Acts w op a w')
    (hend : ((body crates call).play answer w).2.ended = some result) :
    ∃ middle w' p, w' = ((body crates call).play answer w).1 ∧
      Run (requests crates).Step (idle w)
        ((idle w, .begun 0 call, lone w call (body crates call)) ::
          (middle ++ [(lone w' call p, .returned 0 result, idle w')])) (idle w') := by
  have hbegun : (requests crates).Step (idle w) (.begun 0 call) (lone w call (body crates call)) :=
    .begun rfl
  have hstart : Reachable (· = lone w call (body crates call)) (requests crates).Step
      (lone w call (body crates call)) := .of_init rfl
  obtain ⟨κ, middle, rfl, hmiddle⟩ := Pool.reaches_play (R := (requests crates).Step) (i := 0)
    (fun w op a w' calls k (hop : answer w op = some (a, w')) hcall =>
      .performed hcall (hanswer w op a w' hop))
    (Function.update_self ..)
    hstart
  rw [Function.update_idem] at hmiddle
  have hidle : ∀ call : Option (TokenCall × Served TokenAnswer),
      Function.update (Function.update (fun _ => none) 0 call) 0 none = fun _ => none := by
    intro call
    rw [Function.update_idem]
    exact Function.update_eq_self 0 _
  refine ⟨middle, _, _, rfl, .cons hbegun (hmiddle.append (.single ?_))⟩
  generalize (body crates call).play answer w = played at hend ⊢
  obtain ⟨w', p⟩ := played
  cases p with
  | done a =>
    cases hend
    have hdone : (requests crates).Step (lone w' call (.done a)) (.returned 0 (.ok a)) _ :=
      .done (Function.update_self ..)
    rw [hidle] at hdone
    exact hdone
  | fail e =>
    cases hend
    have hfail : (requests crates).Step (lone w' call (.fail e)) (.returned 0 (.error e)) _ :=
      .fail (Function.update_self ..)
    rw [hidle] at hfail
    exact hfail
  | perform => cases hend

namespace Sample

/-- Texts stand for their digests, and secrets are written as they are. -/
def crates : Crates where
  sha256 bytes := bytes
  encode secret := secret ++ List.replicate 11 0x41
  decode encoded := some (encoded.take 32)
  timestamp ms := toString ms

def secret : Bytes := List.replicate 32 0x42

def tokenId : String := "0123456789abcdef0123456789abcdef"

def owner : String := "[\"oidc-v1\",\"i\",\"a\"]"

def tokens : PersonalTokens where
  policy := .default
  realm := "realm"
  grants := Table.put ∅ owner [.fleetRead, .accessTokenWrite]
  valid := by decide

def session : Actor := ⟨.oidcSession, owner, [.fleetRead, .accessTokenWrite]⟩

def request : IssueToken := ⟨"ci", ["fleet.read"], none⟩

def reading : Reading := ⟨1000, by decide, by decide⟩

/-- Every effect happens and is answered, at one instant. -/
def answer (w : TokenStore) : (op : TokenEffect) → Option (op.Answer × TokenStore)
  | .tryAcquire => some (true, w)
  | .clock => some (reading, w)
  | .mint => some (.ok (tokenId, secret), w)
  | .get id => some (.ok (w.find id), w)
  | .issue r key hash policy =>
    match w.issue r key hash policy with
    | .ok (w', r', created) => some (.ok (r', created), w')
    | .error e => some (.error e, w)
  | .revoke actor id revision now =>
    match w.revoke actor id revision now with
    | .ok w' => some (.ok (), w')
    | .error e => some (.error e, w)
  | .touch id now => some (.ok (), w.touch id now)
  | .list owner before limit => some (.ok (w.list owner before limit), w)

theorem answer_acts (w : TokenStore) (op : TokenEffect) (a : op.Answer) (w' : TokenStore)
    (h : answer w op = some (a, w')) : Acts w op a w' := by
  cases op with
  | tryAcquire => cases h; exact .tryAcquire
  | clock => cases h; exact .clock
  | mint => cases h; exact .mint
  | get => cases h; exact .got
  | touch => cases h; exact .touched
  | list => cases h; exact .listed
  | issue r key hash policy =>
    simp only [answer] at h
    split at h
    · next hissue =>
      cases h
      exact .issued hissue
    · next hissue =>
      cases h
      exact .issueRefused hissue
  | revoke actor id revision now =>
    simp only [answer] at h
    split at h
    · next hrevoke =>
      cases h
      exact .revoked hrevoke
    · next hrevoke =>
      cases h
      exact .revokeRefused hrevoke

def raw : Bytes := Crates.tokenPrefix ++ utf8 tokenId ++ 0x5f :: crates.encode secret

/-- A token is issued, and asked for again. -/
def issues : List TokenCall :=
  [.issue tokens session true request "key", .issue tokens session true request "key"]

/-- Then it is used and revoked. -/
def calls : List TokenCall :=
  issues ++ [.authenticate tokens raw, .revoke session tokenId none]

/-- The calls of a list, one after the other. -/
def serve : TokenStore → List TokenCall → TokenStore
  | w, [] => w
  | w, call :: calls => serve ((body crates call).play answer w).1 calls

/-- Every call comes to its end. -/
def ends : TokenStore → List TokenCall → Bool
  | _, [] => true
  | w, call :: calls =>
    (((body crates call).play answer w).2.ended).isSome &&
      ends ((body crates call).play answer w).1 calls

theorem serve_run {w : TokenStore} {calls : List TokenCall} (hends : ends w calls = true) :
    ∃ trace, Run (requests crates).Step (idle w) trace (idle (serve w calls)) := by
  induction calls generalizing w with
  | nil => exact ⟨[], .nil _⟩
  | cons call calls ih =>
    obtain ⟨hfirst, hrest⟩ := (Bool.and_eq_true _ _).mp hends
    obtain ⟨result, hresult⟩ := Option.isSome_iff_exists.mp hfirst
    obtain ⟨middle, w', p, rfl, hserved⟩ := served answer_acts hresult
    obtain ⟨trace, htrace⟩ := ih hrest
    exact ⟨_, hserved.append htrace⟩

def issued : TokenStore := serve .empty issues

def used : TokenStore := serve issued [.authenticate tokens raw]

def revoked : TokenStore := serve .empty calls

def bearer : Actor := ⟨.personalAccessToken tokenId, owner, [.fleetRead]⟩

theorem served_each :
    ends .empty issues = true ∧ ends .empty calls = true ∧
    ((body crates (.authenticate tokens raw)).play answer issued).2.ended =
      some (.ok (.authenticated bearer tokenId)) ∧
    ((body crates (.revoke session tokenId none)).play answer used).2.ended =
      some (.ok .revoked) ∧
    ((body crates (.authenticate tokens raw)).play answer revoked).2.ended =
      some (.error .unauthorized) ∧
    revoked.issues.length = 1 ∧
    (revoked.tokens.find tokenId).any (fun row =>
      row.lastUsedAt = some 1000 && row.revokedAt = some 1000) = true := by
  decide +kernel

theorem fresh : Fresh (idle .empty) := ⟨rfl, fun _ => rfl⟩

/-- The registry after the calls: one token of the owner, used and revoked. -/
structure Outcome where
  store : TokenStore
  reached : Reachable Fresh (requests crates).Step (idle store)
  issued : store.issues.length = 1
  revoked : (store.tokens.find tokenId).any (fun row =>
    row.lastUsedAt = some 1000 && row.revokedAt = some 1000) = true

theorem revoked_reached : Reachable Fresh (requests crates).Step (idle revoked) := by
  obtain ⟨-, hends, -⟩ := served_each
  obtain ⟨trace, htrace⟩ := serve_run hends
  exact (Reachable.of_init fresh).run htrace

def outcome : Outcome :=
  ⟨revoked, revoked_reached, served_each.2.2.2.2.2.1, served_each.2.2.2.2.2.2⟩

/-- The token is used, then revoked, and then refused. -/
theorem refused_after_revocation :
    ∃ early s p middle s' p', Run (requests crates).Step (idle .empty)
      (early ++ (lone s (.revoke session tokenId none) p, .returned 0 (.ok .revoked), idle s) ::
        ([] ++ (idle s, .begun 0 (.authenticate tokens raw),
          lone s (.authenticate tokens raw) (body crates (.authenticate tokens raw))) ::
        (middle ++ [(lone s' (.authenticate tokens raw) p', .returned 0 (.error .unauthorized),
          idle s')]))) (idle s') ∧
      ∃ step ∈ early, step.2.1 = .returned 0 (.ok (.authenticated bearer tokenId)) := by
  obtain ⟨hends, -, hused, hrevoked, hrefused, -, -⟩ := served_each
  obtain ⟨early, hissues⟩ := serve_run hends
  obtain ⟨inUse, w₁, p₁, hw₁, huse⟩ := served answer_acts hused
  obtain ⟨inRevocation, w₂, p₂, hw₂, hrevocation⟩ := served answer_acts hrevoked
  obtain ⟨inRefusal, w₃, p₃, -, hrefusal⟩ := served answer_acts hrefused
  have hused : used = w₁ := hw₁.symm
  have hrevoked : revoked = w₂ := hw₂.symm
  rw [hused] at hrevocation
  rw [hrevoked] at hrefusal
  obtain ⟨before, hbefore, husing⟩ : ∃ before,
      Run (requests crates).Step (idle .empty) before (idle w₁) ∧
        ∃ step ∈ before, step.2.1 = .returned 0 (.ok (.authenticated bearer tokenId)) :=
    ⟨_, hissues.append huse, _, List.mem_append_right _ (List.mem_cons_of_mem _
      (List.mem_append_right _ (List.mem_singleton.mpr rfl))), rfl⟩
  obtain ⟨revoking, hrevoking⟩ : ∃ revoking, Run (requests crates).Step (idle w₁)
      (revoking ++ [(lone w₂ (.revoke session tokenId none) p₂, .returned 0 (.ok .revoked),
        idle w₂)]) (idle w₂) :=
    ⟨_ :: inRevocation, hrevocation⟩
  obtain ⟨step, hmem, hreturned⟩ := husing
  refine ⟨before ++ revoking, w₂, p₂, inRefusal, w₃, p₃, ?_, step, List.mem_append_left _ hmem,
    hreturned⟩
  have hall := hbefore.append (hrevoking.append hrefusal)
  simpa only [List.append_assoc, List.cons_append, List.nil_append] using hall

end Sample

end Shaula.AccessTokens
