import Shaula.AccessTokens.Calls
import Shaula.AccessTokens.RequestHash

/-! # The authority of tokens

What a request returned follows from the answers it heard, and these from the tables at the time.  An
authentication relies on one reading of its token; a replay is answered from the issue of its key.
-/

namespace Shaula.AccessTokens

open Core Library Library.Program

/-- An answer to an effect. -/
abbrev entry (op : TokenEffect) (answer : op.Answer) : Σ op, tokenEffects.Answer op := ⟨op, answer⟩

abbrev RequestTrace := Pool.Trace tokenEffects TokenCall TokenStore TokenError TokenAnswer

abbrev RequestHeard := Pool.Heard tokenEffects TokenStore

abbrev RequestStep := Requests × RequestEvent × Requests

section

variable {crates : Crates} {tokens : PersonalTokens} {actor : Actor} {id key : String}
  {raw : Bytes} {log : List (Σ op, tokenEffects.Answer op)}

/-! ## From answers to results -/

theorem of_ask_bind {α : Type} {op : TokenEffect} {f : op.Answer → Served α} {a : α}
    (h : (ask op >>= f).Follows log (done a)) :
    ∃ answer rest, log = entry op answer :: rest ∧ (f answer).Follows rest (done a) :=
  Follows.of_lift_bind h

/-- An authentication succeeds after its token was read and found active. -/
theorem authenticate_follows
    (h : (tokens.authenticate crates raw).Follows log (done (actor, id))) :
    ∃ secret record now rest, crates.parse raw = .ok (id, secret) ∧
      log = entry .tryAcquire true :: entry (.get id) (.ok (some record)) ::
        entry .clock now :: rest ∧
      record.secretDigest = crates.digest tokens.realm id secret ∧
      tokens.active record now.ms = true ∧
      actor = ⟨.personalAccessToken id, record.ownerPrincipal, tokens.effective record⟩ := by
  unfold PersonalTokens.authenticate at h
  obtain ⟨-, hbegun⟩ := h.of_ensure_bind
  obtain ⟨⟨id', secret⟩, hparse, hparsed⟩ := hbegun.of_ofExcept_bind
  obtain ⟨(permit : Bool), _, rfl, hacquired⟩ := of_ask_bind hparsed
  obtain ⟨rfl, hadmitted⟩ := hacquired.of_ensure_bind
  obtain ⟨_, after, found, rfl, hget, hfound⟩ := hadmitted.of_bind
  obtain ⟨answer, _, rfl, hanswer⟩ := of_ask_bind hget
  obtain ⟨rfl, rfl⟩ := hanswer.of_ofExcept
  obtain ⟨record, rfl, hrecord⟩ := hfound.of_okOr_bind
  obtain ⟨hequal, hverified⟩ := hrecord.of_ensure_bind
  obtain ⟨now, _, rfl, htimed⟩ := of_ask_bind hverified
  obtain ⟨hactive, hadmitted⟩ := htimed.of_ensure_bind
  obtain ⟨seen, _, rfl, hseen⟩ := of_ask_bind hadmitted
  have hreturned : (actor, id) =
      (⟨.personalAccessToken id', record.ownerPrincipal, tokens.effective record⟩, id') := by
    split at hseen
    · obtain ⟨_, _, -, hnoted⟩ := of_ask_bind hseen
      exact hnoted.of_done.2
    · exact hseen.of_done.2
  obtain ⟨rfl, rfl⟩ := Prod.mk.inj hreturned
  exact ⟨secret, record, now, _, hparse, rfl, hequal.symm, hactive, rfl⟩

/-- An issue succeeds with what its transaction answered; a secret is shown for a new token only. -/
theorem issue_follows {primary : Bool} {request : IssueToken} {token : IssuedToken}
    (h : (tokens.issue crates actor primary request key).Follows log (done token)) :
    ∃ record hash found created, entry (.issue record key hash tokens.policy)
      (.ok (found, created)) ∈ log ∧ token.accessToken.id = found.id ∧
      (token.secret.isSome = true ↔ created = true) := by
  unfold PersonalTokens.issue at h
  obtain ⟨⟨issuer, subject⟩, -, hchecked⟩ := h.of_ofExcept_bind
  obtain ⟨-, hbounded⟩ := hchecked.of_ensure_bind
  obtain ⟨now, _, rfl, htimed⟩ := of_ask_bind hbounded
  obtain ⟨expires, -, hexpires⟩ := htimed.of_okOr_bind
  obtain ⟨minted, _, rfl, hminted⟩ := of_ask_bind hexpires
  obtain ⟨⟨id, secret⟩, -, hdrawn⟩ := hminted.of_ofExcept_bind
  obtain ⟨issued, _, rfl, hissued⟩ := of_ask_bind hdrawn
  obtain ⟨⟨found, created⟩, rfl, hfound⟩ := hissued.of_ofExcept_bind
  obtain ⟨seen, _, rfl, hseen⟩ := of_ask_bind hfound
  obtain ⟨-, rfl⟩ := hseen.of_done
  refine ⟨_, _, found, created, .tail _ (.tail _ (.head _)), rfl, ?_⟩
  cases created <;> simp

/-- A revocation succeeds when its transaction did. -/
theorem revoke_follows {revision : Option Int} {u : Unit}
    (h : (PersonalTokens.revoke actor id revision).Follows log (done u)) :
    ∃ now, entry (.revoke actor id revision now) (.ok ()) ∈ log := by
  unfold PersonalTokens.revoke at h
  obtain ⟨now, _, rfl, htimed⟩ := of_ask_bind h
  obtain ⟨answer, _, rfl, hanswer⟩ := of_ask_bind htimed
  obtain ⟨rfl, rfl⟩ := hanswer.of_ofExcept
  exact ⟨_, .tail _ (.head _)⟩

/-! ## What holds all along -/

/-- Requests ask what they may, fail when they are refused, and the tables are sound. -/
structure Guarded (crates : Crates) (κ : Requests) : Prop where
  asks : Pool.Rests (fun c p => p.Only (Asks crates c)) κ
  fails : Pool.Rests (fun _ p => p.FailsOn refusal) κ
  sound : κ.world.Sound

variable {κ κ₀ κ' : Requests} {event : RequestEvent} {trace before : RequestTrace} {i : Nat}

/-- What an effect of a request did. -/
theorem Guarded.performed {op : TokenEffect} {answer : op.Answer} (h : Guarded crates κ)
    (hstep : (requests crates).Step κ (.performed i op answer) κ') :
    ∃ c p, κ.calls i = some (c, p) ∧ Asks crates c op ∧ Acts κ.world op answer κ'.world ∧
      ∀ e, refusal op answer = some e → κ'.calls i = some (c, .fail e) := by
  cases hstep with
  | performed hcall hact =>
    refine ⟨_, _, hcall, (h.asks _ _ _ hcall).1, hact, fun e he => ?_⟩
    rw [← (h.fails _ _ _ hcall answer).1 e he]
    exact Function.update_self ..

theorem Guarded.step (h : Guarded crates κ) (hstep : (requests crates).Step κ event κ') :
    Guarded crates κ' ∧ κ.world.Grows κ'.world := by
  have hworld : κ.world.Grows κ'.world ∧ (κ.world.Sound → κ'.world.Sound) := by
    cases hstep with
    | interfered henv => exact henv.elim
    | begun | done | fail => exact ⟨.refl _, fun hs => hs⟩
    | performed hcall hact => exact hact.keeps (h.asks _ _ _ hcall).1.proper
  exact ⟨⟨Pool.only_step body_only h.asks hstep, Pool.failsOn_step body_failsOn h.fails hstep,
    hworld.2 h.sound⟩, hworld.1⟩

theorem Fresh.guarded (h : Fresh κ) : Guarded crates κ := by
  obtain ⟨hworld, hcalls⟩ := h
  have hempty : TokenStore.empty.Sound := by
    refine ⟨fun id row h => ?_, fun issue h => ?_, fun id row h => ?_, .nil, .nil, .nil,
      fun _ => .nil⟩
    · cases h
    · cases h
    · cases h
  refine ⟨fun i c p hcall => ?_, fun i c p hcall => ?_, ?_⟩
  · cases (hcalls i).symm.trans hcall
  · cases (hcalls i).symm.trans hcall
  · rw [show κ.world = TokenStore.empty from hworld]
    exact hempty

/-- Every step of a run is one from a guarded state. -/
theorem Guarded.along (h₀ : Guarded crates κ₀) (h : Run (requests crates).Step κ₀ trace κ) :
    ∀ step ∈ trace, Guarded crates step.1 ∧ (requests crates).Step step.1 step.2.1 step.2.2 :=
  h.forall_mem (Q := fun κ event κ' => Guarded crates κ ∧ (requests crates).Step κ event κ')
    (fun _ _ _ hκ hstep => (hκ.step hstep).1) (fun _ _ _ hκ hstep => ⟨hκ, hstep⟩) h₀

theorem Guarded.run (h₀ : Guarded crates κ₀) (h : Run (requests crates).Step κ₀ trace κ) :
    Guarded crates κ ∧ κ₀.world.Grows κ.world :=
  ⟨h.invariant (fun _ _ _ hκ hstep => (hκ.step hstep).1) h₀,
    h.relates (R := fun κ κ' => κ.world.Grows κ'.world) (fun κ => .refl κ.world)
      (fun _ _ _ => .trans) (fun _ _ _ hκ hstep => (hκ.step hstep).1)
      (fun _ _ _ hκ hstep => (hκ.step hstep).2) h₀⟩

/-- What is committed stays so up to any later step. -/
theorem Guarded.later (h₀ : Guarded crates κ₀) {early late : RequestTrace}
    {first second : RequestStep}
    (h : Run (requests crates).Step κ₀ (early ++ first :: late) κ) (hsecond : second ∈ late) :
    Guarded crates first.2.2 ∧ first.2.2.world.Grows second.1.world := by
  obtain ⟨κ₁, hearly, hrest⟩ := h.of_append
  obtain ⟨hκ₁, -⟩ := h₀.run hearly
  cases hrest with
  | cons hfirst hlate =>
    obtain ⟨middle, rest, rfl⟩ := List.append_of_mem hsecond
    obtain ⟨κ₂, hmiddle, hrest⟩ := hlate.of_append
    obtain ⟨hguarded, -⟩ := hκ₁.step hfirst
    obtain ⟨-, hgrows⟩ := hguarded.run hmiddle
    rw [← hrest.start_cons] at hgrows
    exact ⟨hguarded, hgrows⟩

/-- What a request heard was answered by the tables. -/
theorem Guarded.heard (h₀ : Guarded crates κ₀) (h : Run (requests crates).Step κ₀ trace κ)
    {e : RequestHeard} (he : e ∈ Pool.heard i trace) :
    e.before.Sound ∧ Acts e.before e.op e.answer e.after := by
  obtain ⟨step, hmem, hevent, hbefore, hafter⟩ := Pool.mem_heard he
  obtain ⟨hguarded, hstep⟩ := h₀.along h step hmem
  rw [hevent] at hstep
  obtain ⟨-, -, -, -, hact, -⟩ := hguarded.performed hstep
  rw [← hbefore, ← hafter]
  exact ⟨hguarded.sound, hact⟩

/-! ## Authentications -/

/-- What an authentication relies on: the row of its token in the tables it read, and the instant it
then read off the clock. -/
structure Verified (crates : Crates) (tokens : PersonalTokens) (raw : Bytes) (actor : Actor)
    (id : String) (s : TokenStore) (now : Int) (row : TokenRow) : Prop where
  found : s.tokens.find id = some row
  unrevoked : row.revokedAt = none
  unexpired : now < row.expiresAt
  realm : row.record.realm = tokens.realm
  presented : ∃ secret, crates.parse raw = .ok (id, secret) ∧
    row.record.secretDigest = crates.digest tokens.realm id secret
  owner : actor.name = row.owner
  credential : actor.authentication = .personalAccessToken id
  scopes : ∀ scope, scope ∈ actor.scopes ↔ scope.delegable = true ∧
    scope.asStr ∈ row.record.scopes ∧ scope ∈ (tokens.grants.find row.owner).getD []

theorem Verified.of_active {s : TokenStore} {row : TokenRow} {secret : Bytes} {now : Int}
    (hs : s.Sound) (hrow : s.tokens.find id = some row) (hparse : crates.parse raw = .ok (id, secret))
    (hdigest : row.toRecord.secretDigest = crates.digest tokens.realm id secret)
    (hactive : tokens.active row.toRecord now = true) :
    Verified crates tokens raw ⟨.personalAccessToken id, row.toRecord.ownerPrincipal,
      tokens.effective row.toRecord⟩ id s now row := by
  obtain ⟨-, howner, -, hexpires, hrevoked⟩ := hs.mirrors id row hrow
  simp only [PersonalTokens.active, Bool.and_eq_true, decide_eq_true_eq,
    Option.isNone_iff_eq_none] at hactive
  obtain ⟨⟨⟨⟨⟨-, hrealm⟩, hopen⟩, hlive⟩, -⟩, -⟩ := hactive
  refine ⟨hrow, hrevoked.trans hopen, hexpires ▸ hlive, hrealm, ⟨secret, hparse, hdigest⟩,
    howner.symm, rfl, fun scope => ?_⟩
  simp only [PersonalTokens.effective, List.mem_filter, Bool.and_eq_true, List.any_eq_true,
    decide_eq_true_eq, exists_eq_right]
  rw [howner]
  constructor
  · rintro ⟨hgranted, hdelegable, hcarried⟩
    exact ⟨hdelegable, hcarried, hgranted⟩
  · rintro ⟨hdelegable, hcarried, hgranted⟩
    exact ⟨hgranted, hdelegable, hcarried⟩

/-- The call that returned an authentication, with the reading and the instant it relied on. -/
theorem authenticated_verified (hfresh : Fresh κ₀)
    (h : Run (requests crates).Step κ₀ before κ)
    (hstep : (requests crates).Step κ (.returned i (.ok (.authenticated actor id))) κ') :
    ∃ tokens raw p, κ.calls i = some (.authenticate tokens raw, p) ∧
      ∃ s result t now row, [(⟨s, .get id, result, s⟩ : RequestHeard), ⟨t, .clock, now, t⟩].Sublist
          (Pool.heard i before) ∧ Verified crates tokens raw actor id s (Reading.ms now) row := by
  cases hstep with
  | @done w calls _ c _ hcall =>
    have hfollows := Pool.follows_heard hfresh h i _ _ hcall
    cases c with
    | issue | revoke =>
      obtain ⟨_, _, _, -, -, hend⟩ := hfollows.of_bind
      cases hend.of_done.2
    | authenticate tokens raw =>
      refine ⟨tokens, raw, _, hcall, ?_⟩
      obtain ⟨log, rest, ⟨actor', id'⟩, hlog, hauth, hend⟩ := hfollows.of_bind
      obtain ⟨rfl, hsame⟩ := hend.of_done
      cases hsame
      obtain ⟨secret, record, now, rest, hparse, rfl, hdigest, hactive, rfl⟩ :=
        authenticate_follows hauth
      have hentries : (Pool.heard i before).map Pool.Heard.entry = _ :=
        hlog.trans (List.append_nil _)
      obtain ⟨acquired, heard₁, hheard, -, hentries⟩ := List.map_eq_cons_iff.mp hentries
      obtain ⟨⟨s, _, _, s'⟩, heard₂, rfl, hread, hentries⟩ := List.map_eq_cons_iff.mp hentries
      obtain ⟨⟨t, _, _, t'⟩, heard₃, rfl, htimed, -⟩ := List.map_eq_cons_iff.mp hentries
      cases hread
      cases htimed
      have hacts : ∀ e ∈ Pool.heard i before, e.before.Sound ∧
          Acts e.before e.op e.answer e.after := fun e he => hfresh.guarded.heard h he
      rw [hheard] at hacts ⊢
      obtain ⟨hs, hgot⟩ := hacts _ (.tail _ (.head _))
      obtain ⟨-, hclock⟩ := hacts _ (.tail _ (.tail _ (.head _)))
      obtain ⟨hsame, hfound⟩ : s' = s ∧ ∀ found, Except.ok (some record) = Except.ok found →
          found = s.find id := Acts.of_get hgot
      have hsame' : t' = t := Acts.of_clock hclock
      subst hsame hsame'
      obtain ⟨row, hrow, rfl⟩ := TokenStore.find_eq_some.mp (hfound _ rfl).symm
      exact ⟨_, _, _, _, row, .cons _ (.cons_cons _ (.cons_cons _ (List.nil_sublist _))),
        .of_active hs hrow hparse hdigest hactive⟩

/-- Every authentication relied on a row of its token that was then neither revoked nor expired. -/
def AuthenticatesActive (crates : Crates) (trace : RequestTrace) : Prop :=
  ∀ before step after i actor id, trace = before ++ step :: after →
    step.2.1 = .returned i (.ok (.authenticated actor id)) →
    ∃ tokens raw p, step.1.calls i = some (.authenticate tokens raw, p) ∧
      ∃ s result t now row, [(⟨s, .get id, result, s⟩ : RequestHeard), ⟨t, .clock, now, t⟩].Sublist
          (Pool.heard i before) ∧ Verified crates tokens raw actor id s (Reading.ms now) row

/-- At this step a revocation of the token is answered, to its request or by it. -/
def Revokes (id : String) (step : RequestStep) : Prop :=
  ∃ j actor revision,
    (∃ now, step.2.1 = .performed j (.revoke actor id revision now) (.ok ())) ∨
    ∃ p, step.1.calls j = some (.revoke actor id revision, p) ∧
      step.2.1 = .returned j (.ok .revoked)

/-- A request that begins after a revocation was answered authenticates nobody by that token. -/
def RevokedStaysOut (trace : RequestTrace) : Prop :=
  ∀ early revoking middle beginning late id i c,
    trace = early ++ revoking :: (middle ++ beginning :: late) → Revokes id revoking →
    beginning.2.1 = .begun i c →
    ∀ step ∈ late, ∀ actor, step.2.1 ≠ .returned i (.ok (.authenticated actor id))

theorem Guarded.revoked {step : RequestStep} {j : Nat} {revision : Option Int} {now : Int}
    (hguarded : Guarded crates step.1) (hstep : (requests crates).Step step.1 step.2.1 step.2.2)
    (hevent : step.2.1 = .performed j (.revoke actor id revision now) (.ok ())) :
    step.2.2.world.Revoked id := by
  rw [hevent] at hstep
  obtain ⟨-, -, -, -, hact, -⟩ := hguarded.performed hstep
  exact TokenStore.revoked_of_revoke hguarded.sound (Acts.of_revoke hact)

/-- Once its revocation is answered, the token is revoked in the tables. -/
theorem Revokes.revoked {step : RequestStep} (h : Revokes id step) (hfresh : Fresh κ₀)
    (hbefore : Run (requests crates).Step κ₀ before step.1)
    (hstep : (requests crates).Step step.1 step.2.1 step.2.2) :
    step.2.2.world.Revoked id := by
  obtain ⟨hguarded, -⟩ := hfresh.guarded.run hbefore
  obtain ⟨j, actor, revision, ⟨now, hevent⟩ | ⟨p, hcall, hevent⟩⟩ := h
  · exact hguarded.revoked hstep hevent
  · obtain ⟨κ₁, event, κ₂⟩ := step
    cases hevent
    have hgrows := (hguarded.step hstep).2
    cases hstep with
    | @done w calls _ c _ hdone =>
      cases hcall.symm.trans hdone
      obtain ⟨log, rest, u, hlog, hrevoke, hend⟩ :=
        (Pool.follows_heard hfresh hbefore j _ _ hdone).of_bind
      obtain ⟨now, hmem⟩ := revoke_follows hrevoke
      -- Its transaction was an earlier step, and what was committed then stays so.
      have hheard : entry _ _ ∈ (Pool.heard j before).map Pool.Heard.entry :=
        hlog ▸ List.mem_append_left _ hmem
      obtain ⟨heard, hheard, hentry⟩ := List.mem_map.mp hheard
      obtain ⟨performed, hperformed, hevent, -, -⟩ := Pool.mem_heard hheard
      obtain ⟨_, op, answer, _⟩ := heard
      cases hentry
      obtain ⟨hguarded', hstep'⟩ := hfresh.guarded.along hbefore performed hperformed
      have hrevoked := hguarded'.revoked hstep' hevent
      obtain ⟨first, second, rfl⟩ := List.append_of_mem hperformed
      obtain ⟨κ, hfirst, hrest⟩ := hbefore.of_append
      cases hrest with
      | cons hperform hsecond =>
        obtain ⟨-, hlater⟩ := ((hfresh.guarded.run hfirst).1.step hperform).1.run hsecond
        exact (hrevoked.grows hlater).grows hgrows

/-- **Authority.**  Whatever requests run at once, authentications hold the authority of their tokens
at one moment, and revocations are final. -/
theorem authentications_hold_authority (hfresh : Fresh κ₀)
    (h : Run (requests crates).Step κ₀ trace κ) :
    AuthenticatesActive crates trace ∧ RevokedStaysOut trace := by
  have hstep : ∀ {before : RequestTrace} {step after}, trace = before ++ step :: after →
      Run (requests crates).Step κ₀ before step.1 ∧
        (requests crates).Step step.1 step.2.1 step.2.2 := by
    rintro before step after rfl
    obtain ⟨κ₁, hbefore, hrest⟩ := h.of_append
    rw [hrest.start_cons]
    cases hrest with
    | cons hstep _ => exact ⟨hbefore, hstep⟩
  constructor
  · intro before step after i actor id htrace hreturned
    obtain ⟨hbefore, hlast⟩ := hstep htrace
    rw [hreturned] at hlast
    exact authenticated_verified hfresh hbefore hlast
  · intro early revoking middle beginning late id i c htrace hrevokes hbegun step hmem actor
      hreturned
    obtain ⟨between, rest, rfl⟩ := List.append_of_mem hmem
    obtain ⟨hearly, hrevoking⟩ := hstep htrace
    have hrevoked := hrevokes.revoked hfresh hearly hrevoking
    have hsplit : trace = (early ++ revoking :: (middle ++ beginning :: between)) ++
        step :: rest := by
      rw [htrace]
      simp
    obtain ⟨hbefore, hlast⟩ := hstep hsplit
    rw [hreturned] at hlast
    obtain ⟨tokens, raw, p, -, s, result, t, now, row', hheard, hverified⟩ :=
      authenticated_verified hfresh hbefore hlast
    obtain ⟨κ₁, event, κ₂⟩ := beginning
    cases hbegun
    have hassoc : early ++ revoking :: (middle ++ (κ₁, .begun i c, κ₂) :: between) =
        (early ++ revoking :: middle) ++ (κ₁, .begun i c, κ₂) :: between := by simp
    rw [hassoc, Pool.heard_begun] at hheard
    -- The token was read after the request began.
    obtain ⟨read, hread, -, hworld, -⟩ := Pool.mem_heard (hheard.subset List.mem_cons_self)
    obtain ⟨-, hgrows⟩ := hfresh.guarded.later hbefore
      (List.mem_append_right _ (List.mem_cons_of_mem _ hread))
    obtain ⟨row, hrow, hclosed⟩ := hrevoked.grows hgrows
    rw [hworld] at hrow
    cases hrow.symm.trans hverified.found
    rw [hverified.unrevoked] at hclosed
    cases hclosed

/-- A token is used, then revoked, and then refused. -/
theorem authentications_hold_authority_sample :
    ∃ κ₀ early revoking middle beginning late κ,
      Run (requests Sample.crates).Step κ₀
        (early ++ revoking :: (middle ++ beginning :: late)) κ ∧
      (∃ step ∈ early, step.2.1 =
        .returned 0 (.ok (.authenticated Sample.bearer Sample.tokenId))) ∧
      Revokes Sample.tokenId revoking ∧
      beginning.2.1 = .begun 0 (.authenticate Sample.tokens Sample.raw) ∧
      (∃ step ∈ late, step.2.1 = .returned 0 (.error .unauthorized)) ∧
      AuthenticatesActive Sample.crates (early ++ revoking :: (middle ++ beginning :: late)) ∧
      RevokedStaysOut (early ++ revoking :: (middle ++ beginning :: late)) := by
  obtain ⟨early, s, p, middle, s', p', hrun, hused⟩ := Sample.refused_after_revocation
  have hcall : (lone s (.revoke Sample.session Sample.tokenId none) p).calls 0 =
      some (.revoke Sample.session Sample.tokenId none, p) := rfl
  have hrevokes : Revokes Sample.tokenId (lone s (.revoke Sample.session Sample.tokenId none) p,
      .returned 0 (.ok .revoked), idle s) :=
    ⟨0, _, _, .inr ⟨p, hcall, rfl⟩⟩
  exact ⟨_, early, _, [], _, _, _, hrun, hused, hrevokes, rfl,
    ⟨_, List.mem_append_right _ (List.mem_singleton.mpr rfl), rfl⟩,
    authentications_hold_authority Sample.fresh hrun⟩

/-! ## Issues -/

/-- At this step caller `i` commits the issue it was called for. -/
structure Issuing (step : RequestStep) (i : Nat) (tokens : PersonalTokens) (actor : Actor)
    (request : IssueToken) (key : String) (record : TokenRecord)
    (answer : TokenResult (TokenRecord × Bool)) : Prop where
  call : ∃ primary p, step.1.calls i = some (.issue tokens actor primary request key, p)
  event : ∃ key' hash policy, step.2.1 = .performed i (.issue record key' hash policy) answer

theorem Issuing.acts {step : RequestStep} {request : IssueToken} {record : TokenRecord}
    {answer : TokenResult (TokenRecord × Bool)}
    (h : Issuing step i tokens actor request key record answer) (hguarded : Guarded crates step.1)
    (hstep : (requests crates).Step step.1 step.2.1 step.2.2) :
    record.ownerPrincipal = actor.name ∧
      Acts step.1.world (.issue record key (crates.requestHash actor.name request.normalized)
        tokens.policy) answer step.2.2.world ∧
      ∀ e, answer = .error e → ∃ c, step.2.2.calls i = some (c, .fail e) := by
  obtain ⟨⟨primary, p, hcall⟩, key', hash, policy, hevent⟩ := h
  rw [hevent] at hstep
  obtain ⟨c, p', hcall', hasks, hact, hfails⟩ := hguarded.performed hstep
  cases hcall.symm.trans hcall'
  obtain ⟨-, howner, rfl, rfl, rfl⟩ := hasks
  refine ⟨howner, hact, fun e he => ⟨_, hfails e ?_⟩⟩
  rw [he]
  rfl

/-- After a request created a token, a later request of its owner under its key changes nothing: it is
answered with the same token, if it asks for the same, or is in conflict and fails so. -/
def IssuesOnce (crates : Crates) (trace : RequestTrace) : Prop :=
  ∀ early first late second i j tokens tokens' actor actor' request request' key record record'
    answer answer', trace = early ++ first :: late → second ∈ late →
    Issuing first i tokens actor request key record answer →
    Issuing second j tokens' actor' request' key record' answer' →
    first.2.2.world ≠ first.1.world → actor'.name = actor.name →
    second.2.2.world = second.1.world ∧
      (∀ e, answer' = .error e → ∃ c, second.2.2.calls j = some (c, .fail e)) ∧
      (answer' = .error .unavailable ∨
        ((∃ existing, existing.id = record.id ∧ answer' = .ok (existing, false)) ∧
          (Function.Injective crates.sha256 → request'.normalized = request.normalized)) ∨
        (answer' = .error .conflict ∧ request'.normalized ≠ request.normalized))

/-- A request returns the token its transaction answered, and a secret only if it was created. -/
def ShowsSecretOnce (trace : RequestTrace) : Prop :=
  ∀ before step after i token, trace = before ++ step :: after →
    step.2.1 = .returned i (.ok (.issued token)) →
    ∃ e ∈ Pool.heard i before, ∃ (record found : TokenRecord) (key hash : String)
      (policy : TokenPolicy) (created : Bool),
      e.entry = entry (.issue record key hash policy) (.ok (found, created)) ∧
      token.accessToken.id = found.id ∧ (token.secret.isSome = true ↔ created = true)

/-- **One issue per key.** -/
theorem key_issues_once (hfresh : Fresh κ₀) (h : Run (requests crates).Step κ₀ trace κ) :
    IssuesOnce crates trace ∧ ShowsSecretOnce trace := by
  constructor
  · rintro early first late second i j tokens tokens' actor actor' request request' key record
      record' answer answer' rfl hlater hfirst hsecond hne hname
    obtain ⟨hguarded, hstep⟩ := hfresh.guarded.along h first (by simp)
    obtain ⟨howner, hact, -⟩ := hfirst.acts hguarded hstep
    obtain ⟨-, hgrows⟩ := hfresh.guarded.later h hlater
    obtain ⟨hguarded', hstep'⟩ :=
      hfresh.guarded.along h second (List.mem_append_right _ (List.mem_cons_of_mem _ hlater))
    obtain ⟨howner', hact', hfails⟩ := hsecond.acts hguarded' hstep'
    have hmem := hgrows.issues.subset (hact.created hne).mem
    have howners : record.ownerPrincipal = record'.ownerPrincipal := by
      rw [howner, howner', hname]
    obtain ⟨existing, -, hid, hissue⟩ :=
      hguarded'.sound.issue_of_used (r := record') hmem howners rfl
        (crates.requestHash actor'.name request'.normalized) tokens'.policy
    simp only at hid hissue
    rw [hname] at hissue hact'
    by_cases hhash : crates.requestHash actor.name request.normalized =
        crates.requestHash actor.name request'.normalized
    · rw [if_pos hhash] at hissue
      rcases hact'.of_issue with ⟨r', created, hok, hanswer⟩ | ⟨hworld, hanswer⟩
      · obtain ⟨hworld, hpair⟩ := Prod.mk.inj (Except.ok.inj (hissue.symm.trans hok))
        obtain ⟨rfl, rfl⟩ := Prod.mk.inj hpair
        refine ⟨hworld.symm, hfails, ?_⟩
        rcases hanswer with rfl | rfl
        · exact .inr (.inl ⟨⟨existing, hid, rfl⟩, fun hsha => (Crates.requestHash_inj hsha hhash).symm⟩)
        · exact .inl rfl
      · refine ⟨hworld, hfails, .inl ?_⟩
        rcases hanswer with rfl | ⟨e, hrefused, -⟩
        · rfl
        · cases hissue.symm.trans hrefused
    · rw [if_neg hhash] at hissue
      rcases hact'.of_issue with ⟨r', created, hok, -⟩ | ⟨hworld, hanswer⟩
      · cases hissue.symm.trans hok
      · refine ⟨hworld, hfails, ?_⟩
        rcases hanswer with rfl | ⟨e, hrefused, rfl⟩
        · exact .inl rfl
        · cases hissue.symm.trans hrefused
          exact .inr (.inr ⟨rfl, fun hsame => hhash (by rw [hsame])⟩)
  · rintro before step after i token rfl hreturned
    obtain ⟨κ₁, hbefore, hrest⟩ := h.of_append
    cases hrest with
    | cons hlast _ =>
      change _ = _ at hreturned
      subst hreturned
      cases hlast with
      | @done w calls _ c _ hcall =>
        have hfollows := Pool.follows_heard hfresh hbefore i _ _ hcall
        cases c with
        | authenticate =>
          obtain ⟨_, _, ⟨_, _⟩, -, -, hend⟩ := hfollows.of_bind
          cases hend.of_done.2
        | revoke =>
          obtain ⟨_, _, _, -, -, hend⟩ := hfollows.of_bind
          cases hend.of_done.2
        | issue tokens actor primary request key =>
          obtain ⟨log, rest, token', hlog, hissued, hend⟩ := hfollows.of_bind
          obtain ⟨rfl, hsame⟩ := hend.of_done
          cases hsame
          obtain ⟨record, hash, found, created, hmem, hid, hsecret⟩ := issue_follows hissued
          have hheard : entry _ _ ∈ (Pool.heard i before).map Pool.Heard.entry :=
            hlog ▸ List.mem_append_left _ hmem
          obtain ⟨e, he, hentry⟩ := List.mem_map.mp hheard
          exact ⟨e, he, record, found, key, hash, _, created, hentry, hid, hsecret⟩

/-- A request that is sent twice. -/
theorem key_issues_once_sample :
    ∃ κ₀ trace κ, Run (requests Sample.crates).Step κ₀ trace κ ∧ κ.world.issues.length = 1 ∧
      IssuesOnce Sample.crates trace ∧ ShowsSecretOnce trace := by
  obtain ⟨store, ⟨κ₀, trace, hfresh, hrun⟩, hissued, -⟩ := Sample.outcome
  exact ⟨κ₀, trace, _, hrun, hissued, key_issues_once hfresh hrun⟩

/-- An issue that creates a token leaves the registry and its owner within the limits it was admitted
under. -/
def IssuesWithin (trace : RequestTrace) : Prop :=
  ∀ step ∈ trace, ∀ i tokens actor request key record answer,
    Issuing step i tokens actor request key record answer → step.2.2.world ≠ step.1.world →
    step.2.2.world.live record.createdAtMs ≤ tokens.policy.maxActiveTotal ∧
      step.2.2.world.liveOf actor.name record.createdAtMs ≤ tokens.policy.maxActivePerPrincipal

/-- Every token is one issue of its owner, and no minute of creation times holds more than a hundred
issues or five of one owner. -/
def TokenStore.IssuesPaced (s : TokenStore) : Prop :=
  (∀ id row, s.tokens.find id = some row → ∃ issue ∈ s.issues,
    issue.tokenId = id ∧ issue.owner = row.owner ∧ issue.createdAt = row.createdAt) ∧
  (s.issues.map IssueRow.tokenId).Nodup ∧
  ∀ start, (s.issues.map IssueRow.createdAt).countP
      (fun t => start ≤ t ∧ t < start + 60000) ≤ 100 ∧
    ∀ owner, ((s.issues.filter fun issue => issue.owner = owner).map
      IssueRow.createdAt).countP (fun t => start ≤ t ∧ t < start + 60000) ≤ 5

/-- **Limits.** -/
theorem issues_within_limits (hfresh : Fresh κ₀) (h : Run (requests crates).Step κ₀ trace κ) :
    IssuesWithin trace ∧ κ.world.IssuesPaced := by
  obtain ⟨⟨-, -, hsound⟩, -⟩ := hfresh.guarded.run h
  refine ⟨?_, ?_, hsound.ids, fun start => ⟨hsound.paced.countP_window_le start, fun owner =>
    (hsound.pacedOf owner).countP_window_le start⟩⟩
  · intro step hmem i tokens actor request key record answer hissuing hne
    obtain ⟨hguarded, hstep⟩ := hfresh.guarded.along h step hmem
    obtain ⟨howner, hact, -⟩ := hissuing.acts hguarded hstep
    rw [← howner]
    exact (hact.created hne).within
  · intro id row hrow
    obtain ⟨issue, hissue, rfl⟩ := hsound.requested id row hrow
    obtain ⟨row', hrow', howner, hcreated⟩ := hsound.issued issue hissue
    cases hrow'.symm.trans hrow
    exact ⟨issue, hissue, rfl, howner.symm, hcreated.symm⟩

/-- One token of the two requests. -/
theorem issues_within_limits_sample :
    ∃ κ₀ trace κ, Run (requests Sample.crates).Step κ₀ trace κ ∧ κ.world.issues.length = 1 ∧
      IssuesWithin trace ∧ κ.world.IssuesPaced := by
  obtain ⟨store, ⟨κ₀, trace, hfresh, hrun⟩, hissued, -⟩ := Sample.outcome
  exact ⟨κ₀, trace, _, hrun, hissued, issues_within_limits hfresh hrun⟩

end

end Shaula.AccessTokens
