import Shaula.Registry.Observed

/-! # Acknowledging an auth context

The transaction that advances the observed side of a fleet's handoff and auth context, under the
fence, the reference and the desired context its caller captured.
-/

namespace Shaula

open Library Library.Outcome

namespace Registry

/-- The registry with the contexts that were ever observed. -/
structure AuthStore extends ControlPlane where
  contextHistory : Table (String × String × Int) ResolvedAuthContext

/-- What an attempt captured before it went to the network. -/
structure AuthHandoffExpectation where
  mutationFence : Int
  desiredContext : Option ResolvedAuthContext
  deriving DecidableEq, Repr

inductive FleetContextAck where
  | acknowledged
  | stale
  | identityDrift
  deriving DecidableEq, Repr

/-- How a transaction that writes nothing ends. -/
inductive AckRefusal where
  | stale
  | identityDrift
  | failed (error : StoreError)
  deriving DecidableEq

namespace ResolvedAuthContext

/-- The same numeric identity. -/
structure SamePins (c d : ResolvedAuthContext) : Prop where
  account : d.accountId = c.accountId
  organization : d.organizationId = c.organizationId
  repository : d.repositoryId = c.repositoryId
  repositoryOwner : d.repositoryOwnerId = c.repositoryOwnerId

variable {c d e : ResolvedAuthContext}

theorem SamePins.refl (c : ResolvedAuthContext) : SamePins c c :=
  ⟨rfl, rfl, rfl, rfl⟩

theorem SamePins.symm (h : SamePins c d) : SamePins d c :=
  ⟨h.account.symm, h.organization.symm, h.repository.symm, h.repositoryOwner.symm⟩

theorem SamePins.trans (h : SamePins c d) (h' : SamePins d e) : SamePins c e :=
  ⟨h'.account.trans h.account, h'.organization.trans h.organization,
    h'.repository.trans h.repository, h'.repositoryOwner.trans h.repositoryOwner⟩

/-- Between complete identities of one target nothing is absent, so agreement is equality. -/
theorem samePins_of_agree (hc : c.hasCompleteIdentity = true) (hd : d.hasCompleteIdentity = true)
    (htarget : c.target = d.target) (hagree : c.authContextPinsAgree d = true) : SamePins c d := by
  simp only [authContextPinsAgree, Bool.and_eq_true, decide_eq_true_eq] at hagree
  obtain ⟨⟨⟨⟨⟨-, hrepository⟩, -⟩, haccount⟩, -⟩, -⟩ := hagree
  unfold hasCompleteIdentity at hc hd
  rw [← htarget] at hd
  split at hc
  · cases hc
  · split at hd
    · cases hd
    · cases hkind : c.target with
      | organization owner =>
        simp only [hkind, decide_eq_true_eq] at hc hd
        obtain ⟨-, hc, hcr, hco⟩ := hc
        obtain ⟨-, hd, hdr, hdo⟩ := hd
        exact ⟨haccount.symm, by rw [hc, hd, haccount], by rw [hcr, hdr], by rw [hco, hdo]⟩
      | repository owner name =>
        simp only [hkind, decide_eq_true_eq] at hc hd
        obtain ⟨hcr, hco, hc⟩ := hc
        obtain ⟨hdr, hdo, hd⟩ := hd
        refine ⟨haccount.symm, by rw [hc, hd], ?_, by rw [hco, hdo, haccount]⟩
        cases hpinned : c.repositoryId with
        | none => simp [hpinned] at hcr
        | some id =>
          cases hverified : d.repositoryId with
          | none => simp [hverified] at hdr
          | some id' =>
            simp only [hpinned, hverified, idMatches, decide_eq_true_eq] at hrepository
            rw [hrepository]

end ResolvedAuthContext

namespace AuthStore

variable (s : AuthStore)

/-! ## The retained contexts -/

/-- `auth_execution_context_tx`. -/
def executionContext (fleet key : String) (revision : Int) :
    StoreResult (Option ResolvedAuthContext) :=
  match s.contextHistory.find (fleet, key, revision) with
  | none => .ok none
  | some context => do
    ensure (context.profileKey = key ∧ context.revision = revision ∧ context.hasCompleteIdentity)
      (.corrupt "retained auth context does not match its reference")
    return some context

/-- `auth_archive_context_tx`. -/
def archiveContext (fleet : String) (context : ResolvedAuthContext) : StoreResult AuthStore := do
  let previous ← s.executionContext fleet context.profileKey context.revision
  ensure (∀ old, previous = some old → old = context)
    (.corrupt "attempt to replace retained execution context")
  return { s with
    contextHistory :=
      s.contextHistory.createIfAbsent (fleet, context.profileKey, context.revision) context }

/-! ## The acknowledgement -/

/-- The observed side has to be intact before anything replaces it. -/
def observedCheck (handoff : HandoffRow) (row : ContextRow) (observed : ResolvedAuthContext) :
    StoreResult Unit := do
  ensure (row.observedProfileKey = some observed.profileKey ∧
      row.observedRevision = some observed.revision ∧ observed.hasCompleteIdentity)
    (.corrupt "observed context reference or identity mismatched")
  let key ← okOr handoff.observedProfileKey
    (.corrupt "context exists without observed handoff reference")
  let revision ← okOr handoff.observedRevision
    (.corrupt "context exists without observed handoff reference")
  let auth ← okOr (s.authRevisions.find (key, revision)) (.corrupt "observed auth revision missing")
  ensure (auth.isGithubAppV2 = true) (.policyDenied "UnsupportedAuthFormat")
  ensure (key = observed.profileKey ∧ revision = observed.revision)
    (.corrupt "handoff observed reference disagrees with context")

/-- The check phase: every precondition is validated before any write. -/
def acknowledgeCheck (fleet profileKey : String) (revision : Int)
    (context : Option ResolvedAuthContext) (expectation : AuthHandoffExpectation) :
    Except AckRefusal (HandoffRow × ContextRow × ResolvedAuthContext) := do
  let handoff ← okOr (s.handoffs.find fleet)
    (.failed (.corrupt ("handoff " ++ fleet ++ " missing")))
  ensure (handoff.desiredProfileKey = profileKey ∧ handoff.desiredRevision = revision)
    .stale
  let currentFence := (s.fleets.find fleet).map (·.mutationFence)
  ensure (some expectation.mutationFence = currentFence) .stale
  let auth ← okOr (s.authRevisions.find (profileKey, revision)) .stale
  ensure (auth.isGithubAppV2 = true) (.failed (.policyDenied "UnsupportedAuthFormat"))
  let new ← okOr context .stale
  let row ← okOr (s.contexts.find fleet) .stale
  ensure (row.desiredProfileKey = some profileKey ∧ row.desiredRevision = some revision ∧
    row.desiredContext = expectation.desiredContext) .stale
  -- The fence captured with the desired intent has to be the current one too.
  let captured ← okOr row.desiredFence .stale
  ensure (some captured = currentFence) .stale
  let desired ← okOr row.desiredContext .stale
  ensure (new.completes desired = true) .identityDrift
  match row.observedContext with
  | none => return (handoff, row, new)
  | some observed => do
    (s.observedCheck handoff row observed).mapError .failed
    ensure (observed.target = new.target → observed.authContextPinsAgree new = true)
      .identityDrift
    return (handoff, row, new)

/-- Retain what was observed so far. -/
def archiveObserved (fleet : String) (row : ContextRow) : StoreResult AuthStore :=
  match row.observedContext with
  | none => .ok s
  | some observed => s.archiveContext fleet observed

/-- The write phase. -/
def acknowledgeWrite (fleet profileKey : String) (revision : Int) (handoff : HandoffRow)
    (row : ContextRow) (new : ResolvedAuthContext) : StoreResult AuthStore := do
  let retained ← s.archiveContext fleet new
  let archived ← retained.archiveObserved fleet row
  return { archived with
    handoffs := archived.handoffs.put fleet { handoff with
      observedProfileKey := some profileKey
      observedRevision := some revision
      state := .observed }
    contexts := archived.contexts.put fleet { row with
      observedProfileKey := some profileKey
      observedRevision := some revision
      observedContext := some new
      state := .observed } }

/-- `handoff_acknowledge`. -/
def handoffAcknowledge (fleet profileKey : String) (revision : Int)
    (context : Option ResolvedAuthContext) (expectation : AuthHandoffExpectation) :
    StoreResult (AuthStore × FleetContextAck) :=
  match s.acknowledgeCheck fleet profileKey revision context expectation with
  | .error .stale => .ok (s, .stale)
  | .error .identityDrift => .ok (s, .identityDrift)
  | .error (.failed e) => .error e
  | .ok (handoff, row, new) => do
    let written ← s.acknowledgeWrite fleet profileKey revision handoff row new
    return (written, .acknowledged)

/-- `handoff_mark_blocked`: one conditional write under the captured authority, with the number of
rows it affected being one. -/
def handoffMarkBlocked (fleet : String) (authority : String × Int)
    (expectation : AuthHandoffExpectation) : AuthStore × Bool :=
  match s.handoffs.find fleet with
  | none => (s, false)
  | some row =>
    if row.desiredProfileKey = authority.1 ∧ row.desiredRevision = authority.2 ∧
        (s.fleets.find fleet).any (·.mutationFence = expectation.mutationFence) ∧
        (s.contexts.find fleet).bind (·.desiredContext) = expectation.desiredContext then
      ({ s with handoffs := s.handoffs.put fleet { row with state := .blocked } }, true)
    else (s, false)

/-! ## What an acknowledgement does -/

/-- What was captured is still what the store holds. -/
structure IsCurrent (fleet : String) (authority : String × Int)
    (expectation : AuthHandoffExpectation) : Prop where
  fence : (s.fleets.find fleet).map (·.mutationFence) = some expectation.mutationFence
  desired : (s.handoffs.find fleet).map (fun row => (row.desiredProfileKey, row.desiredRevision)) =
    some authority
  context : ∃ row, s.contexts.find fleet = some row ∧ row.desiredProfileKey = some authority.1 ∧
    row.desiredRevision = some authority.2 ∧ row.desiredFence = some expectation.mutationFence ∧
    row.desiredContext = expectation.desiredContext

variable {s} {t : AuthStore} {fleet profileKey : String} {revision : Int}
  {context : Option ResolvedAuthContext} {expectation : AuthHandoffExpectation}

/-- What passed the check phase. -/
structure Checked (s : AuthStore) (fleet profileKey : String) (revision : Int)
    (context : Option ResolvedAuthContext) (expectation : AuthHandoffExpectation)
    (row : ContextRow) (new : ResolvedAuthContext) : Prop where
  given : context = some new
  found : s.contexts.find fleet = some row
  current : s.IsCurrent fleet (profileKey, revision) expectation
  complete : new.hasCompleteIdentity = true
  observedComplete : ∀ observed, row.observedContext = some observed →
    observed.hasCompleteIdentity = true
  agrees : ∀ observed, row.observedContext = some observed → observed.target = new.target →
    observed.authContextPinsAgree new = true

theorem acknowledgeCheck_ok {handoff : HandoffRow} {row : ContextRow} {new : ResolvedAuthContext}
    (h : s.acknowledgeCheck fleet profileKey revision context expectation =
      .ok (handoff, row, new)) :
    Checked s fleet profileKey revision context expectation row new := by
  simp only [acknowledgeCheck, bind_eq_ok, okOr_eq_ok, ensure_eq_ok, exists_and_left,
    exists_const] at h
  obtain ⟨handoff', hhandoff, ⟨hkey, hrevision⟩, hfence, auth, -, -, new', hgiven, row', hrow,
    ⟨hdesiredKey, hdesiredRevision, hintent⟩, captured, hcaptured, hsame, desired, hdesired,
    hcompletes, h⟩ := h
  have hcomplete : new'.hasCompleteIdentity = true := by
    simp only [ResolvedAuthContext.completes, Bool.and_eq_true] at hcompletes
    exact hcompletes.1.1
  have hcurrent : s.IsCurrent fleet (profileKey, revision) expectation := by
    refine ⟨hfence.symm, by simp [hhandoff, hkey, hrevision], row', hrow, hdesiredKey,
      hdesiredRevision, ?_, hintent⟩
    rw [hcaptured, hsame, hfence]
  cases hobserved : row'.observedContext with
  | none =>
    simp only [hobserved, pure_eq_ok, Prod.mk.injEq] at h
    obtain ⟨rfl, rfl, rfl⟩ := h
    refine ⟨hgiven, hrow, hcurrent, hcomplete, ?_, ?_⟩
    · intro observed hsome
      rw [hobserved] at hsome
      cases hsome
    · intro observed hsome
      rw [hobserved] at hsome
      cases hsome
  | some observed =>
    simp only [hobserved, observedCheck, bind_eq_ok, mapError_eq_ok, okOr_eq_ok, ensure_eq_ok,
      pure_eq_ok, Prod.mk.injEq, exists_and_left, exists_const] at h
    obtain ⟨⟨⟨-, -, hobservedComplete⟩, -⟩, hagree, rfl, rfl, rfl⟩ := h
    refine ⟨hgiven, hrow, hcurrent, hcomplete, ?_, ?_⟩
    · intro other hsome
      rw [hobserved] at hsome
      cases hsome
      exact hobservedComplete
    · intro other hsome
      rw [hobserved] at hsome
      cases hsome
      exact hagree

theorem archiveContext_ok {archived : ResolvedAuthContext}
    (h : s.archiveContext fleet archived = .ok t) :
    ∃ contextHistory, t = { s with contextHistory } := by
  simp only [archiveContext, bind_eq_ok, ensure_eq_ok, pure_eq_ok] at h
  obtain ⟨previous, -, _, -, rfl⟩ := h
  exact ⟨_, rfl⟩

theorem archiveObserved_ok {row : ContextRow} (h : s.archiveObserved fleet row = .ok t) :
    ∃ contextHistory, t = { s with contextHistory } := by
  unfold archiveObserved at h
  cases hobserved : row.observedContext with
  | none =>
    rw [hobserved] at h
    cases h
    exact ⟨_, rfl⟩
  | some observed =>
    rw [hobserved] at h
    exact archiveContext_ok h

/-- What the observed side of a fleet says is one context, under its own reference. -/
structure Observes (s : ControlPlane) (fleet : String) (context : Option ResolvedAuthContext) :
    Prop where
  reference : s.observedReference fleet =
    (context.map (·.profileKey), context.map (·.revision))
  context : s.observedContext fleet =
    (context.map (·.profileKey), context.map (·.revision), context)

theorem Observes.kept {s t : ControlPlane} {context : Option ResolvedAuthContext}
    (h : Observes s fleet context) (hkept : ControlPlane.ObservedKept s t) :
    Observes t fleet context :=
  ⟨(hkept.reference fleet).trans h.reference, (hkept.context fleet).trans h.context⟩

theorem acknowledgeWrite_ok {handoff : HandoffRow} {row : ContextRow} {new : ResolvedAuthContext}
    (h : s.acknowledgeWrite fleet new.profileKey new.revision handoff row new = .ok t) :
    Observes t.toControlPlane fleet (some new) ∧
      ∀ other, other ≠ fleet →
        t.observedReference other = s.observedReference other ∧
          t.observedContext other = s.observedContext other := by
  simp only [acknowledgeWrite, bind_eq_ok, pure_eq_ok] at h
  obtain ⟨retained, hretained, archived, harchived, rfl⟩ := h
  obtain ⟨_, rfl⟩ := archiveContext_ok hretained
  obtain ⟨_, rfl⟩ := archiveObserved_ok harchived
  constructor
  · constructor
    · simp [ControlPlane.observedReference]
    · simp [ControlPlane.observedContext]
  · intro other hne
    constructor
    · simp only [ControlPlane.observedReference, Table.find_put, hne, if_false]
    · simp only [ControlPlane.observedContext, Table.find_put, hne, if_false]

/-- An acknowledgement writes nothing, or replaces what was observed by the verified context. -/
theorem handoffAcknowledge_ok {ack : FleetContextAck} {new : ResolvedAuthContext}
    (h : s.handoffAcknowledge fleet new.profileKey new.revision (some new) expectation =
      .ok (t, ack)) :
    (ack ≠ .acknowledged ∧ t = s) ∨
      (ack = .acknowledged ∧ s.IsCurrent fleet (new.profileKey, new.revision) expectation ∧
        new.hasCompleteIdentity = true ∧ Observes t.toControlPlane fleet (some new) ∧
        (∀ other, other ≠ fleet →
          t.observedReference other = s.observedReference other ∧
            t.observedContext other = s.observedContext other) ∧
        ∀ observed, Observes s.toControlPlane fleet (some observed) →
          observed.target = new.target → observed.SamePins new) := by
  unfold handoffAcknowledge at h
  cases hcheck : s.acknowledgeCheck fleet new.profileKey new.revision (some new) expectation with
  | error refusal =>
    rw [hcheck] at h
    cases refusal with
    | stale =>
      cases h
      exact .inl ⟨by decide, rfl⟩
    | identityDrift =>
      cases h
      exact .inl ⟨by decide, rfl⟩
    | failed e => cases h
  | ok checked =>
    obtain ⟨handoff, row, verified⟩ := checked
    have hchecked := acknowledgeCheck_ok hcheck
    cases hchecked.given
    rw [hcheck] at h
    simp only [bind_eq_ok, pure_eq_ok, Prod.mk.injEq] at h
    obtain ⟨written, hwritten, rfl, rfl⟩ := h
    obtain ⟨hobserves, hothers⟩ := acknowledgeWrite_ok hwritten
    refine .inr ⟨rfl, hchecked.current, hchecked.complete, hobserves, hothers, ?_⟩
    intro observed hbefore htarget
    have hobserved : row.observedContext = some observed := by
      have hcontext := congrArg (fun triple => triple.2.2) hbefore.context
      simpa [ControlPlane.observedContext, hchecked.found] using hcontext
    exact ResolvedAuthContext.samePins_of_agree (hchecked.observedComplete observed hobserved)
      hchecked.complete htarget (hchecked.agrees observed hobserved htarget)

theorem handoffMarkBlocked_observed {authority : String × Int} :
    ControlPlane.ObservedKept s.toControlPlane
      (s.handoffMarkBlocked fleet authority expectation).1.toControlPlane := by
  unfold handoffMarkBlocked
  cases hfind : s.handoffs.find fleet with
  | none => exact .refl _
  | some row =>
    dsimp only
    split
    · exact .put_handoff (by simp [hfind]) (by simp [hfind])
    · exact .refl _

end AuthStore

end Registry

end Shaula
