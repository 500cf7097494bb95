import Mathlib.Data.List.Chain
import Shaula.Library.Run
import Shaula.Registry.Acknowledgement

/-! # Runs of auth handoffs

An attempt reads the handoff of a fleet, its fence and its desired context, asks GitHub for the
identity of the target, and acknowledges or records a failure.  Each of these is a step of its own:
other attempts run, and fleets are replaced, deleted and retargeted, between any two of them.
-/

namespace Shaula

open Library Library.Outcome

namespace Registry

/-! ## The driver -/

/-- The numeric identity GitHub answers for a target. -/
structure TargetIdentity where
  organizationId : Option Int
  repositoryId : Option Int
  repositoryOwnerId : Option Int
  deriving DecidableEq, Repr

/-- How far an attempt has come, with what it captured. -/
inductive HandoffStage where
  | selected
  | fenced (mutationFence : Int)
  | captured (expectation : AuthHandoffExpectation)
  | verified (expectation : AuthHandoffExpectation) (context : ResolvedAuthContext)
  | failing (expectation : AuthHandoffExpectation)
  deriving DecidableEq, Repr

structure HandoffAttempt where
  fleet : String
  authority : String × Int
  target : GitHubTarget
  stage : HandoffStage
  deriving DecidableEq, Repr

/-- The desired context of a fleet, as an attempt under this authority captures it. -/
def AuthStore.desiredIntent (s : AuthStore) (fleet : String) (authority : String × Int) :
    Option ResolvedAuthContext :=
  (s.contexts.find fleet).bind fun row =>
    if row.desiredProfileKey = some authority.1 ∧ row.desiredRevision = some authority.2 then
      row.desiredContext
    else none

/-- `resolve_exact_context`: the desired context, completed with the verified identity. -/
def resolveExactContext (authority : String × Int) (desired : Option ResolvedAuthContext)
    (target : GitHubTarget) (ids : TargetIdentity) : Option ResolvedAuthContext :=
  match desired with
  | none => none
  | some context =>
    if context.target ≠ target ∨ context.profileKey ≠ authority.1 ∨
        context.revision ≠ authority.2 then none
    else
      let verified := { context with
        organizationId := ids.organizationId
        repositoryId := ids.repositoryId
        repositoryOwnerId := ids.repositoryOwnerId }
      if verified.completes context then some verified else none

theorem resolveExactContext_some {authority : String × Int} {desired : Option ResolvedAuthContext}
    {target : GitHubTarget} {ids : TargetIdentity} {context : ResolvedAuthContext}
    (h : resolveExactContext authority desired target ids = some context) :
    authority = (context.profileKey, context.revision) := by
  unfold resolveExactContext at h
  cases desired with
  | none => cases h
  | some intent =>
    dsimp only at h
    split at h
    · cases h
    · next hmatches =>
      split at h
      · cases h
        by_contra hne
        refine hmatches ?_
        by_cases hkey : intent.profileKey = authority.1
        · refine .inr (.inr ?_)
          intro hrevision
          exact hne (Prod.ext hkey.symm hrevision.symm)
        · exact .inr (.inl hkey)
      · cases h

/-! ## The system -/

/-- The store, the attempts under way, and the contexts acknowledged so far, newest first. -/
structure HandoffSystem where
  store : AuthStore
  attempts : List HandoffAttempt
  acknowledged : List (String × ResolvedAuthContext)

inductive HandoffOp where
  | start (fleet : String) (authority : String × Int) (target : GitHubTarget)
  | captureFence (attempt : HandoffAttempt)
  | captureContext (attempt : HandoffAttempt)
  /-- GitHub's answer; none for any failure on the way, of the revision, the route, the ownership
  or the target. -/
  | probe (attempt : HandoffAttempt) (answer : Option TargetIdentity)
  | acknowledge (attempt : HandoffAttempt)
  | recordFailure (attempt : HandoffAttempt)
  | abandon (attempt : HandoffAttempt)
  | mutate (mutation : FleetMutation)
  | noop (facts : MutationFacts)
  | decommission (facts : MutationFacts) (authDesired : Option (String × Int))
  | rotate (profileKey : String) (revision : Int)
  | blockContext (fleet : String)
  /-- What other components write: anything but handoffs and auth contexts. -/
  | others (store : ControlPlane)

namespace HandoffSystem

variable (s : HandoffSystem)

/-- The contexts acknowledged for a fleet, newest first. -/
def log (fleet : String) : List ResolvedAuthContext :=
  (s.acknowledged.filter fun entry => entry.1 = fleet).map (·.2)

/-- The attempt goes on to its next stage. -/
def moved (attempt : HandoffAttempt) (stage : HandoffStage) : HandoffSystem :=
  { s with attempts := { attempt with stage } :: s.attempts.erase attempt }

/-- The attempt is over. -/
def dropped (attempt : HandoffAttempt) : HandoffSystem :=
  { s with attempts := s.attempts.erase attempt }

/-- A transaction of the control plane committed. -/
def committed (t : ControlPlane) : HandoffSystem :=
  { s with store := { s.store with toControlPlane := t } }

/-- What the driver does with the answer of an acknowledgement. -/
def settled (attempt : HandoffAttempt) (expectation : AuthHandoffExpectation)
    (context : ResolvedAuthContext) : StoreResult (AuthStore × FleetContextAck) → HandoffSystem
  | .error _ => s.dropped attempt
  | .ok (store, .acknowledged) => { s.dropped attempt with
      store
      acknowledged := (attempt.fleet, context) :: s.acknowledged }
  | .ok (store, .stale) => { s.dropped attempt with store }
  | .ok (store, .identityDrift) => { s.moved attempt (.failing expectation) with store }

/-- The stage after GitHub's answer. -/
def probed (attempt : HandoffAttempt) (expectation : AuthHandoffExpectation)
    (answer : Option TargetIdentity) : HandoffStage :=
  match answer.bind (resolveExactContext attempt.authority expectation.desiredContext
      attempt.target) with
  | some context => .verified expectation context
  | none => .failing expectation

/-- One step.  A refused transaction changes nothing and is not a step. -/
inductive Step (s : HandoffSystem) : HandoffOp → HandoffSystem → Prop
  | start {fleet : String} {authority : String × Int} {target : GitHubTarget} {row : HandoffRow}
      (hrow : s.store.handoffs.find fleet = some row)
      (hauthority : (row.desiredProfileKey, row.desiredRevision) = authority) :
      Step s (.start fleet authority target)
        { s with attempts := ⟨fleet, authority, target, .selected⟩ :: s.attempts }
  | captureFence {attempt : HandoffAttempt} {row : FleetRow} (hmem : attempt ∈ s.attempts)
      (hstage : attempt.stage = .selected)
      (hrow : s.store.fleets.find attempt.fleet = some row) :
      Step s (.captureFence attempt) (s.moved attempt (.fenced row.mutationFence))
  | captureContext {attempt : HandoffAttempt} {mutationFence : Int} (hmem : attempt ∈ s.attempts)
      (hstage : attempt.stage = .fenced mutationFence) :
      Step s (.captureContext attempt) (s.moved attempt (.captured
        ⟨mutationFence, s.store.desiredIntent attempt.fleet attempt.authority⟩))
  | probe {attempt : HandoffAttempt} {expectation : AuthHandoffExpectation}
      {answer : Option TargetIdentity} (hmem : attempt ∈ s.attempts)
      (hstage : attempt.stage = .captured expectation) :
      Step s (.probe attempt answer) (s.moved attempt (probed attempt expectation answer))
  | acknowledge {attempt : HandoffAttempt} {expectation : AuthHandoffExpectation}
      {context : ResolvedAuthContext} (hmem : attempt ∈ s.attempts)
      (hstage : attempt.stage = .verified expectation context) :
      Step s (.acknowledge attempt) (s.settled attempt expectation context
        (s.store.handoffAcknowledge attempt.fleet attempt.authority.1 attempt.authority.2
          (some context) expectation))
  | recordFailure {attempt : HandoffAttempt} {expectation : AuthHandoffExpectation}
      (hmem : attempt ∈ s.attempts) (hstage : attempt.stage = .failing expectation) :
      Step s (.recordFailure attempt) { s.dropped attempt with
        store := (s.store.handoffMarkBlocked attempt.fleet attempt.authority expectation).1 }
  | abandon {attempt : HandoffAttempt} : Step s (.abandon attempt) (s.dropped attempt)
  | mutate {mutation : FleetMutation} {t : ControlPlane}
      (h : s.store.commitFleetMutation mutation = .ok t) : Step s (.mutate mutation) (s.committed t)
  | noop {facts : MutationFacts} {t : ControlPlane} (h : s.store.commitFleetNoop facts = .ok t) :
      Step s (.noop facts) (s.committed t)
  | decommission {facts : MutationFacts} {authDesired : Option (String × Int)} {t : ControlPlane}
      (h : s.store.commitDecommission facts authDesired = .ok t) :
      Step s (.decommission facts authDesired) (s.committed t)
  | rotate {profileKey : String} {revision : Int} {t : ControlPlane}
      (h : s.store.authAdvanceHead profileKey revision = .ok t) :
      Step s (.rotate profileKey revision) (s.committed t)
  | blockContext {fleet : String} {t : ControlPlane}
      (h : s.store.fleetAuthContextBlock fleet = .ok t) :
      Step s (.blockContext fleet) (s.committed t)
  | others {t : ControlPlane} (hhandoffs : t.handoffs = s.store.handoffs)
      (hcontexts : t.contexts = s.store.contexts) : Step s (.others t) (s.committed t)

/-- Nothing was observed yet, and no attempt is under way. -/
structure Initial : Prop where
  observed : ∀ fleet, AuthStore.Observes s.store.toControlPlane fleet none
  attempts : s.attempts = []
  acknowledged : s.acknowledged = []

/-- The observed side of every fleet is what was acknowledged last, and what was acknowledged is
complete and keeps the pins of its target. -/
structure Consistent : Prop where
  together : ∀ fleet, AuthStore.Observes s.store.toControlPlane fleet (s.log fleet).head?
  complete : ∀ fleet, ∀ context ∈ s.log fleet, context.hasCompleteIdentity = true
  pinned : ∀ fleet, (s.log fleet).IsChain fun new old => old.target = new.target → old.SamePins new
  verified : ∀ attempt ∈ s.attempts, ∀ expectation context,
    attempt.stage = .verified expectation context →
      attempt.authority = (context.profileKey, context.revision)

variable {s} {t : HandoffSystem} {op : HandoffOp} {attempt : HandoffAttempt}
  {expectation : AuthHandoffExpectation} {context : ResolvedAuthContext}

theorem Initial.consistent (h : s.Initial) : s.Consistent := by
  have hlog : ∀ fleet, s.log fleet = [] := by
    intro fleet
    simp [log, h.acknowledged]
  constructor
  · intro fleet
    rw [hlog]
    exact h.observed fleet
  · intro fleet c hc
    rw [hlog] at hc
    cases hc
  · intro fleet
    rw [hlog]
    exact .nil
  · intro a ha
    rw [h.attempts] at ha
    cases ha

/-- A step that observes nothing and verifies nothing keeps the system consistent. -/
theorem Consistent.quiet (h : s.Consistent) (hlog : t.acknowledged = s.acknowledged)
    (hkept : ControlPlane.ObservedKept s.store.toControlPlane t.store.toControlPlane)
    (hattempts : ∀ a ∈ t.attempts, ∀ e c, a.stage = .verified e c →
      a.authority = (c.profileKey, c.revision)) : t.Consistent := by
  have hsame : ∀ fleet, t.log fleet = s.log fleet := by
    intro fleet
    rw [log, log, hlog]
  constructor
  · intro fleet
    rw [hsame]
    exact (h.together fleet).kept hkept
  · intro fleet
    rw [hsame]
    exact h.complete fleet
  · intro fleet
    rw [hsame]
    exact h.pinned fleet
  · exact hattempts

theorem Consistent.commit {control : ControlPlane} (h : s.Consistent)
    (hkept : ControlPlane.ObservedKept s.store.toControlPlane control) :
    (s.committed control).Consistent :=
  h.quiet rfl hkept h.verified

/-- Attempts that remain are attempts there were. -/
theorem Consistent.verified_erase (h : s.Consistent) :
    ∀ a ∈ s.attempts.erase attempt, ∀ e c, a.stage = .verified e c →
      a.authority = (c.profileKey, c.revision) := by
  intro a ha
  exact h.verified a (List.mem_of_mem_erase ha)

theorem Consistent.drop (h : s.Consistent) : (s.dropped attempt).Consistent :=
  h.quiet rfl (.refl _) h.verified_erase

theorem Consistent.move {stage : HandoffStage} (h : s.Consistent)
    (hstage : ∀ e c, stage = .verified e c → attempt.authority = (c.profileKey, c.revision)) :
    (s.moved attempt stage).Consistent := by
  refine h.quiet rfl (.refl _) ?_
  intro a ha e c hverified
  rcases List.mem_cons.mp ha with rfl | hrest
  · exact hstage e c hverified
  · exact h.verified_erase a hrest e c hverified

theorem probed_verified {answer : Option TargetIdentity}
    {expectation' : AuthHandoffExpectation}
    (h : probed attempt expectation answer = .verified expectation' context) :
    attempt.authority = (context.profileKey, context.revision) := by
  unfold probed at h
  split at h
  · next resolved hresolved =>
    cases h
    obtain ⟨ids, -, hids⟩ := Option.bind_eq_some_iff.mp hresolved
    exact resolveExactContext_some hids
  · cases h

/-! ## What an acknowledgement does to the system -/

/-- An acknowledgement under a verified context writes nothing, or was current and replaces what was
observed. -/
theorem settled_cases (h : s.Consistent) (hmem : attempt ∈ s.attempts)
    (hstage : attempt.stage = .verified expectation context) {result}
    (hresult : s.store.handoffAcknowledge attempt.fleet attempt.authority.1 attempt.authority.2
      (some context) expectation = result) :
    let t := s.settled attempt expectation context result
    t.Consistent ∧
      ((t.store = s.store ∧ t.acknowledged = s.acknowledged) ∨
        (s.store.IsCurrent attempt.fleet attempt.authority expectation ∧
          t.acknowledged = (attempt.fleet, context) :: s.acknowledged)) := by
  have hauthority := h.verified attempt hmem expectation context hstage
  cases result with
  | error e => exact ⟨h.drop, .inl ⟨rfl, rfl⟩⟩
  | ok answer =>
    obtain ⟨store, ack⟩ := answer
    rw [hauthority] at hresult
    rcases AuthStore.handoffAcknowledge_ok hresult with
      ⟨hack, rfl⟩ | ⟨rfl, hcurrent, hcomplete, hobserves, hothers, hpins⟩
    · cases ack with
      | acknowledged => exact absurd rfl hack
      | stale => exact ⟨h.drop, .inl ⟨rfl, rfl⟩⟩
      | identityDrift =>
        refine ⟨h.move ?_, .inl ⟨rfl, rfl⟩⟩
        intro e c hverified
        cases hverified
    · refine ⟨?_, .inr ⟨hauthority ▸ hcurrent, rfl⟩⟩
      have hself : (s.settled attempt expectation context (.ok (store, .acknowledged))).log
          attempt.fleet = context :: s.log attempt.fleet := by
        simp [settled, log]
      have hother : ∀ fleet, fleet ≠ attempt.fleet →
          (s.settled attempt expectation context (.ok (store, .acknowledged))).log fleet =
            s.log fleet := by
        intro fleet hne
        simp [settled, log, hne.symm]
      constructor
      · intro fleet
        by_cases heq : fleet = attempt.fleet
        · subst heq
          rw [hself]
          exact hobserves
        · rw [hother fleet heq]
          obtain ⟨href, hcontext⟩ := hothers fleet heq
          exact ⟨href.trans (h.together fleet).reference,
            hcontext.trans (h.together fleet).context⟩
      · intro fleet
        by_cases heq : fleet = attempt.fleet
        · subst heq
          rw [hself]
          intro c hc
          rcases List.mem_cons.mp hc with rfl | hc
          · exact hcomplete
          · exact h.complete _ c hc
        · rw [hother fleet heq]
          exact h.complete fleet
      · intro fleet
        by_cases heq : fleet = attempt.fleet
        · subst heq
          rw [hself]
          refine List.isChain_cons.mpr ⟨?_, h.pinned _⟩
          intro old hold htarget
          have hbefore := h.together attempt.fleet
          rw [hold] at hbefore
          exact hpins old hbefore htarget
        · rw [hother fleet heq]
          exact h.pinned fleet
      · exact h.verified_erase

/-! ## Every step -/

theorem Consistent.step (h : s.Consistent) (hstep : s.Step op t) : t.Consistent := by
  cases hstep with
  | start hrow hauthority =>
    refine h.quiet rfl (.refl _) ?_
    intro a ha e c hverified
    rcases List.mem_cons.mp ha with rfl | hrest
    · cases hverified
    · exact h.verified a hrest e c hverified
  | captureFence hmem hstage hrow =>
    exact h.move fun e c hverified => by cases hverified
  | captureContext hmem hstage => exact h.move fun e c hverified => by cases hverified
  | probe hmem hstage => exact h.move fun e c hverified => probed_verified hverified
  | acknowledge hmem hstage => exact (settled_cases h hmem hstage rfl).1
  | recordFailure hmem hstage =>
    exact h.quiet rfl AuthStore.handoffMarkBlocked_observed h.verified_erase
  | abandon => exact h.drop
  | mutate hcommit => exact h.commit (ControlPlane.commitFleetMutation_observed hcommit)
  | noop hcommit => exact h.commit (ControlPlane.commitFleetNoop_observed hcommit)
  | decommission hcommit => exact h.commit (ControlPlane.commitDecommission_observed hcommit)
  | rotate hcommit => exact h.commit (ControlPlane.authAdvanceHead_observed hcommit)
  | blockContext hcommit => exact h.commit (ControlPlane.fleetAuthContextBlock_observed hcommit)
  | others hhandoffs hcontexts => exact h.commit (.of_tables hhandoffs hcontexts)

/-! ## Every run -/

/-- Over a stretch of acknowledgements for one target, the pins are the same. -/
theorem Consistent.samePins (h : s.Consistent) {fleet : String}
    {stretch : List ResolvedAuthContext} {target : GitHubTarget}
    (hstretch : stretch <:+: s.log fleet) (htarget : ∀ c ∈ stretch, c.target = target) :
    ∀ c ∈ stretch, ∀ d ∈ stretch, c.SamePins d := by
  have hchain : stretch.IsChain ResolvedAuthContext.SamePins := by
    have hpinned := List.IsChain.infix (h.pinned fleet) hstretch
    refine hpinned.imp_of_mem_imp ?_
    intro new old hnew hold hpins
    exact (hpins ((htarget old hold).trans (htarget new hnew).symm)).symm
  have : Trans ResolvedAuthContext.SamePins ResolvedAuthContext.SamePins
      ResolvedAuthContext.SamePins := ⟨fun h h' => h.trans h'⟩
  have : Std.Symm ResolvedAuthContext.SamePins := ⟨fun _ _ h => h.symm⟩
  have hpairs := List.isChain_iff_pairwise.mp hchain
  intro c hc d hd
  exact hpairs.forall_of_forall (fun c _ => .refl c) hc hd

/-- What holds of a run of handoffs that ends in `s`. -/
structure AllOrNothing (trace : List (HandoffSystem × HandoffOp × HandoffSystem))
    (s : HandoffSystem) : Prop where
  /-- The observed reference and the observed context are those of the last acknowledgement. -/
  together : ∀ fleet, AuthStore.Observes s.store.toControlPlane fleet (s.log fleet).head?
  /-- An acknowledgement writes nothing, unless its fence, its reference and its desired context are
  the current ones. -/
  current : ∀ e ∈ trace, ∀ attempt, e.2.1 = .acknowledge attempt →
    (e.2.2.store = e.1.store ∧ e.2.2.acknowledged = e.1.acknowledged) ∨
      ∃ expectation context, attempt.stage = .verified expectation context ∧
        e.1.store.IsCurrent attempt.fleet attempt.authority expectation ∧
        e.2.2.acknowledged = (attempt.fleet, context) :: e.1.acknowledged
  others : ∀ e ∈ trace, (∀ attempt, e.2.1 ≠ .acknowledge attempt) →
    e.2.2.acknowledged = e.1.acknowledged
  pinned : ∀ fleet stretch target, stretch <:+: s.log fleet →
    (∀ c ∈ stretch, c.target = target) → ∀ c ∈ stretch, ∀ d ∈ stretch, c.SamePins d
  complete : ∀ fleet, ∀ context ∈ s.log fleet, context.hasCompleteIdentity = true

theorem Consistent.current (h : s.Consistent) (hstep : s.Step op t)
    (hop : op = .acknowledge attempt) :
    (t.store = s.store ∧ t.acknowledged = s.acknowledged) ∨
      ∃ expectation context, attempt.stage = .verified expectation context ∧
        s.store.IsCurrent attempt.fleet attempt.authority expectation ∧
        t.acknowledged = (attempt.fleet, context) :: s.acknowledged := by
  subst hop
  cases hstep with
  | acknowledge hmem hstage =>
    rcases (settled_cases h hmem hstage rfl).2 with hkept | ⟨hcurrent, hlog⟩
    · exact .inl hkept
    · exact .inr ⟨_, _, hstage, hcurrent, hlog⟩

theorem Step.log_kept (hstep : s.Step op t) (hop : ∀ attempt, op ≠ .acknowledge attempt) :
    t.acknowledged = s.acknowledged := by
  cases hstep with
  | acknowledge => exact absurd rfl (hop _)
  | _ => rfl

/-- **Handoff acknowledgements are all or nothing**, in every run of attempts and of the mutations
around them. -/
theorem acknowledgements_all_or_nothing
    {trace : List (HandoffSystem × HandoffOp × HandoffSystem)} (hinit : s.Initial)
    (hrun : Run Step s trace t) : AllOrNothing trace t := by
  have hstart := hinit.consistent
  have hend := hrun.invariant (fun _ _ _ h hstep => h.step hstep) hstart
  have hsteps : ∀ e ∈ trace, e.1.Consistent :=
    hrun.forall_mem (Q := fun (s : HandoffSystem) _ _ => s.Consistent)
      (fun _ _ _ h hstep => h.step hstep) (fun _ _ _ h _ => h) hstart
  constructor
  · exact hend.together
  · intro e he attempt hop
    exact (hsteps e he).current (hrun.mem_step he) hop
  · intro e he
    exact (hrun.mem_step he).log_kept
  · intro fleet stretch target hstretch htarget
    exact hend.samePins hstretch htarget
  · exact hend.complete

/-! ## A sample -/

/-- A desired context, before the identity of its organization was read from GitHub. -/
def orgContext : ResolvedAuthContext where
  profileKey := "app"
  revision := 2
  githubHost := "github.com"
  appId := "17"
  accountId := 40
  accountKind := .organization
  login := "acme"
  installationId := 9
  target := .organization "acme"
  organizationId := some 40
  repositoryId := none
  repositoryOwnerId := none

/-- A fleet whose handoff is pending under fence 3. -/
def pendingHandoff : HandoffSystem where
  store := { ControlPlane.empty with
    fleets := (∅ : Table String FleetRow).put "fleet" {
      incarnation := "i"
      desiredRevision := 1
      observedRevision := 0
      mutationFence := 3
      deletionMarker := false
      phase := .pending
      tombstone := false }
    handoffs := (∅ : Table String HandoffRow).put "fleet" {
      desiredProfileKey := "app"
      desiredRevision := 2
      observedProfileKey := none
      observedRevision := none
      state := .pending
      cleanupOnly := false }
    contexts := (∅ : Table String ContextRow).put "fleet" {
      desiredProfileKey := some "app"
      desiredRevision := some 2
      desiredFence := some 3
      desiredContext := some orgContext
      observedProfileKey := none
      observedRevision := none
      observedContext := none
      state := .pending }
    authRevisions := (∅ : Table (String × Int) AuthRevisionRow).put ("app", 2) {
      state := .active
      reason := none
      kind := .githubApp
      appId := some "17"
      schemaVersion := 2
      policy := none
      snapshot := none }
    contextHistory := ∅ }
  attempts := []
  acknowledged := []

theorem pendingHandoff_initial : pendingHandoff.Initial := by
  constructor
  · intro fleet
    by_cases heq : fleet = "fleet"
    · subst heq
      exact ⟨rfl, rfl⟩
    · constructor
      · simp [ControlPlane.observedReference, pendingHandoff, heq]
      · simp [ControlPlane.observedContext, pendingHandoff, heq]
  · rfl
  · rfl

/-- The sample's attempt, at a stage. -/
def pendingAttempt (stage : HandoffStage) : HandoffAttempt :=
  ⟨"fleet", ("app", 2), .organization "acme", stage⟩

/-- An attempt of the sample that goes through. -/
theorem acknowledgements_all_or_nothing_sample : ∃ trace t,
    t.log "fleet" = [orgContext] ∧ AllOrNothing trace t := by
  have hrun : Run Step pendingHandoff _ _ :=
    .cons (@Step.start _ "fleet" _ (.organization "acme") _ rfl rfl)
    (.cons (@Step.captureFence _ (pendingAttempt .selected) _ (.head _) rfl rfl)
    (.cons (@Step.captureContext _ (pendingAttempt (.fenced 3)) _ (.head _) rfl)
    (.cons (@Step.probe _ (pendingAttempt (.captured ⟨3, some orgContext⟩)) _
      (some ⟨some 40, none, none⟩) (.head _) rfl)
    (.cons (@Step.acknowledge _ (pendingAttempt (.verified ⟨3, some orgContext⟩ orgContext)) _ _
      (.head _) rfl)
    (.nil _)))))
  refine ⟨_, _, ?_, acknowledgements_all_or_nothing pendingHandoff_initial hrun⟩
  decide +kernel

end HandoffSystem

end Registry

end Shaula
