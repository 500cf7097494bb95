import Shaula.Registry.Mutation

/-! # Observed auth contexts

The observed side of a fleet's handoff and auth context, and the statements that move only the
desired side: fleet mutations, deletions and rotations.
-/

namespace Shaula

open Library Library.Outcome

namespace Registry

namespace ControlPlane

variable (s : ControlPlane)

/-! ## Rotation and blocking -/

/-- Point one dependent fleet at a newly active revision, with its desired context. -/
def retargetFleet (key : String) (activeRevision : Int) (s : ControlPlane) (fleet : String) :
    StoreResult ControlPlane :=
  let handed := s.handoffRetargetDesired fleet key activeRevision
  match handed.revisions.latest fleet with
  | none => .ok handed
  | some (_, latest) =>
    if latest.spec.kind.isPool then .ok handed
    else do
      let committed ← handed.fleetAuthContextCommit fleet key activeRevision latest.spec
      committed.mapError .policyDenied

/-- The fleets whose handoff desires an auth profile. -/
def dependentFleets (key : String) : List String :=
  (s.handoffs.rows.filter fun row => row.2.desiredProfileKey = key).map (·.1)

def retargetFleetsOnRotation (key : String) (activeRevision : Int) : StoreResult ControlPlane :=
  (s.dependentFleets key).foldlM (retargetFleet key activeRevision) s

/-- The head advance of a promotion: active and observed revision, status and the retarget of every
dependent fleet. -/
def authAdvanceHead (key : String) (revision : Int) : StoreResult ControlPlane := do
  let profile ← okOr (s.auths.find key) (.corrupt ("auth profile " ++ key ++ " missing"))
  retargetFleetsOnRotation { s with
    auths := s.auths.put key { profile with
      activeRevision := some revision
      observedRevision := some revision
      status := .active } } key revision

/-- Mark an existing context row as blocked. -/
def fleetAuthContextBlock (fleet : String) : StoreResult ControlPlane := do
  let row ← okOr (s.contexts.find fleet) (.corrupt ("context " ++ fleet ++ " missing"))
  return { s with contexts := s.contexts.put fleet { row with state := .blocked } }

/-! ## The observed side -/

/-- What the handoff of a fleet has observed. -/
def observedReference (fleet : String) : Option String × Option Int :=
  ((s.handoffs.find fleet).bind (·.observedProfileKey),
    (s.handoffs.find fleet).bind (·.observedRevision))

/-- What the auth context of a fleet has observed, with the reference it is kept under. -/
def observedContext (fleet : String) : Option String × Option Int × Option ResolvedAuthContext :=
  ((s.contexts.find fleet).bind (·.observedProfileKey),
    (s.contexts.find fleet).bind (·.observedRevision),
    (s.contexts.find fleet).bind (·.observedContext))

/-- Nothing was observed, for any fleet. -/
structure ObservedKept (s t : ControlPlane) : Prop where
  reference : ∀ fleet, t.observedReference fleet = s.observedReference fleet
  context : ∀ fleet, t.observedContext fleet = s.observedContext fleet

variable {s} {t u : ControlPlane}

theorem ObservedKept.refl (s : ControlPlane) : ObservedKept s s :=
  ⟨fun _ => rfl, fun _ => rfl⟩

theorem ObservedKept.trans (h : ObservedKept s t) (h' : ObservedKept t u) : ObservedKept s u :=
  ⟨fun fleet => (h'.reference fleet).trans (h.reference fleet),
    fun fleet => (h'.context fleet).trans (h.context fleet)⟩

/-- What writes neither handoffs nor contexts observes nothing. -/
theorem ObservedKept.of_tables (hhandoffs : t.handoffs = s.handoffs)
    (hcontexts : t.contexts = s.contexts) : ObservedKept s t := by
  constructor
  · intro fleet
    rw [observedReference, observedReference, hhandoffs]
  · intro fleet
    rw [observedContext, observedContext, hcontexts]

/-- A handoff row that keeps its observed columns. -/
theorem ObservedKept.put_handoff {fleet : String} {row : HandoffRow}
    (hkey : row.observedProfileKey = (s.handoffs.find fleet).bind (·.observedProfileKey))
    (hrevision : row.observedRevision = (s.handoffs.find fleet).bind (·.observedRevision)) :
    ObservedKept s { s with handoffs := s.handoffs.put fleet row } := by
  refine ⟨fun other => ?_, fun _ => rfl⟩
  by_cases heq : other = fleet
  · subst heq
    simp only [observedReference, Table.find_put, if_true, Option.bind_some, hkey, hrevision]
  · simp only [observedReference, Table.find_put, heq, if_false]

/-- A context row that keeps its observed columns. -/
theorem ObservedKept.put_context {fleet : String} {row : ContextRow}
    (hkey : row.observedProfileKey = (s.contexts.find fleet).bind (·.observedProfileKey))
    (hrevision : row.observedRevision = (s.contexts.find fleet).bind (·.observedRevision))
    (hcontext : row.observedContext = (s.contexts.find fleet).bind (·.observedContext)) :
    ObservedKept s { s with contexts := s.contexts.put fleet row } := by
  refine ⟨fun _ => rfl, fun other => ?_⟩
  by_cases heq : other = fleet
  · subst heq
    simp only [observedContext, Table.find_put, if_true, Option.bind_some, hkey, hrevision,
      hcontext]
  · simp only [observedContext, Table.find_put, heq, if_false]

/-! ## Statements that observe nothing -/

theorem handoffSetDesired_observed (fleet profileKey : String) (revision : Int) :
    ObservedKept s (s.handoffSetDesired fleet profileKey revision) := by
  unfold handoffSetDesired
  cases hfind : s.handoffs.find fleet with
  | none => exact .put_handoff (by simp [hfind]) (by simp [hfind])
  | some row => exact .put_handoff (by simp [hfind]) (by simp [hfind])

theorem handoffRetargetDesired_observed (fleet profileKey : String) (revision : Int) :
    ObservedKept s (s.handoffRetargetDesired fleet profileKey revision) := by
  unfold handoffRetargetDesired
  cases hfind : s.handoffs.find fleet with
  | none => exact .refl s
  | some row =>
    by_cases hsame : row.desiredProfileKey = profileKey ∧ row.desiredRevision = revision
    · simp only [if_pos hsame]
      exact .refl s
    · simp only [if_neg hsame]
      exact .put_handoff (by simp [hfind]) (by simp [hfind])

theorem handoffSetCleanupOnly_observed (fleet : String) :
    ObservedKept s (s.handoffSetCleanupOnly fleet) := by
  unfold handoffSetCleanupOnly
  cases hfind : s.handoffs.find fleet with
  | none => exact .refl s
  | some row => exact .put_handoff (by simp [hfind]) (by simp [hfind])

theorem fleetAuthContextSetDesired_observed (fleet profileKey : String) (revision : Int)
    (context : ResolvedAuthContext) :
    ObservedKept s (s.fleetAuthContextSetDesired fleet profileKey revision context) := by
  unfold fleetAuthContextSetDesired
  cases hfind : s.contexts.find fleet with
  | none => exact .put_context (by simp [hfind]) (by simp [hfind]) (by simp [hfind])
  | some row =>
    by_cases hsame : row.desiredProfileKey = some profileKey ∧
        row.desiredRevision = some revision ∧ row.desiredContext = some context
    · simp only [if_pos hsame]
      exact .put_context (by simp [hfind]) (by simp [hfind]) (by simp [hfind])
    · simp only [if_neg hsame]
      exact .put_context (by simp [hfind]) (by simp [hfind]) (by simp [hfind])

theorem fleetAuthContextCommit_observed {fleet profileKey : String} {revision : Int}
    {spec : FleetSpec} (h : s.fleetAuthContextCommit fleet profileKey revision spec = .ok (.ok t)) :
    ObservedKept s t := by
  obtain ⟨context, -, rfl⟩ := fleetAuthContextCommit_ok h
  exact fleetAuthContextSetDesired_observed fleet profileKey revision context

theorem fleetAuthContextRefreshFence_observed {fleet : String}
    (h : s.fleetAuthContextRefreshFence fleet = .ok t) : ObservedKept s t := by
  unfold fleetAuthContextRefreshFence at h
  cases hfind : s.contexts.find fleet with
  | none =>
    rw [hfind] at h
    cases h
    exact .refl s
  | some row =>
    rw [hfind] at h
    simp only [bind_eq_ok, okOr_eq_ok, pure_eq_ok] at h
    obtain ⟨head, -, rfl⟩ := h
    exact .put_context (by simp [hfind]) (by simp [hfind]) (by simp [hfind])

theorem fleetAuthContextBlock_observed {fleet : String}
    (h : s.fleetAuthContextBlock fleet = .ok t) : ObservedKept s t := by
  simp only [fleetAuthContextBlock, bind_eq_ok, okOr_eq_ok, pure_eq_ok] at h
  obtain ⟨row, hfind, rfl⟩ := h
  exact .put_context (by simp [hfind]) (by simp [hfind]) (by simp [hfind])

theorem fleetCommitRevision_observed {mutation : FleetMutation}
    (h : s.fleetCommitRevision mutation = .ok t) : ObservedKept s t := by
  obtain ⟨fleets, revisions, members, rfl⟩ := (fleetCommitRevision_ok h).others
  exact .of_tables rfl rfl

theorem handOver_observed {mutation : FleetMutation} (h : s.handOver mutation = .ok t) :
    ObservedKept s t := by
  unfold handOver at h
  split at h
  · cases h
    exact .refl s
  · next profileKey _ _ =>
    simp only [bind_eq_ok, okOr_eq_ok] at h
    obtain ⟨⟨_, latest⟩, -, h⟩ := h
    split at h
    · cases h
      exact .refl s
    · simp only [bind_eq_ok, mapError_eq_ok] at h
      obtain ⟨committed, hcommitted, hok⟩ := h
      subst hok
      exact (handoffSetDesired_observed mutation.resourceKey profileKey latest.authDesired.2).trans
        (fleetAuthContextCommit_observed hcommitted)

theorem idempotencyStore_observed {facts : MutationFacts} (h : s.idempotencyStore facts = .ok t) :
    ObservedKept s t := by
  unfold idempotencyStore at h
  split at h
  · cases h
    exact .refl s
  · simp only [bind_eq_ok, pure_eq_ok] at h
    obtain ⟨idempotency, -, rfl⟩ := h
    exact .of_tables rfl rfl

theorem changeInsert_observed {id resourceKey : String} {revision : Int} {kind : ChangeKind}
    (h : s.changeInsert id resourceKey revision kind = .ok t) : ObservedKept s t := by
  obtain ⟨-, rfl⟩ := changeInsert_ok h
  exact .of_tables rfl rfl

theorem fleetMarkDecommissioning_observed {fleet incarnation : String} {revision : Int}
    (h : s.fleetMarkDecommissioning fleet incarnation revision = .ok t) : ObservedKept s t := by
  obtain ⟨head, -, -, -, rfl⟩ := fleetMarkDecommissioning_ok h
  exact .of_tables rfl rfl

theorem commitTail_observed {facts : MutationFacts} (h : s.commitTail facts = .ok t) :
    ObservedKept s t := by
  simp only [commitTail, bind_eq_ok, mapError_eq_ok] at h
  obtain ⟨changed, hchanged, hstored⟩ := h
  exact (changeInsert_observed hchanged).trans (idempotencyStore_observed hstored)

/-! ## Transactions that observe nothing -/

theorem commitFleetMutation_observed {mutation : FleetMutation}
    (h : s.commitFleetMutation mutation = .ok t) : ObservedKept s t := by
  simp only [commitFleetMutation, bind_eq_ok, mapError_eq_ok, ensure_eq_ok] at h
  obtain ⟨appended, happended, _, -, _, -, handed, hhanded, htail⟩ := h
  exact ((fleetCommitRevision_observed happended).trans (handOver_observed hhanded)).trans
    (commitTail_observed htail)

theorem commitFleetNoop_observed {facts : MutationFacts} (h : s.commitFleetNoop facts = .ok t) :
    ObservedKept s t := by
  simp only [commitFleetNoop, bind_eq_ok, mapError_eq_ok] at h
  obtain ⟨_, -, hstored⟩ := h
  exact idempotencyStore_observed hstored

theorem commitDecommission_observed {facts : MutationFacts} {authDesired : Option (String × Int)}
    (h : s.commitDecommission facts authDesired = .ok t) : ObservedKept s t := by
  simp only [commitDecommission, bind_eq_ok, mapError_eq_ok] at h
  obtain ⟨marked, hmarked, h⟩ := h
  have hstart := fleetMarkDecommissioning_observed hmarked
  split at h
  · exact hstart.trans (commitTail_observed h)
  · simp only [bind_eq_ok, mapError_eq_ok] at h
    obtain ⟨fenced, hfenced, htail⟩ := h
    have hend := (handoffSetCleanupOnly_observed (s := fenced) facts.resourceKey).trans
      (commitTail_observed htail)
    cases authDesired with
    | none => exact hstart.trans ((fleetAuthContextRefreshFence_observed hfenced).trans hend)
    | some reference =>
      have hdesired := handoffSetDesired_observed (s := marked) facts.resourceKey reference.1
        reference.2
      exact (hstart.trans hdesired).trans
        ((fleetAuthContextRefreshFence_observed hfenced).trans hend)

theorem retargetFleet_observed {key fleet : String} {revision : Int}
    (h : retargetFleet key revision s fleet = .ok t) : ObservedKept s t := by
  have hretarget := handoffRetargetDesired_observed (s := s) fleet key revision
  simp only [retargetFleet] at h
  split at h
  · cases h
    exact hretarget
  · split at h
    · cases h
      exact hretarget
    · simp only [bind_eq_ok, mapError_eq_ok] at h
      obtain ⟨committed, hcommitted, hok⟩ := h
      subst hok
      exact hretarget.trans (fleetAuthContextCommit_observed hcommitted)

theorem authAdvanceHead_observed {key : String} {revision : Int}
    (h : s.authAdvanceHead key revision = .ok t) : ObservedKept s t := by
  simp only [authAdvanceHead, bind_eq_ok, okOr_eq_ok] at h
  obtain ⟨profile, -, hfold⟩ := h
  exact foldlM_invariant (I := ObservedKept s)
    (fun mid fleet next hmid hnext => hmid.trans (retargetFleet_observed hnext)) hfold
    (.of_tables rfl rfl)

end ControlPlane

end Registry

end Shaula
