import Shaula.Registry.Observed

/-! # Fleet heads

A head only moves forward: its revision never falls, a deletion marker and a tombstone stay, and the
row is never removed.  Fleet mutations, deletions, token rotations, observations and tombstones are
all the statements that write a head.
-/

namespace Shaula

open Core Library Library.Outcome

namespace Registry

/-! ## Token rotation -/

namespace ControlPlane

variable (s : ControlPlane)

/-- A fleet that moves to the revision a token is promoted to. -/
structure TokenDependent where
  key : String
  head : FleetRow
  previous : FleetRevisionRow

/-- Whether a live fleet's desired revision uses an older revision of the candidate's profile.
`admits` gives the reason why the candidate cannot serve a fleet. -/
def tokenDependent (candidate : String × Int) (admits : FleetSpec → Option String)
    (fleet : String × FleetRow) : StoreResult (Option TokenDependent) :=
  match s.revisions.find (fleet.1, fleet.2.desiredRevision) with
  | none => .ok none
  | some previous =>
    if previous.authDesired.1 ≠ candidate.1 ∨ previous.authDesired.2 = candidate.2 then .ok none
    else
      match admits previous.spec with
      | some reason => .error (.policyDenied reason)
      | none => .ok (some ⟨fleet.1, fleet.2, previous⟩)

def authTokenDependents (candidate : String × Int) (admits : FleetSpec → Option String) :
    StoreResult (List TokenDependent) := do
  let live := s.fleets.rows.filter fun fleet => !fleet.2.tombstone && !fleet.2.deletionMarker
  let found ← live.mapM (s.tokenDependent candidate admits)
  return found.filterMap id

/-- Move one dependent fleet to a new revision on the promoted credential.  `changeId` is the fresh
id its change draws. -/
def rotateDependent (candidateRevision : Int) (changeId : String → String) (s : ControlPlane)
    (dependent : TokenDependent) : StoreResult ControlPlane := do
  let revision ← okOr (checkedAdd dependent.head.desiredRevision 1)
    (.corrupt "Fleet revision exhausted")
  let fence ← okOr (checkedAdd dependent.head.mutationFence 1) (.corrupt "Fleet fence exhausted")
  let revisions ← okOr (s.revisions.create (dependent.key, revision) { dependent.previous with
    authDesired := (dependent.previous.authDesired.1, candidateRevision) }) .unavailable
  let s := { s with
    revisions
    fleets := s.fleets.put dependent.key { dependent.head with
      desiredRevision := revision
      mutationFence := fence
      phase := .reconciling } }
  s.changeInsert (changeId dependent.key) dependent.key revision .authRotation

/-- Activate the candidate with its probe snapshot and move each dependent fleet to a new revision
on the promoted credential. -/
def authTokenCommit (candidate : String × Int) (revisionRow : AuthRevisionRow)
    (profile : AuthProfileRow) (snapshot : SnapshotDocument) (changeId : String → String)
    (dependents : List TokenDependent) : StoreResult ControlPlane :=
  dependents.foldlM (rotateDependent candidate.2 changeId) { s with
    authRevisions := s.authRevisions.put candidate { revisionRow with
      state := .active
      reason := none
      snapshot := some snapshot }
    auths := s.auths.put candidate.1 { profile with
      activeRevision := some candidate.2
      observedRevision := some candidate.2
      status := .active } }

/-- Promote a validated token: its dependents are read in the transaction that moves them. -/
def promoteToken (candidate : String × Int) (revisionRow : AuthRevisionRow)
    (profile : AuthProfileRow) (snapshot : SnapshotDocument) (admits : FleetSpec → Option String)
    (changeId : String → String) : StoreResult ControlPlane := do
  let dependents ← s.authTokenDependents candidate admits
  s.authTokenCommit candidate revisionRow profile snapshot changeId dependents

/-! ## Observations -/

inductive FleetObservationPhase where
  | reconciling
  | ready
  | degraded
  deriving DecidableEq, Repr

def FleetObservationPhase.fleetPhase : FleetObservationPhase → FleetPhase
  | reconciling => .reconciling
  | ready => .ready
  | degraded => .degraded

/-- How an observation progresses the open changes of its revision. -/
def FleetObservationPhase.changeState : FleetObservationPhase → ChangeState
  | reconciling => .running
  | ready => .succeeded
  | degraded => .blocked

/-- The guard of an observation is the current head's; a tombstoned fleet takes none. -/
def observationGuard (head : FleetRow) (guard : FleetRuntimeGuard) : Bool :=
  head.incarnation = guard.incarnation ∧ head.desiredRevision = guard.desiredRevision ∧
    head.mutationFence = guard.mutationFence ∧ ¬ head.tombstone

/-- `fleet_set_observed`.  `sessionCurrent` is what the session checks of a serving fleet find. -/
def fleetSetObserved (key : String) (guard : FleetRuntimeGuard) (phase : FleetObservationPhase)
    (sessionCurrent : Bool) : StoreResult (ControlPlane × Bool) := do
  let head ← okOr (s.fleets.find key) (.corrupt "fleet observation head missing")
  if observationGuard head guard = false then return (s, false)
  else if head.deletionMarker then
    -- a marker without its change is no real deletion
    if (s.changes.rows.any fun change => change.2.fleetKey = key ∧
        change.2.revision = guard.desiredRevision ∧ change.2.kind = .decommission) = false then
      return (s, false)
    else
      return ({ s with
        fleets := s.fleets.put key { head with
          observedRevision := guard.desiredRevision
          phase := if phase = .ready then .decommissioned else head.phase
          tombstone := head.tombstone || decide (phase = .ready) }
        changes := s.changes.update
          (fun _ change => change.fleetKey = key ∧ change.revision ≤ guard.desiredRevision ∧
            change.state.isOpen)
          fun change => { change with state := phase.changeState } }, true)
  else if sessionCurrent = false then return (s, false)
  else
    return ({ s with
      fleets := s.fleets.put key { head with
        observedRevision := guard.desiredRevision
        phase := phase.fleetPhase }
      changes := s.changes.update
        (fun _ change => change.fleetKey = key ∧ change.revision = guard.desiredRevision ∧
          change.state.isOpen)
        fun change => { change with state := phase.changeState } }, true)

end ControlPlane

/-! ## Forward motion -/

/-- A head moved forward, if at all. -/
structure FleetRow.Follows (old new : FleetRow) : Prop where
  incarnation : new.incarnation = old.incarnation
  revision : old.desiredRevision ≤ new.desiredRevision
  marker : old.deletionMarker = true → new.deletionMarker = true
  tombstone : old.tombstone = true → new.tombstone = true

theorem FleetRow.Follows.refl (row : FleetRow) : row.Follows row :=
  ⟨rfl, Int.le_refl _, id, id⟩

theorem FleetRow.Follows.trans {a b c : FleetRow} (h : a.Follows b) (h' : b.Follows c) :
    a.Follows c where
  incarnation := h'.incarnation.trans h.incarnation
  revision := Int.le_trans h.revision h'.revision
  marker hmarker := h'.marker (h.marker hmarker)
  tombstone htombstone := h'.tombstone (h.tombstone htombstone)

/-- Every head of `s` is still there in `t`, where it was or further on. -/
def HeadsFollow (s t : ControlPlane) : Prop :=
  ∀ key old, s.fleets.find key = some old → ∃ new, t.fleets.find key = some new ∧ old.Follows new

namespace HeadsFollow

variable {s t u : ControlPlane}

theorem refl (s : ControlPlane) : HeadsFollow s s :=
  fun _ old hold => ⟨old, hold, .refl old⟩

theorem trans (h : HeadsFollow s t) (h' : HeadsFollow t u) : HeadsFollow s u := by
  intro key old hold
  obtain ⟨mid, hmid, hfirst⟩ := h key old hold
  obtain ⟨new, hnew, hsecond⟩ := h' key mid hmid
  exact ⟨new, hnew, hfirst.trans hsecond⟩

theorem of_fleets (h : t.fleets = s.fleets) : HeadsFollow s t := by
  intro key old hold
  exact ⟨old, h ▸ hold, .refl old⟩

/-- Writing one head. -/
theorem put {key : String} {row : FleetRow} (ht : t.fleets = s.fleets.put key row)
    (hrow : ∀ old, s.fleets.find key = some old → old.Follows row) : HeadsFollow s t := by
  intro other old hold
  rw [ht, Table.find_put]
  by_cases heq : other = key
  · subst heq
    exact ⟨row, if_pos rfl, hrow old hold⟩
  · exact ⟨old, (if_neg heq).trans hold, .refl old⟩

end HeadsFollow

namespace ControlPlane

variable {s t : ControlPlane}

/-! ## Statements that leave the heads alone -/

theorem changeInsert_fleets {id key : String} {revision : Int} {kind : ChangeKind}
    (h : s.changeInsert id key revision kind = .ok t) : t.fleets = s.fleets := by
  obtain ⟨-, rfl⟩ := changeInsert_ok h
  rfl

theorem idempotencyStore_fleets {facts : MutationFacts} (h : s.idempotencyStore facts = .ok t) :
    t.fleets = s.fleets := by
  unfold idempotencyStore at h
  split at h
  · cases h
    rfl
  · simp only [bind_eq_ok, pure_eq_ok] at h
    obtain ⟨idempotency, -, rfl⟩ := h
    rfl

theorem commitTail_fleets {facts : MutationFacts} (h : s.commitTail facts = .ok t) :
    t.fleets = s.fleets := by
  simp only [commitTail, bind_eq_ok, mapError_eq_ok] at h
  obtain ⟨changed, hchanged, hstored⟩ := h
  exact (idempotencyStore_fleets hstored).trans (changeInsert_fleets hchanged)

theorem handOver_fleets {mutation : FleetMutation} (h : s.handOver mutation = .ok t) :
    t.fleets = s.fleets := by
  unfold handOver at h
  split at h
  · cases h
    rfl
  · next profileKey _ _ =>
    simp only [bind_eq_ok, okOr_eq_ok] at h
    obtain ⟨⟨_, latest⟩, -, h⟩ := h
    split at h
    · cases h
      rfl
    · simp only [bind_eq_ok, mapError_eq_ok] at h
      obtain ⟨committed, hcommitted, hok⟩ := h
      subst hok
      obtain ⟨context, -, rfl⟩ := fleetAuthContextCommit_ok hcommitted
      obtain ⟨row, -, -, -, hset⟩ := fleetAuthContextSetDesired_eq
        (s := s.handoffSetDesired mutation.resourceKey profileKey latest.authDesired.2)
        mutation.resourceKey profileKey latest.authDesired.2 context
      obtain ⟨handoff, -, -, hhandoff⟩ := handoffSetDesired_eq (s := s) mutation.resourceKey
        profileKey latest.authDesired.2
      rw [hset, hhandoff]

theorem fleetAuthContextRefreshFence_fleets {key : String}
    (h : s.fleetAuthContextRefreshFence key = .ok t) : t.fleets = s.fleets := by
  unfold fleetAuthContextRefreshFence at h
  split at h
  · cases h
    rfl
  · simp only [bind_eq_ok, okOr_eq_ok, pure_eq_ok] at h
    obtain ⟨fleet, -, rfl⟩ := h
    rfl

/-! ## Statements that move a head -/

theorem commitFleetMutation_follows {mutation : FleetMutation}
    (h : s.commitFleetMutation mutation = .ok t) : HeadsFollow s t := by
  simp only [commitFleetMutation, bind_eq_ok, mapError_eq_ok] at h
  obtain ⟨appended, happended, _, -, _, -, handed, hhanded, htail⟩ := h
  obtain ⟨row, hrow, hput⟩ := (fleetCommitRevision_ok happended).head
  refine .put (((commitTail_fleets htail).trans (handOver_fleets hhanded)).trans hput) ?_
  intro old hold
  rw [hold] at hrow
  cases hrow with
  | advanced _ _ hrevision =>
    refine ⟨rfl, ?_, id, id⟩
    show old.desiredRevision ≤ mutation.revision
    omega

theorem commitFleetNoop_follows {facts : MutationFacts} (h : s.commitFleetNoop facts = .ok t) :
    HeadsFollow s t := by
  simp only [commitFleetNoop, bind_eq_ok, mapError_eq_ok] at h
  obtain ⟨_, -, hstored⟩ := h
  exact .of_fleets (idempotencyStore_fleets hstored)

/-- A committed deletion leaves its marker on the head, one revision further. -/
theorem commitDecommission_fleets {facts : MutationFacts} {authDesired : Option (String × Int)}
    (h : s.commitDecommission facts authDesired = .ok t) :
    ∃ current, s.fleets.find facts.resourceKey = some current ∧
      t.fleets = s.fleets.put facts.resourceKey { current with
        deletionMarker := true
        desiredRevision := current.desiredRevision + 1
        phase := .decommissioning
        mutationFence := current.mutationFence + 1 } := by
  simp only [commitDecommission, bind_eq_ok, mapError_eq_ok] at h
  obtain ⟨marked, hmarked, h⟩ := h
  obtain ⟨current, hcurrent, -, hrevision, rfl⟩ := fleetMarkDecommissioning_ok hmarked
  refine ⟨current, hcurrent, ?_⟩
  rw [hrevision]
  split at h
  · exact commitTail_fleets h
  · simp only [bind_eq_ok, mapError_eq_ok] at h
    obtain ⟨fenced, hfenced, htail⟩ := h
    obtain ⟨handoffs, hcleanup⟩ := handoffSetCleanupOnly_eq (s := fenced) facts.resourceKey
    have hfleets := fleetAuthContextRefreshFence_fleets hfenced
    rw [hcleanup] at htail
    refine (commitTail_fleets htail).trans (hfleets.trans ?_)
    split
    · next profileKey revision =>
      obtain ⟨row, -, -, hset⟩ := handoffSetDesired_eq (s := { s with
        fleets := s.fleets.put facts.resourceKey { current with
          deletionMarker := true
          desiredRevision := facts.revision
          phase := .decommissioning
          mutationFence := current.mutationFence + 1 } }) facts.resourceKey profileKey revision
      rw [hset]
    · rfl

theorem commitDecommission_follows {facts : MutationFacts} {authDesired : Option (String × Int)}
    (h : s.commitDecommission facts authDesired = .ok t) : HeadsFollow s t := by
  obtain ⟨current, hcurrent, hput⟩ := commitDecommission_fleets h
  refine .put hput ?_
  intro old hold
  cases Option.some.inj (hcurrent.symm.trans hold)
  refine ⟨rfl, ?_, fun _ => rfl, id⟩
  show current.desiredRevision ≤ current.desiredRevision + 1
  omega

theorem fleetSetTombstone_follows {key : String} (h : s.fleetSetTombstone key = .ok t) :
    HeadsFollow s t := by
  obtain ⟨current, hcurrent, rfl⟩ := fleetSetTombstone_ok h
  refine .put rfl ?_
  intro old hold
  cases Option.some.inj (hcurrent.symm.trans hold)
  exact ⟨rfl, Int.le_refl _, id, fun _ => rfl⟩

theorem fleetSetObserved_follows {key : String} {guard : FleetRuntimeGuard}
    {phase : FleetObservationPhase} {sessionCurrent b : Bool}
    (h : s.fleetSetObserved key guard phase sessionCurrent = .ok (t, b)) : HeadsFollow s t := by
  simp only [fleetSetObserved, bind_eq_ok, okOr_eq_ok] at h
  obtain ⟨head, hhead, h⟩ := h
  have hsame : ∀ old, s.fleets.find key = some old → old = head :=
    fun old hold => Option.some.inj (hold.symm.trans hhead)
  split at h
  · cases pure_eq_ok.mp h
    exact .refl s
  · split at h
    · split at h
      · cases pure_eq_ok.mp h
        exact .refl s
      · cases pure_eq_ok.mp h
        refine .put rfl ?_
        intro old hold
        rw [hsame old hold]
        refine ⟨rfl, Int.le_refl _, id, ?_⟩
        intro htombstone
        show (head.tombstone || decide (phase = .ready)) = true
        rw [htombstone, Bool.true_or]
    · split at h
      · cases pure_eq_ok.mp h
        exact .refl s
      · cases pure_eq_ok.mp h
        refine .put rfl ?_
        intro old hold
        rw [hsame old hold]
        exact ⟨rfl, Int.le_refl _, id, id⟩

/-! ## Rotations -/

theorem rotateDependent_follows {candidateRevision : Int} {changeId : String → String}
    {dependent : TokenDependent} (hhead : s.fleets.find dependent.key = some dependent.head)
    (h : rotateDependent candidateRevision changeId s dependent = .ok t) :
    HeadsFollow s t ∧ ∀ key, key ≠ dependent.key → t.fleets.find key = s.fleets.find key := by
  simp only [rotateDependent, bind_eq_ok, okOr_eq_ok] at h
  obtain ⟨revision, hrevision, fence, -, revisions, -, hchange⟩ := h
  have hfleets := changeInsert_fleets hchange
  cases checkedAdd_eq_some hrevision
  constructor
  · refine .put hfleets ?_
    intro old hold
    cases Option.some.inj (hhead.symm.trans hold)
    refine ⟨rfl, ?_, id, id⟩
    show dependent.head.desiredRevision ≤ dependent.head.desiredRevision + 1
    omega
  · intro key hne
    rw [hfleets]
    exact (Table.find_put ..).trans (if_neg hne)

/-- The dependents of a rotation are distinct fleets, each read as it is when its turn comes. -/
theorem rotate_follows {candidateRevision : Int} {changeId : String → String}
    {dependents : List TokenDependent} (hnodup : (dependents.map (·.key)).Nodup)
    (hheads : ∀ dependent ∈ dependents,
      s.fleets.find dependent.key = some dependent.head)
    (h : dependents.foldlM (rotateDependent candidateRevision changeId) s = .ok t) :
    HeadsFollow s t := by
  induction dependents generalizing s with
  | nil =>
    cases h
    exact .refl _
  | cons dependent rest ih =>
    simp only [List.foldlM_cons, bind_eq_ok] at h
    obtain ⟨mid, hmid, hrest⟩ := h
    rw [List.map_cons, List.nodup_cons] at hnodup
    obtain ⟨hfirst, hothers⟩ := rotateDependent_follows (hheads _ (List.mem_cons_self ..)) hmid
    refine hfirst.trans (ih hnodup.2 ?_ hrest)
    intro other hother
    have hne : other.key ≠ dependent.key := by
      intro heq
      exact hnodup.1 (heq ▸ List.mem_map_of_mem hother)
    rw [hothers other.key hne]
    exact hheads other (List.mem_cons_of_mem _ hother)

theorem tokenDependent_eq {candidate : String × Int} {admits : FleetSpec → Option String}
    {fleet : String × FleetRow} {dependent : TokenDependent}
    (h : s.tokenDependent candidate admits fleet = .ok (some dependent)) :
    dependent.key = fleet.1 ∧ dependent.head = fleet.2 := by
  unfold tokenDependent at h
  split at h
  · cases h
  · split at h
    · cases h
    · split at h
      · cases h
      · cases h
        exact ⟨rfl, rfl⟩

/-- The dependents are some of the fleets looked at, in their order. -/
theorem dependents_sublist {candidate : String × Int} {admits : FleetSpec → Option String}
    {live : List (String × FleetRow)} {found : List (Option TokenDependent)}
    (h : List.Forall₂ (fun fleet dependent => s.tokenDependent candidate admits fleet =
      .ok dependent) live found) :
    ((found.filterMap id).map fun dependent => (dependent.key, dependent.head)).Sublist live := by
  induction h with
  | nil => exact List.Sublist.refl []
  | @cons fleet dependent live found hfleet _ ih =>
    cases dependent with
    | none =>
      rw [List.filterMap_cons_none rfl]
      exact ih.cons fleet
    | some dependent =>
      obtain ⟨hkey, hhead⟩ := tokenDependent_eq hfleet
      have hcons : (some dependent :: found).filterMap id = dependent :: found.filterMap id := rfl
      rw [hcons, List.map_cons, hkey, hhead]
      exact ih.cons_cons fleet

theorem nodup_fleetKeys (s : ControlPlane) : (s.fleets.rows.map Prod.fst).Nodup := by
  have heq : s.fleets.rows.map Prod.fst = s.fleets.entries.keys := by
    unfold Table.rows
    rw [List.map_map]
    rfl
  rw [heq]
  exact s.fleets.nodupKeys

theorem promoteToken_follows {candidate : String × Int} {revisionRow : AuthRevisionRow}
    {profile : AuthProfileRow} {snapshot : SnapshotDocument} {admits : FleetSpec → Option String}
    {changeId : String → String}
    (h : s.promoteToken candidate revisionRow profile snapshot admits changeId = .ok t) :
    HeadsFollow s t := by
  simp only [promoteToken, authTokenDependents, bind_eq_ok, pure_eq_ok] at h
  obtain ⟨_, ⟨found, hfound, rfl⟩, hcommit⟩ := h
  have hlive := dependents_sublist (mapM_eq_ok.mp hfound)
  have hrows := hlive.trans List.filter_sublist
  have hnodup : ((found.filterMap id).map (·.key)).Nodup := by
    have hkeys := (hrows.map Prod.fst).nodup s.nodup_fleetKeys
    rw [List.map_map] at hkeys
    exact hkeys
  have hheads : ∀ dependent ∈ found.filterMap id,
      s.fleets.find dependent.key = some dependent.head := by
    intro dependent hdependent
    have hmem := hrows.subset (List.mem_map_of_mem (f := fun dependent =>
      (dependent.key, dependent.head)) hdependent)
    exact Table.mem_rows.mp hmem
  unfold authTokenCommit at hcommit
  have hrotated := rotate_follows hnodup (by exact hheads) hcommit
  intro key old hold
  exact hrotated key old hold

end ControlPlane

end Registry

end Shaula
