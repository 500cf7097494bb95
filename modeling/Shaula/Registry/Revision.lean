import Shaula.Registry.Schema

/-! # Fleet heads and revisions

The statements that append a fleet revision, mark a fleet for decommissioning and tombstone it, each
run inside the transaction of its caller.  Every one has a lemma saying what a success did.
-/

namespace Shaula

open Library Library.Outcome Core

namespace Registry

/-- Whether the member row of the current head already holds exactly this pin and these inputs. -/
def ResolvedTemplatePoolMember.retainedBy (member : ResolvedTemplatePoolMember)
    (rows : List ResolvedTemplatePoolMember) : Bool :=
  (rows.find? (·.key = member.key)).any fun old =>
    old.templateProfileKey = member.templateProfileKey ∧
      old.templateRevision = member.templateRevision ∧
      old.templateArtifactDigest = member.templateArtifactDigest ∧
      old.templateAttestationId = member.templateAttestationId ∧
      old.inputsDigest = member.inputsDigest ∧ old.templateInputs = member.templateInputs

namespace ControlPlane

variable (s : ControlPlane)

/-- The auth reference a new revision records: the profile's active revision, read in the
transaction. -/
def resolveAuthDesired (profileKey : String) : StoreResult (String × Int) :=
  if profileKey = "" then .ok ("", 0)
  else do
    let profile ← okOr (s.auths.find profileKey) (.conflict (profileKey ++ ":auth-profile-missing"))
    let revision ← okOr profile.activeRevision (.conflict (profileKey ++ ":auth-profile-not-active"))
    return (profileKey, revision)

/-- Insert one member row of a new revision.  A pin that is not the profile's active revision has to
be the one the current head of the fleet holds. -/
def insertMember (key : String) (revision : Int) (existing : Option FleetRow) (s : ControlPlane)
    (member : ResolvedTemplatePoolMember) : StoreResult ControlPlane := do
  ensure (member.weight ≠ 0 ∧ member.weight ≤ 10000)
    (.conflict (member.key ++ ":invalid-pool-weight"))
  let profile ← okOr (s.templates.find member.templateProfileKey)
    (.conflict (member.key ++ ":template-profile-missing"))
  ensure ((profile.deletionRequested = false ∧
      profile.activeRevision = some member.templateRevision) ∨
      (existing.any fun head => member.retainedBy (s.memberRows key head.desiredRevision)) = true)
    (.conflict (member.key ++ ":template-revision-not-active"))
  ensure (s.templateRevisions.find (member.templateProfileKey, member.templateRevision)).isSome
    (.conflict (member.key ++ ":template-revision-missing"))
  -- `UNIQUE (fleet_key, fleet_revision, member_key)`
  ensure (member.key ∉ (s.memberRows key revision).map (·.key)) .unavailable
  return { s with
    members := s.members.put (key, revision) (s.memberRows key revision ++ [member]) }

/-- Create or advance the head of a fleet to the revision being appended. -/
def advanceHead (mutation : FleetMutation) (existing : Option FleetRow) :
    StoreResult ControlPlane :=
  match existing with
  | none => .ok { s with
      fleets := s.fleets.put mutation.resourceKey {
        incarnation := mutation.incarnation
        desiredRevision := mutation.revision
        observedRevision := 0
        mutationFence := 1
        deletionMarker := false
        phase := .pending
        tombstone := false } }
  | some current => do
    ensure (current.incarnation = mutation.incarnation) (.conflict mutation.resourceKey)
    ensure (current.deletionMarker = false) (.conflict (mutation.resourceKey ++ ":decommissioning"))
    ensure (current.desiredRevision + 1 = mutation.revision)
      (.conflict (mutation.resourceKey ++ ":stale-desired-revision"))
    return { s with
      fleets := s.fleets.put mutation.resourceKey { current with
        desiredRevision := mutation.revision
        mutationFence := current.mutationFence + 1 } }

/-- Append an immutable revision and its member rows, then create or advance the head. -/
def fleetCommitRevision (mutation : FleetMutation) : StoreResult ControlPlane := do
  let key := mutation.resourceKey
  let authDesired ← s.resolveAuthDesired ((mutation.authDesired.map Prod.fst).getD "")
  let existing := s.fleets.find key
  -- `UNIQUE (fleet_key, revision)`
  let revisions ← okOr (s.revisions.create (key, mutation.revision) {
    incarnation := mutation.incarnation
    spec := mutation.spec
    template := mutation.template
    templatePoolRef := mutation.templatePoolRef
    authDesired
    inputsDigest := mutation.inputsDigest }) .unavailable
  let appended ← mutation.templatePool.foldlM (insertMember key mutation.revision existing)
    { s with revisions }
  appended.advanceHead mutation existing

/-- Mark a fleet for decommissioning: its head moves on without a revision of its own. -/
def fleetMarkDecommissioning (key incarnation : String) (newRevision : Int) :
    StoreResult ControlPlane := do
  let current ← okOr (s.fleets.find key) (.conflict (key ++ ":missing"))
  ensure (current.incarnation = incarnation ∧ current.desiredRevision + 1 = newRevision)
    (.conflict (key ++ ":stale-decommission"))
  return { s with
    fleets := s.fleets.put key { current with
      deletionMarker := true
      desiredRevision := newRevision
      phase := .decommissioning
      mutationFence := current.mutationFence + 1 } }

/-- Tombstone a fleet. -/
def fleetSetTombstone (key : String) : StoreResult ControlPlane := do
  let current ← okOr (s.fleets.find key) (.corrupt ("fleet " ++ key ++ " missing"))
  return { s with
    fleets := s.fleets.put key { current with
      tombstone := true
      phase := .decommissioned } }

/-- Record a change of a fleet. -/
def changeInsert (id key : String) (revision : Int) (kind : ChangeKind) :
    StoreResult ControlPlane := do
  let changes ← okOr (s.changes.create id {
    fleetKey := key
    revision
    kind
    state := .pending }) .unavailable
  return { s with changes }

variable {s} {t : ControlPlane}

/-! ## Member rows -/

theorem memberRows_put (key : String) (revision : Int) (rows : List ResolvedTemplatePoolMember)
    (k : String) (r : Int) :
    { s with members := s.members.put (key, revision) rows }.memberRows k r =
      if (k, r) = (key, revision) then rows else s.memberRows k r := by
  unfold memberRows
  rw [Table.find_put]
  by_cases h : (k, r) = (key, revision)
  · rw [if_pos h, if_pos h]
    rfl
  · rw [if_neg h, if_neg h]

theorem insertMember_ok {key : String} {revision : Int} {existing : Option FleetRow}
    {member : ResolvedTemplatePoolMember}
    (h : insertMember key revision existing s member = .ok t) :
    member.key ∉ (s.memberRows key revision).map (·.key) ∧
      t = { s with
        members := s.members.put (key, revision) (s.memberRows key revision ++ [member]) } := by
  simp only [insertMember, bind_eq_ok, ensure_eq_ok, pure_eq_ok] at h
  obtain ⟨_, -, _, -, _, -, _, -, _, hfresh, rfl⟩ := h
  exact ⟨hfresh, rfl⟩

/-- What inserting the members of one revision did. -/
structure InsertedMembers (key : String) (revision : Int) (pool : List ResolvedTemplatePoolMember)
    (s t : ControlPlane) : Prop where
  others : ∃ members, t = { s with members }
  rows : ∀ k r, t.memberRows k r =
    if (k, r) = (key, revision) then s.memberRows key revision ++ pool else s.memberRows k r
  nodup : (pool.map (·.key)).Nodup
  fresh : ∀ m ∈ pool, m.key ∉ (s.memberRows key revision).map (·.key)

theorem insertMembers_ok {key : String} {revision : Int} {existing : Option FleetRow}
    {pool : List ResolvedTemplatePoolMember}
    (h : pool.foldlM (insertMember key revision existing) s = .ok t) :
    InsertedMembers key revision pool s t := by
  induction pool generalizing s with
  | nil =>
    cases pure_eq_ok.mp h
    refine ⟨⟨_, rfl⟩, ?_, List.nodup_nil, nofun⟩
    intro k r
    by_cases hkey : (k, r) = (key, revision)
    · obtain ⟨rfl, rfl⟩ := Prod.mk.inj hkey
      simp
    · rw [if_neg hkey]
  | cons member rest ih =>
    rw [List.foldlM_cons] at h
    obtain ⟨next, hnext, hrest⟩ := bind_eq_ok.mp h
    obtain ⟨hfresh, rfl⟩ := insertMember_ok hnext
    have hrows := memberRows_put (s := s) key revision (s.memberRows key revision ++ [member])
    obtain ⟨⟨members, ht⟩, htail, hnodup, hfreshTail⟩ := ih hrest
    have hhere : ∀ m ∈ rest, m.key ∉ (s.memberRows key revision).map (·.key) ∧
        m.key ≠ member.key := by
      intro m hm
      have hm := hfreshTail m hm
      rw [hrows, if_pos rfl, List.map_append, List.mem_append, not_or] at hm
      exact ⟨hm.1, fun heq => hm.2 (heq ▸ List.mem_singleton.mpr rfl)⟩
    refine ⟨⟨members, ht⟩, ?_, ?_, ?_⟩
    · intro k r
      rw [htail, hrows, if_pos rfl, hrows]
      by_cases hkey : (k, r) = (key, revision)
      · rw [if_pos hkey, if_pos hkey, List.append_assoc]
        rfl
      · rw [if_neg hkey, if_neg hkey, if_neg hkey]
    · refine List.nodup_cons.mpr ⟨?_, hnodup⟩
      intro hmem
      obtain ⟨m, hm, heq⟩ := List.mem_map.mp hmem
      exact (hhere m hm).2 heq
    · intro m hm
      rcases List.mem_cons.mp hm with rfl | hm
      · exact hfresh
      · exact (hhere m hm).1

/-! ## Appended revisions -/

/-- The new head of a fleet whose head moves to a revision. -/
inductive HeadAdvanced (mutation : FleetMutation) : Option FleetRow → FleetRow → Prop
  | created {row : FleetRow} : row.incarnation = mutation.incarnation →
      row.desiredRevision = mutation.revision → row.mutationFence = 1 →
      row.deletionMarker = false → row.tombstone = false → HeadAdvanced mutation none row
  | advanced {current : FleetRow} : current.incarnation = mutation.incarnation →
      current.deletionMarker = false → current.desiredRevision + 1 = mutation.revision →
      HeadAdvanced mutation (some current) { current with
        desiredRevision := mutation.revision
        mutationFence := current.mutationFence + 1 }

/-- What appending a fleet revision did. -/
structure Appended (mutation : FleetMutation) (s t : ControlPlane) : Prop where
  others : ∃ fleets revisions members, t = { s with fleets, revisions, members }
  head : ∃ row, HeadAdvanced mutation (s.fleets.find mutation.resourceKey) row ∧
    t.fleets = s.fleets.put mutation.resourceKey row
  fresh : s.revisions.find (mutation.resourceKey, mutation.revision) = none
  revision : ∃ authDesired, authDesired.1 = (mutation.authDesired.map Prod.fst).getD "" ∧
    t.revisions = s.revisions.put (mutation.resourceKey, mutation.revision) {
      incarnation := mutation.incarnation
      spec := mutation.spec
      template := mutation.template
      templatePoolRef := mutation.templatePoolRef
      authDesired
      inputsDigest := mutation.inputsDigest }
  members : ∀ k r, t.memberRows k r =
    if (k, r) = (mutation.resourceKey, mutation.revision) then
      s.memberRows mutation.resourceKey mutation.revision ++ mutation.templatePool
    else s.memberRows k r
  nodup : (mutation.templatePool.map (·.key)).Nodup

theorem resolveAuthDesired_ok {profileKey : String} {authDesired : String × Int}
    (h : s.resolveAuthDesired profileKey = .ok authDesired) :
    authDesired.1 = profileKey ∧ (profileKey ≠ "" → ∃ profile, s.auths.find profileKey = some profile ∧
      profile.activeRevision = some authDesired.2) := by
  unfold resolveAuthDesired at h
  by_cases hempty : profileKey = ""
  · rw [if_pos hempty] at h
    cases h
    exact ⟨hempty.symm, fun hne => absurd hempty hne⟩
  · rw [if_neg hempty] at h
    simp only [bind_eq_ok, okOr_eq_ok, pure_eq_ok] at h
    obtain ⟨profile, hprofile, revision, hrevision, rfl⟩ := h
    exact ⟨rfl, fun _ => ⟨profile, hprofile, hrevision⟩⟩

theorem advanceHead_ok {mutation : FleetMutation} {existing : Option FleetRow}
    (h : s.advanceHead mutation existing = .ok t) :
    ∃ row, HeadAdvanced mutation existing row ∧
      t = { s with fleets := s.fleets.put mutation.resourceKey row } := by
  unfold advanceHead at h
  cases existing with
  | none =>
    cases h
    exact ⟨_, .created rfl rfl rfl rfl rfl, rfl⟩
  | some current =>
    simp only [bind_eq_ok, ensure_eq_ok, pure_eq_ok] at h
    obtain ⟨_, hincarnation, _, hmarker, _, hrevision, rfl⟩ := h
    exact ⟨_, .advanced hincarnation hmarker hrevision, rfl⟩

theorem fleetCommitRevision_ok {mutation : FleetMutation}
    (h : s.fleetCommitRevision mutation = .ok t) : Appended mutation s t := by
  simp only [fleetCommitRevision, bind_eq_ok, okOr_eq_ok, Table.create_eq_some] at h
  obtain ⟨authDesired, hauth, _, ⟨hfresh, rfl⟩, appended, hmembers, hhead⟩ := h
  obtain ⟨row, hadvanced, rfl⟩ := advanceHead_ok hhead
  obtain ⟨⟨members, rfl⟩, hrows, hnodup, -⟩ := insertMembers_ok hmembers
  exact {
    others := ⟨_, _, members, rfl⟩
    head := ⟨row, hadvanced, rfl⟩
    fresh := hfresh
    revision := ⟨authDesired, (resolveAuthDesired_ok hauth).1, rfl⟩
    members := hrows
    nodup := hnodup }

theorem fleetMarkDecommissioning_ok {key incarnation : String} {newRevision : Int}
    (h : s.fleetMarkDecommissioning key incarnation newRevision = .ok t) :
    ∃ current, s.fleets.find key = some current ∧ current.incarnation = incarnation ∧
      current.desiredRevision + 1 = newRevision ∧ t = { s with
        fleets := s.fleets.put key { current with
          deletionMarker := true
          desiredRevision := newRevision
          phase := .decommissioning
          mutationFence := current.mutationFence + 1 } } := by
  simp only [fleetMarkDecommissioning, bind_eq_ok, okOr_eq_ok, ensure_eq_ok, pure_eq_ok] at h
  obtain ⟨current, hcurrent, _, ⟨hincarnation, hrevision⟩, rfl⟩ := h
  exact ⟨current, hcurrent, hincarnation, hrevision, rfl⟩

theorem fleetSetTombstone_ok {key : String} (h : s.fleetSetTombstone key = .ok t) :
    ∃ current, s.fleets.find key = some current ∧ t = { s with
      fleets := s.fleets.put key { current with
        tombstone := true
        phase := .decommissioned } } := by
  simp only [fleetSetTombstone, bind_eq_ok, okOr_eq_ok, pure_eq_ok] at h
  obtain ⟨current, hcurrent, rfl⟩ := h
  exact ⟨current, hcurrent, rfl⟩

theorem changeInsert_ok {id key : String} {revision : Int} {kind : ChangeKind}
    (h : s.changeInsert id key revision kind = .ok t) :
    s.changes.find id = none ∧ t = { s with
      changes := s.changes.put id { fleetKey := key, revision, kind, state := .pending } } := by
  simp only [changeInsert, bind_eq_ok, okOr_eq_ok, pure_eq_ok, Table.create_eq_some] at h
  obtain ⟨_, ⟨hfresh, rfl⟩, rfl⟩ := h
  exact ⟨hfresh, rfl⟩

end ControlPlane

end Registry

end Shaula
