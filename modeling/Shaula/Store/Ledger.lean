import Shaula.Store.Recovery

/-! # The generation ledger

Advancing a generation's lifecycle state, the listener's runner activity, and the facts the daemon
records about a generation on the way: its runner identity, Create result, expiry and destroyed
resources.
-/

namespace Shaula

open Core Library Library.Outcome

variable {P : Platform} {s s' : Store}

namespace Store

def missing (id : Uuid) : StoreError := .corrupt ("generation " ++ id.text ++ " missing")

/-! ## Advancing -/

/-- The SELECT and the check of `generation_advance`. -/
def advanceCheck (s : Store) (id : Uuid) (next : GenerationState) : StoreResult Unit := do
  let g ← okOr (s.generations.find id) (missing id)
  ensure (transitionAllowed g.state next = true) (.conflict ("illegal lifecycle transition " ++
    g.state.asStrRepr ++ " -> " ++ next.asStrRepr))

/-- The UPDATE of `generation_advance`, which names the generation only. -/
def advanceWrite (s : Store) (id : Uuid) (next : GenerationState) (subphase : Option String)
    (now : Int) : StoreResult Store := do
  let _ ← okOr (s.generations.find id) .unavailable
  return s.setGeneration id fun g => { g with state := next, subphase := subphase, updatedAt := now }

/-- Enforces the lifecycle state machine at the persistence boundary, where nothing else is written
between the two statements. -/
def ledgerAdvance (s : Store) (id : Uuid) (next : GenerationState) (subphase : Option String)
    (now : Int) : StoreResult Store := do
  s.advanceCheck id next
  s.advanceWrite id next subphase now

/-- The control plane's advance: a terminal one first tries to complete the generation's worker,
and answers whether it did. -/
def generationAdvance (P : Platform) (s : Store) (id : Uuid) (next : GenerationState)
    (requestId : Uuid) (now : Int) : CoreResult (Store × Bool) := do
  let (s, completed) ← if next = .destroyed then
      (s.completeGeneration P id requestId now).mapError workerError
    else .ok (s, false)
  if completed then return (s, true)
  else do
    let s ← (s.ledgerAdvance id next none now).mapError coreErr
    return (s, false)

/-! ## Runner activity -/

/-- One UPDATE of the listener's activity: the exact runner in one of the source states. -/
def activityUpdate (fleet : String) (next : GenerationState) (froms : List GenerationState)
    (now : Int) (s : Store) (event : RunnerEvent) : Store :=
  if event.runnerId ≤ 0 then s
  else
    let generations := s.generations.update
      (fun _ g => g.fleetKey == fleet && g.githubRunnerId == some event.runnerId &&
        g.runnerName == event.runnerName && decide (g.state ∈ froms))
      fun g => { g with state := next, subphase := none, updatedAt := now }
    { s with generations }

/-- An observed start makes the exact generation busy and an observed completion retires it. -/
def listenerActivity (s : Store) (fleet : String) (started completed : List RunnerEvent)
    (now : Int) : Store :=
  let s := started.foldl (activityUpdate fleet .busy [.waitingOnline, .idle] now) s
  completed.foldl (activityUpdate fleet .retiring [.idle, .busy] now) s

/-! ## Recorded facts -/

def generationSetJit (s : Store) (id : Uuid) (jitPhase : String) (githubRunnerId : Option Int)
    (now : Int) : StoreResult Store := do
  let g ← okOr (s.generations.find id) (missing id)
  ensure (githubRunnerId = none ∨ (s.forgejoIdentities.find id).isNone)
    (.conflict "generation already has a Forgejo runner identity")
  ensure (∀ saved ∈ g.githubRunnerId, ∀ incoming ∈ githubRunnerId, saved = incoming)
    (.conflict "generation runner identity changed")
  return s.setGeneration id fun g => { g with
    jitPhase := some jitPhase
    githubRunnerId := githubRunnerId.or g.githubRunnerId
    updatedAt := now }

/-- Stores the Create result; the first one fixes when the generation was provisioned. -/
def generationSetResult (s : Store) (id : Uuid) (resultJson digest : String) (now : Int) :
    StoreResult Store := do
  let _ ← okOr (s.generations.find id) (missing id)
  return s.setGeneration id fun g => { g with
    shaulaResultJson := some resultJson
    shaulaResultDigest := some digest
    provisionedAt := some (g.provisionedAt.getD now)
    updatedAt := now }

/-- Requests expiry of a provisioned, live generation; answers whether it is requested. -/
def generationRequestExpiry (s : Store) (id : Uuid) (now : Int) : CoreResult (Store × Bool) := do
  let g ← okOr (s.generations.find id) (coreErr (missing id))
  if g.provisionedAt = none ∨ g.state = .createPending ∨ g.state = .quarantined ∨
      g.state = .destroyed then return (s, false)
  else if g.expiryRequestedAt = none then
    return (s.setGeneration id fun g => { g with expiryRequestedAt := some now }, true)
  else return (s, true)

/-- Records that an expiring generation's resources are gone. -/
def generationResourcesDestroyed (s : Store) (id : Uuid) (now : Int) : CoreResult Store := do
  let g ← okOr (s.generations.find id) (coreErr (missing id))
  ensure (g.expiryRequestedAt ≠ none ∧ g.state = .destroying)
    { code := .ownershipConflict, summary := "resource cleanup lacks expiry intent" }
  if g.resourcesDestroyedAt = none then
    return s.setGeneration id fun g => { g with resourcesDestroyedAt := some now }
  else return s

def generationSetForgejoRunner (s : Store) (id : Uuid) (runnerId : Int) (runnerUuid : String)
    (forgejo : Bool) (now : Int) : StoreResult Store := do
  ensure (0 < runnerId ∧ runnerUuid.toList.any (fun c => !c.isWhitespace) = true ∧
    runnerUuid.utf8ByteSize ≤ 128 ∧ runnerUuid.toList.all (fun c => !isControl c) = true)
    (.corrupt "invalid Forgejo runner identity")
  let g ← okOr (s.generations.find id) (missing id)
  ensure (forgejo = true) (.conflict "generation is not a Forgejo generation")
  ensure (g.githubRunnerId = none) (.conflict "generation already has a GitHub runner identity")
  match s.forgejoIdentities.find id with
  | some existing => do
    ensure (existing.runnerId = runnerId ∧ existing.runnerUuid = runnerUuid)
      (.conflict "generation Forgejo runner identity changed")
    return s
  | none =>
    let identity : ForgejoIdentity := { runnerId, runnerUuid, createdAt := now, updatedAt := now }
    return { s with forgejoIdentities := s.forgejoIdentities.put id identity }

def operationUpdateState (s : Store) (id state : String) (now : Int) : StoreResult Store := do
  let operation ← okOr (s.operations.find id) (.corrupt ("operation " ++ id ++ " missing"))
  let operation :=
    { operation with state := state, attempts := operation.attempts + 1, updatedAt := now }
  return { s with operations := s.operations.put id operation }

/-! ## What they change -/

theorem advanceCheck_ok {id : Uuid} {next : GenerationState} {u : Unit}
    (h : s.advanceCheck id next = .ok u) :
    ∃ g, (s.view id).generation = some g ∧ transitionAllowed g.state next = true := by
  simp only [advanceCheck, bind_eq_ok, okOr_eq_ok] at h
  obtain ⟨g, hg, hallowed⟩ := h
  exact ⟨g, hg, ensure_eq_ok.mp hallowed⟩

theorem advanceWrite_view {id : Uuid} {next : GenerationState} {subphase : Option String}
    {now : Int} {g : GenerationRow} (hg : (s.view id).generation = some g)
    (h : s.advanceWrite id next subphase now = .ok s') :
    s'.view = Function.update s.view id { s.view id with
      generation := some { g with state := next, subphase := subphase, updatedAt := now } } := by
  simp only [advanceWrite, bind_eq_ok, pure_eq_ok] at h
  obtain ⟨_, -, rfl⟩ := h
  rw [view_setGeneration, hg]
  rfl

theorem generationAdvance_changes {id : Uuid} {next : GenerationState} {requestId : Uuid}
    {now : Int} {b : Bool} (h : s.generationAdvance P id next requestId now = .ok (s', b)) :
    Changes P (.generationAdvance id next requestId now) id s s' := by
  have hledger : ∀ {s₁ : Store}, s₁ = s → (next = .destroyed → (s.view id).worker = none) →
      s₁.ledgerAdvance id next none now = .ok s' →
      Changes P (.generationAdvance id next requestId now) id s s' := by
    rintro s₁ rfl hworker hadvance
    simp only [ledgerAdvance, bind_eq_ok] at hadvance
    obtain ⟨_, hcheck, hwrite⟩ := hadvance
    obtain ⟨g, hg, hallowed⟩ := advanceCheck_ok hcheck
    exact .of_update (.advanced hg hallowed hworker) (advanceWrite_view hg hwrite)
  unfold generationAdvance at h
  split at h
  · next hnext =>
    subst hnext
    simp only [bind_eq_ok, mapError_eq_ok, Prod.exists] at h
    obtain ⟨s₁, completed, hcomplete, h⟩ := h
    rcases completeGeneration_ok hcomplete with ⟨rfl, hsame, hworker⟩ | ⟨rfl, hchanges⟩
    · simp only [Bool.false_eq_true, if_false, bind_eq_ok, mapError_eq_ok, pure_eq_ok,
        Prod.mk.injEq] at h
      obtain ⟨s₂, hadvance, rfl, -⟩ := h
      exact hledger hsame (fun _ => hworker) hadvance
    · simp only [if_true, pure_eq_ok, Prod.mk.injEq] at h
      obtain ⟨rfl, -⟩ := h
      exact hchanges
  · next hnext =>
    simp only [bind_eq_ok, Prod.exists] at h
    obtain ⟨s₁, completed, heq, h⟩ := h
    cases heq
    simp only [Bool.false_eq_true, if_false, bind_eq_ok, mapError_eq_ok, pure_eq_ok,
      Prod.mk.injEq] at h
    obtain ⟨s₂, hadvance, rfl, -⟩ := h
    exact hledger rfl (fun hyes => absurd hyes hnext) hadvance

/-- One activity update moves each generation by its own step. -/
theorem activityUpdate_view (fleet : String) (next : GenerationState)
    (froms : List GenerationState) (now : Int) (s : Store) (event : RunnerEvent) (id : Uuid) :
    (activityUpdate fleet next froms now s event).view id = { s.view id with
      generation := (s.view id).generation.map (activityStep fleet next froms now event) } := by
  unfold activityUpdate
  split
  · next hneg =>
    have hstep : activityStep fleet next froms now event = fun g => g := by
      funext g
      unfold activityStep
      rw [if_neg (by omega)]
    simp [hstep]
  · next hpos =>
    simp only [view, Table.find_update]
    congr 1
    cases s.generations.find id with
    | none => rfl
    | some g =>
      have hpos : 0 < event.runnerId := by omega
      simp only [Option.map_some, activityStep, hpos, true_and, Bool.and_eq_true, beq_iff_eq,
        decide_eq_true_eq, and_assoc]

theorem foldl_activityUpdate_view (fleet : String) (next : GenerationState)
    (froms : List GenerationState) (now : Int) (events : List RunnerEvent) (s : Store)
    (id : Uuid) :
    (events.foldl (activityUpdate fleet next froms now) s).view id = { s.view id with
      generation := (s.view id).generation.map fun g =>
        events.foldl (fun g event => activityStep fleet next froms now event g) g } := by
  induction events generalizing s with
  | nil => simp
  | cons event events ih =>
    rw [List.foldl_cons, ih, activityUpdate_view]
    simp [Function.comp_def]

theorem listenerActivity_change (s : Store) (fleet : String)
    (started completed : List RunnerEvent) (now : Int) (id : Uuid) :
    Change P id (.listenerActivity fleet started completed now) (s.view id)
      ((s.listenerActivity fleet started completed now).view id) := by
  have hview : (s.listenerActivity fleet started completed now).view id = { s.view id with
      generation := (s.view id).generation.map (activityRow fleet started completed now) } := by
    unfold listenerActivity
    rw [foldl_activityUpdate_view, foldl_activityUpdate_view]
    simp only [Option.map_map, Function.comp_def]
    rfl
  rw [hview]
  cases hg : (s.view id).generation with
  | none =>
    have hsame : { s.view id with generation := (none : Option GenerationRow) } = s.view id := by
      rw [← hg]
    simp only [Option.map_none, hsame]
    exact .same _ _
  | some g => exact .activity hg

theorem generationSetJit_changes {id : Uuid} {jitPhase : String} {githubRunnerId : Option Int}
    {now : Int} (h : s.generationSetJit id jitPhase githubRunnerId now = .ok s') :
    Changes P (.generationSetJit id jitPhase githubRunnerId now) id s s' := by
  simp only [generationSetJit, bind_eq_ok, okOr_eq_ok, pure_eq_ok] at h
  obtain ⟨g, hg, _, -, _, -, rfl⟩ := h
  have hg : (s.view id).generation = some g := hg
  refine .of_update (.jitSet hg) ?_
  rw [view_setGeneration, hg]
  rfl

theorem generationSetResult_changes {id : Uuid} {resultJson digest : String} {now : Int}
    (h : s.generationSetResult id resultJson digest now = .ok s') :
    Changes P (.generationSetResult id resultJson digest now) id s s' := by
  simp only [generationSetResult, bind_eq_ok, okOr_eq_ok, pure_eq_ok] at h
  obtain ⟨g, hg, rfl⟩ := h
  have hg : (s.view id).generation = some g := hg
  refine .of_update (.resultSet hg) ?_
  rw [view_setGeneration, hg]
  rfl

theorem generationRequestExpiry_changes {id : Uuid} {now : Int} {b : Bool}
    (h : s.generationRequestExpiry id now = .ok (s', b)) :
    Changes P (.generationRequestExpiry id now) id s s' := by
  simp only [generationRequestExpiry, bind_eq_ok, okOr_eq_ok] at h
  obtain ⟨g, hg, h⟩ := h
  have hg : (s.view id).generation = some g := hg
  split at h
  · cases pure_eq_ok.mp h
    exact .same rfl
  · split at h
    · next hnone =>
      cases pure_eq_ok.mp h
      refine .of_update (.expiryRequested hg hnone) ?_
      rw [view_setGeneration, hg]
      rfl
    · cases pure_eq_ok.mp h
      exact .same rfl

theorem generationResourcesDestroyed_changes {id : Uuid} {now : Int}
    (h : s.generationResourcesDestroyed id now = .ok s') :
    Changes P (.generationResourcesDestroyed id now) id s s' := by
  simp only [generationResourcesDestroyed, bind_eq_ok, okOr_eq_ok] at h
  obtain ⟨g, hg, _, hcheck, h⟩ := h
  have hg : (s.view id).generation = some g := hg
  obtain ⟨-, hstate⟩ := ensure_eq_ok.mp hcheck
  split at h
  · next hnone =>
    cases pure_eq_ok.mp h
    refine .of_update (.resourcesDestroyed hg hstate hnone) ?_
    rw [view_setGeneration, hg]
    rfl
  · cases pure_eq_ok.mp h
    exact .same rfl

theorem generationSetForgejoRunner_view {id : Uuid} {runnerId : Int} {runnerUuid : String}
    {forgejo : Bool} {now : Int}
    (h : s.generationSetForgejoRunner id runnerId runnerUuid forgejo now = .ok s') :
    s'.view = s.view := by
  simp only [generationSetForgejoRunner, bind_eq_ok, okOr_eq_ok] at h
  obtain ⟨_, -, g, -, _, -, _, -, h⟩ := h
  split at h
  · simp only [bind_eq_ok, pure_eq_ok] at h
    obtain ⟨_, -, rfl⟩ := h
    rfl
  · cases pure_eq_ok.mp h
    rfl

theorem operationUpdateState_view {id state : String} {now : Int}
    (h : s.operationUpdateState id state now = .ok s') : s'.view = s.view := by
  simp only [operationUpdateState, bind_eq_ok, okOr_eq_ok, pure_eq_ok] at h
  obtain ⟨_, -, rfl⟩ := h
  rfl

end Store

end Shaula
