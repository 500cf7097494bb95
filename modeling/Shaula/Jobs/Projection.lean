import Shaula.Jobs.Observation
import Mathlib.Data.List.ReduceOption
import Mathlib.Data.Finset.Dedup

/-! # Projection of observations

Order-independent observation reduction: source evidence, never arrival order, selects an episode.
The projection is a function of the set of observations, since every choice it makes is among
observations of one episode.
-/

namespace Shaula

namespace Jobs

/-! ## The reduction -/

/-- The value all present values agree on. -/
def unique {α : Type} [DecidableEq α] (values : List (Option α)) : Option α :=
  match values.reduceOption with
  | [] => none
  | first :: rest => if rest.all fun value => value == first then some first else none

def mergeMetadata (observations : List JobObservation) : JobMetadata where
  ownerName := unique (observations.map (·.metadata.ownerName))
  repositoryName := unique (observations.map (·.metadata.repositoryName))
  jobDisplayName := unique (observations.map (·.metadata.jobDisplayName))
  jobWorkflowRef := unique (observations.map (·.metadata.jobWorkflowRef))
  workflowRunId := unique (observations.map (·.metadata.workflowRunId))
  eventName := unique (observations.map (·.metadata.eventName))
  queueTime := unique (observations.map (·.metadata.queueTime))
  scaleSetAssignTime := unique (observations.map (·.metadata.scaleSetAssignTime))
  runnerAssignTime := unique (observations.map (·.metadata.runnerAssignTime))
  finishTime := unique (observations.map (·.metadata.finishTime))

/-- Both times are known, and the first is earlier. -/
def earlier : Option DateTime → Option DateTime → Bool
  | some left, some right => left < right
  | _, _ => false

def strictlyOlder (left right : JobObservation) : Bool :=
  match left.metadata.scaleSetAssignTime, right.metadata.scaleSetAssignTime with
  | some l, some r =>
    if l ≠ r then l < r
    else earlier left.metadata.runnerAssignTime right.metadata.runnerAssignTime
  | _, _ => earlier left.metadata.runnerAssignTime right.metadata.runnerAssignTime

def sameExecution (left right : JobObservation) : Bool :=
  let requestEvidence :=
    if left.runnerRequestId > 0 ∧ right.runnerRequestId > 0 then
      decide (left.runnerRequestId = right.runnerRequestId)
    else
      -- Two unknown requests need independent source episode evidence.
      decide (left.runnerRequestId = 0) && decide (right.runnerRequestId = 0) &&
        (decide (left = right) || left.metadata.scaleSetAssignTime.isSome ||
          left.metadata.runnerAssignTime.isSome)
  requestEvidence && left.runnerId.isSome && decide (left.runnerId = right.runnerId) &&
    left.generationId.isSome && decide (left.generationId = right.generationId) &&
    decide (left.metadata.scaleSetAssignTime = right.metadata.scaleSetAssignTime) &&
    decide (left.metadata.runnerAssignTime = right.metadata.runnerAssignTime)

def sameAssignment (left right : JobObservation) : Bool :=
  if left.runnerRequestId > 0 ∧ right.runnerRequestId > 0 then
    decide (left.runnerRequestId = right.runnerRequestId) &&
      decide (left.metadata.scaleSetAssignTime = right.metadata.scaleSetAssignTime)
  else
    -- The zero sentinel supplies no equality evidence.
    decide (left = right) || (left.metadata.scaleSetAssignTime.isSome &&
      decide (left.metadata.scaleSetAssignTime = right.metadata.scaleSetAssignTime))

def newestStart (starts : List JobObservation) : Option JobObservation :=
  starts.find? fun candidate =>
    starts.all fun other => sameExecution candidate other || strictlyOlder other candidate

/-- The completions of the current execution, unless one may be of another episode. -/
def completionsOf (current : JobObservation) : List JobObservation → Option (List JobObservation)
  | [] => some []
  | observation :: rest =>
    if observation.kind ≠ .completed then completionsOf current rest
    else if sameExecution current observation then
      (completionsOf current rest).map (observation :: ·)
    -- Its arrival order cannot settle which episode it completes.
    else if !strictlyOlder observation current then none
    else completionsOf current rest

/-- What completions of one execution report together. -/
def completionStatus (completions : List JobObservation) : ObservedStatus × Option String :=
  if completions.isEmpty then (.running, none)
  else
    let result := unique (completions.map (·.reportedResult))
    if completions.any fun o => o.reportedResult.isSome && decide (o.reportedResult ≠ result) then
      (.unknown, none)
    else (.completed, result)

/-- The status of the execution that `current` started. -/
def currentStatus (current : JobObservation) (observations : List JobObservation) :
    ObservedStatus × Option String :=
  let assignments := observations.filter fun o => o.kind = .assigned
  if assignments.any fun assignment => strictlyOlder current assignment then
    if assignments.any fun latest => strictlyOlder current latest &&
        observations.all fun other => decide (other.kind = .available) ||
          strictlyOlder other latest || sameAssignment other latest then
      (.assigned, none)
    else (.unknown, none)
  else if assignments.any fun assignment =>
      !sameAssignment current assignment && !strictlyOlder assignment current then
    (.unknown, none)
  else
    match completionsOf current observations with
    | none => (.unknown, none)
    | some completions => completionStatus completions

def withoutExecution (observations : List JobObservation) : ObservedStatus × Option String :=
  if observations.any fun o => o.kind = .started then (.unknown, none)
  else
    let completed := observations.filter fun o => o.kind = .completed
    if !completed.isEmpty then
      let withdrawn := completed.all fun o =>
        o.runnerId.isNone && decide (o.reportedResult = some "canceled")
      let newerAssignment := observations.any fun o => decide (o.kind = .assigned) &&
        completed.all fun previous => strictlyOlder previous o
      if newerAssignment then (.assigned, none)
      else if withdrawn then (.assignmentWithdrawn, some "canceled")
      else (.unknown, unique (completed.map (·.reportedResult)))
    else if observations.any fun o => o.kind = .assigned then (.assigned, none)
    else if observations.any fun o => o.kind = .available then (.queued, none)
    else (.unknown, none)

def executionStatus (observations : List JobObservation) : ObservedStatus × Option String :=
  let starts := observations.filter fun o =>
    decide (o.kind = .started) && decide (o.associationStatus = .verified)
  if starts.isEmpty then withoutExecution observations
  else
    match newestStart starts with
    | none => (.unknown, none)
    | some current => currentStatus current observations

def projectObservations (observations : List JobObservation) : JobProjection :=
  let conflict := observations.any fun left => decide (left.associationStatus = .ambiguous) ||
    observations.any fun right => left.metadata.identityConflicts right.metadata
  let execution := if conflict then (.unknown, none) else executionStatus observations
  { metadata := mergeMetadata observations
    observedStatus := execution.1
    reportedResult := execution.2
    associationStatus :=
      if conflict then .ambiguous
      else if observations.any fun o => o.associationStatus = .verified then .verified
      else .unverified }

/-! ## Lists with the same members -/

section Members

variable {α β : Type} {l l' : List α} {p q : α → Bool}

theorem any_congr (h : ∀ a, a ∈ l ↔ a ∈ l') (hpq : ∀ a ∈ l, p a = q a) : l.any p = l'.any q := by
  rw [Bool.eq_iff_iff, List.any_eq_true, List.any_eq_true]
  constructor
  · rintro ⟨a, ha, hp⟩
    exact ⟨a, (h a).mp ha, hpq a ha ▸ hp⟩
  · rintro ⟨a, ha, hq⟩
    have ha := (h a).mpr ha
    exact ⟨a, ha, (hpq a ha).symm ▸ hq⟩

theorem all_congr (h : ∀ a, a ∈ l ↔ a ∈ l') (hpq : ∀ a ∈ l, p a = q a) : l.all p = l'.all q := by
  rw [Bool.eq_iff_iff, List.all_eq_true, List.all_eq_true]
  constructor
  · intro hall a ha
    have ha := (h a).mpr ha
    rw [← hpq a ha]
    exact hall a ha
  · intro hall a ha
    rw [hpq a ha]
    exact hall a ((h a).mp ha)

theorem mem_filter_congr (h : ∀ a, a ∈ l ↔ a ∈ l') (a : α) : a ∈ l.filter p ↔ a ∈ l'.filter p := by
  rw [List.mem_filter, List.mem_filter, h a]

theorem mem_map_congr (h : ∀ a, a ∈ l ↔ a ∈ l') (f : α → β) (b : β) :
    b ∈ l.map f ↔ b ∈ l'.map f := by
  simp only [List.mem_map, h]

theorem isEmpty_congr (h : ∀ a, a ∈ l ↔ a ∈ l') : l.isEmpty = l'.isEmpty := by
  rw [Bool.eq_iff_iff, List.isEmpty_iff, List.isEmpty_iff, List.eq_nil_iff_forall_not_mem,
    List.eq_nil_iff_forall_not_mem]
  simp only [h]

theorem unique_eq_some [DecidableEq α] {values : List (Option α)} {a : α} :
    unique values = some a ↔ some a ∈ values ∧ ∀ b, some b ∈ values → b = a := by
  unfold unique
  have hmem : ∀ b, some b ∈ values ↔ b ∈ values.reduceOption := fun b =>
    List.reduceOption_mem_iff.symm
  simp only [hmem]
  cases values.reduceOption with
  | nil => simp
  | cons first rest =>
    simp only [List.all_eq_true, beq_iff_eq, Option.ite_none_right_eq_some, Option.some.injEq,
      List.mem_cons, forall_eq_or_imp]
    constructor
    · rintro ⟨hall, rfl⟩
      exact ⟨.inl rfl, rfl, hall⟩
    · rintro ⟨-, rfl, hall⟩
      exact ⟨hall, rfl⟩

theorem unique_congr [DecidableEq α] {values values' : List (Option α)}
    (h : ∀ v, v ∈ values ↔ v ∈ values') : unique values = unique values' := by
  apply Option.ext
  intro a
  simp only [unique_eq_some, h]

end Members

/-! ## Episodes -/

variable {observations observations' : List JobObservation} {current current' o o' : JobObservation}

/-- Observations that differ in nothing an execution is told apart by. -/
structure SameEpisode (o o' : JobObservation) : Prop where
  request : o.runnerRequestId = o'.runnerRequestId
  runner : o.runnerId = o'.runnerId
  generation : o.generationId = o'.generationId
  assigned : o.metadata.scaleSetAssignTime = o'.metadata.scaleSetAssignTime
  ran : o.metadata.runnerAssignTime = o'.metadata.runnerAssignTime

theorem sameExecution_episode (h : sameExecution o o' = true) : SameEpisode o o' := by
  simp only [sameExecution, Bool.and_eq_true, decide_eq_true_eq] at h
  obtain ⟨⟨⟨⟨⟨⟨hrequest, -⟩, hrunner⟩, -⟩, hgeneration⟩, hassigned⟩, hran⟩ := h
  refine ⟨?_, hrunner, hgeneration, hassigned, hran⟩
  split at hrequest
  · exact of_decide_eq_true hrequest
  · simp only [Bool.and_eq_true, decide_eq_true_eq] at hrequest
    exact hrequest.1.1.trans hrequest.1.2.symm

theorem earlier_asymm {a b : Option DateTime} (h : earlier a b = true) : earlier b a = false := by
  cases a with
  | none => cases h
  | some a =>
    cases b with
    | none => cases h
    | some b =>
      have hlt : (a : Int) < b := of_decide_eq_true h
      exact decide_eq_false (Int.not_lt_of_ge (Int.le_of_lt hlt))

theorem strictlyOlder_asymm (h : strictlyOlder o o' = true) : strictlyOlder o' o = false := by
  unfold strictlyOlder at h ⊢
  cases ho : o.metadata.scaleSetAssignTime with
  | none =>
    simp only [ho] at h
    cases ho' : o'.metadata.scaleSetAssignTime <;> exact earlier_asymm h
  | some t =>
    cases ho' : o'.metadata.scaleSetAssignTime with
    | none =>
      simp only [ho, ho'] at h
      exact earlier_asymm h
    | some t' =>
      simp only [ho, ho'] at h ⊢
      by_cases heq : t = t'
      · subst heq
        simp only [ne_eq, not_true_eq_false, if_false] at h ⊢
        exact earlier_asymm h
      · simp only [ne_eq, heq, Ne.symm heq, not_false_eq_true, if_true, decide_eq_true_eq,
          decide_eq_false_iff_not] at h ⊢
        exact Int.not_lt_of_ge (Int.le_of_lt h)

theorem SameEpisode.older_left (h : SameEpisode current current') (o : JobObservation) :
    strictlyOlder current o = strictlyOlder current' o := by
  simp only [strictlyOlder, h.assigned, h.ran]

theorem SameEpisode.older_right (h : SameEpisode current current') (o : JobObservation) :
    strictlyOlder o current = strictlyOlder o current' := by
  simp only [strictlyOlder, h.assigned, h.ran]

/-- Observations of another kind are told from an execution by its episode alone. -/
theorem SameEpisode.execution (h : SameEpisode current current') (ho : current.kind ≠ o.kind)
    (ho' : current'.kind ≠ o.kind) : sameExecution current o = sameExecution current' o := by
  have hne : current ≠ o := fun heq => ho (heq ▸ rfl)
  have hne' : current' ≠ o := fun heq => ho' (heq ▸ rfl)
  simp only [sameExecution, h.request, h.runner, h.generation, h.assigned, h.ran, hne, hne']

theorem SameEpisode.assignment (h : SameEpisode current current') (ho : current.kind ≠ o.kind)
    (ho' : current'.kind ≠ o.kind) : sameAssignment current o = sameAssignment current' o := by
  have hne : current ≠ o := fun heq => ho (heq ▸ rfl)
  have hne' : current' ≠ o := fun heq => ho' (heq ▸ rfl)
  simp only [sameAssignment, h.request, h.assigned, hne, hne']

/-! ## The newest start -/

/-- No start is of another episode than the newest one, or newer. -/
theorem newestStart_eq_some {starts : List JobObservation} (h : newestStart starts = some current) :
    current ∈ starts ∧
      ∀ other ∈ starts, sameExecution current other = true ∨ strictlyOlder other current = true := by
  have hall := List.find?_some h
  refine ⟨List.mem_of_find?_eq_some h, fun other hother => ?_⟩
  have := List.all_eq_true.mp hall other hother
  rwa [Bool.or_eq_true] at this

/-- Whichever start is found first, its episode is the same. -/
theorem newestStart_episode {starts starts' : List JobObservation}
    (hmem : ∀ o, o ∈ starts ↔ o ∈ starts') (h : newestStart starts = some current)
    (h' : newestStart starts' = some current') : SameEpisode current current' := by
  obtain ⟨hc, hnewest⟩ := newestStart_eq_some h
  obtain ⟨hc', hnewest'⟩ := newestStart_eq_some h'
  rcases hnewest current' ((hmem current').mpr hc') with hsame | holder
  · exact sameExecution_episode hsame
  · rcases hnewest' current ((hmem current).mp hc) with hsame | holder'
    · have hepisode := sameExecution_episode hsame
      exact ⟨hepisode.request.symm, hepisode.runner.symm, hepisode.generation.symm,
        hepisode.assigned.symm, hepisode.ran.symm⟩
    · exact absurd holder' (by rw [strictlyOlder_asymm holder]; exact Bool.false_ne_true)

theorem newestStart_isSome_congr {starts starts' : List JobObservation}
    (hmem : ∀ o, o ∈ starts ↔ o ∈ starts') :
    (newestStart starts).isSome = (newestStart starts').isSome := by
  have hall : ∀ candidate : JobObservation,
      (starts.all fun other => sameExecution candidate other || strictlyOlder other candidate) =
        starts'.all fun other => sameExecution candidate other || strictlyOlder other candidate :=
    fun candidate => all_congr hmem fun _ _ => rfl
  rw [Bool.eq_iff_iff, newestStart, newestStart, List.find?_isSome, List.find?_isSome]
  simp only [hmem, hall]

/-! ## Order independence -/

/-- The loop over completions is a test and a filter. -/
theorem completionsOf_eq (current : JobObservation) (observations : List JobObservation) :
    completionsOf current observations =
      if observations.any fun o => decide (o.kind = .completed) && !sameExecution current o &&
          !strictlyOlder o current then none
      else some (observations.filter fun o =>
        decide (o.kind = .completed) && sameExecution current o) := by
  induction observations with
  | nil => rfl
  | cons o rest ih =>
    simp only [completionsOf, ih, List.any_cons, List.filter_cons]
    by_cases hkind : o.kind = .completed
    · by_cases hsame : sameExecution current o = true
      · simp only [hkind, hsame]
        by_cases hblocked : (rest.any fun o => decide (o.kind = .completed) &&
            !sameExecution current o && !strictlyOlder o current) = true
        · simp [hblocked]
        · simp [hblocked]
      · by_cases holder : strictlyOlder o current = true <;> simp_all
    · simp [hkind]

theorem completionStatus_congr {completions completions' : List JobObservation}
    (hmem : ∀ o, o ∈ completions ↔ o ∈ completions') :
    completionStatus completions = completionStatus completions' := by
  have hresult := unique_congr (mem_map_congr hmem fun o : JobObservation => o.reportedResult)
  have hdisagree : ∀ result : Option String,
      (completions.any fun o => o.reportedResult.isSome && decide (o.reportedResult ≠ result)) =
        completions'.any fun o => o.reportedResult.isSome && decide (o.reportedResult ≠ result) :=
    fun result => any_congr hmem fun _ _ => rfl
  simp only [completionStatus, isEmpty_congr hmem, hresult, hdisagree]

/-- The status depends on the members and on the episode of the current start. -/
theorem currentStatus_congr (hmem : ∀ o, o ∈ observations ↔ o ∈ observations')
    (hepisode : SameEpisode current current') (hkind : current.kind = .started)
    (hkind' : current'.kind = .started) :
    currentStatus current observations = currentStatus current' observations' := by
  have hassignments := mem_filter_congr (p := fun o => decide (o.kind = .assigned)) hmem
  have hassigned : ∀ o ∈ observations.filter fun o => decide (o.kind = .assigned),
      sameAssignment current o = sameAssignment current' o := by
    intro o ho
    have ho : o.kind = .assigned := by simpa using (List.mem_filter.mp ho).2
    apply hepisode.assignment
    · rw [hkind, ho]
      exact nofun
    · rw [hkind', ho]
      exact nofun
  have hsame : ∀ o : JobObservation, o.kind = .completed →
      sameExecution current o = sameExecution current' o := by
    intro o ho
    apply hepisode.execution
    · rw [hkind, ho]
      exact nofun
    · rw [hkind', ho]
      exact nofun
  have hblocked : (observations.any fun o => decide (o.kind = .completed) &&
      !sameExecution current o && !strictlyOlder o current) =
      observations'.any fun o => decide (o.kind = .completed) &&
        !sameExecution current' o && !strictlyOlder o current' := by
    apply any_congr hmem
    intro o _
    by_cases ho : o.kind = .completed
    · rw [hsame o ho, hepisode.older_right o]
    · simp [ho]
  have hdone : ∀ o, o ∈ (observations.filter fun o =>
        decide (o.kind = .completed) && sameExecution current o) ↔
      o ∈ observations'.filter fun o =>
        decide (o.kind = .completed) && sameExecution current' o := by
    intro o
    simp only [List.mem_filter, hmem o, Bool.and_eq_true, decide_eq_true_eq]
    by_cases ho : o.kind = .completed
    · rw [hsame o ho]
    · simp [ho]
  have hnewer := any_congr (p := fun o => strictlyOlder current o) hassignments
    fun o _ => hepisode.older_left o
  have hlatest : ((observations.filter fun o => decide (o.kind = .assigned)).any fun latest =>
      strictlyOlder current latest && observations.all fun other =>
        decide (other.kind = .available) || strictlyOlder other latest ||
          sameAssignment other latest) =
      (observations'.filter fun o => decide (o.kind = .assigned)).any fun latest =>
        strictlyOlder current' latest && observations'.all fun other =>
          decide (other.kind = .available) || strictlyOlder other latest ||
            sameAssignment other latest := by
    apply any_congr hassignments
    intro latest _
    rw [hepisode.older_left latest, all_congr hmem fun _ _ => rfl]
  have hother : ((observations.filter fun o => decide (o.kind = .assigned)).any fun assignment =>
      !sameAssignment current assignment && !strictlyOlder assignment current) =
      (observations'.filter fun o => decide (o.kind = .assigned)).any fun assignment =>
        !sameAssignment current' assignment && !strictlyOlder assignment current' := by
    apply any_congr hassignments
    intro assignment hassignment
    rw [hassigned assignment hassignment, hepisode.older_right assignment]
  simp only [currentStatus, hnewer, hlatest, hother, completionsOf_eq, hblocked]
  by_cases hunsettled : (observations'.any fun o => decide (o.kind = .completed) &&
      !sameExecution current' o && !strictlyOlder o current') = true
  · simp only [hunsettled, if_true]
  · simp only [hunsettled, Bool.false_eq_true, if_false, completionStatus_congr hdone]

theorem withoutExecution_congr (hmem : ∀ o, o ∈ observations ↔ o ∈ observations') :
    withoutExecution observations = withoutExecution observations' := by
  have hcompleted := mem_filter_congr (p := fun o => decide (o.kind = .completed)) hmem
  have hkind : ∀ kind : ObservationKind, (observations.any fun o => decide (o.kind = kind)) =
      observations'.any fun o => decide (o.kind = kind) :=
    fun kind => any_congr hmem fun _ _ => rfl
  have hwithdrawn := all_congr
    (p := fun o => o.runnerId.isNone && decide (o.reportedResult = some "canceled"))
    hcompleted fun _ _ => rfl
  have hnewer : (observations.any fun o => decide (o.kind = .assigned) &&
      (observations.filter fun o => decide (o.kind = .completed)).all fun previous =>
        strictlyOlder previous o) =
      observations'.any fun o => decide (o.kind = .assigned) &&
        (observations'.filter fun o => decide (o.kind = .completed)).all fun previous =>
          strictlyOlder previous o := by
    apply any_congr hmem
    intro o _
    rw [all_congr hcompleted fun _ _ => rfl]
  simp only [withoutExecution, hkind, hwithdrawn, hnewer, isEmpty_congr hcompleted,
    unique_congr (mem_map_congr hcompleted _)]

theorem executionStatus_congr (hmem : ∀ o, o ∈ observations ↔ o ∈ observations') :
    executionStatus observations = executionStatus observations' := by
  have hstarts := mem_filter_congr (p := fun o =>
    decide (o.kind = .started) && decide (o.associationStatus = .verified)) hmem
  simp only [executionStatus, isEmpty_congr hstarts, withoutExecution_congr hmem]
  split
  · rfl
  · have hsome := newestStart_isSome_congr hstarts
    cases hnewest : newestStart (observations.filter fun o =>
        decide (o.kind = .started) && decide (o.associationStatus = .verified)) with
    | none =>
      cases hnewest' : newestStart (observations'.filter fun o =>
          decide (o.kind = .started) && decide (o.associationStatus = .verified)) with
      | none => rfl
      | some current' => simp [hnewest, hnewest'] at hsome
    | some current =>
      cases hnewest' : newestStart (observations'.filter fun o =>
          decide (o.kind = .started) && decide (o.associationStatus = .verified)) with
      | none => simp [hnewest, hnewest'] at hsome
      | some current' =>
        have hkind : ∀ {l : List JobObservation} {o : JobObservation},
            o ∈ (l.filter fun o =>
              decide (o.kind = .started) && decide (o.associationStatus = .verified)) →
            o.kind = .started := by
          intro l o ho
          have hstarted := (List.mem_filter.mp ho).2
          simp only [Bool.and_eq_true, decide_eq_true_eq] at hstarted
          exact hstarted.1
        exact currentStatus_congr hmem (newestStart_episode hstarts hnewest hnewest')
          (hkind (newestStart_eq_some hnewest).1) (hkind (newestStart_eq_some hnewest').1)

theorem mergeMetadata_congr (hmem : ∀ o, o ∈ observations ↔ o ∈ observations') :
    mergeMetadata observations = mergeMetadata observations' := by
  have hfield : ∀ {α : Type} [DecidableEq α] (field : JobObservation → Option α),
      unique (observations.map field) = unique (observations'.map field) :=
    fun field => unique_congr (mem_map_congr hmem field)
  simp only [mergeMetadata, hfield]

/-- The projection depends on which observations there are. -/
theorem projectObservations_congr (hmem : ∀ o, o ∈ observations ↔ o ∈ observations') :
    projectObservations observations = projectObservations observations' := by
  have hconflict : (observations.any fun left => decide (left.associationStatus = .ambiguous) ||
      observations.any fun right => left.metadata.identityConflicts right.metadata) =
      observations'.any fun left => decide (left.associationStatus = .ambiguous) ||
        observations'.any fun right => left.metadata.identityConflicts right.metadata := by
    apply any_congr hmem
    intro left _
    rw [any_congr hmem fun _ _ => rfl]
  have hverified := any_congr (p := fun o => decide (o.associationStatus = .verified)) hmem
    fun _ _ => rfl
  simp only [projectObservations, hconflict, hverified, mergeMetadata_congr hmem,
    executionStatus_congr hmem]

/-- **Order independence.**  The projection is a function of the set of observations: neither their
order nor their repetition matters. -/
theorem projection_of_set (h : observations.toFinset = observations'.toFinset) :
    projectObservations observations = projectObservations observations' := by
  apply projectObservations_congr
  intro o
  rw [← List.mem_toFinset, h, List.mem_toFinset]

/-- A verified observation of runner 42 in an episode. -/
def verified (id : String) (kind : ObservationKind) (result : Option String) : JobObservation where
  id := id
  kind := kind
  runnerRequestId := 7
  runnerId := some 42
  runnerName := some "runner-42"
  metadata := { JobMetadata.empty with scaleSetAssignTime := some 20 }
  reportedResult := result
  epoch := 1
  messageId := 1
  observedAt := 100
  generationId := some "generation-42"
  associationStatus := .verified

/-- A completion that arrives before its start, and a start that is repeated. -/
theorem projection_of_set_sample :
    projectObservations
        [verified "completed" .completed (some "succeeded"), verified "started" .started none,
          verified "started" .started none] =
      projectObservations
        [verified "started" .started none, verified "completed" .completed (some "succeeded")] :=
  projection_of_set (by decide)

example : (projectObservations [verified "completed" .completed (some "succeeded"),
    verified "started" .started none]).observedStatus = .completed := by
  decide

end Jobs

end Shaula
