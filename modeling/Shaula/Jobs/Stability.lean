import Shaula.Jobs.Projection

/-! # Soundness and stability of the job status

What a settled status says about the observations, and why observations of earlier executions do
not change it.  `strictlyOlder` is no order, so everything is told from the newest start alone.
-/

namespace Shaula

namespace Jobs

variable {observations observations' : List JobObservation} {e e' o s : JobObservation}

/-! ## The current execution -/

/-- `e` started the current execution: every verified start is of that execution, or older. -/
structure CurrentExecution (e : JobObservation) (observations : List JobObservation) : Prop where
  mem : e ∈ observations
  started : e.kind = .started
  verified : e.associationStatus = .verified
  newest : ∀ other ∈ observations, other.kind = .started → other.associationStatus = .verified →
    sameExecution e other = true ∨ strictlyOlder other e = true

/-- The completed observations of the execution that `e` started. -/
def completionsFor (e : JobObservation) (observations : List JobObservation) :
    List JobObservation :=
  observations.filter fun o => decide (o.kind = .completed) && sameExecution e o

theorem mem_completionsFor :
    o ∈ completionsFor e observations ↔
      o ∈ observations ∧ o.kind = .completed ∧ sameExecution e o = true := by
  simp [completionsFor]

theorem strictlyOlder_irrefl (o : JobObservation) : strictlyOlder o o = false := by
  cases h : strictlyOlder o o with
  | false => rfl
  | true => exact (strictlyOlder_asymm h).symm.trans h |>.symm

/-- Observations of one execution are not ordered by time. -/
theorem SameEpisode.not_older (h : SameEpisode e o) : strictlyOlder o e = false := by
  rw [h.older_right o]
  exact strictlyOlder_irrefl o

theorem sameExecution_not_older (h : sameExecution e o = true) : strictlyOlder o e = false :=
  (sameExecution_episode h).not_older

/-- An older observation is not of the execution. -/
theorem not_sameExecution_of_older (h : strictlyOlder o e = true) : sameExecution e o = false := by
  by_contra hsame
  have hsame := Bool.eq_true_of_not_eq_false hsame
  rw [sameExecution_not_older hsame] at h
  cases h

theorem newestStart_current
    (h : newestStart (observations.filter fun o =>
      decide (o.kind = .started) && decide (o.associationStatus = .verified)) = some e) :
    CurrentExecution e observations := by
  obtain ⟨hmem, hnewest⟩ := newestStart_eq_some h
  simp only [List.mem_filter, Bool.and_eq_true, decide_eq_true_eq] at hmem hnewest
  exact ⟨hmem.1, hmem.2.1, hmem.2.2, fun other hother hstarted hverified =>
    hnewest other ⟨hother, hstarted, hverified⟩⟩

/-- A current execution is the one the reduction finds. -/
theorem CurrentExecution.newestStart (h : CurrentExecution e observations) :
    ∃ current, newestStart (observations.filter fun o =>
      decide (o.kind = .started) && decide (o.associationStatus = .verified)) = some current ∧
        SameEpisode current e := by
  let starts := observations.filter fun o =>
    decide (o.kind = .started) && decide (o.associationStatus = .verified)
  have hmem : e ∈ starts := by simp [starts, h.mem, h.started, h.verified]
  have hnewest : ∀ other ∈ starts, sameExecution e other = true ∨ strictlyOlder other e = true := by
    intro other hother
    simp only [starts, List.mem_filter, Bool.and_eq_true, decide_eq_true_eq] at hother
    exact h.newest other hother.1 hother.2.1 hother.2.2
  have hsome : (Jobs.newestStart starts).isSome = true := by
    rw [Jobs.newestStart, List.find?_isSome]
    refine ⟨e, hmem, ?_⟩
    rw [List.all_eq_true]
    intro other hother
    rw [Bool.or_eq_true]
    exact hnewest other hother
  obtain ⟨current, hcurrent⟩ := Option.isSome_iff_exists.mp hsome
  refine ⟨current, hcurrent, ?_⟩
  obtain ⟨hc, hall⟩ := newestStart_eq_some hcurrent
  rcases hall e hmem with hsame | holder
  · exact sameExecution_episode hsame
  · rcases hnewest current hc with hsame | holder'
    · have hepisode := sameExecution_episode hsame
      exact ⟨hepisode.request.symm, hepisode.runner.symm, hepisode.generation.symm,
        hepisode.assigned.symm, hepisode.ran.symm⟩
    · rw [strictlyOlder_asymm holder] at holder'
      cases holder'

/-- The status is the one of the current execution, whichever of its starts is taken. -/
theorem CurrentExecution.status (h : CurrentExecution e observations) :
    executionStatus observations = currentStatus e observations := by
  obtain ⟨current, hcurrent, hepisode⟩ := h.newestStart
  have hstarted := (newestStart_current hcurrent).started
  have hne : (observations.filter fun o =>
      decide (o.kind = .started) && decide (o.associationStatus = .verified)).isEmpty = false := by
    rw [List.isEmpty_eq_false_iff_exists_mem]
    exact ⟨current, (newestStart_eq_some hcurrent).1⟩
  simp only [executionStatus, hne, Bool.false_eq_true, if_false, hcurrent]
  exact currentStatus_congr (fun _ => Iff.rfl) hepisode hstarted h.started

/-! ## Settled executions -/

/-- Nothing observed may belong to a later episode than `e`. -/
structure Settled (e : JobObservation) (observations : List JobObservation) : Prop where
  newest : ∀ o ∈ observations, o.kind = .assigned → strictlyOlder e o = false
  assigned : ∀ o ∈ observations, o.kind = .assigned →
    sameAssignment e o = true ∨ strictlyOlder o e = true
  completed : ∀ o ∈ observations, o.kind = .completed →
    sameExecution e o = true ∨ strictlyOlder o e = true

theorem Settled.status (h : Settled e observations) :
    currentStatus e observations = completionStatus (completionsFor e observations) := by
  have hnewer : ((observations.filter fun o => decide (o.kind = .assigned)).any
      fun assignment => strictlyOlder e assignment) = false := by
    simp only [List.any_eq_false, List.mem_filter, decide_eq_true_eq, and_imp]
    intro o ho hassigned
    rw [h.newest o ho hassigned]
    exact Bool.false_ne_true
  have hother : ((observations.filter fun o => decide (o.kind = .assigned)).any fun assignment =>
      !sameAssignment e assignment && !strictlyOlder assignment e) = false := by
    simp only [List.any_eq_false, List.mem_filter, decide_eq_true_eq, and_imp]
    intro o ho hassigned
    rcases h.assigned o ho hassigned with hsame | holder
    · simp [hsame]
    · simp [holder]
  have hunsettled : (observations.any fun o => decide (o.kind = .completed) &&
      !sameExecution e o && !strictlyOlder o e) = false := by
    rw [List.any_eq_false]
    intro o ho
    by_cases hcompleted : o.kind = .completed
    · rcases h.completed o ho hcompleted with hsame | holder
      · simp [hsame]
      · simp [holder]
    · simp [hcompleted]
  simp only [currentStatus, hnewer, hother, completionsOf_eq, hunsettled, Bool.false_eq_true,
    if_false]
  rfl

/-- A status of Running or Completed is only given to a settled execution. -/
theorem settled_of_status (hstatus : (currentStatus e observations).1 = .running ∨
    (currentStatus e observations).1 = .completed) : Settled e observations := by
  by_cases hnewer : ((observations.filter fun o => decide (o.kind = .assigned)).any
      fun assignment => strictlyOlder e assignment) = true
  · exfalso
    simp only [currentStatus, hnewer, if_true] at hstatus
    split at hstatus <;> simp at hstatus
  by_cases hother : ((observations.filter fun o => decide (o.kind = .assigned)).any
      fun assignment => !sameAssignment e assignment && !strictlyOlder assignment e) = true
  · exfalso
    simp [currentStatus, hnewer, hother] at hstatus
  by_cases hunsettled : (observations.any fun o => decide (o.kind = .completed) &&
      !sameExecution e o && !strictlyOlder o e) = true
  · exfalso
    simp [currentStatus, hnewer, hother, completionsOf_eq, hunsettled] at hstatus
  simp only [Bool.not_eq_true, List.any_eq_false, List.mem_filter, decide_eq_true_eq, and_imp,
    Bool.and_eq_true, Bool.not_eq_true', not_and, Bool.not_eq_false] at hnewer hother hunsettled
  constructor
  · exact fun o ho hassigned => hnewer o ho hassigned
  · intro o ho hassigned
    by_cases hsame : sameAssignment e o = true
    · exact .inl hsame
    · exact .inr (hother o ho hassigned (Bool.eq_false_of_not_eq_true hsame))
  · intro o ho hcompleted
    by_cases hsame : sameExecution e o = true
    · exact .inl hsame
    · exact .inr (hunsettled o ho hcompleted (Bool.eq_false_of_not_eq_true hsame))

/-- An observation of an earlier execution settles nothing anew. -/
theorem Settled.cons (h : Settled e observations) (ho : strictlyOlder o e = true) :
    Settled e (o :: observations) := by
  constructor
  · intro x hx hassigned
    rcases List.mem_cons.mp hx with rfl | hx
    · exact strictlyOlder_asymm ho
    · exact h.newest x hx hassigned
  · intro x hx hassigned
    rcases List.mem_cons.mp hx with rfl | hx
    · exact .inr ho
    · exact h.assigned x hx hassigned
  · intro x hx hcompleted
    rcases List.mem_cons.mp hx with rfl | hx
    · exact .inr ho
    · exact h.completed x hx hcompleted

theorem completionsFor_cons (ho : strictlyOlder o e = true) :
    completionsFor e (o :: observations) = completionsFor e observations := by
  simp [completionsFor, not_sameExecution_of_older ho]

theorem CurrentExecution.cons (h : CurrentExecution e observations)
    (ho : strictlyOlder o e = true) : CurrentExecution e (o :: observations) := by
  refine ⟨List.mem_cons_of_mem o h.mem, h.started, h.verified, ?_⟩
  intro other hother hstarted hverified
  rcases List.mem_cons.mp hother with rfl | hother
  · exact .inr ho
  · exact h.newest other hother hstarted hverified

/-! ## What completions report -/

/-- All results reported for the execution that `e` started are one result. -/
def ResultsAgree (e : JobObservation) (observations : List JobObservation) : Prop :=
  ∀ o ∈ observations, ∀ o' ∈ observations, o.kind = .completed → o'.kind = .completed →
    sameExecution e o = true → sameExecution e o' = true →
      o.reportedResult.isSome → o'.reportedResult.isSome → o.reportedResult = o'.reportedResult

/-- A completed status rests on a completion, and on results that agree. -/
theorem completionStatus_completed {completions : List JobObservation}
    (h : (completionStatus completions).1 = .completed) :
    (∃ o, o ∈ completions) ∧ ∀ o ∈ completions, o.reportedResult.isSome →
      o.reportedResult = (completionStatus completions).2 := by
  by_cases hempty : completions.isEmpty = true
  · simp [completionStatus, hempty] at h
  have hmem : ∃ o, o ∈ completions := by
    rw [← List.isEmpty_eq_false_iff_exists_mem]
    exact Bool.eq_false_of_not_eq_true hempty
  refine ⟨hmem, ?_⟩
  by_cases hdisagree : (completions.any fun o => o.reportedResult.isSome &&
      decide (o.reportedResult ≠ unique (completions.map (·.reportedResult)))) = true
  · simp only [completionStatus, hempty, hdisagree, Bool.false_eq_true, if_false, if_true] at h
    cases h
  · have hresult : (completionStatus completions).2 =
        unique (completions.map (·.reportedResult)) := by
      simp only [completionStatus, hempty, hdisagree, Bool.false_eq_true, if_false]
    intro o ho hsome
    rw [hresult]
    rw [Bool.not_eq_true, List.any_eq_false] at hdisagree
    have := hdisagree o ho
    simpa [hsome] using this

/-! ## The projection -/

/-- Some observation is ambiguous, or two of them name different identities. -/
def conflicting (observations : List JobObservation) : Bool :=
  observations.any fun left => decide (left.associationStatus = .ambiguous) ||
    observations.any fun right => left.metadata.identityConflicts right.metadata

theorem projectObservations_status (observations : List JobObservation) :
    ((projectObservations observations).observedStatus,
        (projectObservations observations).reportedResult) =
      if conflicting observations then (.unknown, none) else executionStatus observations := rfl

theorem conflict_symm {α : Type} [DecidableEq α] (a b : Option α) : conflict a b = conflict b a := by
  cases a with
  | none => cases b <;> rfl
  | some a =>
    cases b with
    | none => rfl
    | some b => exact bne_comm

theorem conflict_self {α : Type} [DecidableEq α] (a : Option α) : conflict a a = false := by
  cases a with
  | none => rfl
  | some a => simp [conflict]

theorem identityConflicts_symm (m m' : JobMetadata) :
    m.identityConflicts m' = m'.identityConflicts m := by
  simp only [JobMetadata.identityConflicts, conflict_symm]

theorem identityConflicts_self (m : JobMetadata) : m.identityConflicts m = false := by
  simp only [JobMetadata.identityConflicts, conflict_self, Bool.or_false]

theorem conflicting_cons (hambiguous : o.associationStatus ≠ .ambiguous)
    (hidentity : ∀ x ∈ observations, o.metadata.identityConflicts x.metadata = false) :
    conflicting (o :: observations) = conflicting observations := by
  have hright : (observations.any fun right => o.metadata.identityConflicts right.metadata) =
      false := by
    rw [List.any_eq_false]
    intro x hx
    rw [hidentity x hx]
    exact Bool.false_ne_true
  have hleft : ∀ x ∈ observations,
      ((o :: observations).any fun right => x.metadata.identityConflicts right.metadata) =
        observations.any fun right => x.metadata.identityConflicts right.metadata := by
    intro x hx
    rw [List.any_cons, identityConflicts_symm, hidentity x hx, Bool.false_or]
  unfold conflicting
  rw [List.any_cons, List.any_cons, identityConflicts_self, hright]
  simp only [hambiguous, decide_false, Bool.or_false, Bool.false_or]
  apply any_congr (fun _ => Iff.rfl)
  intro x hx
  rw [hleft x hx]

/-- A status of Running or Completed is the status of a current, settled execution. -/
theorem current_of_status
    (h : (projectObservations observations).observedStatus = .running ∨
      (projectObservations observations).observedStatus = .completed) :
    conflicting observations = false ∧ ∃ e, CurrentExecution e observations := by
  have hstatus := projectObservations_status observations
  by_cases hconflict : conflicting observations = true
  · rw [if_pos hconflict] at hstatus
    have hunknown := congrArg Prod.fst hstatus
    simp only at hunknown
    rw [hunknown] at h
    simp at h
  rw [if_neg hconflict] at hstatus
  have hfirst := congrArg Prod.fst hstatus
  simp only at hfirst
  rw [hfirst] at h
  refine ⟨Bool.eq_false_of_not_eq_true hconflict, ?_⟩
  by_cases hempty : (observations.filter fun o =>
      decide (o.kind = .started) && decide (o.associationStatus = .verified)).isEmpty = true
  · simp only [executionStatus, hempty, if_true, withoutExecution] at h
    split at h
    · simp at h
    · split at h
      · split at h
        · simp at h
        · split at h <;> simp at h
      · split at h
        · simp at h
        · split at h <;> simp at h
  · cases hnewest : newestStart (observations.filter fun o =>
        decide (o.kind = .started) && decide (o.associationStatus = .verified)) with
    | none => simp [executionStatus, hempty, hnewest] at h
    | some e => exact ⟨e, newestStart_current hnewest⟩

/-- The status and result of a current execution without conflicts. -/
theorem CurrentExecution.projection (h : CurrentExecution e observations)
    (hconflict : conflicting observations = false) :
    ((projectObservations observations).observedStatus,
        (projectObservations observations).reportedResult) = currentStatus e observations := by
  rw [projectObservations_status, hconflict, if_neg Bool.false_ne_true, h.status]

theorem CurrentExecution.settled (h : CurrentExecution e observations)
    (hstatus : (projectObservations observations).observedStatus = .running ∨
      (projectObservations observations).observedStatus = .completed) :
    Settled e observations := by
  have hprojection := congrArg Prod.fst (h.projection (current_of_status hstatus).1)
  simp only at hprojection
  apply settled_of_status
  rwa [← hprojection]

/-- **Soundness and stability.**  A job is Completed only by a completion of the current, verified
execution, which no assignment has overtaken and whose reported results agree.  A job that is
Running or Completed has a current execution, and an observation older than it that raises no
conflict changes neither status nor result. -/
theorem status_sound_and_stable (observations : List JobObservation) :
    ((projectObservations observations).observedStatus = .completed →
      ∃ s ∈ observations, s.kind = .started ∧ s.associationStatus = .verified ∧
        (∃ c ∈ observations, c.kind = .completed ∧ sameExecution s c = true) ∧
        (∀ a ∈ observations, a.kind = .assigned → strictlyOlder s a = false) ∧
        ResultsAgree s observations) ∧
    ((projectObservations observations).observedStatus = .running ∨
        (projectObservations observations).observedStatus = .completed →
      (∃ e, CurrentExecution e observations) ∧
      ∀ e, CurrentExecution e observations → ∀ o : JobObservation,
        o.associationStatus ≠ .ambiguous →
        (∀ x ∈ observations, o.metadata.identityConflicts x.metadata = false) →
        strictlyOlder o e = true →
        ∀ observations' : List JobObservation,
          (∀ x, x ∈ observations' ↔ x = o ∨ x ∈ observations) →
          (projectObservations observations').observedStatus =
              (projectObservations observations).observedStatus ∧
            (projectObservations observations').reportedResult =
              (projectObservations observations).reportedResult) := by
  constructor
  · intro hcompleted
    obtain ⟨hconflict, s, hs⟩ := current_of_status (.inr hcompleted)
    have hsettled := hs.settled (.inr hcompleted)
    have hprojection := congrArg Prod.fst (hs.projection hconflict)
    simp only [hcompleted, hsettled.status] at hprojection
    obtain ⟨⟨c, hc⟩, hagree⟩ := completionStatus_completed hprojection.symm
    obtain ⟨hcmem, hckind, hcsame⟩ := mem_completionsFor.mp hc
    refine ⟨s, hs.mem, hs.started, hs.verified, ⟨c, hcmem, hckind, hcsame⟩, hsettled.newest, ?_⟩
    intro o ho o' ho' hkind hkind' hsame hsame' hsome hsome'
    have hleft := hagree o (mem_completionsFor.mpr ⟨ho, hkind, hsame⟩) hsome
    have hright := hagree o' (mem_completionsFor.mpr ⟨ho', hkind', hsame'⟩) hsome'
    exact hleft.trans hright.symm
  · intro hstatus
    obtain ⟨hconflict, hexists⟩ := current_of_status hstatus
    refine ⟨hexists, fun e he o hambiguous hidentity holder observations' hmem => ?_⟩
    have hsettled := he.settled hstatus
    have hcons : projectObservations observations' = projectObservations (o :: observations) := by
      apply projectObservations_congr
      intro x
      rw [hmem x, List.mem_cons]
    have hconflict' : conflicting (o :: observations) = false :=
      (conflicting_cons hambiguous hidentity).trans hconflict
    have hsame : currentStatus e (o :: observations) = currentStatus e observations := by
      rw [hsettled.status, (hsettled.cons holder).status, completionsFor_cons holder]
    have hbefore := he.projection hconflict
    have hafter := (he.cons holder).projection hconflict'
    rw [hsame, ← hbefore, Prod.mk.injEq] at hafter
    rw [hcons]
    exact hafter

/-- A late start of the previous run, and the completion of this one. -/
theorem status_sound_and_stable_sample :
    (projectObservations [{ verified "late" .started none with
        metadata := { JobMetadata.empty with scaleSetAssignTime := some 10 } },
      verified "started" .started none,
      verified "completed" .completed (some "succeeded")]).reportedResult = some "succeeded" := by
  have hstable := (status_sound_and_stable [verified "started" .started none,
    verified "completed" .completed (some "succeeded")]).2 (.inr (by decide))
  have hlate := hstable.2 (verified "started" .started none)
    ⟨by decide, by decide, by decide, by decide⟩
    { verified "late" .started none with
      metadata := { JobMetadata.empty with scaleSetAssignTime := some 10 } }
    (by decide) (by decide) (by decide) _ (fun _ => List.mem_cons)
  exact hlate.2.trans (by decide)

end Jobs

end Shaula
