import Shaula.Jobs.Projection
import Mathlib.Data.List.Find

/-! # Surrogate fields

An observation's id is drawn when it is stored, and its epoch, message and time say where and when
it was received.  The projection does not see them: lists of observations that agree in all else,
and repeat the same observations, are projected alike.
-/

namespace Shaula

namespace Jobs

/-- The observation without its surrogate id and without where and when it was received. -/
def JobObservation.erased (o : JobObservation) : JobObservation :=
  { o with id := "", epoch := 0, messageId := 0, observedAt := 0 }

/-- Two lists of observations, paired: each pair agrees up to the surrogate fields, and neither list
has an observation twice where the other has two. -/
structure Paired (pairs : List (JobObservation × JobObservation)) : Prop where
  erased : ∀ p ∈ pairs, p.1.erased = p.2.erased
  same : ∀ p ∈ pairs, ∀ q ∈ pairs, p.1 = q.1 ↔ p.2 = q.2

namespace Paired

variable {pairs : List (JobObservation × JobObservation)} {p q : JobObservation × JobObservation}

theorem filter (h : Paired pairs) (test : JobObservation × JobObservation → Bool) :
    Paired (pairs.filter test) where
  erased p hp := h.erased p (List.mem_filter.mp hp).1
  same p hp q hq := h.same p (List.mem_filter.mp hp).1 q (List.mem_filter.mp hq).1

section Fields

variable (h : Paired pairs) (hp : p ∈ pairs)

include h hp

theorem kind : p.1.kind = p.2.kind := by
  have h := congrArg JobObservation.kind (h.erased p hp)
  exact h

theorem request : p.1.runnerRequestId = p.2.runnerRequestId := by
  have h := congrArg JobObservation.runnerRequestId (h.erased p hp)
  exact h

theorem runner : p.1.runnerId = p.2.runnerId := by
  have h := congrArg JobObservation.runnerId (h.erased p hp)
  exact h

theorem metadata : p.1.metadata = p.2.metadata := by
  have h := congrArg JobObservation.metadata (h.erased p hp)
  exact h

theorem result : p.1.reportedResult = p.2.reportedResult := by
  have h := congrArg JobObservation.reportedResult (h.erased p hp)
  exact h

theorem generation : p.1.generationId = p.2.generationId := by
  have h := congrArg JobObservation.generationId (h.erased p hp)
  exact h

theorem association : p.1.associationStatus = p.2.associationStatus := by
  have h := congrArg JobObservation.associationStatus (h.erased p hp)
  exact h

theorem older (hq : q ∈ pairs) : strictlyOlder p.1 q.1 = strictlyOlder p.2 q.2 := by
  simp only [strictlyOlder, h.metadata hp, h.metadata hq]

theorem sameExecution (hq : q ∈ pairs) :
    Jobs.sameExecution p.1 q.1 = Jobs.sameExecution p.2 q.2 := by
  simp only [Jobs.sameExecution, h.request hp, h.request hq, h.runner hp, h.runner hq,
    h.generation hp, h.generation hq, h.metadata hp, h.metadata hq, h.same p hp q hq]

theorem sameAssignment (hq : q ∈ pairs) :
    Jobs.sameAssignment p.1 q.1 = Jobs.sameAssignment p.2 q.2 := by
  simp only [Jobs.sameAssignment, h.request hp, h.request hq, h.metadata hp, h.metadata hq,
    h.same p hp q hq]

end Fields

/-! Each function of the reduction takes paired lists to the same result. -/

theorem any (_h : Paired pairs) {f g : JobObservation → Bool}
    (hfg : ∀ p ∈ pairs, f p.1 = g p.2) :
    (pairs.map Prod.fst).any f = (pairs.map Prod.snd).any g := by
  rw [List.any_map, List.any_map]
  exact any_congr (fun _ => Iff.rfl) hfg

theorem all (_h : Paired pairs) {f g : JobObservation → Bool}
    (hfg : ∀ p ∈ pairs, f p.1 = g p.2) :
    (pairs.map Prod.fst).all f = (pairs.map Prod.snd).all g := by
  rw [List.all_map, List.all_map]
  exact all_congr (fun _ => Iff.rfl) hfg

theorem values (_h : Paired pairs) {α : Type} (field : JobObservation → α)
    (hfield : ∀ p ∈ pairs, field p.1 = field p.2) :
    (pairs.map Prod.fst).map field = (pairs.map Prod.snd).map field := by
  rw [List.map_map, List.map_map]
  exact List.map_congr_left hfield

/-- A filter that does not see the surrogate fields. -/
theorem filtered (_h : Paired pairs) {f : JobObservation → Bool}
    (hf : ∀ p ∈ pairs, f p.1 = f p.2) :
    (pairs.map Prod.fst).filter f = (pairs.filter fun p => f p.1).map Prod.fst ∧
      (pairs.map Prod.snd).filter f = (pairs.filter fun p => f p.1).map Prod.snd := by
  rw [List.filter_map, List.filter_map]
  refine ⟨rfl, ?_⟩
  rw [List.filter_congr (q := fun p => f p.1)]
  intro p hp
  exact (hf p hp).symm

theorem newestStart (h : Paired pairs) :
    (Jobs.newestStart (pairs.map Prod.fst) = none ∧ Jobs.newestStart (pairs.map Prod.snd) = none) ∨
      ∃ p ∈ pairs, Jobs.newestStart (pairs.map Prod.fst) = some p.1 ∧
        Jobs.newestStart (pairs.map Prod.snd) = some p.2 := by
  have htest : ∀ p ∈ pairs,
      ((pairs.map Prod.fst).all fun other =>
        Jobs.sameExecution p.1 other || strictlyOlder other p.1) =
      (pairs.map Prod.snd).all fun other =>
        Jobs.sameExecution p.2 other || strictlyOlder other p.2 := by
    intro p hp
    apply h.all
    intro q hq
    rw [h.sameExecution hp hq, h.older hq hp]
  unfold Jobs.newestStart
  rw [List.find?_map, List.find?_map]
  have hfind : pairs.find? ((fun candidate => (pairs.map Prod.snd).all fun other =>
        Jobs.sameExecution candidate other || strictlyOlder other candidate) ∘ Prod.snd) =
      pairs.find? ((fun candidate => (pairs.map Prod.fst).all fun other =>
        Jobs.sameExecution candidate other || strictlyOlder other candidate) ∘ Prod.fst) := by
    apply List.find?_congr
    intro p hp
    exact (htest p hp).symm
  rw [hfind]
  cases hfound : pairs.find? ((fun candidate => (pairs.map Prod.fst).all fun other =>
      Jobs.sameExecution candidate other || strictlyOlder other candidate) ∘ Prod.fst) with
  | none => exact .inl ⟨rfl, rfl⟩
  | some p => exact .inr ⟨p, List.mem_of_find?_eq_some hfound, rfl, rfl⟩

theorem completionStatus (h : Paired pairs) :
    Jobs.completionStatus (pairs.map Prod.fst) = Jobs.completionStatus (pairs.map Prod.snd) := by
  have hresults := h.values (fun o => o.reportedResult) fun p hp => h.result hp
  have hdisagree : ∀ result : Option String,
      ((pairs.map Prod.fst).any fun o =>
        o.reportedResult.isSome && decide (o.reportedResult ≠ result)) =
      (pairs.map Prod.snd).any fun o =>
        o.reportedResult.isSome && decide (o.reportedResult ≠ result) := by
    intro result
    apply h.any
    intro p hp
    rw [h.result hp]
  simp only [Jobs.completionStatus, List.isEmpty_map, hresults, hdisagree]

theorem currentStatus (h : Paired pairs) (hp : p ∈ pairs) :
    Jobs.currentStatus p.1 (pairs.map Prod.fst) = Jobs.currentStatus p.2 (pairs.map Prod.snd) := by
  obtain ⟨hleft, hright⟩ := h.filtered (f := fun o => decide (o.kind = .assigned))
    fun p hp => by rw [h.kind hp]
  have hassigned := h.filter fun p => decide (p.1.kind = .assigned)
  have hmem : ∀ q ∈ pairs.filter fun p => decide (p.1.kind = .assigned), q ∈ pairs :=
    fun q hq => (List.mem_filter.mp hq).1
  have hnewer := hassigned.any (f := fun o => strictlyOlder p.1 o)
    (g := fun o => strictlyOlder p.2 o) fun q hq => h.older hp (hmem q hq)
  have hlatest := hassigned.any
    (f := fun latest => strictlyOlder p.1 latest && (pairs.map Prod.fst).all fun other =>
      decide (other.kind = .available) || strictlyOlder other latest ||
        Jobs.sameAssignment other latest)
    (g := fun latest => strictlyOlder p.2 latest && (pairs.map Prod.snd).all fun other =>
      decide (other.kind = .available) || strictlyOlder other latest ||
        Jobs.sameAssignment other latest)
    fun q hq => by
      rw [h.older hp (hmem q hq)]
      congr 1
      apply h.all
      intro r hr
      rw [h.kind hr, h.older hr (hmem q hq), h.sameAssignment hr (hmem q hq)]
  have hother := hassigned.any
    (f := fun o => !Jobs.sameAssignment p.1 o && !strictlyOlder o p.1)
    (g := fun o => !Jobs.sameAssignment p.2 o && !strictlyOlder o p.2)
    fun q hq => by rw [h.sameAssignment hp (hmem q hq), h.older (hmem q hq) hp]
  have hblocked := h.any
    (f := fun o => decide (o.kind = .completed) && !Jobs.sameExecution p.1 o && !strictlyOlder o p.1)
    (g := fun o => decide (o.kind = .completed) && !Jobs.sameExecution p.2 o && !strictlyOlder o p.2)
    fun q hq => by rw [h.kind hq, h.sameExecution hp hq, h.older hq hp]
  have hdone : ((pairs.map Prod.fst).filter fun o =>
        decide (o.kind = .completed) && Jobs.sameExecution p.1 o) =
      (pairs.filter fun q => decide (q.1.kind = .completed) && Jobs.sameExecution p.1 q.1).map
        Prod.fst := by
    rw [List.filter_map]
    rfl
  have hdone' : ((pairs.map Prod.snd).filter fun o =>
        decide (o.kind = .completed) && Jobs.sameExecution p.2 o) =
      (pairs.filter fun q => decide (q.1.kind = .completed) && Jobs.sameExecution p.1 q.1).map
        Prod.snd := by
    rw [List.filter_map, List.filter_congr
      (q := fun q => decide (q.1.kind = .completed) && Jobs.sameExecution p.1 q.1)]
    intro q hq
    simp only [Function.comp_apply, h.kind hq, h.sameExecution hp hq]
  have hstatus := (h.filter fun q =>
    decide (q.1.kind = .completed) && Jobs.sameExecution p.1 q.1).completionStatus
  simp only [Jobs.currentStatus, hleft, hright, hnewer, hlatest, hother, completionsOf_eq, hblocked,
    hdone, hdone']
  by_cases hunsettled : ((pairs.map Prod.snd).any fun o =>
      decide (o.kind = .completed) && !Jobs.sameExecution p.2 o && !strictlyOlder o p.2) = true
  · simp only [hunsettled, if_true]
  · simp only [hunsettled, Bool.false_eq_true, if_false, hstatus]

theorem withoutExecution (h : Paired pairs) :
    Jobs.withoutExecution (pairs.map Prod.fst) = Jobs.withoutExecution (pairs.map Prod.snd) := by
  obtain ⟨hleft, hright⟩ := h.filtered (f := fun o => decide (o.kind = .completed))
    fun p hp => by rw [h.kind hp]
  have hcompleted := h.filter fun p => decide (p.1.kind = .completed)
  have hmem : ∀ q ∈ pairs.filter fun p => decide (p.1.kind = .completed), q ∈ pairs :=
    fun q hq => (List.mem_filter.mp hq).1
  have hkind : ∀ kind : ObservationKind, ((pairs.map Prod.fst).any fun o => decide (o.kind = kind)) =
      (pairs.map Prod.snd).any fun o => decide (o.kind = kind) := by
    intro kind
    apply h.any
    intro p hp
    rw [h.kind hp]
  have hwithdrawn := hcompleted.all
    (f := fun o => o.runnerId.isNone && decide (o.reportedResult = some "canceled"))
    (g := fun o => o.runnerId.isNone && decide (o.reportedResult = some "canceled"))
    fun q hq => by rw [h.runner (hmem q hq), h.result (hmem q hq)]
  have hnewer := h.any
    (f := fun o => decide (o.kind = .assigned) &&
      ((pairs.filter fun p => decide (p.1.kind = .completed)).map Prod.fst).all fun previous =>
        strictlyOlder previous o)
    (g := fun o => decide (o.kind = .assigned) &&
      ((pairs.filter fun p => decide (p.1.kind = .completed)).map Prod.snd).all fun previous =>
        strictlyOlder previous o)
    fun q hq => by
      rw [h.kind hq]
      congr 1
      apply hcompleted.all
      intro r hr
      exact h.older (hmem r hr) hq
  have hresults := hcompleted.values (fun o => o.reportedResult)
    fun q hq => h.result (hmem q hq)
  simp only [Jobs.withoutExecution, hkind, hleft, hright, hwithdrawn, hnewer, hresults,
    List.isEmpty_map]

theorem executionStatus (h : Paired pairs) :
    Jobs.executionStatus (pairs.map Prod.fst) = Jobs.executionStatus (pairs.map Prod.snd) := by
  obtain ⟨hleft, hright⟩ := h.filtered
    (f := fun o => decide (o.kind = .started) && decide (o.associationStatus = .verified))
    fun p hp => by rw [h.kind hp, h.association hp]
  have hstarts := h.filter fun p =>
    decide (p.1.kind = .started) && decide (p.1.associationStatus = .verified)
  simp only [Jobs.executionStatus, hleft, hright, List.isEmpty_map, h.withoutExecution]
  split
  · rfl
  · rcases hstarts.newestStart with ⟨hnone, hnone'⟩ | ⟨p, hp, hsome, hsome'⟩
    · simp only [hnone, hnone']
    · simp only [hsome, hsome']
      exact h.currentStatus (List.mem_filter.mp hp).1

/-- The projection does not see the surrogate fields. -/
theorem projectObservations (h : Paired pairs) :
    Jobs.projectObservations (pairs.map Prod.fst) =
      Jobs.projectObservations (pairs.map Prod.snd) := by
  have hconflict := h.any
    (f := fun left => decide (left.associationStatus = .ambiguous) ||
      (pairs.map Prod.fst).any fun right => left.metadata.identityConflicts right.metadata)
    (g := fun left => decide (left.associationStatus = .ambiguous) ||
      (pairs.map Prod.snd).any fun right => left.metadata.identityConflicts right.metadata)
    fun p hp => by
      rw [h.association hp]
      congr 1
      apply h.any
      intro q hq
      rw [h.metadata hp, h.metadata hq]
  have hverified := h.any (f := fun o => decide (o.associationStatus = .verified))
    (g := fun o => decide (o.associationStatus = .verified))
    fun p hp => by rw [h.association hp]
  have hmetadata : mergeMetadata (pairs.map Prod.fst) = mergeMetadata (pairs.map Prod.snd) := by
    have hfield : ∀ {α : Type} [DecidableEq α] (field : JobMetadata → Option α),
        unique ((pairs.map Prod.fst).map fun o => field o.metadata) =
          unique ((pairs.map Prod.snd).map fun o => field o.metadata) := by
      intro α _ field
      rw [h.values (fun o => field o.metadata) fun p hp => by rw [h.metadata hp]]
    simp only [mergeMetadata, hfield fun m => m.ownerName, hfield fun m => m.repositoryName,
      hfield fun m => m.jobDisplayName, hfield fun m => m.jobWorkflowRef,
      hfield fun m => m.workflowRunId, hfield fun m => m.eventName, hfield fun m => m.queueTime,
      hfield fun m => m.scaleSetAssignTime, hfield fun m => m.runnerAssignTime,
      hfield fun m => m.finishTime]
  simp only [Jobs.projectObservations, hconflict, hverified, hmetadata, h.executionStatus]

end Paired

end Jobs

end Shaula
