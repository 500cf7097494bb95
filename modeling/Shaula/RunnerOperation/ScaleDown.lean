import Mathlib.Data.List.Infix
import Shaula.RunnerOperation.Destroy

/-! # Scale-down

The pass that retires idle generations beyond a target, in the drivers of the pool backends and in
the supervisor of the GitHub fleets.  Both take the generations in order, and with each the step of
its retirement, which may end or fail anywhere.
-/

namespace Shaula

open Core Library

namespace RunnerOperation

variable {runner : RunnerOperation} {now : Int}

/-! ## Steps -/

/-- A generation that a pass comes to: whether a destroy slot is granted for it, and how the step
of its retirement runs if it is taken. -/
structure Candidate (runner : RunnerOperation) (now : Int) where
  generation : GenerationRecord
  slot : Bool
  happened : List Operation
  result : Option (Except CoreError DestroyOutcome)
  ran : (runner.retire generation now).Ran happened result

namespace Candidate

/-- The outcome of the step; `none` is an error. -/
def outcome (c : Candidate runner now) : Option DestroyOutcome := c.result.bind Except.toOption

/-- Whether an effect moves generation `id` out of the effective states. -/
def movesOut (id : Uuid) : Operation → Bool
  | .generationAdvance other next _ => id == other && !next.countsEffective
  | _ => false

/-- Whether the step moves the generation out of the effective states. -/
def leaves (c : Candidate runner now) : Bool := c.happened.any (movesOut c.generation.id)

/-- Whether the generation is idle and its step ends with it destroyed. -/
def idleDestroyed (c : Candidate runner now) : Bool :=
  decide (c.generation.state = .idle) && decide (c.outcome = some .destroyed)

end Candidate

structure DestroyTally where
  destroyed : Nat
  quarantined : Nat
  deriving DecidableEq

def DestroyTally.record (tally : DestroyTally) : Option DestroyOutcome → DestroyTally
  | some .destroyed => { tally with destroyed := min (tally.destroyed + 1) (2 ^ 32 - 1) }
  | some .quarantined => { tally with quarantined := min (tally.quarantined + 1) (2 ^ 32 - 1) }
  | some .pending | none => tally

/-- What a pass did: the candidates whose step it took, and its tally unless the destroy scheduler
was stopped. -/
structure Pass (runner : RunnerOperation) (now : Int) where
  taken : List (Candidate runner now)
  tally : Option DestroyTally

/-- The pass with one more step before it. -/
def Pass.after (c : Candidate runner now) (pass : Pass runner now) : Pass runner now :=
  { pass with taken := c :: pass.taken }

/-- Whether a generation is idle and excess is the only ground to take it, beside the ground
`due`. -/
def onExcessOnly (due : GenerationRecord → Bool) (g : GenerationRecord) : Bool :=
  decide (g.state = .idle) && !due g

/-- Whether a step moves a generation out of the effective states on the ground of excess only. -/
def Candidate.drains (due : GenerationRecord → Bool) (c : Candidate runner now) : Bool :=
  onExcessOnly due c.generation && c.leaves

/-- The generations a pass moved out of the effective states on the ground of excess only. -/
def Pass.drained (due : GenerationRecord → Bool) (pass : Pass runner now) : Nat :=
  pass.taken.countP (·.drains due)

/-- The generations that count toward effective capacity. -/
def effectiveCount (generations : List GenerationRecord) : Nat :=
  generations.countP fun g => g.state.countsEffective

/-- `i64::saturating_sub` -/
def saturatingSub (a b : Int) : Int := max (-2 ^ 63) (min (2 ^ 63 - 1) (a - b))

/-! ## Pool fleets -/

/-- A waiting runner of a pool fleet holds infrastructure. -/
def idleDeadlineMs : Int := 600000

def resumable : GenerationState → Bool
  | .cleanupRequired | .retiring | .destroyPending | .destroying => true
  | _ => false

/-- Whether an idle generation is due whatever the target is: it is of another revision, or it
waited too long. -/
def overdue (desiredRevision now : Int) (g : GenerationRecord) : Bool :=
  decide (g.fleetRevision ≠ desiredRevision) ||
    decide (idleDeadlineMs ≤ saturatingSub now g.updatedAt)

/-- The loop of `destroy_excess`, with the idle removals that are left. -/
def destroyExcessLoop (desiredRevision : Int) :
    Nat → DestroyTally → List (Candidate runner now) → Pass runner now
  | _, tally, [] => ⟨[], some tally⟩
  | idleRemovals, tally, c :: rest =>
    let idle := decide (c.generation.state = .idle) &&
      (decide (0 < idleRemovals) || overdue desiredRevision now c.generation)
    let retiringRevision := decide (c.generation.state = .waitingOnline) &&
      decide (c.generation.fleetRevision ≠ desiredRevision)
    if !resumable c.generation.state && !idle && !retiringRevision then
      destroyExcessLoop desiredRevision idleRemovals tally rest
    else if c.slot = false then ⟨[], none⟩
    else
      let left := if c.outcome = some .destroyed then idleRemovals - idle.toNat else idleRemovals
      (destroyExcessLoop desiredRevision left (tally.record c.outcome) rest).after c

def destroyExcess (desiredRevision : Int) (target : Nat) (candidates : List (Candidate runner now)) :
    Pass runner now :=
  let effective := effectiveCount (candidates.map (·.generation))
  destroyExcessLoop desiredRevision (effective - target) ⟨0, 0⟩ candidates

/-! ## GitHub fleets -/

/-- A generation that needs cleanup joins the destroy chain after a grace. -/
def cleanupGraceMs : Int := 60000

/-- Whether a generation is of an older revision. -/
def superseded (currentRevision : Option Int) (g : GenerationRecord) : Bool :=
  currentRevision.any (g.fleetRevision < ·)

def selected (excess : Int) (currentRevision : Option Int) (now : Int) (g : GenerationRecord) :
    Bool :=
  match g.state with
  | .retiring | .destroyPending | .destroying => true
  | .cleanupRequired => decide (cleanupGraceMs ≤ saturatingSub now g.updatedAt)
  | .idle => decide (0 < excess) || superseded currentRevision g
  | _ => false

def retireExcessLoop (currentRevision : Option Int) :
    Int → DestroyTally → List (Candidate runner now) → Pass runner now
  | _, tally, [] => ⟨[], some tally⟩
  | excess, tally, c :: rest =>
    if !selected excess currentRevision now c.generation then
      retireExcessLoop currentRevision excess tally rest
    else
      let left := if c.generation.state = .idle then excess - 1 else excess
      if c.slot = false then ⟨[], none⟩
      else (retireExcessLoop currentRevision left (tally.record c.outcome) rest).after c

def retireExcess (excess : Int) (currentRevision : Option Int)
    (candidates : List (Candidate runner now)) : Pass runner now :=
  retireExcessLoop currentRevision excess ⟨0, 0⟩ candidates

/-- The excess of `capacity_plan`, from the generations it counted. -/
def capacityExcess (counted : List GenerationRecord) (target : Int) : Int :=
  max ((effectiveCount counted : Int) - target) 0

/-! ## What a pass drains -/

section

variable {due : GenerationRecord → Bool} {c : Candidate runner now} {pass : Pass runner now}

theorem Pass.drained_after :
    (pass.after c).drained due = pass.drained due + (c.drains due).toNat := by
  cases h : c.drains due <;> simp [Pass.drained, Pass.after, h]

theorem not_drains_of_not_idle (h : c.generation.state ≠ .idle) : c.drains due = false := by
  simp [Candidate.drains, onExcessOnly, h]

theorem not_drains_of_due (h : due c.generation = true) : c.drains due = false := by
  simp [Candidate.drains, onExcessOnly, h]

/-- However their steps end, a GitHub pass drains at most the excess. -/
theorem drained_retireExcessLoop (currentRevision : Option Int) (excess : Int)
    (tally : DestroyTally) (candidates : List (Candidate runner now)) :
    (retireExcessLoop currentRevision excess tally candidates).drained
      (superseded currentRevision) ≤ excess.toNat := by
  induction candidates generalizing excess tally with
  | nil => simp [retireExcessLoop, Pass.drained]
  | cons c rest ih =>
    simp only [retireExcessLoop]
    split_ifs with hskipped hslot hidle
    · exact ih excess tally
    · simp [Pass.drained]
    · rw [Pass.drained_after]
      have hrest := ih (excess - 1) (tally.record c.outcome)
      by_cases hdue : superseded currentRevision c.generation = true
      · rw [not_drains_of_due hdue]
        have hmono : (excess - 1).toNat ≤ excess.toNat := by omega
        simpa using hrest.trans hmono
      · -- Selected for the excess only, so there is some.
        have hexcess : 0 < excess := by
          simpa only [selected, hidle, hdue, Bool.or_false, Bool.not_eq_true', Bool.not_eq_false,
            decide_eq_true_eq] using hskipped
        have hone : (c.drains (superseded currentRevision)).toNat ≤ 1 := Bool.toNat_le _
        omega
    · rw [Pass.drained_after, not_drains_of_not_idle hidle]
      simpa using ih excess (tally.record c.outcome)

end

/-! ## How far the excess reaches -/

section

variable (desiredRevision : Int)

/-- Whether a pool pass takes the generation while there is excess. -/
def taken (g : GenerationRecord) : Bool :=
  resumable g.state || decide (g.state = .idle) ||
    (decide (g.state = .waitingOnline) && decide (g.fleetRevision ≠ desiredRevision))

/-- The candidates a pool pass comes to while there is excess. -/
def reach : Nat → List (Candidate runner now) → List (Candidate runner now)
  | 0, _ => []
  | _, [] => []
  | idleRemovals + 1, c :: rest =>
    if taken desiredRevision c.generation && !c.slot then []
    else c :: reach (if c.idleDestroyed then idleRemovals else idleRemovals + 1) rest

/-- No slot is refused to a generation the pass takes. -/
def Granted (candidates : List (Candidate runner now)) : Prop :=
  ∀ c ∈ candidates, taken desiredRevision c.generation = true → c.slot = true

instance (candidates : List (Candidate runner now)) : Decidable (Granted desiredRevision candidates) :=
  List.decidableBAll _ _

/-- Whenever a step drains a generation after as many others as there was excess, as many idle
generations before it were destroyed by their steps. -/
def KeepsUp (excess : Nat) (candidates : List (Candidate runner now)) : Prop :=
  ∀ before c after, candidates = before ++ c :: after → Granted desiredRevision (before ++ [c]) →
    c.drains (overdue desiredRevision now) = true →
    excess ≤ before.countP (·.drains (overdue desiredRevision now)) →
    excess ≤ before.countP (·.idleDestroyed)

variable {desiredRevision} {candidates : List (Candidate runner now)}

theorem reach_prefix (excess : Nat) (candidates : List (Candidate runner now)) :
    reach desiredRevision excess candidates <+: candidates := by
  induction candidates generalizing excess with
  | nil => cases excess <;> exact List.prefix_rfl
  | cons c rest ih =>
    cases excess with
    | zero => exact List.nil_prefix
    | succ excess =>
      simp only [reach]
      split_ifs
      · exact List.nil_prefix
      · exact List.prefix_cons_inj c |>.mpr (ih _)
      · exact List.prefix_cons_inj c |>.mpr (ih _)

theorem drained_no_excess (tally : DestroyTally) (candidates : List (Candidate runner now)) :
    (destroyExcessLoop desiredRevision 0 tally candidates).drained
      (overdue desiredRevision now) = 0 := by
  induction candidates generalizing tally with
  | nil => simp [destroyExcessLoop, Pass.drained]
  | cons c rest ih =>
    simp only [destroyExcessLoop, Nat.zero_sub, ite_self]
    split_ifs with hskipped hslot
    · exact ih tally
    · simp [Pass.drained]
    · rw [Pass.drained_after, ih]
      -- Without excess an idle generation is taken because it is due.
      have hdrains : c.drains (overdue desiredRevision now) = false := by
        by_cases hidle : c.generation.state = .idle
        · apply not_drains_of_due
          simpa [hidle, resumable] using hskipped
        · exact not_drains_of_not_idle hidle
      rw [hdrains]
      rfl

/-- What a pool pass drains is what drains within the reach of the excess. -/
theorem drained_destroyExcessLoop (excess : Nat) (tally : DestroyTally)
    (candidates : List (Candidate runner now)) :
    (destroyExcessLoop desiredRevision excess tally candidates).drained
      (overdue desiredRevision now) =
    (reach desiredRevision excess candidates).countP (·.drains (overdue desiredRevision now)) := by
  induction candidates generalizing excess tally with
  | nil => cases excess <;> simp [destroyExcessLoop, Pass.drained, reach]
  | cons c rest ih =>
    cases excess with
    | zero => exact drained_no_excess tally (c :: rest)
    | succ excess =>
      have hskipped : (!resumable c.generation.state &&
          !(decide (c.generation.state = .idle) &&
            (decide (0 < excess + 1) || overdue desiredRevision now c.generation)) &&
          !(decide (c.generation.state = .waitingOnline) &&
            decide (c.generation.fleetRevision ≠ desiredRevision))) =
          !taken desiredRevision c.generation := by
        simp [taken, Bool.and_assoc]
      simp only [destroyExcessLoop, hskipped, reach]
      cases htaken : taken desiredRevision c.generation with
      | false =>
        have hidle : c.generation.state ≠ .idle := by
          intro hidle
          simp [taken, hidle] at htaken
        have hdestroyed : c.idleDestroyed = false := by simp [Candidate.idleDestroyed, hidle]
        simp only [Bool.not_false, if_true, Bool.false_and, Bool.false_eq_true, if_false,
          hdestroyed]
        rw [ih, List.countP_cons, not_drains_of_not_idle hidle]
        simp
      | true =>
        cases hslot : c.slot with
        | false => simp [Pass.drained]
        | true =>
          have hleft : (if c.outcome = some .destroyed then
              excess + 1 - (decide (c.generation.state = .idle) &&
                (decide (0 < excess + 1) || overdue desiredRevision now c.generation)).toNat
              else excess + 1) = if c.idleDestroyed then excess else excess + 1 := by
            by_cases houtcome : c.outcome = some .destroyed <;>
              by_cases hidle : c.generation.state = .idle <;>
                simp [Candidate.idleDestroyed, houtcome, hidle]
          simp only [Bool.not_true, Bool.false_eq_true, if_false, Bool.and_false, hleft,
            Bool.true_eq_false]
          rw [Pass.drained_after, ih, List.countP_cons]
          cases c.drains (overdue desiredRevision now) <;> rfl

/-- A generation is reached if no slot was refused and fewer idle ones were destroyed before. -/
theorem prefix_reach_iff {excess : Nat} {before after : List (Candidate runner now)}
    {c : Candidate runner now} :
    before ++ [c] <+: reach desiredRevision excess (before ++ c :: after) ↔
      Granted desiredRevision (before ++ [c]) ∧ before.countP (·.idleDestroyed) < excess := by
  induction before generalizing excess with
  | nil =>
    cases excess with
    | zero => simp [reach]
    | succ excess =>
      simp only [List.nil_append, reach, Granted, List.mem_singleton, forall_eq]
      cases taken desiredRevision c.generation <;> cases hslot : c.slot <;> simp
  | cons b before ih =>
    cases excess with
    | zero => simp [reach]
    | succ excess =>
      simp only [List.cons_append, reach, Granted, List.forall_mem_cons]
      cases htaken : taken desiredRevision b.generation <;> cases hslot : b.slot <;>
        cases hdestroyed : b.idleDestroyed <;>
          simp [ih, Granted, hdestroyed]

/-- The element a count goes over a number at. -/
theorem exists_split_of_lt_countP {α : Type} {p : α → Bool} {n : Nat} {l : List α}
    (h : n < l.countP p) : ∃ before a after, l = before ++ a :: after ∧ p a = true ∧
      before.countP p = n := by
  induction l generalizing n with
  | nil => simp at h
  | cons x rest ih =>
    cases hx : p x with
    | false =>
      rw [List.countP_cons, hx] at h
      obtain ⟨before, a, after, rfl, ha, hcount⟩ := ih (by simpa using h)
      exact ⟨x :: before, a, after, rfl, ha, by simp [hx, hcount]⟩
    | true =>
      cases n with
      | zero => exact ⟨[], x, rest, rfl, hx, rfl⟩
      | succ n =>
        rw [List.countP_cons, hx] at h
        obtain ⟨before, a, after, rfl, ha, hcount⟩ := ih (by simpa using h)
        exact ⟨x :: before, a, after, rfl, ha, by simp [hx, hcount]⟩

/-- A pool pass drains at most the excess exactly if the destroyed ones keep up. -/
theorem drained_le_iff {excess : Nat} :
    (reach desiredRevision excess candidates).countP (·.drains (overdue desiredRevision now)) ≤
      excess ↔ KeepsUp desiredRevision excess candidates := by
  constructor
  · rintro hbound before c after rfl hgranted hdrains hbefore
    by_contra hbehind
    have hreached : before ++ [c] <+: reach desiredRevision excess (before ++ c :: after) :=
      prefix_reach_iff.mpr ⟨hgranted, Nat.lt_of_not_le hbehind⟩
    have hcount := hreached.sublist.countP_le (p := (·.drains (overdue desiredRevision now)))
    rw [List.countP_append, List.countP_singleton, hdrains, if_pos rfl] at hcount
    omega
  · intro hkeeps
    by_contra hover
    obtain ⟨before, c, after, hreach, hdrains, hcount⟩ :=
      exists_split_of_lt_countP (Nat.lt_of_not_le hover)
    obtain ⟨rest, hcandidates⟩ : reach desiredRevision excess candidates <+: candidates :=
      reach_prefix excess candidates
    have hsplit : candidates = before ++ c :: (after ++ rest) := by
      rw [← hcandidates, hreach]
      simp
    have hreached : before ++ [c] <+: reach desiredRevision excess candidates :=
      ⟨after, by rw [hreach]; simp⟩
    rw [hsplit, prefix_reach_iff] at hreached
    have hdestroyed := hkeeps before c (after ++ rest) hsplit hreached.1 hdrains hcount.ge
    omega

/-- The excess is kept up with wherever each step that drains ends with the generation
destroyed. -/
theorem keepsUp_of_destroyed {excess : Nat}
    (h : ∀ c ∈ candidates, c.drains (overdue desiredRevision now) = true →
      c.idleDestroyed = true) : KeepsUp desiredRevision excess candidates := by
  rintro before c after rfl - - hbefore
  refine hbefore.trans (List.countP_mono_left fun b hb => ?_)
  exact h b (List.mem_append_left _ hb)

end

/-! ## The bound -/

/-- **Scale-down.**  A pool pass drains at most the excess exactly if the destroyed generations
keep up with those that leave, and a GitHub pass always drains at most the excess it counted. -/
theorem scale_down_bounded :
    (∀ (desiredRevision : Int) (target : Nat) (candidates : List (Candidate runner now)),
      let effective := effectiveCount (candidates.map (·.generation))
      let drained := (destroyExcess desiredRevision target candidates).drained
        (overdue desiredRevision now)
      (drained ≤ effective - target ↔ KeepsUp desiredRevision (effective - target) candidates) ∧
      (KeepsUp desiredRevision (effective - target) candidates →
        min target effective + drained ≤ effective)) ∧
    (∀ (currentRevision : Option Int) (target : Int) (counted : List GenerationRecord)
        (candidates : List (Candidate runner now)),
      let effective : Int := effectiveCount counted
      let drained : Int := (retireExcess (capacityExcess counted target) currentRevision
        candidates).drained (superseded currentRevision)
      drained ≤ max (effective - target) 0 ∧ min target effective + drained ≤ effective) := by
  constructor
  · intro desiredRevision target candidates
    have hiff : (destroyExcess desiredRevision target candidates).drained
        (overdue desiredRevision now) ≤ effectiveCount (candidates.map (·.generation)) - target ↔
        KeepsUp desiredRevision (effectiveCount (candidates.map (·.generation)) - target)
          candidates := by
      rw [destroyExcess, drained_destroyExcessLoop]
      exact drained_le_iff
    refine ⟨hiff, fun hkeeps => ?_⟩
    have hbound := hiff.mpr hkeeps
    omega
  · intro currentRevision target counted candidates
    have hbound := drained_retireExcessLoop currentRevision (capacityExcess counted target) ⟨0, 0⟩
      candidates
    simp only [retireExcess, capacityExcess] at hbound ⊢
    omega

/-! ## A step that stays pending -/

/-- An idle generation of revision 1. -/
def idleGeneration (id : Uuid) : GenerationRecord where
  id := id
  fleetKey := "fleet"
  runnerName := "runner"
  generationName := "generation"
  fleetRevision := 1
  templateProfileKey := "template"
  templateRevision := 1
  templateArtifactDigest := ""
  attestationId := ""
  inputsDigest := ""
  state := .idle
  githubRunnerId := none
  poolMemberKey := none
  workspacePath := "/workspace"
  createdAt := 0
  updatedAt := 0

/-- Its registration may be removed, and then the removal finds the backend unavailable. -/
def unavailableAnswer : (op : Operation) → op.Answer
  | .generationLifetime _ => ⟨none, none, none⟩
  | .originalProvenance _ => none
  | .openOperations _ => []
  | .stateIdentity _ => none
  | .destroyAttempted _ | .requestExpiry _ _ | .backoffDue _ _ => true
  | .protectedBindings _ _ => none
  | .readManifest _ => none
  | .admitRemoval _ _ => Registration.removable
  | .remove _ _ | .proveUnrecordedAbsent _ => Registration.unavailable
  | .runtimeDestroy _ => .ok ()
  | .nowAfter now | .backoffFailed _ now => now
  | .generationAdvance _ _ _ | .resourcesDestroyed _ _ | .ensureArtifactCached _
  | .completeIntent _ | .backoffClear _ => ()

/-- The step of an idle generation that records the retirement and stays pending. -/
def pendingCandidate (id : Uuid) : Candidate ⟨"/artifacts", 0⟩ 0 where
  generation := idleGeneration id
  slot := true
  happened := ((retire ⟨"/artifacts", 0⟩ (idleGeneration id) 0).trace unavailableAnswer).1
  result := some ((retire ⟨"/artifacts", 0⟩ (idleGeneration id) 0).trace unavailableAnswer).2
  ran := Program.ran_trace _ _

/-- With one of two idle generations in excess, both leave: each step stays pending after it has
recorded the retirement. -/
theorem pending_steps_overdrain :
    ¬ ∀ (runner : RunnerOperation) (now desiredRevision : Int) (target : Nat)
      (candidates : List (Candidate runner now)),
      (destroyExcess desiredRevision target candidates).drained (overdue desiredRevision now) ≤
        effectiveCount (candidates.map (·.generation)) - target := by
  intro h
  exact absurd (h _ _ 1 1 [pendingCandidate ⟨1⟩, pendingCandidate ⟨2⟩]) (by decide)

end RunnerOperation

end Shaula
