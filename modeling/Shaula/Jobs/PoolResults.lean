import Shaula.Jobs.Forgejo
import Shaula.Jobs.Gitlab

/-! # Results of pool jobs

The job records of Forgejo and GitLab fleets under any interleaving of their observations.  A result
stays with its record, and every result was reported for exactly the identity of its record.
-/

namespace Shaula

open Library Library.Outcome

namespace Jobs

/-- The job records of both providers. -/
structure PoolJobs where
  forgejo : Forgejo.Tables
  gitlab : Gitlab.Tables

namespace PoolJobs

def empty : PoolJobs := ⟨.empty, .empty⟩

inductive Op where
  | forgejo (op : Forgejo.Op)
  | gitlab (op : Gitlab.Op)

-- The URL reader, and what puts segments behind a URL.
variable (parse : String → Option Forgejo.Url) (extend : String → List String → Option String)

def apply (s : PoolJobs) : Op → PoolJobs
  | .forgejo op => { s with forgejo := op.run parse s.forgejo }
  | .gitlab op => { s with gitlab := op.run extend s.gitlab }

abbrev Step (s : PoolJobs) (op : Op) (t : PoolJobs) : Prop := t = s.apply parse extend op

def Valid (s : PoolJobs) : Prop := s.forgejo.Valid ∧ s.gitlab.Valid

/-- The Forgejo operation of a step, if it is one with this property. -/
def OfForgejo (p : Forgejo.Op → Prop) : Op → Prop
  | .forgejo op => p op
  | .gitlab _ => False

def OfGitlab (p : Gitlab.Op → Prop) : Op → Prop
  | .forgejo _ => False
  | .gitlab op => p op

section

variable {parse extend} {s t : PoolJobs} {op : Op} {trace : List (PoolJobs × Op × PoolJobs)}

theorem valid_empty : empty.Valid := ⟨Forgejo.Tables.valid_empty, Gitlab.Tables.valid_empty⟩

theorem Step.valid (hs : s.Valid) (h : Step parse extend s op t) : t.Valid := by
  subst h
  cases op with
  | forgejo op => exact ⟨(op.run_moves hs.1).1, hs.2⟩
  | gitlab op => exact ⟨hs.1, (op.run_moves hs.2).1⟩

theorem forgejo_moves (id : String) (s : PoolJobs) (op : Op) (t : PoolJobs) (hs : s.Valid)
    (h : Step parse extend s op t) :
    Verdict.Moves (fun k subject => OfForgejo (Forgejo.Op.turns k subject) op)
      (fun k subject verdict => OfForgejo (Forgejo.Op.reports k subject verdict) op) id
      (s.forgejo.view id) (t.forgejo.view id) := by
  subst h
  cases op with
  | forgejo op => exact (op.run_moves hs.1).2 id
  | gitlab op => exact .same _

theorem gitlab_moves (id : String) (s : PoolJobs) (op : Op) (t : PoolJobs) (hs : s.Valid)
    (h : Step parse extend s op t) :
    Verdict.Moves (fun _ _ => False)
      (fun _ subject verdict => OfGitlab (Gitlab.Op.reports subject verdict) op) id
      (s.gitlab.view id) (t.gitlab.view id) := by
  subst h
  cases op with
  | forgejo op => exact .same _
  | gitlab op => exact (op.run_moves hs.2).2.2 id

theorem Step.links (hs : s.Valid) (h : Step parse extend s op t) {k : String × String}
    {l : Gitlab.Link} (hl : s.gitlab.links.find k = some l) : t.gitlab.links.find k = some l := by
  subst h
  cases op with
  | forgejo op => exact hl
  | gitlab op => exact (op.run_moves hs.2).2.1 k l hl

end

/-! ## What is promised -/

/-- A record is completed exactly when it has a result, and that result was reported on the way for
exactly the identity of the record. -/
structure Reported (trace : List (PoolJobs × Op × PoolJobs)) (s : PoolJobs) : Prop where
  forgejo : ∀ id row, s.forgejo.jobs.find id = some row →
    row.summary.observedStatus = row.status ∧
      (row.status = .completed ↔ row.forgejo.result.isSome = true) ∧
      ∀ r, row.forgejo.result = some r → r.taskId = row.forgejo.taskId ∧
        ∃ e ∈ trace, OfForgejo (Forgejo.Op.reports id row.finding.subject r) e.2.1
  gitlab : ∀ id row, s.gitlab.jobs.find id = some row →
    row.summary.observedStatus = row.status ∧
      (row.status = .completed ↔ row.gitlab.result.isSome = true) ∧
      ∀ r, row.gitlab.result = some r →
        ∃ e ∈ trace, OfGitlab (Gitlab.Op.reports row.finding.subject r) e.2.1

/-- A result stays and its record stays completed, for as long as no snapshot lists a Forgejo job
with another task.  A link stays. -/
structure Kept (trace : List (PoolJobs × Op × PoolJobs)) (s t : PoolJobs) : Prop where
  forgejo : ∀ id row r, s.forgejo.jobs.find id = some row → row.forgejo.result = some r →
    (∀ e ∈ trace, ¬ OfForgejo (Forgejo.Op.turns id row.finding.subject) e.2.1) →
    ∃ row', t.forgejo.jobs.find id = some row' ∧ row'.finding = row.finding ∧
      row'.status = .completed ∧ row'.summary.observedStatus = .completed
  gitlab : ∀ id row r, s.gitlab.jobs.find id = some row → row.gitlab.result = some r →
    ∃ row', t.gitlab.jobs.find id = some row' ∧ row'.finding = row.finding ∧
      row'.status = .completed ∧ row'.summary.observedStatus = .completed
  links : ∀ k l, s.gitlab.links.find k = some l → t.gitlab.links.find k = some l

/-- A snapshot, and an exact read that finds nothing, bring no result. -/
structure Silent (s : PoolJobs) : Prop where
  snapshot : ∀ c draw jobs now id row r,
    (s.apply parse extend (.forgejo (.snapshot c draw jobs now))).forgejo.jobs.find id = some row →
    row.forgejo.result = some r →
    ∃ old, s.forgejo.jobs.find id = some old ∧ old.finding = row.finding
  missing : ∀ c lookup now id row r,
    (s.apply parse extend (.gitlab (.read c lookup none now))).gitlab.jobs.find id = some row →
    row.gitlab.result = some r →
    ∃ old, s.gitlab.jobs.find id = some old ∧ old.finding = row.finding

/-- A result for a task that two records of the scope and repository claim changes nothing. -/
def Contested (s : PoolJobs) : Prop :=
  ∀ (c : Forgejo.Caller) (scope : Forgejo.ScopeSnapshot) (lookup : Forgejo.ForgejoJobLookup)
    (found : Forgejo.ForgejoTaskResult) (now : Int) (id id' : String) (row row' : Forgejo.Row),
    c.current = .ok (some scope) → id ≠ id' → s.forgejo.jobs.find id = some row →
    s.forgejo.jobs.find id' = some row' → row.scopeKey = scope.key → row'.scopeKey = scope.key →
    row.forgejo.repositoryId = found.repositoryId → row'.forgejo.repositoryId = found.repositoryId →
    row.forgejo.taskId = found.taskId → row'.forgejo.taskId = found.taskId →
    s.apply parse extend (.forgejo (.result c lookup found now)) = s

section

variable {parse extend} {s t : PoolJobs} {trace trace' : List (PoolJobs × Op × PoolJobs)}

theorem reported (h : Run (Step parse extend) empty trace s) : Reported trace s := by
  have hs : s.Valid := h.invariant (fun _ _ _ hs hst => Step.valid hs hst) valid_empty
  constructor
  · intro id row hrow
    have hvalid := hs.1 id row hrow
    refine ⟨hvalid.status, hvalid.completed, fun r hr => ⟨hvalid.task r hr, ?_⟩⟩
    have hview : s.forgejo.view id = some ⟨row.finding.subject, some r⟩ := by
      rw [Forgejo.Tables.view, hrow, Option.map_some, ← hr]
      rfl
    have hreported := Verdict.reported (fun _ _ _ hs hst => Step.valid hs hst)
      (forgejo_moves id) h valid_empty hview
    exact hreported.resolve_left (by rintro ⟨⟩)
  · intro id row hrow
    have hvalid := hs.2 id row hrow
    refine ⟨hvalid.status, hvalid.completed, fun r hr => ?_⟩
    have hview : s.gitlab.view id = some ⟨row.finding.subject, some r⟩ := by
      rw [Gitlab.Tables.view, hrow, Option.map_some, ← hr]
      rfl
    have hreported := Verdict.reported (fun _ _ _ hs hst => Step.valid hs hst)
      (gitlab_moves id) h valid_empty hview
    exact hreported.resolve_left (by rintro ⟨⟩)

theorem kept (hs : s.Valid) (h : Run (Step parse extend) s trace t) : Kept trace s t := by
  have ht : t.Valid := h.invariant (fun _ _ _ hs hst => Step.valid hs hst) hs
  constructor
  · intro id row r hrow hr hturns
    have hview : s.forgejo.view id = some ⟨row.finding.subject, some r⟩ := by
      rw [Forgejo.Tables.view, hrow, Option.map_some, ← hr]
      rfl
    have hafter := Verdict.kept (fun _ _ _ hs hst => Step.valid hs hst)
      (forgejo_moves id) h hs hturns hview
    obtain ⟨row', hrow', hfinding⟩ := Option.map_eq_some_iff.mp hafter
    have hvalid := ht.1 id row' hrow'
    have hresult : row'.forgejo.result = some r := congrArg Finding.verdict hfinding
    have hcompleted : row'.status = .completed := hvalid.completed.mpr (by rw [hresult]; rfl)
    have hsame : row'.finding = row.finding := by
      rw [hfinding, ← hr]
      rfl
    exact ⟨row', hrow', hsame, hcompleted, hvalid.status.trans hcompleted⟩
  · intro id row r hrow hr
    have hview : s.gitlab.view id = some ⟨row.finding.subject, some r⟩ := by
      rw [Gitlab.Tables.view, hrow, Option.map_some, ← hr]
      rfl
    have hafter := Verdict.kept (fun _ _ _ hs hst => Step.valid hs hst)
      (gitlab_moves id) h hs (fun _ _ h => h) hview
    obtain ⟨row', hrow', hfinding⟩ := Option.map_eq_some_iff.mp hafter
    have hvalid := ht.2 id row' hrow'
    have hresult : row'.gitlab.result = some r := congrArg Finding.verdict hfinding
    have hcompleted : row'.status = .completed := hvalid.completed.mpr (by rw [hresult]; rfl)
    have hsame : row'.finding = row.finding := by
      rw [hfinding, ← hr]
      rfl
    exact ⟨row', hrow', hsame, hcompleted, hvalid.status.trans hcompleted⟩
  · intro k l hl
    exact h.relates (R := fun s t : PoolJobs =>
        s.gitlab.links.find k = some l → t.gitlab.links.find k = some l)
      (fun _ hl => hl) (fun _ _ _ hst htu hl => htu (hst hl))
      (fun _ _ _ hs hst => Step.valid hs hst) (fun _ _ _ hs hst hl => Step.links hs hst hl) hs hl

theorem silent (hs : s.Valid) : Silent parse extend s := by
  constructor
  · intro c draw jobs now id row r hrow hr
    have hmove := forgejo_moves id s _ _ hs
      (rfl : Step parse extend s (.forgejo (.snapshot c draw jobs now)) _)
    have hafter : (s.apply parse extend (.forgejo (.snapshot c draw jobs now))).forgejo.view id =
        some ⟨row.finding.subject, some r⟩ := by
      rw [Forgejo.Tables.view, hrow, Option.map_some, ← hr]
      rfl
    have hbefore := hmove.verdict_of_quiet (fun _ _ h => h) hafter
    obtain ⟨old, hold, hfinding⟩ := Option.map_eq_some_iff.mp hbefore
    refine ⟨old, hold, ?_⟩
    rw [hfinding, ← hr]
    rfl
  · intro c lookup now id row r hrow hr
    have hmove := gitlab_moves id s _ _ hs
      (rfl : Step parse extend s (.gitlab (.read c lookup none now)) _)
    have hafter : (s.apply parse extend (.gitlab (.read c lookup none now))).gitlab.view id =
        some ⟨row.finding.subject, some r⟩ := by
      rw [Gitlab.Tables.view, hrow, Option.map_some, ← hr]
      rfl
    have hbefore := hmove.verdict_of_quiet (fun _ _ h => h) hafter
    obtain ⟨old, hold, hfinding⟩ := Option.map_eq_some_iff.mp hbefore
    refine ⟨old, hold, ?_⟩
    rw [hfinding, ← hr]
    rfl

theorem contested (s : PoolJobs) : Contested parse extend s := by
  intro c scope lookup found now id id' row row' hcurrent hne hrow hrow' hscope hscope' hrepository
    hrepository' htask htask'
  have hclaims : (s.forgejo.claimants scope.key found.repositoryId found.taskId).length ≠ 1 := by
    have hmem {k : String} {r : Forgejo.Row} (hr : s.forgejo.jobs.find k = some r)
        (hkey : r.scopeKey = scope.key) (hrepo : r.forgejo.repositoryId = found.repositoryId)
        (hid : r.forgejo.taskId = found.taskId) :
        (k, r) ∈ s.forgejo.jobs.rows.filter fun e => e.2.scopeKey = scope.key ∧
          e.2.forgejo.repositoryId = found.repositoryId ∧ e.2.forgejo.taskId = found.taskId := by
      rw [List.mem_filter]
      exact ⟨Table.mem_rows.mpr hr, by simp [hkey, hrepo, hid]⟩
    have hfirst := hmem hrow hscope hrepository htask
    have hsecond := hmem hrow' hscope' hrepository' htask'
    intro hlength
    unfold Forgejo.Tables.claimants at hlength
    generalize s.forgejo.jobs.rows.filter _ = rows at hfirst hsecond hlength
    match rows with
    | [] => cases hfirst
    | [e] =>
      rw [List.mem_singleton] at hfirst hsecond
      exact hne (congrArg Prod.fst (hfirst.trans hsecond.symm))
    | _ :: _ :: _ => simp at hlength
  have hrun : (Forgejo.Op.result c lookup found now).run parse s.forgejo = s.forgejo := by
    rw [Forgejo.Op.run]
    cases happly : s.forgejo.applyForgejoResult parse c lookup found now with
    | error e => rfl
    | ok result =>
      rcases Forgejo.Tables.applyForgejoResult_cases happly with
        hsame | ⟨scope', r, hcurrent', -, -, happlied⟩
      · exact hsame
      · rw [hcurrent] at hcurrent'
        cases hcurrent'
        rcases s.forgejo.applyTo_cases scope.key lookup.recordId r found now with
          hsame | ⟨-, -, hone, -⟩
        · exact happlied.trans hsame
        · exact absurd hone hclaims
  rw [apply, hrun]

/-- A recorded result is final and was reported for its record. -/
theorem results_final (h : Run (Step parse extend) empty trace s) :
    Reported trace s ∧
      (∀ trace' t, Run (Step parse extend) s trace' t → Kept trace' s t) ∧
      Silent parse extend s ∧ Contested parse extend s := by
  have hs : s.Valid := h.invariant (fun _ _ _ hs hst => Step.valid hs hst) valid_empty
  exact ⟨reported h, fun _ _ h' => kept hs h', silent hs, contested s⟩

end

/-! ## Samples -/

/-- Two pages of one instance. -/
def sampleParse (text : String) : Option Forgejo.Url :=
  if text = "https://f" then some ⟨"https", "https://f", "", none, none, none, ['/']⟩
  else if text = "https://f/r" then
    some ⟨"https", "https://f", "", none, none, none, ['/', 'r']⟩
  else none

def sampleExtend (_ : String) (_ : List String) : Option String := none

/-- A fleet for all of the instance. -/
def sampleCaller (scope : String) : Forgejo.Caller where
  fleet := scope
  incarnation := "i"
  current := .ok (some ⟨scope, ⟨"https://f", .instance⟩⟩)

/-- A running job of repository 1. -/
def sampleJob (id task : Nat) : Forgejo.ForgejoJob :=
  ⟨id, 1, "running", [], task, 1, 1, "build"⟩

def sampleDraw (scope : String) (job : Forgejo.ForgejoJob) : String :=
  if job.id = 1 then scope ++ "1" else scope ++ "2"

def sampleSnapshot (scope : String) (jobs : List Forgejo.ForgejoJob) (now : Int) : Op :=
  .forgejo (.snapshot (sampleCaller scope) (sampleDraw scope) (some jobs) now)

/-- The success of task 7 of repository 1. -/
def sampleResult : Forgejo.ForgejoTaskResult :=
  ⟨1, 7, .success, "o", "r", 1, "https://f/r", "w"⟩

def sampleReport (scope id : String) (now : Int) : Op :=
  .forgejo (.result (sampleCaller scope) ⟨id, 1, 7⟩ sampleResult now)

def sampleRun (ops : List Op) : PoolJobs := ops.foldl (apply sampleParse sampleExtend) empty

/-- Job 1 has task 7 and its result. -/
def sampleOps : List Op := [sampleSnapshot "s" [sampleJob 1 7] 10, sampleReport "s" "s1" 20]

/-- Job 1 is listed again as running, and then no longer. -/
def sampleLater : List Op := [sampleSnapshot "s" [sampleJob 1 7] 30, sampleSnapshot "s" [] 40]

/-- The result stays through both snapshots. -/
theorem results_final_sample :
    ∃ row, (sampleLater.foldl (apply sampleParse sampleExtend)
        (sampleRun sampleOps)).forgejo.jobs.find "s1" = some row ∧ row.status = .completed := by
  obtain ⟨-, hkept, -, -⟩ :=
    results_final (run_play (f := apply sampleParse sampleExtend) empty sampleOps)
  have hrecord : ((sampleRun sampleOps).forgejo.jobs.find "s1").map
      (fun row => (row.protocolJobId, row.forgejo.taskId, row.forgejo.result)) =
      some (⟨1, 1, 1⟩, 7, some ⟨7, .success, 20, 1, "https://f/r", "w"⟩) := by decide +kernel
  obtain ⟨row, hrow, hfields⟩ := Option.map_eq_some_iff.mp hrecord
  simp only [Prod.mk.injEq] at hfields
  obtain ⟨hjob, htask, hresult⟩ := hfields
  have hlater := (hkept _ _ (run_play (f := apply sampleParse sampleExtend) _ sampleLater)).forgejo
    "s1" row _ hrow hresult ?_
  · obtain ⟨row', hrow', -, hcompleted, -⟩ := hlater
    exact ⟨row', hrow', hcompleted⟩
  · simp [play, sampleLater, sampleSnapshot, OfForgejo, Forgejo.Op.turns, Forgejo.Relists,
      sampleJob, Forgejo.Row.finding, htask]

/-- Two fleets list the job. -/
def twoFleets : List Op :=
  [sampleSnapshot "s" [sampleJob 1 7] 10, sampleSnapshot "t" [sampleJob 1 7] 10]

/-- Another job is listed with the task of a job that has its result. -/
def claimedLater : List Op :=
  sampleOps ++ [sampleSnapshot "s" [sampleJob 1 7, sampleJob 2 7] 30]

/-- Two fleets that list the job each record the result of its one task, and a record that has its
result keeps it when another one claims the task later. -/
theorem claimed_twice :
    (¬ ∀ (parse : String → Option Forgejo.Url) (extend : String → List String → Option String)
        (trace : List (PoolJobs × Op × PoolJobs)) (s : PoolJobs),
        Run (Step parse extend) empty trace s →
        ∀ (id id' : String) (row row' : Forgejo.Row), id ≠ id' →
        s.forgejo.jobs.find id = some row → s.forgejo.jobs.find id' = some row' →
        row.forgejo.taskId = row'.forgejo.taskId →
        ∀ c lookup found now after,
          (s.apply parse extend (.forgejo (.result c lookup found now))).forgejo.jobs.find id =
            some after → after.forgejo.result = row.forgejo.result) ∧
    ¬ ∀ (parse : String → Option Forgejo.Url) (extend : String → List String → Option String)
        (trace : List (PoolJobs × Op × PoolJobs)) (s : PoolJobs),
        Run (Step parse extend) empty trace s →
        ∀ (id id' : String) (row row' : Forgejo.Row), id ≠ id' →
        s.forgejo.jobs.find id = some row → s.forgejo.jobs.find id' = some row' →
        row.scopeKey = row'.scopeKey → row.forgejo.repositoryId = row'.forgejo.repositoryId →
        row.forgejo.taskId = row'.forgejo.taskId → row.forgejo.result = none := by
  constructor
  · intro h
    have hrecords :
        ((sampleRun twoFleets).forgejo.jobs.find "s1").map
            (fun row => (row.forgejo.taskId, row.forgejo.result)) = some (7, none) ∧
          ((sampleRun twoFleets).forgejo.jobs.find "t1").map (·.forgejo.taskId) = some 7 ∧
          (((sampleRun twoFleets).apply sampleParse sampleExtend
            (sampleReport "s" "s1" 20)).forgejo.jobs.find "s1").map (·.forgejo.result.isSome) =
            some true := by decide +kernel
    obtain ⟨hfirst, hsecond, hafter⟩ := hrecords
    obtain ⟨row, hrow, hfields⟩ := Option.map_eq_some_iff.mp hfirst
    obtain ⟨row', hrow', htask'⟩ := Option.map_eq_some_iff.mp hsecond
    obtain ⟨after, hfind, hsome⟩ := Option.map_eq_some_iff.mp hafter
    simp only [Prod.mk.injEq] at hfields
    have hsame := h sampleParse sampleExtend _ _
      (run_play (f := apply sampleParse sampleExtend) empty _) "s1" "t1" row row' (by decide)
      hrow hrow' (hfields.1.trans htask'.symm) _ _ _ _ after hfind
    rw [hsame, hfields.2] at hsome
    cases hsome
  · intro h
    have hrecords :
        ((sampleRun claimedLater).forgejo.jobs.find "s1").map
            (fun row => (row.scopeKey, row.forgejo.repositoryId, row.forgejo.taskId,
              row.forgejo.result.isSome)) = some ("s", 1, 7, true) ∧
          ((sampleRun claimedLater).forgejo.jobs.find "s2").map
            (fun row => (row.scopeKey, row.forgejo.repositoryId, row.forgejo.taskId)) =
            some ("s", 1, 7) := by decide +kernel
    obtain ⟨hfirst, hsecond⟩ := hrecords
    obtain ⟨row, hrow, hfields⟩ := Option.map_eq_some_iff.mp hfirst
    obtain ⟨row', hrow', hfields'⟩ := Option.map_eq_some_iff.mp hsecond
    simp only [Prod.mk.injEq] at hfields hfields'
    obtain ⟨hscope, hrepository, htask, hsome⟩ := hfields
    obtain ⟨hscope', hrepository', htask'⟩ := hfields'
    have hnone := h sampleParse sampleExtend _ _
      (run_play (f := apply sampleParse sampleExtend) empty _) "s1" "s2" row row' (by decide)
      hrow hrow' (hscope.trans hscope'.symm) (hrepository.trans hrepository'.symm)
      (htask.trans htask'.symm)
    rw [hnone] at hsome
    cases hsome

end PoolJobs

end Jobs

end Shaula
