import Shaula.Jobs.Refresh

/-! # Ingestion keeps the records up to date

The ingestion of a message stores its facts, attaches the facts without a job id to the record their
request agrees on, and refreshes the records this may have changed.  Afterwards every fact is
attached to the record of its job again, and every record shows what the archive says.
-/

namespace Shaula

open Library Library.Outcome

namespace Jobs

/-- The evidence a fact states in a scope, but for the surrogate fields. -/
def Fact.evidence (scope : String) (fact : Fact) : Evidence where
  scope := scope
  job := fact.protocolId
  observation :=
    { id := "", kind := fact.kind, runnerRequestId := fact.request, runnerId := fact.runner
      runnerName := fact.name, metadata := fact.metadata, reportedResult := fact.result, epoch := 0
      messageId := 0, observedAt := 0, generationId := none, associationStatus := .unverified }

/-- Two names for it agree in what a refresh asks about the observation. -/
theorem Archive.resolve_congr {A A' : Archive} {e : Evidence}
    (hcandidates : ∀ runner, e.observation.runnerId = some runner →
      A.candidates e.scope runner = A'.candidates e.scope runner)
    (hrequest : 0 < e.observation.runnerRequestId → ∀ name,
      name ∈ A.requestNames e.scope e.observation.runnerRequestId ↔
        name ∈ A'.requestNames e.scope e.observation.runnerRequestId)
    (hrunner : ∀ runner, e.observation.runnerId = some runner → ∀ name,
      name ∈ A.runnerNames e.scope runner ↔ name ∈ A'.runnerNames e.scope runner) :
    A.resolve e = A'.resolve e := by
  have hdisputed : A.disputed e.scope e.observation.runnerRequestId =
      A'.disputed e.scope e.observation.runnerRequestId := by
    unfold Archive.disputed
    by_cases hpos : 0 < e.observation.runnerRequestId
    · have hnames := hrequest hpos
      have hnone := any_congr (p := fun name => name.isNone) (q := fun name => name.isNone) hnames
        fun _ _ => rfl
      rw [Agrees.disagree hnames, hnone]
    · simp only [hpos, decide_false, Bool.false_and]
  have hassociate : A.associate e = A'.associate e := by
    unfold Archive.associate
    cases h : e.observation.runnerId with
    | none => rfl
    | some runner =>
      simp only [hcandidates runner h, Agrees.disagree (hrunner runner h)]
  unfold Archive.resolve
  rw [hdisputed, hassociate]

namespace JobStore

variable {s t : JobStore} {row : ObservationRow} {job : JobRow} {scope : String} {request : Int}
  {uuid : Nat → String} {d : Delivery} {messageId : Int} {touched : Touched} {fact : Fact}

/-! ## New rows -/

/-- Ids in use were drawn. -/
structure Drawn (uuid : Nat → String) (s : JobStore) : Prop where
  rows : ∀ row ∈ s.observations, ∃ n < s.drawn, row.id = uuid n
  jobs : ∀ job ∈ s.jobs, ∃ n < s.drawn, job.id = uuid n

/-- A row, with the record of its job when that is new. -/
def insertRow (s : JobStore) (new : Option JobRow) (row : ObservationRow) (drawn : Nat) : JobStore :=
  { s with
    jobs := s.jobs ++ new.toList
    observations := s.observations ++ [row]
    drawn := drawn }

/-- What makes a new row, and a new record, fit for the tables. -/
structure Fits (s : JobStore) (new : Option JobRow) (row : ObservationRow) : Prop where
  id : ∀ other ∈ s.observations, other.id ≠ row.id
  columns : Columns row
  jobId : ∀ job, new = some job → ∀ other ∈ s.jobs, other.id ≠ job.id
  jobKey : ∀ job, new = some job → row.protocolJobId ≠ "" ∧ job.scopeKey = row.scopeKey ∧
    job.protocolJobId = row.protocolJobId
  unknown : ∀ job, new = some job → ∀ other ∈ s.jobs,
    ¬ (other.scopeKey = row.scopeKey ∧ other.protocolJobId = row.protocolJobId)
  recorded : row.protocolJobId ≠ "" → ∃ job ∈ s.jobs ++ new.toList,
    row.jobRecordId = some job.id ∧ job.scopeKey = row.scopeKey ∧
      job.protocolJobId = row.protocolJobId

theorem Keyed.insertRow {new : Option JobRow} {drawn : Nat} (h : s.Keyed) (hfits : s.Fits new row) :
    (s.insertRow new row drawn).Keyed := by
  have hrows : ∀ other ∈ (s.insertRow new row drawn).observations,
      other ∈ s.observations ∨ other = row := by
    intro other hother
    rcases List.mem_append.mp hother with hold | hnew
    · exact .inl hold
    · exact .inr (List.mem_singleton.mp hnew)
  have hjobs : ∀ job ∈ (s.insertRow new row drawn).jobs, job ∈ s.jobs ∨ new = some job := by
    intro job hjob
    rcases List.mem_append.mp hjob with hold | hnew
    · exact .inl hold
    · exact .inr (Option.mem_toList.mp hnew)
  have hold : ∀ other ∈ s.observations, other ∈ (s.insertRow new row drawn).observations :=
    fun other hother => List.mem_append_left _ hother
  have hrow : row ∈ (s.insertRow new row drawn).observations :=
    List.mem_append_right _ (List.mem_singleton.mpr rfl)
  constructor
  · show ((s.observations ++ [row]).map (·.id)).Nodup
    rw [List.map_append, List.nodup_append]
    refine ⟨h.ids, List.nodup_singleton _, ?_⟩
    intro id hid id' hid'
    obtain ⟨other, hother, rfl⟩ := List.mem_map.mp hid
    rw [List.map_singleton, List.mem_singleton] at hid'
    rw [hid']
    exact hfits.id other hother
  · intro other hother
    rcases hrows other hother with hother | rfl
    · exact h.columns other hother
    · exact hfits.columns
  · show ((s.jobs ++ new.toList).map (·.id)).Nodup
    rw [List.map_append, List.nodup_append]
    refine ⟨h.jobIds, ?_, ?_⟩
    · cases new with
      | none => exact List.nodup_nil
      | some job => exact List.nodup_singleton _
    · intro id hid id' hid'
      obtain ⟨other, hother, rfl⟩ := List.mem_map.mp hid
      obtain ⟨job, hjob, rfl⟩ := List.mem_map.mp hid'
      exact hfits.jobId job (Option.mem_toList.mp hjob) other hother
  · intro job hjob job' hjob' hscope hprotocol
    rcases hjobs job hjob with hjob | hnew <;> rcases hjobs job' hjob' with hjob' | hnew'
    · exact h.jobKeys job hjob job' hjob' hscope hprotocol
    · obtain ⟨-, hscope', hprotocol'⟩ := hfits.jobKey job' hnew'
      exact absurd ⟨hscope.trans hscope', hprotocol.trans hprotocol'⟩
        (hfits.unknown job' hnew' job hjob)
    · obtain ⟨-, hscope', hprotocol'⟩ := hfits.jobKey job hnew
      exact absurd ⟨hscope.symm.trans hscope', hprotocol.symm.trans hprotocol'⟩
        (hfits.unknown job hnew job' hjob')
    · exact Option.some.inj (hnew.symm.trans hnew')
  · intro other hother hnamed
    rcases hrows other hother with hother | rfl
    · obtain ⟨job, hjob, hkey⟩ := h.recorded other hother hnamed
      exact ⟨job, List.mem_append_left _ hjob, hkey⟩
    · exact hfits.recorded hnamed
  · intro job hjob
    rcases hjobs job hjob with hjob | hnew
    · obtain ⟨hne, other, hother, hkey⟩ := h.named job hjob
      exact ⟨hne, other, hold other hother, hkey⟩
    · obtain ⟨hne, hscope, hprotocol⟩ := hfits.jobKey job hnew
      exact ⟨hprotocol ▸ hne, row, hrow, hscope.symm, hprotocol.symm⟩

/-- What the insertion of a fact leaves of it in its row. -/
structure Stored (scope : String) (fact : Fact) (row : ObservationRow) : Prop where
  evidence : row.evidence.erased = fact.evidence scope
  unmarked : row.data.associationStatus = .unverified
  unattached : row.protocolJobId = "" → row.jobRecordId = none

/-- The row's record, runner and request are to be refreshed. -/
structure Noted (touched : Touched) (row : ObservationRow) : Prop where
  affected : ∀ id, row.jobRecordId = some id → id ∈ touched.affected
  runners : ∀ runner, row.runnerId = some runner → runner ∈ touched.runners
  requests : 0 < row.runnerRequestId → row.runnerRequestId ∈ touched.requests

/-- A record is found, or it is a new one. -/
theorem ensureJob_cases (h : s.Drawn uuid) (huuid : uuid.Injective) (protocolId : String) :
    ∃ new : Option JobRow, ∃ job ∈ s.jobs ++ new.toList, job.scopeKey = d.scope.key ∧
      job.protocolJobId = protocolId ∧
        s.ensureJob uuid d protocolId =
          ({ s with jobs := s.jobs ++ new.toList, drawn := s.drawn + new.toList.length }, job.id) ∧
      ∀ created, new = some created → created = job ∧ created.id = uuid s.drawn ∧
        ∀ other ∈ s.jobs, other.id ≠ created.id ∧
          ¬ (other.scopeKey = d.scope.key ∧ other.protocolJobId = protocolId) := by
  unfold ensureJob
  cases hfind : s.jobs.find? fun job =>
      job.scopeKey = d.scope.key ∧ job.protocolJobId = protocolId with
  | some job =>
    have hkey := List.find?_some hfind
    rw [decide_eq_true_eq] at hkey
    have hmem := List.mem_append_left (none : Option JobRow).toList (List.mem_of_find?_eq_some hfind)
    refine ⟨none, job, hmem, hkey.1, hkey.2, ?_, fun created hcreated => by cases hcreated⟩
    simp only [Option.toList_none, List.append_nil, List.length_nil, Nat.add_zero]
  | none =>
    refine ⟨some _, _, List.mem_append_right _ (List.mem_singleton.mpr rfl), rfl, rfl, rfl, ?_⟩
    intro created hcreated
    rw [Option.some.injEq] at hcreated
    refine ⟨hcreated.symm, by rw [← hcreated], fun other hother => ⟨?_, ?_⟩⟩
    · obtain ⟨n, hn, hid⟩ := h.jobs other hother
      rw [hid, ← hcreated]
      intro heq
      have := huuid heq
      omega
    · intro hkey
      have := List.find?_eq_none.mp hfind other hother
      exact this (decide_eq_true hkey)

/-- The row of a fact. -/
def storedRow (d : Delivery) (messageId : Int) (id : String) (job : Option String) (fact : Fact) :
    ObservationRow where
  id := id
  scopeKey := d.scope.key
  jobRecordId := job
  protocolJobId := fact.protocolId
  runnerRequestId := fact.request
  runnerId := fact.runner
  data := observationOf d messageId id fact
  observedAt := d.now

/-- The record, runner and request of a fact are to be refreshed. -/
def Touched.note (touched : Touched) (job : Option String) (fact : Fact) : Touched where
  affected := touched.affected ++ job.toList
  runners := touched.runners ++ fact.runner.toList
  requests := if fact.request > 0 then touched.requests ++ [fact.request] else touched.requests

/-- A fact is stored as one row, and perhaps one record. -/
theorem insertFact_ok {touched' : Touched} (hdrawn : s.Drawn uuid) (huuid : uuid.Injective)
    (h : insertFact uuid d messageId (s, touched) fact = .ok (t, touched')) :
    ∃ new job, t = s.insertRow new
        (storedRow d messageId (uuid (s.drawn + new.toList.length)) job fact)
        (s.drawn + new.toList.length + 1) ∧
      touched' = touched.note job fact ∧
      (fact.protocolId = "" → job = none) ∧
      (fact.protocolId ≠ "" → ∃ record ∈ s.jobs ++ new.toList, job = some record.id ∧
        record.scopeKey = d.scope.key ∧ record.protocolJobId = fact.protocolId) ∧
      ∀ created, new = some created → job = some created.id ∧ created.id = uuid s.drawn ∧
        fact.protocolId ≠ "" ∧ created.scopeKey = d.scope.key ∧
        created.protocolJobId = fact.protocolId ∧ ∀ other ∈ s.jobs, other.id ≠ created.id ∧
          ¬ (other.scopeKey = d.scope.key ∧ other.protocolJobId = fact.protocolId) := by
  unfold insertFact at h
  simp only [bind_eq_ok, ensure_eq_ok] at h
  obtain ⟨-, -, h⟩ := h
  by_cases hblank : blank fact.job = true
  · have hprotocol : fact.protocolId = "" := by
      unfold Fact.protocolId
      rw [if_pos hblank]
    simp only [if_pos hblank, pure_eq_ok, Prod.mk.injEq] at h
    obtain ⟨rfl, rfl⟩ := h
    refine ⟨none, none, ?_, rfl, fun _ => rfl, fun hne => absurd hprotocol hne,
      fun created hcreated => by cases hcreated⟩
    simp only [insertRow, storedRow, observationOf, hprotocol, Option.toList_none, List.append_nil,
      List.length_nil, Nat.add_zero]
  · have hprotocol : fact.protocolId = fact.job := by
      unfold Fact.protocolId
      rw [if_neg hblank]
    have hne : fact.protocolId ≠ "" := by
      intro hempty
      rw [← hprotocol, hempty] at hblank
      exact hblank rfl
    obtain ⟨new, job, hjob, hscope, hkey, hensure, hnew⟩ :=
      ensureJob_cases (d := d) hdrawn huuid fact.job
    simp only [if_neg hblank, hensure, pure_eq_ok, Prod.mk.injEq] at h
    obtain ⟨rfl, rfl⟩ := h
    refine ⟨new, some job.id, rfl, rfl, fun hempty => absurd hempty hne, fun _ => ?_, ?_⟩
    · exact ⟨job, hjob, rfl, hscope, hkey.trans hprotocol.symm⟩
    · intro created hcreated
      obtain ⟨rfl, hid, hothers⟩ := hnew created hcreated
      refine ⟨rfl, hid, hne, hscope, hkey.trans hprotocol.symm, ?_⟩
      rw [hprotocol]
      exact hothers

/-- What the insertion of facts did: each is a new row, and what it may change was noted. -/
structure Inserted (uuid : Nat → String) (scope : String) (s : JobStore) (told : List Fact)
    (t : JobStore) (touched : Touched) : Prop where
  keyed : t.Keyed
  drawn : t.Drawn uuid
  rows : ∃ new, t.observations = s.observations ++ new ∧
    List.Forall₂ (Stored scope) told new ∧ ∀ row ∈ new, Noted touched row
  jobs : ∃ new, t.jobs = s.jobs ++ new ∧ ∀ job ∈ new, job.id ∈ touched.affected
  positive : ∀ request ∈ touched.requests, 0 < request
  identities : t.identities = s.identities
  generations : t.generations = s.generations

theorem Noted.note {job : Option String} (h : Noted touched row) : Noted (touched.note job fact) row where
  affected id hid := List.mem_append_left _ (h.affected id hid)
  runners runner hrunner := List.mem_append_left _ (h.runners runner hrunner)
  requests hpos := by
    have hmem := h.requests hpos
    show row.runnerRequestId ∈ if fact.request > 0 then _ else _
    split
    · exact List.mem_append_left _ hmem
    · exact hmem

theorem storedRow_noted (id : String) (job : Option String) :
    Noted (touched.note job fact) (storedRow d messageId id job fact) where
  affected id hid := List.mem_append_right _ (Option.mem_toList.mpr hid)
  runners runner hrunner := List.mem_append_right _ (Option.mem_toList.mpr hrunner)
  requests hpos := by
    have hpos : fact.request > 0 := hpos
    show fact.request ∈ if fact.request > 0 then _ else _
    rw [if_pos hpos]
    exact List.mem_append_right _ (List.mem_singleton.mpr rfl)

theorem Inserted.step {told : List Fact} {t' : JobStore} {touched' : Touched}
    (h : Inserted uuid d.scope.key s told t touched) (huuid : uuid.Injective)
    (hfact : insertFact uuid d messageId (t, touched) fact = .ok (t', touched')) :
    Inserted uuid d.scope.key s (told ++ [fact]) t' touched' := by
  obtain ⟨new, job, rfl, rfl, hblank, hnamed, hnew⟩ := insertFact_ok h.drawn huuid hfact
  have hundrawn : ∀ n, n < t.drawn → uuid n ≠ uuid (t.drawn + new.toList.length) := by
    intro n hn heq
    have := huuid heq
    omega
  have hfits : t.Fits new
      (storedRow d messageId (uuid (t.drawn + new.toList.length)) job fact) := by
    constructor
    · intro other hother
      obtain ⟨n, hn, hid⟩ := h.drawn.rows other hother
      rw [hid]
      exact hundrawn n hn
    · exact ⟨rfl, rfl, rfl⟩
    · exact fun created hcreated other hother => ((hnew created hcreated).2.2.2.2.2 other hother).1
    · intro created hcreated
      obtain ⟨-, -, hne, hscope, hprotocol, -⟩ := hnew created hcreated
      exact ⟨hne, hscope, hprotocol⟩
    · exact fun created hcreated other hother => ((hnew created hcreated).2.2.2.2.2 other hother).2
    · exact hnamed
  obtain ⟨rows, hrows, hstored, hnoted⟩ := h.rows
  obtain ⟨jobs, hjobs, haffected⟩ := h.jobs
  constructor
  · exact h.keyed.insertRow hfits
  · constructor
    · intro row hrow
      rcases List.mem_append.mp hrow with hrow | hrow
      · obtain ⟨n, hn, hid⟩ := h.drawn.rows row hrow
        exact ⟨n, by show n < t.drawn + new.toList.length + 1; omega, hid⟩
      · rw [List.mem_singleton.mp hrow]
        exact ⟨_, Nat.lt_succ_self _, rfl⟩
    · intro other hother
      rcases List.mem_append.mp hother with hother | hother
      · obtain ⟨n, hn, hid⟩ := h.drawn.jobs other hother
        exact ⟨n, by show n < t.drawn + new.toList.length + 1; omega, hid⟩
      · obtain ⟨-, hid, -⟩ := hnew other (Option.mem_toList.mp hother)
        exact ⟨t.drawn, by show t.drawn < t.drawn + new.toList.length + 1; omega, hid⟩
  · refine ⟨rows ++ [storedRow d messageId (uuid (t.drawn + new.toList.length)) job fact],
      ?_, ?_, ?_⟩
    · show t.observations ++ [_] = _
      rw [hrows, List.append_assoc]
    · exact List.rel_append hstored (.cons ⟨rfl, rfl, hblank⟩ .nil)
    · intro row hrow
      rcases List.mem_append.mp hrow with hrow | hrow
      · exact (hnoted row hrow).note
      · rw [List.mem_singleton.mp hrow]
        exact storedRow_noted _ _
  · refine ⟨jobs ++ new.toList, ?_, ?_⟩
    · show t.jobs ++ new.toList = _
      rw [hjobs, List.append_assoc]
    · intro created hcreated
      rcases List.mem_append.mp hcreated with hcreated | hcreated
      · exact List.mem_append_left _ (haffected created hcreated)
      · obtain ⟨hjob, -⟩ := hnew created (Option.mem_toList.mp hcreated)
        exact List.mem_append_right _ (Option.mem_toList.mpr hjob)
  · intro request hrequest
    have hrequest : request ∈ if fact.request > 0 then touched.requests ++ [fact.request]
      else touched.requests := hrequest
    split at hrequest
    · next hpos =>
      rcases List.mem_append.mp hrequest with hrequest | hrequest
      · exact h.positive request hrequest
      · rw [List.mem_singleton.mp hrequest]
        exact hpos
    · exact h.positive request hrequest
  · exact h.identities
  · exact h.generations

theorem Inserted.fold {told rest : List Fact} {t' : JobStore} {touched' : Touched}
    (h : Inserted uuid d.scope.key s told t touched) (huuid : uuid.Injective)
    (hrest : rest.foldlM (insertFact uuid d messageId) (t, touched) = .ok (t', touched')) :
    Inserted uuid d.scope.key s (told ++ rest) t' touched' := by
  induction rest generalizing told t touched with
  | nil =>
    have heq := pure_eq_ok.mp hrest
    cases heq
    rw [List.append_nil]
    exact h
  | cons fact rest ih =>
    rw [List.foldlM_cons] at hrest
    obtain ⟨⟨next, noted⟩, hfact, hrest⟩ := bind_eq_ok.mp hrest
    have := ih (h.step huuid hfact) hrest
    rwa [List.append_assoc, List.singleton_append] at this

/-! ## Attaching facts without a job id -/

/-- The record a fact of the request without a job id is attached to. -/
def candidate (s : JobStore) (scope : String) (request : Int) : Option String :=
  match s.requestRecords scope request with
  | [id] => some id
  | _ => none

def settledRow (s : JobStore) (scope : String) (requests : List Int) (row : ObservationRow) :
    ObservationRow :=
  if row.scopeKey = scope ∧ row.runnerRequestId ∈ requests ∧ row.protocolJobId = "" then
    { row with jobRecordId := s.candidate scope row.runnerRequestId }
  else row

/-- The store with facts of the requests attached. -/
def settle (s : JobStore) (scope : String) (requests : List Int) : JobStore :=
  { s with observations := s.observations.map (s.settledRow scope requests) }

section Settled

variable (requests : List Int)

theorem settledRow_fields (s : JobStore) (scope : String) (row : ObservationRow) :
    ∃ record, s.settledRow scope requests row = { row with jobRecordId := record } := by
  unfold settledRow
  split
  · exact ⟨_, rfl⟩
  · exact ⟨row.jobRecordId, rfl⟩

theorem settledRow_named {row : ObservationRow} (h : row.protocolJobId ≠ "") :
    s.settledRow scope requests row = row := by
  unfold settledRow
  rw [if_neg fun hcond => h hcond.2.2]

@[simp] theorem settle_requestRecords (scope' : String) (request : Int) :
    (s.settle scope requests).requestRecords scope' request = s.requestRecords scope' request := by
  have hfilter : (s.settle scope requests).observations.filter (fun row =>
        row.scopeKey = scope' ∧ row.runnerRequestId = request ∧ row.protocolJobId ≠ "") =
      s.observations.filter fun row =>
        row.scopeKey = scope' ∧ row.runnerRequestId = request ∧ row.protocolJobId ≠ "" := by
    show (s.observations.map (s.settledRow scope requests)).filter _ = _
    rw [List.filter_map, List.filter_congr (q := fun row =>
      row.scopeKey = scope' ∧ row.runnerRequestId = request ∧ row.protocolJobId ≠ "")]
    · rw [List.map_congr_left (g := id), List.map_id]
      intro row hrow
      have hrow := (List.mem_filter.mp hrow).2
      rw [decide_eq_true_eq] at hrow
      exact settledRow_named requests hrow.2.2
    · intro row _
      obtain ⟨record, heq⟩ := settledRow_fields requests s scope row
      rw [Function.comp_apply, heq]
  unfold requestRecords
  rw [hfilter]

theorem settle_candidate (request : Int) :
    (s.settle scope requests).candidate scope request = s.candidate scope request := by
  unfold candidate
  rw [settle_requestRecords]

theorem settleRequest_eq (affected : List String) (request : Int) :
    settleRequest scope (s, affected) request =
      (s.settle scope [request], affected ++ s.requestRecords scope request) := by
  have hrows : (s.observations.map fun row =>
        if row.scopeKey = scope ∧ row.runnerRequestId = request ∧ row.protocolJobId = "" then
          { row with jobRecordId := s.candidate scope request }
        else row) = s.observations.map (s.settledRow scope [request]) := by
    apply List.map_congr_left
    intro row _
    unfold settledRow
    simp only [List.mem_singleton]
    by_cases hcond : row.scopeKey = scope ∧ row.runnerRequestId = request ∧ row.protocolJobId = ""
    · rw [if_pos hcond, if_pos hcond, hcond.2.1]
    · rw [if_neg hcond, if_neg hcond]
  unfold settle
  rw [← hrows]
  rfl

/-- The loop over the requests attaches the facts of all of them. -/
theorem foldl_settleRequest (affected : List String) :
    requests.foldl (settleRequest scope) (s, affected) =
      (s.settle scope requests, affected ++ requests.flatMap (s.requestRecords scope)) := by
  induction requests generalizing s affected with
  | nil =>
    have hrows : s.observations.map (s.settledRow scope []) = s.observations := by
      rw [List.map_congr_left (g := id), List.map_id]
      intro row _
      unfold settledRow
      rw [if_neg]
      · rfl
      · exact fun hcond => List.not_mem_nil hcond.2.1
    rw [List.foldl_nil, List.flatMap_nil, List.append_nil, settle, hrows]
  | cons request rest ih =>
    have hrecords : (s.settle scope [request]).requestRecords scope = s.requestRecords scope :=
      funext fun _ => settle_requestRecords _ _ _
    have hrows : (s.settle scope [request]).settle scope rest = s.settle scope (request :: rest) := by
      show ({ s with observations := _ } : JobStore) = { s with observations := _ }
      congr 1
      show (s.observations.map _).map _ = _
      rw [List.map_map]
      apply List.map_congr_left
      intro row _
      rw [Function.comp_apply]
      unfold settledRow
      rw [settle_candidate]
      by_cases hscope : row.scopeKey = scope ∧ row.protocolJobId = ""
      · by_cases hfirst : row.runnerRequestId = request <;>
          by_cases hlater : row.runnerRequestId ∈ rest <;>
            simp [hscope, hfirst, hlater]
      · have hnot : ∀ p : Prop, ¬ (row.scopeKey = scope ∧ p ∧ row.protocolJobId = "") :=
          fun _ hcond => hscope ⟨hcond.1, hcond.2.2⟩
        simp only [hnot, if_false]
    rw [List.foldl_cons, settleRequest_eq, ih, hrecords, hrows, List.flatMap_cons,
      List.append_assoc]

end Settled

/-! ## Records are up to date -/

/-- Every fact is attached to the record of its job, and every record shows what the archive says. -/
structure Current (s : JobStore) : Prop extends Linked s where
  fresh : ∀ job ∈ s.jobs, Fresh s job

@[simp] theorem settle_archive (requests : List Int) :
    (s.settle scope requests).archive = s.archive := by
  unfold archive
  congr 1
  show (s.observations.map _).map _ = _
  rw [List.map_map]
  apply List.map_congr_left
  intro row _
  obtain ⟨record, heq⟩ := settledRow_fields requests s scope row
  rw [Function.comp_apply, heq]
  rfl

theorem Archive.jobOf_named {A : Archive} {e : Evidence} (h : e.job ≠ "") :
    A.jobOf e = some e.job := by
  unfold Archive.jobOf
  rw [if_pos h]

theorem Archive.jobOf_blank {A : Archive} {e : Evidence} (h : e.job = "") {name : String} :
    A.jobOf e = some name ↔ 0 < e.observation.runnerRequestId ∧
      unique (A.requestNames e.scope e.observation.runnerRequestId) = some name := by
  unfold Archive.jobOf
  rw [if_neg (not_not.mpr h)]
  by_cases hpos : e.observation.runnerRequestId > 0
  · rw [if_pos hpos]
    exact ⟨fun hname => ⟨hpos, hname⟩, fun hname => hname.2⟩
  · rw [if_neg hpos]
    constructor
    · nofun
    · exact fun hname => absurd hname.1 hpos

namespace Keyed

variable (h : s.Keyed)

include h

theorem record_eq {job job' : JobRow} (hjob : job ∈ s.jobs) (hjob' : job' ∈ s.jobs)
    (hid : job.id = job'.id) : job = job' :=
  List.inj_on_of_nodup_map h.jobIds hjob hjob' hid

theorem mem_requestRecords {id : String} : id ∈ s.requestRecords scope request ↔
    ∃ job ∈ s.jobs, job.id = id ∧ job.scopeKey = scope ∧
      some job.protocolJobId ∈ s.archive.requestNames scope request := by
  unfold requestRecords
  simp only [List.mem_dedup, List.mem_filterMap, List.mem_filter, decide_eq_true_eq,
    h.mem_requestNames]
  constructor
  · rintro ⟨row, ⟨hrow, hscope, hrequest, hne⟩, hid⟩
    obtain ⟨job, hjob, hrecord, hjobScope, hprotocol⟩ := h.recorded row hrow hne
    refine ⟨job, hjob, Option.some.inj (hrecord.symm.trans hid), hjobScope.trans hscope, row, hrow,
      hscope, hrequest, ?_⟩
    exact named_eq_some.mpr ⟨hprotocol.symm, (h.named job hjob).1⟩
  · rintro ⟨job, hjob, rfl, hscope, row, hrow, hrowScope, hrequest, hname⟩
    obtain ⟨hprotocol, hne⟩ := named_eq_some.mp hname
    have hprotocol : row.protocolJobId = job.protocolJobId := hprotocol
    obtain ⟨job', hjob', hrecord, hscope', hprotocol'⟩ := h.recorded row hrow (hprotocol ▸ hne)
    have heq := h.jobKeys job' hjob' job hjob (hscope'.trans (hrowScope.trans hscope.symm))
      (hprotocol'.trans hprotocol)
    subst heq
    exact ⟨row, ⟨hrow, hrowScope, hrequest, hprotocol ▸ hne⟩, hrecord⟩

/-- A request's facts are attached to the record of the one job they name. -/
theorem candidate_eq_some {id : String} : s.candidate scope request = some id ↔
    ∃ job ∈ s.jobs, job.id = id ∧ job.scopeKey = scope ∧
      unique (s.archive.requestNames scope request) = some job.protocolJobId := by
  have hsingle : s.candidate scope request = some id ↔ s.requestRecords scope request = [id] := by
    unfold candidate
    split
    · next other hother => simp [hother]
    · next hnone =>
      constructor
      · nofun
      · exact fun heq => absurd heq (hnone id)
  have hnodup : (s.requestRecords scope request).Nodup := List.nodup_dedup _
  rw [hsingle]
  constructor
  · intro heq
    have hmem : id ∈ s.requestRecords scope request := heq ▸ List.mem_singleton.mpr rfl
    obtain ⟨job, hjob, hid, hscope, hname⟩ := h.mem_requestRecords.mp hmem
    refine ⟨job, hjob, hid, hscope, unique_eq_some.mpr ⟨hname, fun other hother => ?_⟩⟩
    obtain ⟨row, hrow, hrowScope, hrequest, hnamed⟩ := h.mem_requestNames.mp hother
    obtain ⟨hprotocol, hne⟩ := named_eq_some.mp hnamed
    have hprotocol : row.protocolJobId = other := hprotocol
    obtain ⟨job', hjob', -, hscope', hprotocol'⟩ := h.recorded row hrow (hprotocol ▸ hne)
    have hmem' : job'.id ∈ s.requestRecords scope request := by
      refine h.mem_requestRecords.mpr ⟨job', hjob', rfl, hscope'.trans hrowScope, ?_⟩
      rw [hprotocol', hprotocol]
      exact hother
    rw [heq, List.mem_singleton] at hmem'
    have hsame := h.record_eq hjob' hjob (hmem'.trans hid.symm)
    rw [← hsame, hprotocol', hprotocol]
  · rintro ⟨job, hjob, rfl, hscope, hunique⟩
    obtain ⟨hname, hall⟩ := unique_eq_some.mp hunique
    have hmem : job.id ∈ s.requestRecords scope request :=
      h.mem_requestRecords.mpr ⟨job, hjob, rfl, hscope, hname⟩
    have honly : ∀ id ∈ s.requestRecords scope request, id = job.id := by
      intro id hid
      obtain ⟨job', hjob', rfl, hscope', hname'⟩ := h.mem_requestRecords.mp hid
      rw [h.jobKeys job' hjob' job hjob (hscope'.trans hscope.symm) (hall _ hname')]
    cases hrecords : s.requestRecords scope request with
    | nil =>
      rw [hrecords] at hmem
      cases hmem
    | cons first rest =>
      rw [hrecords] at honly hnodup
      have hfirst := honly first List.mem_cons_self
      cases rest with
      | nil => rw [hfirst]
      | cons second rest =>
        have hsecond := honly second (List.mem_cons_of_mem _ List.mem_cons_self)
        rw [hfirst, hsecond] at hnodup
        exact absurd List.mem_cons_self (List.nodup_cons.mp hnodup).1

theorem settle (requests : List Int) : (s.settle scope requests).Keyed := by
  have hids : (s.settle scope requests).observations.map (·.id) = s.observations.map (·.id) := by
    show (s.observations.map _).map _ = _
    rw [List.map_map]
    apply List.map_congr_left
    intro row _
    obtain ⟨record, heq⟩ := settledRow_fields requests s scope row
    rw [Function.comp_apply, heq]
  constructor
  · rw [hids]
    exact h.ids
  · intro row' hrow'
    obtain ⟨row, hrow, rfl⟩ := List.mem_map.mp hrow'
    obtain ⟨record, heq⟩ := settledRow_fields requests s scope row
    rw [heq]
    have hcolumns := h.columns row hrow
    exact ⟨hcolumns.id, hcolumns.request, hcolumns.runner⟩
  · exact h.jobIds
  · exact h.jobKeys
  · intro row' hrow' hne
    obtain ⟨row, hrow, rfl⟩ := List.mem_map.mp hrow'
    obtain ⟨record, heq⟩ := settledRow_fields requests s scope row
    have hne : row.protocolJobId ≠ "" := by
      rw [heq] at hne
      exact hne
    rw [settledRow_named requests hne]
    exact h.recorded row hrow hne
  · intro job hjob
    obtain ⟨hne, row, hrow, hscope, hprotocol⟩ := h.named job hjob
    obtain ⟨record, heq⟩ := settledRow_fields requests s scope row
    refine ⟨hne, _, List.mem_map_of_mem hrow, ?_⟩
    rw [heq]
    exact ⟨hscope, hprotocol⟩

/-- A fact that names its job is attached to that job's record, and to no other. -/
theorem attached_named (hrow : row ∈ s.observations) (hne : row.protocolJobId ≠ "") (id : String) :
    row.jobRecordId = some id ↔ ∃ job ∈ s.jobs, job.id = id ∧ job.scopeKey = row.scopeKey ∧
      s.archive.jobOf row.evidence = some job.protocolJobId := by
  obtain ⟨job, hjob, hrecord, hscope, hprotocol⟩ := h.recorded row hrow hne
  have hof : s.archive.jobOf row.evidence = some row.protocolJobId := Archive.jobOf_named hne
  constructor
  · intro hid
    exact ⟨job, hjob, Option.some.inj (hrecord.symm.trans hid), hscope, by rw [hof, hprotocol]⟩
  · rintro ⟨job', hjob', rfl, hscope', hof'⟩
    have hprotocol' := Option.some.inj (hof.symm.trans hof')
    rw [h.jobKeys job' hjob' job hjob (hscope'.trans hscope.symm)
      (hprotocol'.symm.trans hprotocol.symm), hrecord]

end Keyed

theorem exists_left {α β : Type} {R : α → β → Prop} {l : List α} {l' : List β} {b : β}
    (h : List.Forall₂ R l l') (hb : b ∈ l') : ∃ a ∈ l, R a b := by
  induction h with
  | nil => cases hb
  | cons hhead _ ih =>
    rcases List.mem_cons.mp hb with rfl | hb
    · exact ⟨_, List.mem_cons_self, hhead⟩
    · obtain ⟨a, ha, hrel⟩ := ih hb
      exact ⟨a, List.mem_cons_of_mem _ ha, hrel⟩

namespace Inserted

variable {told : List Fact} (h : Inserted uuid scope s told t touched)

include h

theorem old_rows (hrow : row ∈ s.observations) : row ∈ t.observations := by
  obtain ⟨new, hrows, -⟩ := h.rows
  rw [hrows]
  exact List.mem_append_left _ hrow

/-- A row is an old one, or one of the scope whose effects were noted. -/
theorem rows_cases (hrow : row ∈ t.observations) : row ∈ s.observations ∨
    (row.scopeKey = scope ∧ Noted touched row ∧ (row.protocolJobId = "" → row.jobRecordId = none)) := by
  obtain ⟨new, hrows, hstored, hnoted⟩ := h.rows
  rw [hrows] at hrow
  rcases List.mem_append.mp hrow with hrow | hrow
  · exact .inl hrow
  · obtain ⟨fact, -, hfact⟩ := exists_left hstored hrow
    have hscope := congrArg Evidence.scope hfact.evidence
    exact .inr ⟨hscope, hnoted row hrow, hfact.unattached⟩

theorem requestNames (hs : s.Keyed) {scope' : String} (hpos : 0 < request)
    (huntouched : ¬ (scope' = scope ∧ request ∈ touched.requests)) (name : Option String) :
    name ∈ t.archive.requestNames scope' request ↔ name ∈ s.archive.requestNames scope' request := by
  rw [h.keyed.mem_requestNames, hs.mem_requestNames]
  constructor
  · rintro ⟨row, hrow, hscope, hrequest, hname⟩
    rcases h.rows_cases hrow with hold | ⟨hnew, hnoted, -⟩
    · exact ⟨row, hold, hscope, hrequest, hname⟩
    · exact absurd ⟨hscope.symm.trans hnew, hrequest ▸ hnoted.requests (hrequest ▸ hpos)⟩ huntouched
  · rintro ⟨row, hrow, hkey⟩
    exact ⟨row, h.old_rows hrow, hkey⟩

theorem runnerNames (hs : s.Keyed) {scope' : String} {runner : Int}
    (huntouched : ¬ (scope' = scope ∧ runner ∈ touched.runners)) (name : Option String) :
    name ∈ t.archive.runnerNames scope' runner ↔ name ∈ s.archive.runnerNames scope' runner := by
  rw [h.keyed.mem_runnerNames, hs.mem_runnerNames]
  constructor
  · rintro ⟨row, hrow, hscope, hrunner, hname⟩
    rcases h.rows_cases hrow with hold | ⟨hnew, hnoted, -⟩
    · exact ⟨row, hold, hscope, hrunner, hname⟩
    · exact absurd ⟨hscope.symm.trans hnew, hnoted.runners _ hrunner⟩ huntouched
  · rintro ⟨row, hrow, hkey⟩
    exact ⟨row, h.old_rows hrow, hkey⟩

/-- Once the facts without a job id are attached, every fact is attached to its job's record. -/
theorem linked (hs : s.Linked) {requests : List Int}
    (hrequests : ∀ request, request ∈ requests ↔ request ∈ touched.requests) :
    (t.settle scope requests).Linked := by
  refine { toKeyed := h.keyed.settle requests, attached := ?_ }
  intro row' hrow' id
  obtain ⟨row, hrow, rfl⟩ := List.mem_map.mp hrow'
  rw [settle_archive]
  show _ ↔ ∃ job ∈ t.jobs, _
  by_cases hnamed : row.protocolJobId ≠ ""
  · rw [settledRow_named requests hnamed]
    exact h.keyed.attached_named hrow hnamed id
  · rw [ne_eq, not_not] at hnamed
    have hcolumns := h.keyed.columns row hrow
    have hof : ∀ {name : String}, t.archive.jobOf row.evidence = some name ↔
        0 < row.runnerRequestId ∧
          unique (t.archive.requestNames row.scopeKey row.runnerRequestId) = some name := by
      intro name
      rw [Archive.jobOf_blank hnamed, ← hcolumns.request]
      rfl
    by_cases hcond : row.scopeKey = scope ∧ row.runnerRequestId ∈ requests
    · have hpos := h.positive _ ((hrequests _).mp hcond.2)
      have hsettled : t.settledRow scope requests row =
          { row with jobRecordId := t.candidate scope row.runnerRequestId } := by
        unfold settledRow
        rw [if_pos ⟨hcond.1, hcond.2, hnamed⟩]
      rw [hsettled]
      show t.candidate scope row.runnerRequestId = some id ↔ ∃ job ∈ t.jobs, job.id = id ∧
        job.scopeKey = row.scopeKey ∧ t.archive.jobOf row.evidence = some job.protocolJobId
      rw [h.keyed.candidate_eq_some]
      simp only [hof, hcond.1, hpos, true_and]
    · have hsettled : t.settledRow scope requests row = row := by
        unfold settledRow
        rw [if_neg fun hall => hcond ⟨hall.1, hall.2.1⟩]
      have huntouched : ¬ (row.scopeKey = scope ∧ row.runnerRequestId ∈ touched.requests) :=
        fun hall => hcond ⟨hall.1, (hrequests _).mpr hall.2⟩
      rw [hsettled]
      rcases h.rows_cases hrow with hold | ⟨hscope, hnoted, hunattached⟩
      · have hofs : ∀ {name : String}, s.archive.jobOf row.evidence = some name ↔
            t.archive.jobOf row.evidence = some name := by
          intro name
          rw [hof, Archive.jobOf_blank hnamed]
          show 0 < row.data.runnerRequestId ∧
            unique (s.archive.requestNames row.scopeKey row.data.runnerRequestId) = some name ↔ _
          rw [hcolumns.request]
          constructor
          · rintro ⟨hpos, hunique⟩
            exact ⟨hpos, unique_congr (h.requestNames hs.toKeyed hpos huntouched) ▸ hunique⟩
          · rintro ⟨hpos, hunique⟩
            exact ⟨hpos, unique_congr (h.requestNames hs.toKeyed hpos huntouched) ▸ hunique⟩
        obtain ⟨new, hjobs, -⟩ := h.jobs
        rw [hs.attached row hold]
        constructor
        · rintro ⟨job, hjob, hid, hscope, hjobOf⟩
          exact ⟨job, hjobs ▸ List.mem_append_left _ hjob, hid, hscope, hofs.mp hjobOf⟩
        · rintro ⟨job, hjob, hid, hscope, hjobOf⟩
          obtain ⟨hpos, hunique⟩ := hof.mp hjobOf
          have hname := (h.requestNames hs.toKeyed hpos huntouched _).mp (unique_eq_some.mp hunique).1
          obtain ⟨other, hother, hotherScope, -, hothername⟩ := hs.mem_requestNames.mp hname
          obtain ⟨hprotocol, hne⟩ := named_eq_some.mp hothername
          have hprotocol : other.protocolJobId = job.protocolJobId := hprotocol
          obtain ⟨job', hjob', -, hscope', hprotocol'⟩ := hs.recorded other hother (hprotocol ▸ hne)
          have hmem : job' ∈ t.jobs := hjobs ▸ List.mem_append_left _ hjob'
          have heq := h.keyed.jobKeys job' hmem job hjob
            (hscope'.trans (hotherScope.trans hscope.symm)) (hprotocol'.trans hprotocol)
          subst heq
          exact ⟨job', hjob', hid, hscope, hofs.mpr hjobOf⟩
      · rw [hunattached hnamed]
        constructor
        · nofun
        · rintro ⟨job, -, -, -, hjobOf⟩
          have hpos := (hof.mp hjobOf).1
          exact absurd ⟨hscope, hnoted.requests hpos⟩ huntouched

end Inserted

end JobStore

end Jobs

end Shaula
