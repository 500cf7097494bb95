import Shaula.Jobs.Archive
import Mathlib.Data.Finset.Card

/-! # A refresh shows what the facts amount to

The rows of the job tables are an archive of facts with what was made of them.  Where every fact is
attached to the record of its job, refreshing a record leaves the archive alone and makes the record,
and the facts attached to it, show what the archive says of them.
-/

namespace Shaula

namespace Jobs

/-- The fact a row stores. -/
def ObservationRow.evidence (row : ObservationRow) : Evidence where
  scope := row.scopeKey
  job := row.protocolJobId
  observation := row.data.marked none .unverified

/-- What a record shows of its job. -/
def JobSummary.projection (summary : JobSummary) : JobProjection where
  metadata := summary.metadata
  observedStatus := summary.observedStatus
  reportedResult := summary.reportedResult
  associationStatus := summary.associationStatus

namespace JobStore

variable {s : JobStore} {row : ObservationRow} {job : JobRow}

def archive (s : JobStore) : Archive where
  evidence := s.observations.map (·.evidence)
  identities := s.identities
  generations := s.generations

/-- The columns of a row repeat what its data says. -/
structure Columns (row : ObservationRow) : Prop where
  id : row.data.id = row.id
  request : row.data.runnerRequestId = row.runnerRequestId
  runner : row.data.runnerId = row.runnerId

/-- Keys are keys, and the facts that name a job are attached to its record. -/
structure Keyed (s : JobStore) : Prop where
  ids : (s.observations.map (·.id)).Nodup
  columns : ∀ row ∈ s.observations, Columns row
  jobIds : (s.jobs.map (·.id)).Nodup
  jobKeys : ∀ job ∈ s.jobs, ∀ job' ∈ s.jobs, job.scopeKey = job'.scopeKey →
    job.protocolJobId = job'.protocolJobId → job = job'
  recorded : ∀ row ∈ s.observations, row.protocolJobId ≠ "" → ∃ job ∈ s.jobs,
    row.jobRecordId = some job.id ∧ job.scopeKey = row.scopeKey ∧
      job.protocolJobId = row.protocolJobId
  named : ∀ job ∈ s.jobs, job.protocolJobId ≠ "" ∧ ∃ row ∈ s.observations,
    row.scopeKey = job.scopeKey ∧ row.protocolJobId = job.protocolJobId

/-- Every fact is attached to the record of the job it belongs to. -/
structure Linked (s : JobStore) : Prop extends Keyed s where
  attached : ∀ row ∈ s.observations, ∀ id, row.jobRecordId = some id ↔ ∃ job ∈ s.jobs,
    job.id = id ∧ job.scopeKey = row.scopeKey ∧
      s.archive.jobOf row.evidence = some job.protocolJobId

/-- The record of the job shows what the archive says of it, and so does every fact of the job. -/
structure Fresh (s : JobStore) (job : JobRow) : Prop where
  rows : ∀ row ∈ s.observations, row.jobRecordId = some job.id →
    row.data = s.archive.settled job.scopeKey job.protocolJobId row.evidence
  summary : job.summary.projection = s.archive.projection job.scopeKey job.protocolJobId

/-! ## Queries -/

theorem one_lt_dedup_length {α : Type} [DecidableEq α] {l : List α} :
    1 < l.dedup.length ↔ ∃ a ∈ l, ∃ b ∈ l, a ≠ b := by
  rw [← List.card_toFinset, Finset.one_lt_card]
  simp only [List.mem_toFinset]

theorem named_eq_some {e : Evidence} {name : String} :
    e.named = some name ↔ e.job = name ∧ name ≠ "" := by
  unfold Evidence.named
  by_cases h : e.job = ""
  · rw [if_pos h]
    constructor
    · nofun
    · rintro ⟨rfl, hne⟩
      exact absurd h hne
  · rw [if_neg h, Option.some.injEq]
    constructor
    · rintro rfl
      exact ⟨rfl, h⟩
    · exact fun heq => heq.1

theorem named_eq_none {e : Evidence} : e.named = none ↔ e.job = "" := by
  unfold Evidence.named
  by_cases h : e.job = "" <;> simp [h]

theorem disagree_eq_true {names : List (Option String)} : Archive.disagree names = true ↔
    ∃ a b, some a ∈ names ∧ some b ∈ names ∧ a ≠ b := by
  unfold Archive.disagree
  simp only [List.any_eq_true]
  constructor
  · rintro ⟨x, hx, y, hy, hne⟩
    cases x with
    | none => cases hne
    | some a =>
      cases y with
      | none => cases hne
      | some b => exact ⟨a, b, hx, hy, by simpa [conflict] using hne⟩
  · rintro ⟨a, b, ha, hb, hne⟩
    exact ⟨some a, ha, some b, hb, by simpa [conflict] using hne⟩

namespace Keyed

variable (h : s.Keyed)

include h

theorem mem_requestNames {scope : String} {request : Int} {name : Option String} :
    name ∈ s.archive.requestNames scope request ↔ ∃ row ∈ s.observations,
      row.scopeKey = scope ∧ row.runnerRequestId = request ∧ row.evidence.named = name := by
  unfold Archive.requestNames archive
  simp only [List.mem_map, List.mem_filter, Bool.and_eq_true, decide_eq_true_eq]
  constructor
  · rintro ⟨e, ⟨⟨row, hrow, rfl⟩, hscope, hrequest⟩, hname⟩
    exact ⟨row, hrow, hscope, (h.columns row hrow).request.symm.trans hrequest, hname⟩
  · rintro ⟨row, hrow, hscope, hrequest, hname⟩
    exact ⟨_, ⟨⟨row, hrow, rfl⟩, hscope, (h.columns row hrow).request.trans hrequest⟩, hname⟩

theorem mem_runnerNames {scope : String} {runner : Int} {name : Option String} :
    name ∈ s.archive.runnerNames scope runner ↔ ∃ row ∈ s.observations,
      row.scopeKey = scope ∧ row.runnerId = some runner ∧ row.evidence.named = name := by
  unfold Archive.runnerNames archive
  simp only [List.mem_map, List.mem_filter, Bool.and_eq_true, decide_eq_true_eq]
  constructor
  · rintro ⟨e, ⟨⟨row, hrow, rfl⟩, hscope, hrunner⟩, hname⟩
    exact ⟨row, hrow, hscope, (h.columns row hrow).runner.symm.trans hrunner, hname⟩
  · rintro ⟨row, hrow, hscope, hrunner, hname⟩
    exact ⟨_, ⟨⟨row, hrow, rfl⟩, hscope, (h.columns row hrow).runner.trans hrunner⟩, hname⟩

theorem requestConflicts_eq (scope : String) (request : Int) :
    s.requestConflicts scope request = s.archive.disputed scope request := by
  unfold requestConflicts Archive.disputed
  by_cases hpos : 0 < request
  · rw [if_neg (by omega)]
    simp only [hpos, decide_true, Bool.true_and]
    congr 1
    · rw [Bool.eq_iff_iff, decide_eq_true_eq, gt_iff_lt, one_lt_dedup_length, disagree_eq_true]
      simp only [h.mem_requestNames, named_eq_some, List.mem_filter, List.mem_map,
        decide_eq_true_eq]
      constructor
      · rintro ⟨a, ⟨⟨row, ⟨hrow, hof⟩, rfl⟩, ha⟩, b, ⟨⟨row', ⟨hrow', hof'⟩, rfl⟩, hb⟩, hne⟩
        exact ⟨_, _, ⟨row, hrow, hof.1, hof.2, rfl, ha⟩, ⟨row', hrow', hof'.1, hof'.2, rfl, hb⟩, hne⟩
      · rintro ⟨a, b, ⟨row, hrow, hscope, hrequest, rfl, ha⟩, ⟨row', hrow', hscope', hrequest', rfl, hb⟩,
          hne⟩
        exact ⟨_, ⟨⟨row, ⟨hrow, hscope, hrequest⟩, rfl⟩, ha⟩, _,
          ⟨⟨row', ⟨hrow', hscope', hrequest'⟩, rfl⟩, hb⟩, hne⟩
    · rw [Bool.eq_iff_iff, decide_eq_true_eq, gt_iff_lt, List.length_pos_iff_exists_mem,
        List.any_eq_true]
      simp only [List.mem_filter, decide_eq_true_eq, h.mem_requestNames, Option.isNone_iff_eq_none]
      constructor
      · rintro ⟨row, ⟨hrow, hscope, hrequest⟩, hblank⟩
        exact ⟨none, ⟨row, hrow, hscope, hrequest, named_eq_none.mpr hblank⟩, rfl⟩
      · rintro ⟨name, ⟨row, hrow, hscope, hrequest, hname⟩, rfl⟩
        exact ⟨row, ⟨hrow, hscope, hrequest⟩, named_eq_none.mp hname⟩
  · rw [if_pos (by omega)]
    simp only [hpos, decide_false, Bool.false_and]

theorem distinctJobs_gt (scope : String) (runner : Int) :
    (s.distinctJobs scope runner).length > 1 ↔
      Archive.disagree (s.archive.runnerNames scope runner) = true := by
  unfold distinctJobs
  rw [gt_iff_lt, one_lt_dedup_length, disagree_eq_true]
  simp only [h.mem_runnerNames, named_eq_some, List.mem_filter, List.mem_map, decide_eq_true_eq]
  constructor
  · rintro ⟨a, ⟨row, ⟨hrow, hscope, hrunner, ha⟩, rfl⟩, b, ⟨row', ⟨hrow', hscope', hrunner', hb⟩, rfl⟩,
      hne⟩
    exact ⟨_, _, ⟨row, hrow, hscope, hrunner, rfl, ha⟩, ⟨row', hrow', hscope', hrunner', rfl, hb⟩, hne⟩
  · rintro ⟨a, b, ⟨row, hrow, hscope, hrunner, rfl, ha⟩, ⟨row', hrow', hscope', hrunner', rfl, hb⟩, hne⟩
    exact ⟨_, ⟨row, ⟨hrow, hscope, hrunner, ha⟩, rfl⟩, _, ⟨row', ⟨hrow', hscope', hrunner', hb⟩, rfl⟩,
      hne⟩

/-- The queries of a refresh associate an observation as the archive does. -/
theorem resolve_eq {scope : String} (hscope : row.scopeKey = scope) :
    s.resolve scope row.data = s.archive.resolve row.evidence := by
  have hassociate : s.associate scope row.data = s.archive.associate row.evidence := by
    subst hscope
    have hrunner : row.evidence.observation.runnerId = row.data.runnerId := rfl
    unfold associate Archive.associate
    rw [hrunner]
    cases row.data.runnerId with
    | none => rfl
    | some runner =>
      have hcandidates : s.archive.candidates row.evidence.scope runner =
          s.candidates row.scopeKey runner := rfl
      dsimp only
      rw [hcandidates]
      cases s.candidates row.scopeKey runner with
      | nil => rfl
      | cons candidate others =>
        simp only [h.distinctJobs_gt]
        rfl
  unfold resolve Archive.resolve
  rw [h.requestConflicts_eq, hassociate]
  subst hscope
  rfl

end Keyed

/-! ## Saving observations -/

theorem foldl_saveObservation (observations : List JobObservation) (s : JobStore)
    (hids : (observations.map (·.id)).Nodup) :
    observations.foldl saveObservation s =
      { s with
        observations := s.observations.map fun row =>
          match observations.find? fun o => o.id = row.id with
          | some o => { row with data := o }
          | none => row } := by
  induction observations generalizing s with
  | nil => simp
  | cons o rest ih =>
    rw [List.map_cons, List.nodup_cons] at hids
    rw [List.foldl_cons, ih _ hids.2]
    unfold saveObservation
    simp only [List.map_map]
    congr 1
    apply List.map_congr_left
    intro row _
    simp only [Function.comp_apply, List.find?_cons]
    by_cases heq : row.id = o.id
    · have hnone : rest.find? (fun o' => decide (o'.id = row.id)) = none := by
        rw [List.find?_eq_none]
        intro o' ho' hid
        rw [decide_eq_true_eq] at hid
        exact hids.1 (List.mem_map.mpr ⟨o', ho', hid.trans heq⟩)
      simp [heq, heq ▸ hnone]
    · have hne : ¬ o.id = row.id := fun hid => heq hid.symm
      simp [heq, hne]

/-- Saving an observation for each of some rows rewrites the data of just these. -/
theorem save_rows {rows : List ObservationRow} (f : ObservationRow → JobObservation)
    (hids : (s.observations.map (·.id)).Nodup) (hsub : rows.Sublist s.observations)
    (hf : ∀ row, (f row).id = row.id) :
    (rows.map f).foldl saveObservation s =
      { s with
        observations := s.observations.map fun row =>
          if row ∈ rows then { row with data := f row } else row } := by
  have hnodup : ((rows.map f).map (·.id)).Nodup := by
    rw [List.map_map]
    have hcomp : (fun o : JobObservation => o.id) ∘ f = fun row => row.id := funext hf
    rw [hcomp]
    exact hids.sublist (hsub.map _)
  rw [foldl_saveObservation _ _ hnodup]
  congr 1
  apply List.map_congr_left
  intro row hrow
  rw [List.find?_map]
  by_cases hmem : row ∈ rows
  · rw [if_pos hmem]
    cases hfind : rows.find? ((fun o => decide (o.id = row.id)) ∘ f) with
    | none =>
      have := List.find?_eq_none.mp hfind row hmem
      simp [hf] at this
    | some found =>
      have hid := List.find?_some hfind
      simp only [Function.comp_apply, hf, decide_eq_true_eq] at hid
      have hfound := hsub.subset (List.mem_of_find?_eq_some hfind)
      cases List.inj_on_of_nodup_map hids hfound hrow hid
      rfl
  · rw [if_neg hmem]
    have hnone : rows.find? ((fun o => decide (o.id = row.id)) ∘ f) = none := by
      rw [List.find?_eq_none]
      intro row' hrow' hid
      simp only [Function.comp_apply, hf, decide_eq_true_eq] at hid
      cases List.inj_on_of_nodup_map hids (hsub.subset hrow') hrow hid
      exact hmem hrow'
    rw [hnone]
    rfl

/-- Saving the same observations again overwrites what was saved. -/
theorem save_again {observations observations' : List JobObservation}
    (hids : (observations'.map (·.id)).Nodup)
    (hsame : observations.map (·.id) = observations'.map (·.id)) :
    observations'.foldl saveObservation (observations.foldl saveObservation s) =
      observations'.foldl saveObservation s := by
  rw [foldl_saveObservation _ _ hids, foldl_saveObservation _ _ (hsame ▸ hids),
    foldl_saveObservation _ _ hids]
  simp only [List.map_map]
  congr 1
  apply List.map_congr_left
  intro row _
  simp only [Function.comp_apply]
  cases hfind : observations.find? fun o => decide (o.id = row.id) with
  | none => rfl
  | some o =>
    have hid := List.find?_some hfind
    rw [decide_eq_true_eq] at hid
    have hmem : o.id ∈ observations'.map (·.id) :=
      hsame ▸ List.mem_map_of_mem (List.mem_of_find?_eq_some hfind)
    obtain ⟨o', ho', hid'⟩ := List.mem_map.mp hmem
    have hsome : (observations'.find? fun o => decide (o.id = row.id)).isSome := by
      rw [List.find?_isSome]
      exact ⟨o', ho', by rw [decide_eq_true_eq, hid', hid]⟩
    obtain ⟨found, hfound⟩ := Option.isSome_iff_exists.mp hsome
    simp only [hfound]

/-! ## A refresh -/

theorem resolve_id (scope : String) (o : JobObservation) : (s.resolve scope o).id = o.id := by
  have hassociate : (s.associate scope o).id = o.id := by
    unfold associate
    split
    · rfl
    · split
      · rfl
      · split <;> rfl
  unfold resolve
  split
  · exact hassociate
  · exact hassociate

namespace Linked

variable (h : s.Linked)

include h

theorem job_eq {job' : JobRow} (hjob : job ∈ s.jobs) (hjob' : job' ∈ s.jobs)
    (hid : job.id = job'.id) : job = job' :=
  List.inj_on_of_nodup_map h.jobIds hjob hjob' hid

theorem find_job (hjob : job ∈ s.jobs) :
    s.jobs.find? (fun other => decide (other.id = job.id)) = some job := by
  have hsome : (s.jobs.find? fun other => decide (other.id = job.id)).isSome := by
    rw [List.find?_isSome]
    exact ⟨job, hjob, decide_eq_true rfl⟩
  obtain ⟨found, hfound⟩ := Option.isSome_iff_exists.mp hsome
  have hid := List.find?_some hfound
  rw [decide_eq_true_eq] at hid
  rw [hfound, h.job_eq (List.mem_of_find?_eq_some hfound) hjob hid]

theorem attached_iff (hjob : job ∈ s.jobs) (hrow : row ∈ s.observations) :
    row.jobRecordId = some job.id ↔ row.scopeKey = job.scopeKey ∧
      s.archive.jobOf row.evidence = some job.protocolJobId := by
  rw [h.attached row hrow]
  constructor
  · rintro ⟨job', hjob', hid, hscope, hof⟩
    cases h.job_eq hjob' hjob hid
    exact ⟨hscope.symm, hof⟩
  · rintro ⟨hscope, hof⟩
    exact ⟨job, hjob, rfl, hscope.symm, hof⟩

theorem factsOf_eq (hjob : job ∈ s.jobs) :
    s.archive.factsOf job.scopeKey job.protocolJobId =
      (s.attached job.id).map (·.evidence) := by
  unfold Archive.factsOf JobStore.attached
  show (s.observations.map (·.evidence)).filter _ = _
  rw [List.filter_map]
  congr 1
  apply List.filter_congr
  intro row hrow
  rw [Function.comp_apply, Bool.eq_iff_iff, Bool.and_eq_true, decide_eq_true_eq,
    decide_eq_true_eq, decide_eq_true_eq]
  exact (h.attached_iff hjob hrow).symm

theorem projection_eq (hjob : job ∈ s.jobs) :
    projectObservations ((s.attached job.id).map fun row => s.resolve job.scopeKey row.data) =
      s.archive.projection job.scopeKey job.protocolJobId := by
  unfold Archive.projection
  rw [h.factsOf_eq hjob, List.map_map]
  congr 1
  apply List.map_congr_left
  intro row hrow
  have hrow := List.mem_filter.mp hrow
  have hscope := ((h.attached_iff hjob hrow.1).mp (of_decide_eq_true hrow.2)).1
  exact h.resolve_eq hscope

/-- A refresh writes what the archive says of the job, to its record and to its facts. -/
theorem refreshJob_eq (hjob : job ∈ s.jobs) :
    ∃ summary : JobSummary,
      summary.projection = s.archive.projection job.scopeKey job.protocolJobId ∧
      s.refreshJob job.id =
        { s with
          observations := s.observations.map fun row =>
            if row.jobRecordId = some job.id then
              { row with
                data := s.archive.settled job.scopeKey job.protocolJobId row.evidence }
            else row
          jobs := s.jobs.map fun other =>
            if other.id = job.id then { other with summary } else other } := by
  have hfind := h.find_job hjob
  let f (row : ObservationRow) : JobObservation :=
    if (s.archive.projection job.scopeKey job.protocolJobId).associationStatus = .ambiguous then
      (s.resolve job.scopeKey { row.data with id := row.id }).marked none .ambiguous
    else s.resolve job.scopeKey { row.data with id := row.id }
  have hf : ∀ row, (f row).id = row.id := by
    intro row
    simp only [f]
    split
    · exact resolve_id _ _
    · exact resolve_id _ _
  have hdata : ∀ row ∈ s.attached job.id, { row.data with id := row.id } = row.data := by
    intro row hrow
    rw [← (h.columns row (List.mem_filter.mp hrow).1).id]
  have hsettled : ∀ row ∈ s.attached job.id,
      f row = s.archive.settled job.scopeKey job.protocolJobId row.evidence := by
    intro row hrow
    have hrow' := List.mem_filter.mp hrow
    have hscope := ((h.attached_iff hjob hrow'.1).mp (of_decide_eq_true hrow'.2)).1
    simp only [f, Archive.settled, hdata row hrow, h.resolve_eq hscope]
  let resolved := (s.attached job.id).map fun row => s.resolve job.scopeKey row.data
  let observations := if (projectObservations resolved).associationStatus = .ambiguous then
    resolved.map (·.marked none .ambiguous) else resolved
  have hobservations : observations = (s.attached job.id).map f := by
    simp only [observations, resolved, h.projection_eq hjob]
    split
    · next hambiguous =>
      rw [List.map_map]
      apply List.map_congr_left
      intro row hrow
      simp only [f, Function.comp_apply, if_pos hambiguous, hdata row hrow]
    · next hsettled =>
      apply List.map_congr_left
      intro row hrow
      simp only [f, if_neg hsettled, hdata row hrow]
  have hids : (observations.map (·.id)).Nodup := by
    rw [hobservations, List.map_map]
    have hcomp : (fun o : JobObservation => o.id) ∘ f = fun row => row.id := funext hf
    rw [hcomp]
    exact h.ids.sublist (List.filter_sublist.map _)
  have hsame : resolved.map (·.id) = observations.map (·.id) := by
    rw [hobservations, List.map_map, List.map_map]
    apply List.map_congr_left
    intro row hrow
    simp only [Function.comp_apply, resolve_id, hf, (h.columns row (List.mem_filter.mp hrow).1).id]
  refine ⟨job.summary.refreshed (projectObservations resolved) observations, ?_, ?_⟩
  · exact h.projection_eq hjob
  · have hsub : (s.attached job.id).Sublist s.observations := List.filter_sublist
    unfold refreshJob
    simp only [hfind]
    show ({ observations.foldl saveObservation (resolved.foldl saveObservation s) with
      jobs := _ } : JobStore) = _
    rw [save_again hids hsame, hobservations, save_rows f h.ids hsub hf]
    dsimp only
    rw [JobStore.mk.injEq]
    refine ⟨?_, ?_, rfl, rfl, rfl⟩
    · apply List.map_congr_left
      intro other hother
      by_cases hid : other.id = job.id
      · cases h.job_eq hother hjob hid
        rw [← hobservations]
      · rw [if_neg hid, if_neg hid]
    · apply List.map_congr_left
      intro row hrow
      by_cases hattached : row.jobRecordId = some job.id
      · have hmem : row ∈ s.attached job.id :=
          List.mem_filter.mpr ⟨hrow, decide_eq_true hattached⟩
        rw [if_pos hattached, if_pos hmem, hsettled row hmem]
      · have hmem : row ∉ s.attached job.id := fun hmem =>
          hattached (of_decide_eq_true (List.mem_filter.mp hmem).2)
        rw [if_neg hattached, if_neg hmem]

end Linked

/-! ## What refreshes keep -/

/-- The same facts with the same records: only associations of attached facts and what records show
may differ. -/
structure Keeps (s s' : JobStore) : Prop where
  rows : ∃ data : ObservationRow → JobObservation,
    s'.observations = s.observations.map (fun row => { row with data := data row }) ∧
      (∀ row, (data row).marked none .unverified = row.data.marked none .unverified) ∧
        ∀ row, row.jobRecordId = none → data row = row.data
  jobs : ∃ summary : JobRow → JobSummary,
    s'.jobs = s.jobs.map fun job => { job with summary := summary job }
  identities : s'.identities = s.identities
  generations : s'.generations = s.generations
  drawn : s'.drawn = s.drawn

namespace Keeps

theorem refl (s : JobStore) : Keeps s s where
  rows := ⟨fun row => row.data, by simp, fun _ => rfl, fun _ _ => rfl⟩
  jobs := ⟨fun job => job.summary, by simp⟩
  identities := rfl
  generations := rfl
  drawn := rfl

theorem trans {s₁ s₂ s₃ : JobStore} (h : Keeps s₁ s₂) (h' : Keeps s₂ s₃) : Keeps s₁ s₃ where
  rows := by
    obtain ⟨data, hrows, hsame, hnone⟩ := h.rows
    obtain ⟨data', hrows', hsame', hnone'⟩ := h'.rows
    refine ⟨fun row => data' { row with data := data row }, ?_, fun row => ?_, fun row hrow => ?_⟩
    · rw [hrows', hrows, List.map_map]
      rfl
    · rw [hsame']
      exact hsame row
    · exact (hnone' { row with data := data row } hrow).trans (hnone row hrow)
  jobs := by
    obtain ⟨summary, hjobs⟩ := h.jobs
    obtain ⟨summary', hjobs'⟩ := h'.jobs
    refine ⟨fun job => summary' { job with summary := summary job }, ?_⟩
    rw [hjobs', hjobs, List.map_map]
    rfl
  identities := h'.identities.trans h.identities
  generations := h'.generations.trans h.generations
  drawn := h'.drawn.trans h.drawn

variable {s' : JobStore} (h : Keeps s s')

include h

theorem archive : s'.archive = s.archive := by
  obtain ⟨data, hrows, hsame, -⟩ := h.rows
  unfold JobStore.archive
  rw [h.identities, h.generations, hrows, List.map_map]
  congr 1
  apply List.map_congr_left
  intro row _
  show (⟨row.scopeKey, row.protocolJobId, (data row).marked none .unverified⟩ : Evidence) = _
  rw [hsame row]
  rfl

/-- Every row of the one store is a row of the other, but for its association. -/
theorem mem_rows {row' : ObservationRow} (hrow : row' ∈ s'.observations) :
    ∃ row ∈ s.observations, ∃ data : JobObservation, row' = { row with data := data } ∧
      data.marked none .unverified = row.data.marked none .unverified := by
  obtain ⟨data, hrows, hsame, -⟩ := h.rows
  rw [hrows] at hrow
  obtain ⟨row, hmem, rfl⟩ := List.mem_map.mp hrow
  exact ⟨row, hmem, data row, rfl, hsame row⟩

theorem mem_jobs {job' : JobRow} (hjob : job' ∈ s'.jobs) :
    ∃ job ∈ s.jobs, ∃ summary : JobSummary, job' = { job with summary := summary } := by
  obtain ⟨summary, hjobs⟩ := h.jobs
  rw [hjobs] at hjob
  obtain ⟨job, hmem, rfl⟩ := List.mem_map.mp hjob
  exact ⟨job, hmem, summary job, rfl⟩

theorem of_job (hjob : job ∈ s.jobs) :
    ∃ summary : JobSummary, { job with summary := summary } ∈ s'.jobs := by
  obtain ⟨summary, hjobs⟩ := h.jobs
  exact ⟨summary job, hjobs ▸ List.mem_map_of_mem hjob⟩

theorem linked (hs : s.Linked) : s'.Linked := by
  have harchive := h.archive
  have hrowIds : s'.observations.map (·.id) = s.observations.map (·.id) := by
    obtain ⟨data, hrows, -⟩ := h.rows
    rw [hrows, List.map_map]
    rfl
  have hjobIds : s'.jobs.map (·.id) = s.jobs.map (·.id) := by
    obtain ⟨summary, hjobs⟩ := h.jobs
    rw [hjobs, List.map_map]
    rfl
  refine { toKeyed := ⟨?_, ?_, ?_, ?_, ?_, ?_⟩, attached := ?_ }
  · rw [hrowIds]
    exact hs.ids
  · intro row' hrow'
    obtain ⟨row, hrow, data, rfl, hsame⟩ := h.mem_rows hrow'
    have hcolumns := hs.columns row hrow
    have hid := congrArg JobObservation.id hsame
    have hrequest := congrArg JobObservation.runnerRequestId hsame
    have hrunner := congrArg JobObservation.runnerId hsame
    exact ⟨hid.trans hcolumns.id, hrequest.trans hcolumns.request, hrunner.trans hcolumns.runner⟩
  · rw [hjobIds]
    exact hs.jobIds
  · intro job₁ hjob₁ job₂ hjob₂ hscope hprotocol
    obtain ⟨job, hjob, summary, rfl⟩ := h.mem_jobs hjob₁
    obtain ⟨job', hjob', summary', rfl⟩ := h.mem_jobs hjob₂
    have heq := hs.jobKeys job hjob job' hjob' hscope hprotocol
    subst heq
    exact List.inj_on_of_nodup_map (hjobIds ▸ hs.jobIds) hjob₁ hjob₂ rfl
  · intro row' hrow' hne
    obtain ⟨row, hrow, data, rfl, -⟩ := h.mem_rows hrow'
    obtain ⟨job, hjob, hkey⟩ := hs.recorded row hrow hne
    obtain ⟨summary, hjob'⟩ := h.of_job hjob
    exact ⟨_, hjob', hkey⟩
  · intro job' hjob'
    obtain ⟨job, hjob, summary, rfl⟩ := h.mem_jobs hjob'
    obtain ⟨hne, row, hrow, hkey⟩ := hs.named job hjob
    obtain ⟨data, hrows, -⟩ := h.rows
    exact ⟨hne, { row with data := data row }, hrows ▸ List.mem_map_of_mem hrow, hkey⟩
  · intro row' hrow' id
    obtain ⟨row, hrow, data, rfl, hsame⟩ := h.mem_rows hrow'
    have hevidence : ({ row with data := data } : ObservationRow).evidence = row.evidence := by
      show (⟨row.scopeKey, row.protocolJobId, data.marked none .unverified⟩ : Evidence) = _
      rw [hsame]
      rfl
    rw [hevidence, harchive]
    constructor
    · intro hattached
      obtain ⟨job, hjob, hkey⟩ := (hs.attached row hrow id).mp hattached
      obtain ⟨summary, hjob'⟩ := h.of_job hjob
      exact ⟨_, hjob', hkey⟩
    · rintro ⟨job', hjob', hkey⟩
      obtain ⟨job, hjob, summary, rfl⟩ := h.mem_jobs hjob'
      exact (hs.attached row hrow id).mpr ⟨job, hjob, hkey⟩

end Keeps

/-- The records of an id show what the archive says. -/
def FreshAt (s : JobStore) (id : String) : Prop := ∀ job ∈ s.jobs, job.id = id → Fresh s job

theorem settled_marked (A : Archive) (scope name : String) (e : Evidence) :
    (A.settled scope name e).marked none .unverified = e.observation.marked none .unverified := by
  obtain ⟨generation, status, hresolve⟩ := A.resolve_marked e
  unfold Archive.settled
  split <;> rw [hresolve] <;> rfl

namespace Linked

variable (h : s.Linked)

include h

theorem refreshJob_keeps (id : String) : Keeps s (s.refreshJob id) := by
  by_cases hmem : ∃ job ∈ s.jobs, job.id = id
  · obtain ⟨job, hjob, rfl⟩ := hmem
    obtain ⟨summary, -, heq⟩ := h.refreshJob_eq hjob
    rw [heq]
    constructor
    · refine ⟨fun row => if row.jobRecordId = some job.id then
        s.archive.settled job.scopeKey job.protocolJobId row.evidence else row.data, ?_, ?_, ?_⟩
      · apply List.map_congr_left
        intro row _
        dsimp only
        split <;> rfl
      · intro row
        dsimp only
        split
        · exact settled_marked _ _ _ _
        · rfl
      · intro row hnone
        dsimp only
        rw [if_neg (by rw [hnone]; nofun)]
    · refine ⟨fun other => if other.id = job.id then summary else other.summary, ?_⟩
      apply List.map_congr_left
      intro other _
      dsimp only
      split <;> rfl
    · rfl
    · rfl
    · rfl
  · have hnone : s.jobs.find? (fun job => decide (job.id = id)) = none := by
      rw [List.find?_eq_none]
      intro job hjob hid
      exact hmem ⟨job, hjob, of_decide_eq_true hid⟩
    unfold refreshJob
    rw [hnone]
    exact .refl s

theorem refreshJob_fresh (id : String) : (s.refreshJob id).FreshAt id := by
  have hkeeps := h.refreshJob_keeps id
  intro job' hjob' hid
  obtain ⟨job, hjob, summary', rfl⟩ := hkeeps.mem_jobs hjob'
  subst hid
  obtain ⟨summary, hsummary, heq⟩ := h.refreshJob_eq hjob
  have harchive := hkeeps.archive
  constructor
  · intro row' hrow' hattached
    rw [harchive]
    rw [heq] at hrow'
    obtain ⟨row, hrow, rfl⟩ := List.mem_map.mp hrow'
    by_cases hof : row.jobRecordId = some job.id
    · simp only [if_pos hof]
      congr 1
      unfold ObservationRow.evidence
      rw [settled_marked]
      rfl
    · rw [if_neg hof] at hattached
      exact absurd hattached hof
  · rw [harchive]
    rw [heq] at hjob'
    obtain ⟨other, hother, hkey⟩ := List.mem_map.mp hjob'
    by_cases hid : other.id = job.id
    · rw [if_pos hid] at hkey
      have hshown := congrArg JobRow.summary hkey
      show summary'.projection = _
      rw [← hsummary]
      exact congrArg JobSummary.projection hshown.symm
    · rw [if_neg hid] at hkey
      exact absurd (congrArg JobRow.id hkey) hid

/-- A refresh leaves the other records, and the facts attached to them, alone. -/
theorem refreshJob_other {id id' : String} (hfresh : s.FreshAt id') :
    (s.refreshJob id).FreshAt id' := by
  by_cases hid : id' = id
  · exact hid ▸ h.refreshJob_fresh id
  · have hkeeps := h.refreshJob_keeps id
    intro job' hjob' hid'
    obtain ⟨job, hjob, summary', rfl⟩ := hkeeps.mem_jobs hjob'
    have hjobfresh := hfresh job hjob hid'
    by_cases hmem : ∃ target ∈ s.jobs, target.id = id
    · obtain ⟨target, htarget, rfl⟩ := hmem
      obtain ⟨summary, -, heq⟩ := h.refreshJob_eq htarget
      have hne : job.id ≠ target.id := fun heq => hid (hid'.symm.trans heq)
      constructor
      · intro row' hrow' hattached
        rw [hkeeps.archive]
        rw [heq] at hrow'
        obtain ⟨row, hrow, rfl⟩ := List.mem_map.mp hrow'
        by_cases hof : row.jobRecordId = some target.id
        · rw [if_pos hof] at hattached
          exact absurd (Option.some.inj (hattached.symm.trans hof)) hne
        · rw [if_neg hof] at hattached ⊢
          exact hjobfresh.rows row hrow hattached
      · rw [hkeeps.archive]
        rw [heq] at hjob'
        obtain ⟨other, hother, hkey⟩ := List.mem_map.mp hjob'
        have hotherId : other.id = job.id := by
          by_cases hid : other.id = target.id
          · rw [if_pos hid] at hkey
            have := congrArg JobRow.id hkey
            exact this
          · rw [if_neg hid] at hkey
            have := congrArg JobRow.id hkey
            exact this
        cases h.job_eq hother hjob hotherId
        rw [if_neg hne] at hkey
        have hshown := congrArg JobRow.summary hkey
        show summary'.projection = _
        rw [← hjobfresh.summary]
        exact congrArg JobSummary.projection hshown.symm
    · have hnone : s.jobs.find? (fun job => decide (job.id = id)) = none := by
        rw [List.find?_eq_none]
        intro job hjob hid
        exact hmem ⟨job, hjob, of_decide_eq_true hid⟩
      have hsame : s.refreshJob id = s := by
        unfold refreshJob
        rw [hnone]
      rw [hsame] at hjob' ⊢
      exact hfresh _ hjob' hid'

/-- Refreshes in any order make what they name fresh, and keep fresh what was. -/
theorem foldl_refreshJob (ids : List String) :
    Keeps s (ids.foldl JobStore.refreshJob s) ∧
      ∀ id, (id ∈ ids ∨ s.FreshAt id) → (ids.foldl JobStore.refreshJob s).FreshAt id := by
  induction ids generalizing s with
  | nil =>
    refine ⟨.refl s, ?_⟩
    rintro id (hid | hfresh)
    · cases hid
    · exact hfresh
  | cons first rest ih =>
    have hkeeps := h.refreshJob_keeps first
    obtain ⟨hrest, hfresh⟩ := ih (hkeeps.linked h)
    refine ⟨hkeeps.trans hrest, ?_⟩
    rintro id (hid | hid)
    · rcases List.mem_cons.mp hid with rfl | hid
      · exact hfresh id (.inr (h.refreshJob_fresh id))
      · exact hfresh id (.inl hid)
    · exact hfresh id (.inr (h.refreshJob_other hid))

end Linked

end JobStore

end Jobs

end Shaula
