import Shaula.Jobs.Ingestion

/-! # The job tables stay current

Ingesting a message, or learning a generation's runner, leaves every fact attached to the record of
its job and every record showing what the archive says.  A fact that is attached to no record keeps
the marks it had.
-/

namespace Shaula

open Library Library.Outcome

namespace Jobs

theorem mem_btreeSet {α : Type} [LinearOrder α] {members : List α} {a : α} :
    a ∈ btreeSet members ↔ a ∈ members := by
  unfold btreeSet
  rw [(List.perm_insertionSort _ _).mem_iff, List.mem_dedup]

theorem filter_map_eq {α : Type} {f : α → α} {p : α → Bool} {l : List α}
    (h : ∀ a ∈ l, p (f a) = p a ∧ (p a = true → f a = a)) : (l.map f).filter p = l.filter p := by
  have hfilter : l.filter (p ∘ f) = l.filter p := List.filter_congr fun a ha => (h a ha).1
  rw [List.filter_map, hfilter, List.map_congr_left (g := id), List.map_id]
  intro a ha
  obtain ⟨ha, hpass⟩ := List.mem_filter.mp ha
  exact (h a ha).2 hpass

/-- The generation's runner, once it is learnt. -/
def RunnerRow.learn (generation : String) (runner : Int) (row : RunnerRow) : RunnerRow :=
  if row.id = generation then { row with githubRunnerId := some runner } else row

def IdentityRow.learn (generation : String) (runner : Int) (i : IdentityRow) : IdentityRow :=
  if i.generationId = generation ∧ (i.githubRunnerId = none ∨ i.githubRunnerId = some runner) then
    { i with githubRunnerId := some runner }
  else i

theorem IdentityRow.learn_generationId (generation : String) (runner : Int) (i : IdentityRow) :
    (i.learn generation runner).generationId = i.generationId := by
  unfold IdentityRow.learn
  split <;> rfl

theorem IdentityRow.learn_scopeKey (generation : String) (runner : Int) (i : IdentityRow) :
    (i.learn generation runner).scopeKey = i.scopeKey := by
  unfold IdentityRow.learn
  split <;> rfl

theorem RunnerRow.learn_id (generation : String) (runner : Int) (row : RunnerRow) :
    (row.learn generation runner).id = row.id := by
  unfold RunnerRow.learn
  split <;> rfl

theorem RunnerRow.learn_runnerName (generation : String) (runner : Int) (row : RunnerRow) :
    (row.learn generation runner).runnerName = row.runnerName := by
  unfold RunnerRow.learn
  split <;> rfl

/-- Runners keep their names. -/
theorem RunnerRow.learn_names (generation : String) (runner : Int) (generations : List RunnerRow)
    (id : String) :
    ((generations.map (RunnerRow.learn generation runner)).find? fun g => g.id = id).map
        (·.runnerName) = (generations.find? fun g => g.id = id).map (·.runnerName) := by
  have htest : (fun g : RunnerRow => decide (g.id = id)) ∘ RunnerRow.learn generation runner =
      fun g => decide (g.id = id) := by
    funext g
    rw [Function.comp_apply, RunnerRow.learn_id]
  have hname : (fun g : RunnerRow => g.runnerName) ∘ RunnerRow.learn generation runner =
      fun g => g.runnerName := by
    funext g
    rw [Function.comp_apply, RunnerRow.learn_runnerName]
  rw [List.find?_map, Option.map_map, htest, hname]

namespace JobStore

variable {s t : JobStore} {row : ObservationRow} {job : JobRow} {scope : String} {request : Int}
  {uuid : Nat → String} {d : Delivery} {messageId : Int} {touched : Touched} {fact : Fact}

/-! ## Records that nothing changed -/

/-- A record stays up to date where its facts are the same and are associated alike. -/
theorem Fresh.transfer (h : Fresh s job) (hs : s.Linked) (ht : t.Linked) (hjob : job ∈ s.jobs)
    (hjob' : job ∈ t.jobs) (hrows : t.attached job.id = s.attached job.id)
    (hresolve : ∀ row ∈ s.attached job.id,
      t.archive.resolve row.evidence = s.archive.resolve row.evidence) : Fresh t job := by
  have hprojection : t.archive.projection job.scopeKey job.protocolJobId =
      s.archive.projection job.scopeKey job.protocolJobId := by
    unfold Archive.projection
    rw [ht.factsOf_eq hjob', hs.factsOf_eq hjob, hrows, List.map_map, List.map_map]
    congr 1
    exact List.map_congr_left hresolve
  constructor
  · intro row hrow hattached
    have hmem : row ∈ s.attached job.id := by
      rw [← hrows]
      exact List.mem_filter.mpr ⟨hrow, decide_eq_true hattached⟩
    rw [h.rows row (List.mem_filter.mp hmem).1 hattached]
    unfold Archive.settled
    rw [hprojection, hresolve row hmem]
  · rw [hprojection]
    exact h.summary

namespace Inserted

variable {told : List Fact} {requests : List Int}

/-- The facts attached to a record that nothing was noted of are the ones attached before. -/
theorem attached_eq (h : Inserted uuid scope s told t touched) (hs : s.Linked)
    (hrequests : ∀ request, request ∈ requests ↔ request ∈ touched.requests) (hjob : job ∈ s.jobs)
    (haffected : job.id ∉ touched.affected)
    (hnamed : ∀ request ∈ requests, job.id ∉ t.requestRecords scope request) :
    (t.settle scope requests).attached job.id = s.attached job.id := by
  have hlinked := h.linked hs hrequests
  obtain ⟨jobs, hjobs, -⟩ := h.jobs
  have hjob' : job ∈ t.jobs := hjobs ▸ List.mem_append_left _ hjob
  -- A fact of the record never is one of a noted request: these name the record.
  have hmine : ∀ row ∈ t.observations, row.jobRecordId = some job.id → row ∈ s.observations →
      ¬ (row.scopeKey = scope ∧ row.runnerRequestId ∈ requests ∧ row.protocolJobId = "") := by
    rintro row hrow hattached hold ⟨hscope, hrequest, hblank⟩
    obtain ⟨hjobScope, hof⟩ := (hs.attached_iff hjob hold).mp hattached
    obtain ⟨hpos, hunique⟩ := (Archive.jobOf_blank hblank).mp hof
    obtain ⟨other, hother, hkey⟩ := hs.mem_requestNames.mp (unique_eq_some.mp hunique).1
    have hname : some job.protocolJobId ∈ t.archive.requestNames scope row.runnerRequestId := by
      refine h.keyed.mem_requestNames.mpr ⟨other, h.old_rows hother, ?_⟩
      rw [← hscope, ← (hs.columns row hold).request]
      exact hkey
    exact hnamed _ hrequest (h.keyed.mem_requestRecords.mpr
      ⟨job, hjob', rfl, hjobScope.symm.trans hscope, hname⟩)
  have hcandidate : ∀ request ∈ requests, t.candidate scope request ≠ some job.id := by
    intro request hrequest hsome
    obtain ⟨job', hmem, hid, hscope, hunique⟩ := h.keyed.candidate_eq_some.mp hsome
    exact hnamed request hrequest (h.keyed.mem_requestRecords.mpr
      ⟨job', hmem, hid, hscope, (unique_eq_some.mp hunique).1⟩)
  obtain ⟨new, hrows, -, hnoted⟩ := h.rows
  have hnew : ∀ row ∈ new, (t.settledRow scope requests row).jobRecordId ≠ some job.id := by
    intro row hrow hattached
    unfold settledRow at hattached
    split at hattached
    · next hcond => exact hcandidate _ hcond.2.1 hattached
    · exact haffected ((hnoted row hrow).affected _ hattached)
  unfold attached
  show (t.observations.map _).filter _ = _
  rw [hrows, List.map_append, List.filter_append]
  have hnil : (new.map (t.settledRow scope requests)).filter
      (fun row => decide (row.jobRecordId = some job.id)) = [] := by
    rw [List.filter_eq_nil_iff]
    intro row' hrow'
    obtain ⟨row, hrow, rfl⟩ := List.mem_map.mp hrow'
    rw [decide_eq_true_eq]
    exact hnew row hrow
  rw [hnil, List.append_nil]
  apply filter_map_eq
  intro row hold
  have hrow := h.old_rows hold
  by_cases hcond : row.scopeKey = scope ∧ row.runnerRequestId ∈ requests ∧ row.protocolJobId = ""
  · have hsettled : t.settledRow scope requests row =
        { row with jobRecordId := t.candidate scope row.runnerRequestId } := by
      unfold settledRow
      rw [if_pos hcond]
    have hout : row.jobRecordId ≠ some job.id := fun hattached =>
      hmine row hrow hattached hold hcond
    rw [hsettled]
    constructor
    · rw [Bool.eq_iff_iff, decide_eq_true_eq, decide_eq_true_eq]
      exact ⟨fun hin => absurd hin (hcandidate _ hcond.2.1), fun hin => absurd hin hout⟩
    · exact fun hin => absurd (of_decide_eq_true hin) hout
  · have hsettled : t.settledRow scope requests row = row := by
      unfold settledRow
      rw [if_neg hcond]
    rw [hsettled]
    exact ⟨rfl, fun _ => rfl⟩

/-- A record that nothing was noted of stays up to date. -/
theorem fresh (h : Inserted uuid scope s told t touched) (hs : s.Current)
    (hrequests : ∀ request, request ∈ requests ↔ request ∈ touched.requests)
    (hjob : job ∈ t.jobs) (haffected : job.id ∉ touched.affected)
    (hnamed : ∀ request ∈ requests, job.id ∉ t.requestRecords scope request)
    (hrunners : ∀ row ∈ (t.settle scope requests).attached job.id, row.scopeKey = scope →
      ∀ runner ∈ touched.runners, row.runnerId ≠ some runner) :
    Fresh (t.settle scope requests) job := by
  have hlinked := h.linked hs.toLinked hrequests
  obtain ⟨jobs, hjobs, hnew⟩ := h.jobs
  have hold : job ∈ s.jobs := by
    rw [hjobs] at hjob
    rcases List.mem_append.mp hjob with hold | hcreated
    · exact hold
    · exact absurd (hnew job hcreated) haffected
  have hattached := h.attached_eq hs.toLinked hrequests hold haffected hnamed
  refine (hs.fresh job hold).transfer hs.toLinked hlinked hold hjob hattached ?_
  intro row hrow
  have hmem := hrow
  rw [← hattached] at hmem
  obtain ⟨hrow, hmine⟩ := List.mem_filter.mp hrow
  rw [decide_eq_true_eq] at hmine
  obtain ⟨hscope, hof⟩ := (hs.attached_iff hold hrow).mp hmine
  have hcolumns := hs.columns row hrow
  rw [settle_archive]
  apply Archive.resolve_congr
  · intro runner _
    show t.archive.candidates _ _ = s.archive.candidates _ _
    unfold Archive.candidates archive
    rw [h.identities, h.generations]
  · intro hpos name
    refine h.requestNames hs.toKeyed hpos ?_ name
    rintro ⟨hin, htouched⟩
    have htouched : row.runnerRequestId ∈ touched.requests := hcolumns.request ▸ htouched
    refine hnamed _ ((hrequests _).mpr htouched) (h.keyed.mem_requestRecords.mpr
      ⟨job, hjob, rfl, hscope.symm.trans hin, ?_⟩)
    by_cases hblank : row.protocolJobId = ""
    · obtain ⟨-, hunique⟩ := (Archive.jobOf_blank hblank).mp hof
      obtain ⟨other, hother, hkey⟩ := hs.mem_requestNames.mp (unique_eq_some.mp hunique).1
      refine h.keyed.mem_requestNames.mpr ⟨other, h.old_rows hother, ?_⟩
      rw [← hin, ← hcolumns.request]
      exact hkey
    · have hprotocol := Option.some.inj ((Archive.jobOf_named (A := s.archive) hblank).symm.trans hof)
      exact h.keyed.mem_requestNames.mpr ⟨row, h.old_rows hrow, hin, rfl,
        named_eq_some.mpr ⟨hprotocol, (hs.named job hold).1⟩⟩
  · intro runner hrunner name
    refine h.runnerNames hs.toKeyed ?_ name
    rintro ⟨hin, htouched⟩
    exact hrunners row hmem hin runner htouched (hcolumns.runner.symm.trans hrunner)

end Inserted

/-! ## Refreshing all that was noted -/

theorem Keeps.of_row (h : Keeps s t) (hrow : row ∈ s.observations) :
    ∃ data : JobObservation, { row with data := data } ∈ t.observations := by
  obtain ⟨data, hrows, -⟩ := h.rows
  exact ⟨data row, hrows ▸ List.mem_map_of_mem hrow⟩

/-- A fact about one of the runners is attached to the record. -/
def NamesRunner (s : JobStore) (scope : String) (runners : List Int) (id : String) : Prop :=
  ∃ row ∈ s.observations, row.scopeKey = scope ∧ (∃ runner ∈ runners, row.runnerId = some runner) ∧
    row.jobRecordId = some id

theorem Keeps.namesRunner {runners : List Int} {id : String} (h : Keeps s t)
    (hnames : s.NamesRunner scope runners id) : t.NamesRunner scope runners id := by
  obtain ⟨row, hrow, hkey⟩ := hnames
  obtain ⟨data, hmem⟩ := h.of_row hrow
  exact ⟨_, hmem, hkey⟩

theorem Linked.refreshRunnerJobs (h : s.Linked) (scope : String) (runner : Int) :
    Keeps s (s.refreshRunnerJobs scope runner) ∧
      ∀ id, (s.NamesRunner scope [runner] id ∨ s.FreshAt id) →
        (s.refreshRunnerJobs scope runner).FreshAt id := by
  obtain ⟨hkeeps, hfresh⟩ := h.foldl_refreshJob ((s.observations.filter fun row =>
    row.scopeKey = scope ∧ row.runnerId = some runner).filterMap (·.jobRecordId)).dedup
  refine ⟨hkeeps, ?_⟩
  rintro id (⟨row, hrow, hscope, ⟨runner', hrunner', hrunner⟩, hid⟩ | hid)
  · rw [List.mem_singleton.mp hrunner'] at hrunner
    refine hfresh id (.inl ?_)
    rw [List.mem_dedup, List.mem_filterMap]
    exact ⟨row, List.mem_filter.mpr ⟨hrow, decide_eq_true ⟨hscope, hrunner⟩⟩, hid⟩
  · exact hfresh id (.inr hid)

theorem Linked.foldl_refreshRunnerJobs (h : s.Linked) (scope : String) (runners : List Int) :
    Keeps s (runners.foldl (fun s runner => s.refreshRunnerJobs scope runner) s) ∧
      ∀ id, (s.NamesRunner scope runners id ∨ s.FreshAt id) →
        (runners.foldl (fun s runner => s.refreshRunnerJobs scope runner) s).FreshAt id := by
  induction runners generalizing s with
  | nil =>
    refine ⟨.refl s, ?_⟩
    rintro id (⟨row, -, -, ⟨runner, hrunner, -⟩, -⟩ | hid)
    · cases hrunner
    · exact hid
  | cons runner runners ih =>
    obtain ⟨hkeeps, hfresh⟩ := h.refreshRunnerJobs scope runner
    obtain ⟨hrest, hlater⟩ := ih (hkeeps.linked h)
    refine ⟨hkeeps.trans hrest, ?_⟩
    rintro id (⟨row, hrow, hscope, ⟨named, hnamed, hrunner⟩, hid⟩ | hid)
    · rcases List.mem_cons.mp hnamed with rfl | hnamed
      · refine hlater id (.inr (hfresh id (.inl ?_)))
        exact ⟨row, hrow, hscope, ⟨named, List.mem_singleton.mpr rfl, hrunner⟩, hid⟩
      · exact hlater id (.inl (hkeeps.namesRunner ⟨row, hrow, hscope, ⟨named, hnamed, hrunner⟩, hid⟩))
    · exact hlater id (.inr (hfresh id (.inr hid)))

theorem Drawn.settle (h : s.Drawn uuid) (requests : List Int) :
    (s.settle scope requests).Drawn uuid where
  rows row' hrow' := by
    obtain ⟨row, hrow, rfl⟩ := List.mem_map.mp hrow'
    obtain ⟨record, heq⟩ := settledRow_fields requests s scope row
    rw [heq]
    exact h.rows row hrow
  jobs := h.jobs

theorem Keeps.drawn_ids (h : Keeps s t) (hs : s.Drawn uuid) : t.Drawn uuid where
  rows row' hrow' := by
    obtain ⟨row, hrow, data, rfl, -⟩ := h.mem_rows hrow'
    rw [h.drawn]
    exact hs.rows row hrow
  jobs job' hjob' := by
    obtain ⟨job, hjob, summary, rfl⟩ := h.mem_jobs hjob'
    rw [h.drawn]
    exact hs.jobs job hjob

theorem Linked.current (h : s.Linked) (hfresh : ∀ job ∈ s.jobs, s.FreshAt job.id) : s.Current :=
  { h with fresh := fun job hjob => hfresh job hjob job hjob rfl }

/-! ## What an operation does to the facts -/

/-- New facts are stored, facts are attached to records, and those attached to none keep their
marks. -/
structure Told (scope : String) (told : List Fact) (s t : JobStore) : Prop where
  rows : ∃ (new : List ObservationRow) (after : ObservationRow → ObservationRow),
    t.observations = (s.observations ++ new).map after ∧ List.Forall₂ (Stored scope) told new ∧
      ∀ row, (after row).evidence = row.evidence ∧
        ((after row).jobRecordId = none → (after row).data = row.data)

theorem evidence_data {data : JobObservation}
    (h : data.marked none .unverified = row.data.marked none .unverified) :
    ({ row with data := data } : ObservationRow).evidence = row.evidence := by
  show (⟨row.scopeKey, row.protocolJobId, data.marked none .unverified⟩ : Evidence) = _
  rw [h]
  rfl

/-- Ingesting a message keeps the tables current. -/
theorem jobsIngest_spec {message : PollMessage} (hs : s.Current) (hdrawn : s.Drawn uuid)
    (huuid : uuid.Injective) (h : s.jobsIngest uuid d message = .ok t) :
    t.Current ∧ t.Drawn uuid ∧ Told d.scope.key (facts message) s t ∧
      t.identities = s.identities ∧ t.generations = s.generations := by
  unfold jobsIngest at h
  simp only [bind_eq_ok, pure_eq_ok] at h
  obtain ⟨⟨stored, touched⟩, hfold, rfl⟩ := h
  have hstart : Inserted uuid d.scope.key s [] s ⟨[], [], []⟩ :=
    ⟨hs.toKeyed, hdrawn, ⟨[], (List.append_nil _).symm, .nil, by simp⟩,
      ⟨[], (List.append_nil _).symm, by simp⟩, by simp, rfl, rfl⟩
  have hinserted := hstart.fold huuid hfold
  rw [List.nil_append] at hinserted
  have hrequests : ∀ request, request ∈ btreeSet touched.requests ↔ request ∈ touched.requests :=
    fun _ => mem_btreeSet
  have hlinked := hinserted.linked hs.toLinked hrequests
  rw [foldl_settleRequest]
  dsimp only
  generalize hrs : btreeSet touched.requests = requests at hrequests hlinked ⊢
  obtain ⟨hkeeps, hfresh⟩ := hlinked.foldl_refreshJob
    (btreeSet (touched.affected ++ requests.flatMap (stored.requestRecords d.scope.key)))
  obtain ⟨hkeeps', hfresh'⟩ := (hkeeps.linked hlinked).foldl_refreshRunnerJobs d.scope.key
    (btreeSet touched.runners)
  have hall := hkeeps.trans hkeeps'
  refine ⟨(hall.linked hlinked).current ?_, hall.drawn_ids (hinserted.drawn.settle requests), ?_,
    hall.identities.trans hinserted.identities, hall.generations.trans hinserted.generations⟩
  · intro job' hjob'
    obtain ⟨job, hjob, summary, rfl⟩ := hall.mem_jobs hjob'
    show FreshAt _ job.id
    by_cases haffected : job.id ∈ touched.affected ++ requests.flatMap
        (stored.requestRecords d.scope.key)
    · exact hfresh' _ (.inr (hfresh _ (.inl (mem_btreeSet.mpr haffected))))
    by_cases hrunner : (stored.settle d.scope.key requests).NamesRunner d.scope.key
        (btreeSet touched.runners) job.id
    · exact hfresh' _ (.inl (hkeeps.namesRunner hrunner))
    · rw [List.mem_append, not_or, List.mem_flatMap] at haffected
      refine hfresh' _ (.inr (hfresh _ (.inr ?_)))
      intro job₁ hjob₁ hid
      cases hlinked.job_eq hjob₁ hjob hid
      refine hinserted.fresh hs hrequests hjob haffected.1
        (fun request hrequest hmem => haffected.2 ⟨request, hrequest, hmem⟩) ?_
      intro row hrow hscope runner htouched hnamed
      obtain ⟨hrow, hattached⟩ := List.mem_filter.mp hrow
      exact hrunner ⟨row, hrow, hscope, ⟨runner, mem_btreeSet.mpr htouched, hnamed⟩,
        of_decide_eq_true hattached⟩
  · obtain ⟨new, hrows, hstored, -⟩ := hinserted.rows
    obtain ⟨data, hdata, hsame, hunattached⟩ := hall.rows
    let settled := stored.settledRow d.scope.key requests
    refine ⟨new, fun row => { settled row with data := data (settled row) }, ?_, hstored, ?_⟩
    · rw [hdata]
      show (stored.observations.map _).map _ = _
      rw [List.map_map, hrows]
      rfl
    · intro row
      obtain ⟨record, heq⟩ := settledRow_fields requests stored d.scope.key row
      have heq : settled row = { row with jobRecordId := record } := heq
      constructor
      · rw [evidence_data (hsame (settled row)), heq]
        rfl
      · intro hnone
        have hkept := hunattached (settled row) hnone
        rw [heq] at hkept
        show data (settled row) = row.data
        rw [heq]
        exact hkept

/-! ## Learning a generation's runner -/

def learn (s : JobStore) (generation : String) (runner : Int) : JobStore :=
  { s with
    identities := s.identities.map (IdentityRow.learn generation runner)
    generations := s.generations.map (RunnerRow.learn generation runner) }

theorem setRunner_ok {generation : String} {runner : Int}
    (h : s.setRunner generation runner = .ok t) :
    (∃ row, s.generations.find? (fun g => g.id = generation) = some row ∧
      row.githubRunnerId.all (· = runner) = true) ∧
    t = match (s.learn generation runner).identities.find? fun i => i.generationId = generation with
      | none => s.learn generation runner
      | some i => (s.learn generation runner).refreshRunnerJobs i.scopeKey runner := by
  unfold setRunner at h
  simp only [bind_eq_ok, okOr_eq_ok, ensure_eq_ok, pure_eq_ok] at h
  obtain ⟨row, hrow, -, hrunner, rfl⟩ := h
  exact ⟨⟨row, hrow, hrunner⟩, rfl⟩

/-- Only the candidates for that runner in the generation's scope may change. -/
theorem learn_candidates {generation : String} {runner runner' : Int} {scope' : String}
    (hother : ∀ i ∈ s.identities, i.generationId = generation →
      ¬ (i.scopeKey = scope' ∧ runner = runner')) :
    (s.learn generation runner).archive.candidates scope' runner' =
      s.archive.candidates scope' runner' := by
  have hfilter : (s.learn generation runner).identities.filter
        (fun i => i.scopeKey = scope' ∧ i.githubRunnerId = some runner') =
      s.identities.filter fun i => i.scopeKey = scope' ∧ i.githubRunnerId = some runner' := by
    apply filter_map_eq
    intro i hi
    unfold IdentityRow.learn
    by_cases hcond : i.generationId = generation ∧
        (i.githubRunnerId = none ∨ i.githubRunnerId = some runner)
    · rw [if_pos hcond]
      have hno := hother i hi hcond.1
      have hbefore : ¬ (i.scopeKey = scope' ∧ i.githubRunnerId = some runner') := by
        rintro ⟨hscope, hrunner'⟩
        rcases hcond.2 with hnone | hrunner
        · cases hnone.symm.trans hrunner'
        · exact hno ⟨hscope, Option.some.inj (hrunner.symm.trans hrunner')⟩
      have hafter : ¬ (i.scopeKey = scope' ∧ some runner = some runner') :=
        fun hboth => hno ⟨hboth.1, Option.some.inj hboth.2⟩
      rw [decide_eq_false hafter, decide_eq_false hbefore]
      exact ⟨rfl, nofun⟩
    · rw [if_neg hcond]
      exact ⟨rfl, fun _ => rfl⟩
  have hfind := RunnerRow.learn_names generation runner s.generations
  unfold Archive.candidates
  show ((s.learn generation runner).identities.filter _).filterMap _ = _
  rw [hfilter]
  apply List.filterMap_congr
  intro i _
  have hname := hfind i.generationId
  have hpair := congrArg (Option.map fun name => (i.generationId, name)) hname
  rw [Option.map_map, Option.map_map] at hpair
  exact hpair

theorem Linked.learn (h : s.Linked) (generation : String) (runner : Int) :
    (s.learn generation runner).Linked :=
  ⟨⟨h.ids, h.columns, h.jobIds, h.jobKeys, h.recorded, h.named⟩, h.attached⟩

/-- Learning a generation's runner keeps the tables current. -/
theorem setRunner_spec (scope : String) {generation : String} {runner : Int} (hs : s.Current)
    (hdrawn : s.Drawn uuid)
    (hidentities : (s.identities.map (·.generationId)).Nodup)
    (h : s.setRunner generation runner = .ok t) :
    t.Current ∧ t.Drawn uuid ∧ Told scope [] s t ∧
      t.identities = (s.learn generation runner).identities ∧
        t.generations = (s.learn generation runner).generations := by
  obtain ⟨-, ht⟩ := setRunner_ok h
  have hlinked := hs.toLinked.learn generation runner
  have hdrawn' : (s.learn generation runner).Drawn uuid := ⟨hdrawn.rows, hdrawn.jobs⟩
  have hfresh : ∀ job ∈ s.jobs, (∀ row ∈ s.attached job.id, ∀ i ∈ s.identities,
      i.generationId = generation → ¬ (i.scopeKey = row.scopeKey ∧ row.runnerId = some runner)) →
      Fresh (s.learn generation runner) job := by
    intro job hjob hother
    refine (hs.fresh job hjob).transfer hs.toLinked hlinked hjob hjob rfl ?_
    intro row hrow
    have hcolumns := hs.columns row (List.mem_filter.mp hrow).1
    apply Archive.resolve_congr
    · intro runner' hrunner'
      apply learn_candidates
      rintro i hi hgeneration ⟨hscope, rfl⟩
      exact hother row hrow i hi hgeneration ⟨hscope, hcolumns.runner.symm.trans hrunner'⟩
    · exact fun _ _ => Iff.rfl
    · exact fun _ _ _ => Iff.rfl
  cases hfind : (s.learn generation runner).identities.find? fun i => i.generationId = generation with
  | none =>
    rw [hfind] at ht
    subst ht
    refine ⟨{ hlinked with fresh := fun job hjob => hfresh job hjob ?_ }, hdrawn', ?_, rfl, rfl⟩
    · intro row _ i hi hgeneration
      have hmem : i.learn generation runner ∈ (s.learn generation runner).identities :=
        List.mem_map_of_mem hi
      have hno := List.find?_eq_none.mp hfind _ hmem
      rw [IdentityRow.learn_generationId, decide_eq_true_eq] at hno
      exact absurd hgeneration hno
    · refine ⟨[], id, ?_, .nil, fun row => ⟨rfl, fun _ => rfl⟩⟩
      rw [List.append_nil, List.map_id]
      rfl
  | some found =>
    rw [hfind] at ht
    subst ht
    obtain ⟨hkeeps, hrefreshed⟩ := hlinked.refreshRunnerJobs found.scopeKey runner
    refine ⟨(hkeeps.linked hlinked).current ?_, hkeeps.drawn_ids hdrawn', ?_, hkeeps.identities,
      hkeeps.generations⟩
    · intro job' hjob'
      obtain ⟨job, hjob, summary, rfl⟩ := hkeeps.mem_jobs hjob'
      show FreshAt _ job.id
      by_cases hnames : (s.learn generation runner).NamesRunner found.scopeKey [runner] job.id
      · exact hrefreshed _ (.inl hnames)
      · refine hrefreshed _ (.inr ?_)
        intro job₁ hjob₁ hid
        cases hlinked.job_eq hjob₁ hjob hid
        apply hfresh job hjob
        rintro row hrow i hi hgeneration ⟨hscope, hrunner⟩
        obtain ⟨hrow, hattached⟩ := List.mem_filter.mp hrow
        have hfound := List.find?_some hfind
        rw [decide_eq_true_eq] at hfound
        obtain ⟨i', hi', rfl⟩ := List.mem_map.mp (List.mem_of_find?_eq_some hfind)
        rw [IdentityRow.learn_generationId] at hfound
        have heq := List.inj_on_of_nodup_map hidentities hi hi' (hgeneration.trans hfound.symm)
        subst heq
        refine hnames ⟨row, hrow, ?_, ⟨runner, List.mem_singleton.mpr rfl, hrunner⟩,
          of_decide_eq_true hattached⟩
        rw [IdentityRow.learn_scopeKey]
        exact hscope.symm
    · obtain ⟨data, hdata, hsame, hunattached⟩ := hkeeps.rows
      refine ⟨[], fun row => { row with data := data row }, ?_, .nil, fun row => ⟨?_, ?_⟩⟩
      · rw [List.append_nil, hdata]
        rfl
      · exact evidence_data (hsame row)
      · exact hunattached row

end JobStore

end Jobs

end Shaula
