import Shaula.Jobs.Current

/-! # Ingestion in any order

Messages and runner identities arrive in any order.  An account of them says, for each fact, which
job it belongs to and whether it was ambiguous when it last belonged to one; the job tables refine
it.  Two orders of the same facts give the same records, with the same facts attached to them, and
the same marks on these.  Facts that in the end belong to no job keep the marks they had in the job
they were taken from, which is what is left of the order.
-/

namespace Shaula

open Library Library.Outcome

namespace Jobs

/-- What job history is told. -/
inductive Op where
  | ingest (d : Delivery) (message : PollMessage)
  | register (generation : String) (runner : Int)

namespace Op

/-- The facts an operation tells, each with its scope. -/
def facts : Op → List (String × Fact)
  | ingest d message => (Jobs.facts message).map fun fact => (d.scope.key, fact)
  | register _ _ => []

/-- The runner identity an operation registers. -/
def registered : Op → List (String × Int)
  | ingest _ _ => []
  | register generation runner => [(generation, runner)]

end Op

namespace JobStore

variable (uuid : Nat → String)

def perform (s : JobStore) : Op → StoreResult JobStore
  | .ingest d message => s.jobsIngest uuid d message
  | .register generation runner => s.setRunner generation runner

/-- Operations that are accepted one after the other. -/
def Performs (s : JobStore) (ops : List Op) (t : JobStore) : Prop :=
  ops.foldlM (perform uuid) s = .ok t

/-- A store that was told no fact yet. -/
structure Untold (s : JobStore) : Prop where
  jobs : s.jobs = []
  observations : s.observations = []
  identities : (s.identities.map (·.generationId)).Nodup

/-! ## What two stores show alike -/

/-- The job of a record, with what the record shows of it. -/
def shown (job : JobRow) : String × String × JobProjection :=
  (job.scopeKey, job.protocolJobId, job.summary.projection)

/-- The job whose record a fact is attached to. -/
def recordOf (s : JobStore) (row : ObservationRow) : Option String :=
  row.jobRecordId.bind fun id => (s.jobs.find? fun job => job.id = id).map (·.protocolJobId)

/-- A stored fact, the job whose record it is attached to, and whether it is marked ambiguous. -/
def held (s : JobStore) (row : ObservationRow) : Evidence × Option String × Bool :=
  (row.evidence.erased, s.recordOf row, row.data.associationStatus = .ambiguous)

/-- The same records with the same projections, and the same facts with the same records and the
same ambiguity marks, up to surrogate ids and receive times. -/
structure Alike (s t : JobStore) : Prop where
  records : (s.jobs.map shown).Perm (t.jobs.map shown)
  facts : (s.observations.map s.held).Perm (t.observations.map t.held)

end JobStore

/-! ## The account of what was told -/

/-- A fact as it is stored, under the `n`th surrogate id. -/
def numbered (uuid : Nat → String) (n : Nat) (told : String × Fact) : Evidence :=
  let e := told.2.evidence told.1
  { e with observation := { e.observation with id := uuid n } }

/-- Each fact, with whether it was ambiguous when it last belonged to a job. -/
structure Account where
  entries : List (Evidence × Bool)
  identities : List IdentityRow
  generations : List RunnerRow

namespace Account

variable (uuid : Nat → String) (A : Account)

def archive : Archive where
  evidence := A.entries.map Prod.fst
  identities := A.identities
  generations := A.generations

/-- Whether a fact of a job is ambiguous. -/
def ambiguous (job : String) (e : Evidence) : Bool :=
  (A.archive.settled e.scope job e).associationStatus = .ambiguous

/-- Facts that belong to a job are marked anew. -/
def remark : Account :=
  { A with entries := A.entries.map fun entry =>
      match A.archive.jobOf entry.1 with
      | some job => (entry.1, A.ambiguous job entry.1)
      | none => entry }

def note (told : String × Fact) : Account :=
  { A with entries := A.entries ++ [(numbered uuid A.entries.length told, false)] }

def learn (registered : String × Int) : Account :=
  { A with
    identities := A.identities.map (IdentityRow.learn registered.1 registered.2)
    generations := A.generations.map (RunnerRow.learn registered.1 registered.2) }

def tell (op : Op) : Account :=
  (op.registered.foldl learn (op.facts.foldl (note uuid) A)).remark

/-- The facts that belong to no job, with the marks they were left with. -/
def lingering : List (Evidence × Bool) :=
  (A.entries.filter fun entry => A.archive.jobOf entry.1 = none).map fun entry =>
    (entry.1.erased, entry.2)

end Account

/-- The account of operations from a store that was told no fact. -/
def accountOf (uuid : Nat → String) (s : JobStore) (ops : List Op) : Account :=
  ops.foldl (Account.tell uuid) ⟨[], s.identities, s.generations⟩

/-! ## The tables refine the account -/

theorem map_eq_of_forall₂ {α β γ : Type} {R : α → β → Prop} {f : α → γ} {g : β → γ} {l : List α}
    {l' : List β} (h : List.Forall₂ R l l') (heq : ∀ a b, R a b → f a = g b) :
    l.map f = l'.map g := by
  induction h with
  | nil => rfl
  | cons hhead _ ih => rw [List.map_cons, List.map_cons, heq _ _ hhead, ih]

theorem forall₂_common {α β γ : Type} {R : α → β → Prop} {S : α → γ → Prop} {l : List α}
    {l₁ : List β} {l₂ : List γ} (h₁ : List.Forall₂ R l l₁) (h₂ : List.Forall₂ S l l₂) :
    List.Forall₂ (fun b c => ∃ a, R a b ∧ S a c) l₁ l₂ := by
  induction h₁ generalizing l₂ with
  | nil =>
    cases h₂
    exact .nil
  | cons hhead _ ih =>
    cases h₂ with
    | cons hhead' htail' => exact .cons ⟨_, hhead, hhead'⟩ (ih htail')

namespace Account

variable {uuid : Nat → String} {A : Account}

@[simp] theorem remark_archive : A.remark.archive = A.archive := by
  unfold remark archive
  congr 1
  show (A.entries.map _).map _ = _
  rw [List.map_map]
  apply List.map_congr_left
  intro entry _
  rw [Function.comp_apply]
  split <;> rfl

/-- An operation's facts are noted after the others, unmarked. -/
theorem foldl_note (facts : List (String × Fact))
    (hids : A.entries.map (·.1.observation.id) = (List.range A.entries.length).map uuid) :
    ∃ new, (facts.foldl (note uuid) A).entries = A.entries ++ new ∧
      List.Forall₂ (fun told entry => entry.1.erased = told.2.evidence told.1 ∧ entry.2 = false)
        facts new ∧
      (facts.foldl (note uuid) A).entries.map (·.1.observation.id) =
        (List.range (facts.foldl (note uuid) A).entries.length).map uuid ∧
      (facts.foldl (note uuid) A).identities = A.identities ∧
      (facts.foldl (note uuid) A).generations = A.generations := by
  induction facts generalizing A with
  | nil => exact ⟨[], (List.append_nil _).symm, .nil, hids, rfl, rfl⟩
  | cons told facts ih =>
    have hids' : (A.note uuid told).entries.map (·.1.observation.id) =
        (List.range (A.note uuid told).entries.length).map uuid := by
      unfold note
      simp only [List.map_append, List.map_singleton, List.length_append, List.length_singleton,
        List.range_succ, hids]
      rfl
    obtain ⟨new, hentries, hnew, hrest, hidentities, hgenerations⟩ := ih hids'
    rw [List.foldl_cons]
    refine ⟨(numbered uuid A.entries.length told, false) :: new, ?_, .cons ⟨rfl, rfl⟩ hnew, hrest,
      hidentities, hgenerations⟩
    rw [hentries]
    show (A.entries ++ [_]) ++ new = _
    rw [List.append_assoc]
    rfl

end Account

namespace JobStore

variable {uuid : Nat → String} {s s' t t' : JobStore} {ops ops' : List Op} {op : Op}
  {A A' : Account} {row : ObservationRow} {job : JobRow}

/-- The row holds the fact of the entry, and is marked like it. -/
structure Holds (row : ObservationRow) (entry : Evidence × Bool) : Prop where
  evidence : row.evidence.erased = entry.1.erased
  mark : decide (row.data.associationStatus = .ambiguous) = entry.2

structure Refines (uuid : Nat → String) (s : JobStore) (A : Account) : Prop where
  rows : List.Forall₂ Holds s.observations A.entries
  ids : A.entries.map (·.1.observation.id) = (List.range A.entries.length).map uuid
  identities : s.identities = A.identities
  generations : s.generations = A.generations

theorem agrees_of_rows {R : ObservationRow → Evidence × Bool → Prop}
    (hrows : List.Forall₂ R s.observations A.entries)
    (hR : ∀ row entry, R row entry → row.evidence.erased = entry.1.erased)
    (hidentities : s.identities = A.identities) (hgenerations : s.generations = A.generations) :
    s.archive.Agrees A.archive where
  evidence := by
    have heq : s.archive.evidence.map Evidence.erased = A.archive.evidence.map Evidence.erased := by
      show (s.observations.map _).map _ = (A.entries.map _).map _
      rw [List.map_map, List.map_map]
      exact map_eq_of_forall₂ hrows hR
    rw [heq]
  candidates scope runner := by
    show Archive.candidates ⟨_, s.identities, s.generations⟩ scope runner = _
    rw [hidentities, hgenerations]
    rfl

theorem Refines.agrees (h : Refines uuid s A) : s.archive.Agrees A.archive :=
  agrees_of_rows h.rows (fun _ _ hholds => hholds.evidence) h.identities h.generations

theorem Keyed.distinct (h : s.Keyed) : s.archive.Distinct := by
  have heq : s.archive.evidence.map (·.observation.id) = s.observations.map (·.id) := by
    show (s.observations.map _).map _ = _
    rw [List.map_map]
    apply List.map_congr_left
    intro row hrow
    exact (h.columns row hrow).id
  rw [Archive.Distinct, heq]
  exact h.ids

theorem Refines.distinct (h : Refines uuid s A) (huuid : uuid.Injective) : A.archive.Distinct := by
  show ((A.entries.map Prod.fst).map _).Nodup
  rw [List.map_map]
  exact h.ids ▸ List.nodup_range.map huuid

/-- A fact belongs to a job only if that job has a record. -/
theorem Linked.record_of_jobOf (h : s.Linked) (hrow : row ∈ s.observations) {name : String}
    (hof : s.archive.jobOf row.evidence = some name) :
    ∃ job ∈ s.jobs, job.scopeKey = row.scopeKey ∧ job.protocolJobId = name := by
  by_cases hblank : row.protocolJobId = ""
  · obtain ⟨-, hunique⟩ := (Archive.jobOf_blank hblank).mp hof
    obtain ⟨other, hother, hscope, -, hname⟩ := h.mem_requestNames.mp (unique_eq_some.mp hunique).1
    obtain ⟨hprotocol, hne⟩ := named_eq_some.mp hname
    have hprotocol : other.protocolJobId = name := hprotocol
    obtain ⟨job, hjob, -, hjobScope, hjobName⟩ := h.recorded other hother (hprotocol ▸ hne)
    exact ⟨job, hjob, hjobScope.trans hscope, hjobName.trans hprotocol⟩
  · have hname := Option.some.inj ((Archive.jobOf_named (A := s.archive) hblank).symm.trans hof)
    have hname : row.protocolJobId = name := hname
    obtain ⟨job, hjob, -, hscope, hprotocol⟩ := h.recorded row hrow hblank
    exact ⟨job, hjob, hscope, hprotocol.trans hname⟩

/-- The record a fact is attached to is the one of the job it belongs to. -/
theorem Linked.recordOf_eq (h : s.Linked) (hrow : row ∈ s.observations) :
    s.recordOf row = s.archive.jobOf row.evidence := by
  unfold recordOf
  cases hid : row.jobRecordId with
  | none =>
    rw [Option.bind_none]
    cases hof : s.archive.jobOf row.evidence with
    | none => rfl
    | some name =>
      obtain ⟨job, hjob, hscope, hname⟩ := h.record_of_jobOf hrow hof
      have hattached := (h.attached row hrow job.id).mpr ⟨job, hjob, rfl, hscope, hname ▸ hof⟩
      cases hid.symm.trans hattached
  | some id =>
    obtain ⟨job, hjob, rfl, hscope, hof⟩ := (h.attached row hrow id).mp hid
    rw [Option.bind_some, h.find_job hjob, hof]
    rfl

/-- What an operation told the tables, told to the account, keeps the refinement. -/
theorem Refines.told {scope : String} {told : List Fact} {B : Account} (h : Refines uuid s A)
    (huuid : uuid.Injective) (ht : t.Current) (htold : Told scope told s t)
    (hB : ∃ new, B.entries = A.entries ++ new ∧ List.Forall₂
      (fun told entry => entry.1.erased = told.evidence scope ∧ entry.2 = false) told new)
    (hids : B.entries.map (·.1.observation.id) = (List.range B.entries.length).map uuid)
    (hidentities : t.identities = B.identities) (hgenerations : t.generations = B.generations) :
    Refines uuid t B.remark := by
  obtain ⟨new, after, hrows, hstored, hafter⟩ := htold.rows
  obtain ⟨noted, hentries, hnoted⟩ := hB
  have hnew : List.Forall₂ Holds new noted := by
    refine (forall₂_common hstored hnoted).imp ?_
    rintro row entry ⟨fact, hfact, hevidence, hmark⟩
    refine ⟨hfact.evidence.trans hevidence.symm, ?_⟩
    rw [hfact.unmarked, hmark]
    rfl
  have hpairs : List.Forall₂ Holds (s.observations ++ new) B.entries := by
    rw [hentries]
    exact List.rel_append h.rows hnew
  have hagrees : t.archive.Agrees B.archive := by
    refine agrees_of_rows (R := fun row entry => row.evidence.erased = entry.1.erased) ?_
      (fun _ _ heq => heq) hidentities hgenerations
    rw [hrows, List.forall₂_map_left_iff]
    refine hpairs.imp fun row entry hholds => ?_
    rw [(hafter row).1]
    exact hholds.evidence
  have hdistinct : B.archive.Distinct := by
    show ((B.entries.map Prod.fst).map _).Nodup
    rw [List.map_map]
    exact hids ▸ List.nodup_range.map huuid
  constructor
  · rw [hrows]
    show List.Forall₂ Holds _ (B.entries.map _)
    rw [List.forall₂_map_left_iff, List.forall₂_map_right_iff]
    have hmem : ∀ row ∈ s.observations ++ new, after row ∈ t.observations :=
      fun row hrow => hrows ▸ List.mem_map_of_mem hrow
    refine ((List.forall₂_and_left _ _).mpr ⟨hmem, hpairs⟩).imp ?_
    rintro row entry ⟨hrow, hholds⟩
    obtain ⟨hevidence, hkept⟩ := hafter row
    have herased : (after row).evidence.erased = entry.1.erased := by
      rw [hevidence]
      exact hholds.evidence
    have hof : t.archive.jobOf (after row).evidence = B.archive.jobOf entry.1 :=
      hagrees.jobOf herased
    cases hid : (after row).jobRecordId with
    | none =>
      have hnone : B.archive.jobOf entry.1 = none := by
        rw [← hof, ← ht.recordOf_eq hrow, recordOf, hid]
        rfl
      rw [hnone]
      refine ⟨herased, ?_⟩
      rw [hkept hid]
      exact hholds.mark
    | some id =>
      obtain ⟨job, hjob, rfl, hscope, hjobOf⟩ := (ht.attached _ hrow id).mp hid
      rw [hof] at hjobOf
      rw [hjobOf]
      refine ⟨herased, ?_⟩
      show _ = Account.ambiguous B job.protocolJobId entry.1
      have hscope' : job.scopeKey = entry.1.scope :=
        hscope.trans (Evidence.erased_eq herased).1
      have hsettled := hagrees.settled ht.distinct hdistinct entry.1.scope job.protocolJobId herased
      have hstatus := congrArg JobObservation.associationStatus hsettled
      rw [(ht.fresh job hjob).rows _ hrow hid, hscope']
      show decide ((t.archive.settled entry.1.scope job.protocolJobId
        (after row).evidence).erased.associationStatus = .ambiguous) = _
      rw [hstatus]
      rfl
  · show (B.entries.map _).map _ = (List.range (B.entries.map _).length).map uuid
    rw [List.length_map, ← hids, List.map_map]
    apply List.map_congr_left
    intro entry _
    rw [Function.comp_apply]
    split <;> rfl
  · exact hidentities
  · exact hgenerations

/-! ## Runs -/

/-- What every accepted run from an untold store keeps. -/
structure Sound (uuid : Nat → String) (s : JobStore) (ops : List Op) (t : JobStore) : Prop where
  current : t.Current
  drawn : t.Drawn uuid
  identities : (t.identities.map (·.generationId)).Nodup
  refines : Refines uuid t (accountOf uuid s ops)
  registered : ∀ g ∈ ops.flatMap Op.registered, ∃ row,
    t.generations.find? (fun row => row.id = g.1) = some row ∧ row.githubRunnerId = some g.2

theorem Untold.sound (h : s.Untold) : Sound uuid s [] s where
  current := by
    have hrows : ∀ row, row ∉ s.observations := by simp [h.observations]
    have hjobs : ∀ job, job ∉ s.jobs := by simp [h.jobs]
    refine ⟨⟨⟨?_, ?_, ?_, ?_, ?_, ?_⟩, ?_⟩, ?_⟩
    · simp [h.observations]
    · exact fun row hrow => absurd hrow (hrows row)
    · simp [h.jobs]
    · exact fun job hjob => absurd hjob (hjobs job)
    · exact fun row hrow => absurd hrow (hrows row)
    · exact fun job hjob => absurd hjob (hjobs job)
    · exact fun row hrow => absurd hrow (hrows row)
    · exact fun job hjob => absurd hjob (hjobs job)
  drawn := ⟨by simp [h.observations], by simp [h.jobs]⟩
  identities := h.identities
  refines := by
    refine ⟨?_, rfl, rfl, rfl⟩
    rw [h.observations]
    exact .nil
  registered := by simp

theorem Sound.step (h : Sound uuid s ops t) (huuid : uuid.Injective)
    (hop : t.perform uuid op = .ok t') : Sound uuid s (ops ++ [op]) t' := by
  have hregistered : (ops ++ [op]).flatMap Op.registered =
      ops.flatMap Op.registered ++ op.registered := by
    rw [List.flatMap_append, List.flatMap_singleton]
  have haccount : accountOf uuid s (ops ++ [op]) = (accountOf uuid s ops).tell uuid op := by
    unfold accountOf
    rw [List.foldl_append]
    rfl
  obtain ⟨new, hentries, hnew, hids, hidentities, hgenerations⟩ :=
    Account.foldl_note op.facts h.refines.ids
  cases op with
  | ingest d message =>
    obtain ⟨hcurrent, hdrawn, htold, hsameIds, hsameGenerations⟩ :=
      jobsIngest_spec h.current h.drawn huuid hop
    refine ⟨hcurrent, hdrawn, by rw [hsameIds]; exact h.identities, ?_, ?_⟩
    · rw [haccount]
      refine h.refines.told huuid hcurrent htold ⟨new, hentries, ?_⟩ hids
        ((hsameIds.trans h.refines.identities).trans hidentities.symm)
        ((hsameGenerations.trans h.refines.generations).trans hgenerations.symm)
      exact (List.forall₂_map_left_iff.mp hnew)
    · rw [hregistered, hsameGenerations]
      intro g hg
      rcases List.mem_append.mp hg with hg | hg
      · exact h.registered g hg
      · cases hg
  | register generation runner =>
    obtain ⟨hcurrent, hdrawn, htold, hlearnt, hlearntGenerations⟩ :=
      setRunner_spec "" h.current h.drawn h.identities hop
    refine ⟨hcurrent, hdrawn, ?_, ?_, ?_⟩
    · rw [hlearnt]
      show ((t.identities.map _).map _).Nodup
      rw [List.map_map]
      have hsame : (fun i : IdentityRow => i.generationId) ∘ IdentityRow.learn generation runner =
          fun i => i.generationId := funext fun i => IdentityRow.learn_generationId _ _ i
      rw [hsame]
      exact h.identities
    · rw [haccount]
      refine h.refines.told huuid hcurrent htold ⟨[], (List.append_nil _).symm, .nil⟩ h.refines.ids
        ?_ ?_
      · rw [hlearnt]
        show t.identities.map _ = (accountOf uuid s ops).identities.map _
        rw [h.refines.identities]
      · rw [hlearntGenerations]
        show t.generations.map _ = (accountOf uuid s ops).generations.map _
        rw [h.refines.generations]
    · obtain ⟨⟨found, hfound, hagrees⟩, -⟩ := setRunner_ok hop
      have hfind : ∀ id, (t'.generations.find? fun row => row.id = id) =
          (t.generations.find? fun row => row.id = id).map (RunnerRow.learn generation runner) := by
        intro id
        rw [hlearntGenerations]
        show (t.generations.map _).find? _ = _
        rw [List.find?_map]
        congr 2
        funext row
        rw [Function.comp_apply, RunnerRow.learn_id]
      have hlearn : ∀ row : RunnerRow, row.id = generation →
          (row.learn generation runner).githubRunnerId = some runner := by
        intro row hid
        unfold RunnerRow.learn
        rw [if_pos hid]
      rw [hregistered]
      intro g hg
      rw [hfind]
      rcases List.mem_append.mp hg with hg | hg
      · obtain ⟨row, hrow, hrunner⟩ := h.registered g hg
        rw [hrow]
        refine ⟨_, rfl, ?_⟩
        by_cases hid : row.id = generation
        · have hkey := List.find?_some hrow
          rw [decide_eq_true_eq] at hkey
          rw [← hkey, hid, hfound, Option.some.injEq] at hrow
          rw [hrow, hrunner, Option.all_some, decide_eq_true_eq] at hagrees
          rw [hlearn row hid, hagrees]
        · unfold RunnerRow.learn
          rw [if_neg hid]
          exact hrunner
      · cases List.mem_singleton.mp hg
        rw [hfound]
        have hkey := List.find?_some hfound
        rw [decide_eq_true_eq] at hkey
        exact ⟨_, rfl, hlearn found hkey⟩

theorem Untold.run (h : s.Untold) (huuid : uuid.Injective) (hops : s.Performs uuid ops t) :
    Sound uuid s ops t := by
  induction ops using List.reverseRecOn generalizing t with
  | nil =>
    cases pure_eq_ok.mp hops
    exact h.sound
  | append_singleton ops op ih =>
    unfold Performs at hops
    rw [List.foldlM_append] at hops
    obtain ⟨mid, hmid, hlast⟩ := bind_eq_ok.mp hops
    rw [List.foldlM_cons] at hlast
    obtain ⟨last, hlast, heq⟩ := bind_eq_ok.mp hlast
    cases pure_eq_ok.mp heq
    exact (ih hmid).step huuid hlast

end JobStore

/-! ## Accounts of the same facts -/

namespace Account

variable {uuid : Nat → String} {s : JobStore} {ops ops' : List Op} {op : Op} {A : Account}

theorem accountOf_append : accountOf uuid s (ops ++ [op]) = (accountOf uuid s ops).tell uuid op := by
  unfold accountOf
  rw [List.foldl_append]
  rfl

theorem foldl_note_eq (facts : List (String × Fact)) (A : Account) :
    facts.foldl (note uuid) A = { A with
      entries := A.entries ++ (facts.zipIdx A.entries.length).map fun told =>
        (numbered uuid told.2 told.1, false) } := by
  induction facts generalizing A with
  | nil => simp
  | cons told facts ih =>
    rw [List.foldl_cons, ih]
    simp only [note, List.length_append, List.length_singleton, List.zipIdx_cons, List.map_cons,
      List.append_assoc, List.singleton_append]

theorem foldl_learn_eq (registered : List (String × Int)) (A : Account) :
    registered.foldl learn A = { A with
      identities := registered.foldl
        (fun rows g => rows.map (IdentityRow.learn g.1 g.2)) A.identities
      generations := registered.foldl
        (fun rows g => rows.map (RunnerRow.learn g.1 g.2)) A.generations } := by
  induction registered generalizing A with
  | nil => rfl
  | cons g registered ih => exact ih (A.learn g)

/-- Entries are numbered, and state the facts that were told. -/
theorem accountOf_entries (uuid : Nat → String) (s : JobStore) (ops : List Op) :
    (accountOf uuid s ops).entries.map (·.1.observation.id) =
        (List.range (accountOf uuid s ops).entries.length).map uuid ∧
      (accountOf uuid s ops).entries.map (·.1.erased) =
        (ops.flatMap Op.facts).map fun told => told.2.evidence told.1 := by
  induction ops using List.reverseRecOn with
  | nil => exact ⟨rfl, rfl⟩
  | append_singleton ops op ih =>
    obtain ⟨hids, hevidence⟩ := ih
    obtain ⟨new, hentries, hnew, hnumbered, -⟩ := @foldl_note uuid _ op.facts hids
    have hfst : ∀ {α : Type} (f : Evidence → α), ((accountOf uuid s (ops ++ [op])).entries.map
        fun entry => f entry.1) = (op.facts.foldl (note uuid) (accountOf uuid s ops)).entries.map
          fun entry => f entry.1 := by
      intro α f
      rw [accountOf_append, tell, remark, List.map_map, foldl_learn_eq]
      apply List.map_congr_left
      intro entry _
      rw [Function.comp_apply]
      split <;> rfl
    constructor
    · rw [hfst fun e => e.observation.id, hnumbered]
      have hlength := congrArg List.length (hfst id)
      rw [List.length_map, List.length_map] at hlength
      rw [hlength]
    · rw [hfst Evidence.erased, hentries, List.map_append, hevidence, List.flatMap_append,
        List.map_append, List.flatMap_singleton]
      congr 1
      exact (map_eq_of_forall₂ hnew fun _ _ hpair => hpair.1.symm).symm

/-- The first runner a generation is registered with. -/
def firstRunner (registered : List (String × Int)) (generation : String) : Option Int :=
  (registered.find? fun g => g.1 = generation).map (·.2)

/-- The identity of a generation, known by the runner it had or the first it was registered with. -/
def known (registered : List (String × Int)) (i : IdentityRow) : IdentityRow :=
  { i with githubRunnerId := i.githubRunnerId.or (firstRunner registered i.generationId) }

theorem learn_known (registered : List (String × Int)) (generation : String) (runner : Int)
    (i : IdentityRow) :
    (known registered i).learn generation runner = known (registered ++ [(generation, runner)]) i := by
  unfold IdentityRow.learn known firstRunner
  rw [List.find?_append]
  by_cases hid : generation = i.generationId
  · subst hid
    cases registered.find? (fun g => decide (g.1 = i.generationId)) <;>
      cases i.githubRunnerId <;> simp +contextual
  · have hno : ¬ i.generationId = generation := fun heq => hid heq.symm
    simp [hid, hno]

theorem accountOf_identities (uuid : Nat → String) (s : JobStore) (ops : List Op) :
    (accountOf uuid s ops).identities =
      s.identities.map (known (ops.flatMap Op.registered)) := by
  induction ops using List.reverseRecOn with
  | nil =>
    have hknown : known [] = id := by
      funext i
      unfold known firstRunner
      rw [List.find?_nil, Option.map_none, Option.or_none]
      rfl
    rw [List.flatMap_nil, hknown, List.map_id]
    rfl
  | append_singleton ops op ih =>
    rw [accountOf_append, List.flatMap_append, List.flatMap_singleton]
    cases op with
    | ingest d message =>
      rw [tell, foldl_note_eq, show (Op.ingest d message).registered = [] from rfl, ih,
        List.append_nil]
      rfl
    | register generation runner =>
      show (accountOf uuid s ops).identities.map (IdentityRow.learn generation runner) = _
      rw [ih, List.map_map]
      exact List.map_congr_left fun i _ => learn_known _ _ _ i

theorem accountOf_names (uuid : Nat → String) (s : JobStore) (ops : List Op) (id : String) :
    ((accountOf uuid s ops).generations.find? fun g => g.id = id).map (·.runnerName) =
      (s.generations.find? fun g => g.id = id).map (·.runnerName) := by
  induction ops using List.reverseRecOn with
  | nil => rfl
  | append_singleton ops op ih =>
    rw [accountOf_append, tell, remark]
    cases op with
    | ingest d message =>
      rw [foldl_note_eq]
      exact ih
    | register generation runner =>
      exact (RunnerRow.learn_names generation runner _ id).trans ih

/-- A fact of a job is marked as the archive settles it. -/
theorem accountOf_marks {entry : Evidence × Bool} (hentry : entry ∈ (accountOf uuid s ops).entries)
    {job : String} (hof : (accountOf uuid s ops).archive.jobOf entry.1 = some job) :
    entry.2 = (accountOf uuid s ops).ambiguous job entry.1 := by
  induction ops using List.reverseRecOn with
  | nil => cases hentry
  | append_singleton ops op ih =>
    rw [accountOf_append] at hentry hof ⊢
    unfold tell at hentry hof ⊢
    generalize op.registered.foldl learn (op.facts.foldl (note uuid) (accountOf uuid s ops)) = B
      at hentry hof ⊢
    rw [remark_archive] at hof
    have hambiguous : B.remark.ambiguous = B.ambiguous := by
      unfold ambiguous
      rw [remark_archive]
    obtain ⟨before, hbefore, rfl⟩ := List.mem_map.mp hentry
    cases hjob : B.archive.jobOf before.1 with
    | none =>
      rw [hjob] at hof
      cases hjob.symm.trans hof
    | some name =>
      rw [hjob] at hof
      cases hjob.symm.trans hof
      rw [hambiguous]

/-- Accounts of the same facts and the same runners. -/
theorem accountOf_agrees
    (hfacts : (ops.flatMap Op.facts).Perm (ops'.flatMap Op.facts))
    (hregistered : ∀ g, g ∈ ops.flatMap Op.registered ↔ g ∈ ops'.flatMap Op.registered)
    (hone : ∀ g ∈ ops.flatMap Op.registered, ∀ g' ∈ ops.flatMap Op.registered, g.1 = g'.1 → g = g') :
    (accountOf uuid s ops).archive.Agrees (accountOf uuid s ops').archive where
  evidence := by
    have herased : ∀ ops, (accountOf uuid s ops).archive.evidence.map Evidence.erased =
        (ops.flatMap Op.facts).map fun told => told.2.evidence told.1 := by
      intro ops
      rw [← (accountOf_entries uuid s ops).2]
      exact List.map_map
    rw [herased, herased]
    exact hfacts.map _
  candidates scope runner := by
    have hfind : ∀ id, ((ops.flatMap Op.registered).find? fun g => g.1 = id) =
        (ops'.flatMap Op.registered).find? fun g => g.1 = id := by
      intro id
      cases hfirst : (ops.flatMap Op.registered).find? fun g => g.1 = id with
      | none =>
        symm
        rw [List.find?_eq_none] at hfirst ⊢
        exact fun g hg => hfirst g ((hregistered g).mpr hg)
      | some g =>
        have hkey := List.find?_some hfirst
        have hmem := List.mem_of_find?_eq_some hfirst
        rw [decide_eq_true_eq] at hkey
        have hsome : ((ops'.flatMap Op.registered).find? fun g => decide (g.1 = id)).isSome := by
          rw [List.find?_isSome]
          exact ⟨g, (hregistered g).mp hmem, decide_eq_true hkey⟩
        obtain ⟨g', hg'⟩ := Option.isSome_iff_exists.mp hsome
        have hkey' := List.find?_some hg'
        rw [decide_eq_true_eq] at hkey'
        have hmem' := (hregistered g').mpr (List.mem_of_find?_eq_some hg')
        rw [hg', hone g hmem g' hmem' (hkey.trans hkey'.symm)]
    have hidentities : (accountOf uuid s ops).identities = (accountOf uuid s ops').identities := by
      rw [accountOf_identities, accountOf_identities]
      apply List.map_congr_left
      intro i _
      unfold known firstRunner
      rw [hfind]
    unfold Archive.candidates
    show ((accountOf uuid s ops).identities.filter _).filterMap _ =
      ((accountOf uuid s ops').identities.filter _).filterMap _
    rw [hidentities]
    apply List.filterMap_congr
    intro i _
    have hname := (accountOf_names uuid s ops i.generationId).trans
      (accountOf_names uuid s ops' i.generationId).symm
    have hpair := congrArg (Option.map fun name => (i.generationId, name)) hname
    rw [Option.map_map, Option.map_map] at hpair
    exact hpair

/-- What an account says of a fact. -/
def held (A : Account) (entry : Evidence × Bool) : Evidence × Option String × Bool :=
  (entry.1.erased, A.archive.jobOf entry.1, entry.2)

/-- What is said of a fact that belongs to a job depends on the archive alone. -/
def settledView (A : Account) (e : Evidence) : Evidence × Option String × Bool :=
  (e.erased, A.archive.jobOf e, (A.archive.jobOf e).any fun job => A.ambiguous job e)

end Account

/-! ## Facts left behind -/

/-- The archive of what operations told: their facts, numbered in order, and the runners registered
so far. -/
def archiveOf (uuid : Nat → String) (s : JobStore) (ops : List Op) : Archive where
  evidence := (ops.flatMap Op.facts).zipIdx.map fun told => numbered uuid told.2 told.1
  identities := (ops.flatMap Op.registered).foldl
    (fun rows g => rows.map (IdentityRow.learn g.1 g.2)) s.identities
  generations := (ops.flatMap Op.registered).foldl
    (fun rows g => rows.map (RunnerRow.learn g.1 g.2)) s.generations

namespace Archive

/-- The fact belongs to a job and is ambiguous there. -/
def ambiguous (A : Archive) (e : Evidence) : Bool :=
  (A.jobOf e).any fun job => (A.settled e.scope job e).associationStatus = .ambiguous

/-- The facts that were ambiguous in their job and belong to none any more: a second job is named
for their request. -/
def detached (A B : Archive) : List Evidence :=
  (A.evidence.filter fun e => A.ambiguous e && decide (B.jobOf e = none)).map Evidence.erased

end Archive

/-- The facts that some operation took from a job in which they were ambiguous until then. -/
def leftBehind (uuid : Nat → String) (s : JobStore) (ops : List Op) : List Evidence :=
  (List.range ops.length).flatMap fun n =>
    (archiveOf uuid s (ops.take n)).detached (archiveOf uuid s (ops.take (n + 1)))

namespace Archive

variable {A B : Archive} {e : Evidence}

/-- The fact names no job, and the facts of its request name two. -/
def Contested (A : Archive) (e : Evidence) : Prop :=
  e.job = "" ∧ ∃ a b, a ≠ b ∧ some a ∈ A.requestNames e.scope e.observation.runnerRequestId ∧
    some b ∈ A.requestNames e.scope e.observation.runnerRequestId

theorem Contested.jobOf (h : A.Contested e) : A.jobOf e = none := by
  obtain ⟨hblank, a, b, hne, ha, hb⟩ := h
  by_contra hsome
  obtain ⟨job, hjob⟩ := Option.ne_none_iff_exists'.mp hsome
  obtain ⟨-, hunique⟩ := (JobStore.Archive.jobOf_blank hblank).mp hjob
  obtain ⟨-, hall⟩ := unique_eq_some.mp hunique
  exact hne ((hall a ha).trans (hall b hb).symm)

theorem requestNames_subset (h : A.evidence ⊆ B.evidence) (scope : String) (request : Int) :
    A.requestNames scope request ⊆ B.requestNames scope request :=
  List.map_subset _ (List.filter_subset _ h)

theorem Contested.mono (h : A.evidence ⊆ B.evidence) (hA : A.Contested e) : B.Contested e := by
  obtain ⟨hblank, a, b, hne, ha, hb⟩ := hA
  have hnames := requestNames_subset h e.scope e.observation.runnerRequestId
  exact ⟨hblank, a, b, hne, hnames ha, hnames hb⟩

/-- A fact loses its job by a second one that is named for its request. -/
theorem contested_of_lost (h : A.evidence ⊆ B.evidence) {job : String}
    (hjob : A.jobOf e = some job) (hnone : B.jobOf e = none) : B.Contested e := by
  by_cases hblank : e.job = ""
  · obtain ⟨hpos, hunique⟩ := (JobStore.Archive.jobOf_blank hblank).mp hjob
    have hnames := requestNames_subset h e.scope e.observation.runnerRequestId
    have hmem := hnames (unique_eq_some.mp hunique).1
    by_contra hno
    have hall : ∀ b, some b ∈ B.requestNames e.scope e.observation.runnerRequestId → b = job := by
      intro b hb
      by_contra hne
      exact hno ⟨hblank, b, job, hne, hb, hmem⟩
    cases hnone.symm.trans
      ((JobStore.Archive.jobOf_blank hblank).mpr ⟨hpos, unique_eq_some.mpr ⟨hmem, hall⟩⟩)
  · cases hnone.symm.trans (JobStore.Archive.jobOf_named hblank)

end Archive

namespace Account

variable {uuid : Nat → String} {s : JobStore} {ops : List Op} {op : Op} {A : Account}

/-- What an account says is what its operations told. -/
theorem accountOf_archive (uuid : Nat → String) (s : JobStore) (ops : List Op) :
    (accountOf uuid s ops).archive = archiveOf uuid s ops := by
  induction ops using List.reverseRecOn with
  | nil => rfl
  | append_singleton ops op ih =>
    have hlength : (accountOf uuid s ops).entries.length = (ops.flatMap Op.facts).length := by
      have hevidence := congrArg (fun A => A.evidence.length) ih
      simpa [archive, archiveOf] using hevidence
    obtain ⟨hevidence, hidentities, hgenerations⟩ := Archive.mk.inj ih
    rw [accountOf_append, tell, remark_archive, foldl_learn_eq, foldl_note_eq]
    unfold archive archiveOf
    simp only [List.map_append, List.flatMap_append, List.flatMap_singleton, List.zipIdx_append,
      List.foldl_append, hevidence, hidentities, hgenerations, hlength, List.map_map]
    simp only [Nat.zero_add]
    rfl

end Account

/-- A filter keeps a map from showing that leaves what it keeps alone. -/
theorem filter_map_of_fixed {α : Type} {f : α → α} {p : α → Bool} (hp : ∀ a, p (f a) = p a)
    (hf : ∀ a, p a = true → f a = a) (l : List α) : (l.map f).filter p = l.filter p := by
  have hsame : p ∘ f = p := funext hp
  rw [List.filter_map, hsame]
  exact (List.map_congr_left fun a ha => hf a (List.mem_filter.mp ha).2).trans (List.map_id _)

namespace Account

variable {uuid : Nat → String} {op : Op} {A : Account}

/-- The facts that belong to no job and were left with a mark. -/
def stale (A : Account) : List Evidence :=
  (A.entries.filter fun entry => decide (A.archive.jobOf entry.1 = none) && entry.2).map
    fun entry => entry.1.erased

/-- Facts of a job are marked as the archive has it, and a fact of no job that is marked lost its
job. -/
structure Marked (A : Account) : Prop where
  attached : ∀ entry ∈ A.entries, ∀ job, A.archive.jobOf entry.1 = some job →
    entry.2 = A.ambiguous job entry.1
  lost : ∀ entry ∈ A.entries, A.archive.jobOf entry.1 = none → entry.2 = true →
    A.archive.Contested entry.1

/-- An operation's facts are noted, unmarked, before all are marked anew. -/
theorem tell_eq (uuid : Nat → String) (A : Account) (op : Op) :
    ∃ (B : Account) (noted : List (Evidence × Bool)), A.tell uuid op = B.remark ∧
      B.entries = A.entries ++ noted ∧ ∀ entry ∈ noted, entry.2 = false := by
  refine ⟨_, (op.facts.zipIdx A.entries.length).map fun told =>
    (numbered uuid told.2 told.1, false), rfl, ?_, ?_⟩
  · rw [foldl_learn_eq, foldl_note_eq]
  · intro entry hentry
    obtain ⟨told, -, rfl⟩ := List.mem_map.mp hentry
    rfl

/-- Facts that belong to no job keep their marks. -/
theorem remark_stale (B : Account) : B.remark.stale = B.stale := by
  unfold stale
  rw [remark_archive]
  refine congrArg (List.map _) ?_
  refine filter_map_of_fixed (fun entry => ?_) (fun entry hentry => ?_) B.entries
  · cases hjob : B.archive.jobOf entry.1 <;> simp [hjob]
  · rw [Bool.and_eq_true, decide_eq_true_eq] at hentry
    rw [hentry.1]

theorem Marked.tell (h : A.Marked) : (A.tell uuid op).Marked := by
  obtain ⟨B, noted, heq, hentries, hnoted⟩ := tell_eq uuid A op
  have hsub : A.archive.evidence ⊆ B.archive.evidence := by
    show A.entries.map Prod.fst ⊆ B.entries.map Prod.fst
    rw [hentries, List.map_append]
    exact List.subset_append_left _ _
  have hambiguous : B.remark.ambiguous = B.ambiguous := by
    unfold ambiguous
    rw [remark_archive]
  rw [heq]
  constructor
  · intro entry hentry job hjob
    rw [remark_archive] at hjob
    obtain ⟨before, hbefore, rfl⟩ := List.mem_map.mp hentry
    cases hname : B.archive.jobOf before.1 with
    | none =>
      rw [hname] at hjob
      cases hname.symm.trans hjob
    | some name =>
      rw [hname] at hjob
      cases hname.symm.trans hjob
      rw [hambiguous]
  · intro entry hentry hnone hmark
    rw [remark_archive] at hnone ⊢
    obtain ⟨before, hbefore, rfl⟩ := List.mem_map.mp hentry
    cases hname : B.archive.jobOf before.1 with
    | some name =>
      rw [hname] at hnone
      cases hname.symm.trans hnone
    | none =>
      rw [hname] at hmark
      rw [hentries] at hbefore
      rcases List.mem_append.mp hbefore with hold | hnew
      · cases hjob : A.archive.jobOf before.1 with
        | none => exact (h.lost before hold hjob hmark).mono hsub
        | some job => exact Archive.contested_of_lost hsub hjob hname
      · cases (hnoted before hnew).symm.trans hmark

/-- What an operation leaves behind: what was, and the ambiguous facts it took from their jobs. -/
theorem Marked.stale_tell (h : A.Marked) :
    (A.tell uuid op).stale.Perm (A.stale ++ A.archive.detached (A.tell uuid op).archive) := by
  obtain ⟨B, noted, heq, hentries, hnoted⟩ := tell_eq uuid A op
  have hsub : A.archive.evidence ⊆ B.archive.evidence := by
    show A.entries.map Prod.fst ⊆ B.entries.map Prod.fst
    rw [hentries, List.map_append]
    exact List.subset_append_left _ _
  have hnew : noted.filter (fun entry => decide (B.archive.jobOf entry.1 = none) && entry.2) =
      [] := by
    rw [List.filter_eq_nil_iff]
    intro entry hentry
    rw [hnoted entry hentry, Bool.and_false]
    exact Bool.false_ne_true
  have hdetached : A.archive.detached B.archive = (A.entries.filter fun entry =>
      A.archive.ambiguous entry.1 && decide (B.archive.jobOf entry.1 = none)).map
        fun entry => entry.1.erased := by
    show ((A.entries.map Prod.fst).filter _).map _ = _
    rw [List.filter_map, List.map_map]
    rfl
  rw [heq, remark_stale, remark_archive, hdetached, stale, hentries, List.filter_append, hnew,
    List.append_nil, stale, ← List.map_append]
  refine List.Perm.map _ ?_
  refine ((List.filter_append_perm (fun entry : Evidence × Bool =>
    decide (A.archive.jobOf entry.1 = none)) _).symm).trans (.of_eq ?_)
  rw [List.filter_filter, List.filter_filter]
  refine congrArg₂ (· ++ ·) ?_ ?_
  · apply List.filter_congr
    intro entry hentry
    cases hjob : A.archive.jobOf entry.1 with
    | some job => simp
    | none =>
      cases hmark : entry.2 with
      | false => simp
      | true => simp [((h.lost entry hentry hjob hmark).mono hsub).jobOf]
  · apply List.filter_congr
    intro entry hentry
    cases hjob : A.archive.jobOf entry.1 with
    | none => simp [Archive.ambiguous, hjob]
    | some job =>
      rw [h.attached entry hentry job hjob]
      simp [Archive.ambiguous, hjob, ambiguous, Bool.and_comm]

/-- **What is left behind.**  The marked facts without a job are those that were ambiguous in their
job when it was taken from them. -/
theorem accountOf_stale (uuid : Nat → String) (s : JobStore) (ops : List Op) :
    (accountOf uuid s ops).Marked ∧ (accountOf uuid s ops).stale.Perm (leftBehind uuid s ops) := by
  induction ops using List.reverseRecOn with
  | nil => exact ⟨⟨by rintro _ ⟨⟩, by rintro _ ⟨⟩⟩, .refl _⟩
  | append_singleton ops op ih =>
    obtain ⟨hmarked, hstale⟩ := ih
    rw [accountOf_append]
    refine ⟨hmarked.tell, hmarked.stale_tell.trans ?_⟩
    rw [← accountOf_append, accountOf_archive, accountOf_archive]
    have hsplit : leftBehind uuid s (ops ++ [op]) = leftBehind uuid s ops ++
        (archiveOf uuid s ops).detached (archiveOf uuid s (ops ++ [op])) := by
      unfold leftBehind
      rw [List.length_append, List.length_singleton, List.range_succ, List.flatMap_append,
        List.flatMap_singleton, List.take_left, List.take_of_length_le (by simp)]
      refine congrArg (· ++ _) ?_
      apply List.flatMap_congr
      intro n hn
      have hlt := List.mem_range.mp hn
      rw [List.take_append_of_le_length (by omega), List.take_append_of_le_length (by omega)]
    rw [hsplit]
    exact hstale.append_right _

end Account

theorem perm_iff_filter {α : Type} (p : α → Bool) {l l' : List α} :
    l.Perm l' ↔ (l.filter p).Perm (l'.filter p) ∧
      (l.filter fun a => !p a).Perm (l'.filter fun a => !p a) := by
  constructor
  · exact fun h => ⟨h.filter _, h.filter _⟩
  · rintro ⟨hyes, hno⟩
    exact ((List.filter_append_perm p l).symm.trans (hyes.append hno)).trans
      (List.filter_append_perm p l')

/-- Where the items are the same, the marks are if the marked items are. -/
theorem perm_iff_marked {α : Type} {l l' : List (α × Bool)}
    (h : (l.map Prod.fst).Perm (l'.map Prod.fst)) :
    l.Perm l' ↔ ((l.filter (·.2)).map Prod.fst).Perm ((l'.filter (·.2)).map Prod.fst) := by
  constructor
  · exact fun hperm => (hperm.filter _).map _
  · intro hmarked
    have hsplit : ∀ l : List (α × Bool), (l.map Prod.fst).Perm
        ((l.filter (·.2)).map Prod.fst ++ (l.filter fun a => !a.2).map Prod.fst) := by
      intro l
      rw [← List.map_append]
      exact ((List.filter_append_perm _ l).symm).map _
    have hmark : ∀ (p : α × Bool → Bool) (mark : Bool), (∀ a, p a = true → a.2 = mark) →
        ∀ l : List (α × Bool), l.filter p = ((l.filter p).map Prod.fst).map fun a => (a, mark) := by
      intro p mark hp l
      rw [List.map_map]
      refine ((List.map_congr_left fun a ha => ?_).trans (List.map_id _)).symm
      exact Prod.ext rfl (hp a (List.mem_filter.mp ha).2).symm
    have hyes := hmark (·.2) true fun _ hmem => hmem
    have hno := hmark (fun a => !a.2) false fun a hmem => by simpa using hmem
    have hunmarked := (List.perm_append_left_iff _).mp
      ((((hsplit l).symm.trans h).trans (hsplit l')).trans (hmarked.symm.append_right _))
    refine (perm_iff_filter (·.2)).mpr ⟨?_, ?_⟩
    · rw [hyes l, hyes l']
      exact hmarked.map _
    · rw [hno l, hno l']
      exact hunmarked.map _

namespace Archive.Agrees

variable {A A' A'' : Archive}

theorem trans (h : A.Agrees A') (h' : A'.Agrees A'') : A.Agrees A'' :=
  ⟨h.evidence.trans h'.evidence, fun scope runner =>
    (h.candidates scope runner).trans (h'.candidates scope runner)⟩

/-- What does not see the surrogate fields says the same of both archives' facts. -/
theorem perm {α : Type} (h : A.Agrees A') {f f' : Evidence → α}
    (hf : ∀ e e' : Evidence, e.erased = e'.erased → f e = f' e') :
    (A.evidence.map f).Perm (A'.evidence.map f') := by
  obtain ⟨pairs, hfst, hsnd, hpairs⟩ := exists_pairing h.evidence
  have heq : A.evidence.map f = (pairs.map Prod.snd).map f' := by
    rw [← hfst, List.map_map, List.map_map]
    exact List.map_congr_left fun p hp => hf _ _ (hpairs p hp)
  rw [heq]
  exact hsnd.map f'

end Archive.Agrees

/-! ## Confluence -/

namespace JobStore

variable {uuid : Nat → String} {s t t' : JobStore} {ops ops' : List Op}

/-- The records are those of the jobs that facts name. -/
theorem Current.mem_keys (h : t.Current) (scope name : String) :
    (scope, name) ∈ t.jobs.map (fun job => (job.scopeKey, job.protocolJobId)) ↔
      some name ∈ (t.archive.evidence.filter fun e => decide (e.scope = scope)).map (·.named) := by
  constructor
  · intro hmem
    obtain ⟨job, hjob, heq⟩ := List.mem_map.mp hmem
    obtain ⟨rfl, rfl⟩ := Prod.mk.inj heq
    obtain ⟨hne, row, hrow, hscope, hprotocol⟩ := h.named job hjob
    refine List.mem_map.mpr ⟨row.evidence, List.mem_filter.mpr ⟨List.mem_map_of_mem hrow, ?_⟩, ?_⟩
    · exact decide_eq_true hscope
    · exact named_eq_some.mpr ⟨hprotocol, hne⟩
  · intro hmem
    obtain ⟨e, he, hname⟩ := List.mem_map.mp hmem
    obtain ⟨he, hscope⟩ := List.mem_filter.mp he
    obtain ⟨row, hrow, rfl⟩ := List.mem_map.mp he
    obtain ⟨hprotocol, hne⟩ := named_eq_some.mp hname
    have hprotocol : row.protocolJobId = name := hprotocol
    obtain ⟨job, hjob, -, hjobScope, hjobName⟩ := h.recorded row hrow (hprotocol ▸ hne)
    have hscope : row.scopeKey = scope := of_decide_eq_true hscope
    exact List.mem_map.mpr ⟨job, hjob, by rw [hjobScope, hscope, hjobName, hprotocol]⟩

theorem Current.keys_nodup (h : t.Current) :
    (t.jobs.map fun job => (job.scopeKey, job.protocolJobId)).Nodup := by
  refine List.Nodup.map_on ?_ (h.jobIds.of_map)
  intro job hjob job' hjob' heq
  obtain ⟨hscope, hprotocol⟩ := Prod.mk.inj heq
  exact h.jobKeys job hjob job' hjob' hscope hprotocol

theorem Current.shown_eq (h : t.Current) :
    t.jobs.map shown = (t.jobs.map fun job => (job.scopeKey, job.protocolJobId)).map fun key =>
      (key.1, key.2, t.archive.projection key.1 key.2) := by
  rw [List.map_map]
  apply List.map_congr_left
  intro job hjob
  unfold shown
  rw [(h.fresh job hjob).summary]
  rfl

/-- Tables of the same facts have the same records, and these show the same. -/
theorem Current.records (h : t.Current) (h' : t'.Current) (hagrees : t.archive.Agrees t'.archive) :
    (t.jobs.map shown).Perm (t'.jobs.map shown) := by
  have hkeys : (t.jobs.map fun job => (job.scopeKey, job.protocolJobId)).Perm
      (t'.jobs.map fun job => (job.scopeKey, job.protocolJobId)) := by
    rw [List.perm_ext_iff_of_nodup h.keys_nodup h'.keys_nodup]
    rintro ⟨scope, name⟩
    rw [h.mem_keys, h'.mem_keys]
    apply hagrees.names
    intro e e' heq
    rw [(Evidence.erased_eq heq).1]
  rw [h.shown_eq, h'.shown_eq]
  have hprojection : (fun key : String × String =>
      (key.1, key.2, t.archive.projection key.1 key.2)) = fun key =>
        (key.1, key.2, t'.archive.projection key.1 key.2) := by
    funext key
    rw [hagrees.projection h.distinct h'.distinct]
  rw [hprojection]
  exact hkeys.map _

namespace Sound

variable (h : Sound uuid s ops t)

include h

theorem held_eq : t.observations.map t.held =
    (accountOf uuid s ops).entries.map (accountOf uuid s ops).held := by
  have hmem := (List.forall₂_and_left _ _).mpr ⟨fun row hrow => hrow, h.refines.rows⟩
  refine map_eq_of_forall₂ hmem ?_
  rintro row entry ⟨hrow, hholds⟩
  unfold JobStore.held Account.held
  rw [h.current.recordOf_eq hrow, h.refines.agrees.jobOf hholds.evidence, hholds.evidence,
    hholds.mark]

theorem agrees (h' : Sound uuid s ops' t')
    (hfacts : (ops.flatMap Op.facts).Perm (ops'.flatMap Op.facts))
    (hregistered : ∀ g, g ∈ ops.flatMap Op.registered ↔ g ∈ ops'.flatMap Op.registered) :
    (accountOf uuid s ops).archive.Agrees (accountOf uuid s ops').archive ∧
      t.archive.Agrees t'.archive := by
  have haccounts : (accountOf uuid s ops).archive.Agrees (accountOf uuid s ops').archive := by
    refine Account.accountOf_agrees hfacts hregistered ?_
    rintro ⟨generation, runner⟩ hg ⟨generation', runner'⟩ hg' rfl
    obtain ⟨row, hrow, hrunner⟩ := h.registered _ hg
    obtain ⟨row', hrow', hrunner'⟩ := h.registered _ hg'
    cases hrow.symm.trans hrow'
    exact Prod.ext rfl (Option.some.inj (hrunner.symm.trans hrunner'))
  exact ⟨haccounts, (h.refines.agrees.trans haccounts).trans h'.refines.agrees.symm⟩

end Sound

/-- What is said of facts that belong to a job is the same in accounts of the same facts. -/
theorem settled_alike (huuid : uuid.Injective)
    (h : (accountOf uuid s ops).archive.Agrees (accountOf uuid s ops').archive)
    (hsound : Sound uuid s ops t) (hsound' : Sound uuid s ops' t') :
    (((accountOf uuid s ops).entries.map (accountOf uuid s ops).held).filter (·.2.1.isSome)).Perm
      (((accountOf uuid s ops').entries.map (accountOf uuid s ops').held).filter
        (·.2.1.isSome)) := by
  have hview : ∀ ops, ((accountOf uuid s ops).entries.map (accountOf uuid s ops).held).filter
      (·.2.1.isSome) = ((accountOf uuid s ops).archive.evidence.map
        (accountOf uuid s ops).settledView).filter (·.2.1.isSome) := by
    intro ops
    show _ = (((accountOf uuid s ops).entries.map Prod.fst).map _).filter _
    rw [List.map_map, List.filter_map, List.filter_map]
    have hpass : (fun v : Evidence × Option String × Bool => v.2.1.isSome) ∘
        (accountOf uuid s ops).held = (fun v => v.2.1.isSome) ∘
          (accountOf uuid s ops).settledView ∘ Prod.fst := rfl
    rw [hpass]
    apply List.map_congr_left
    intro entry hentry
    obtain ⟨hentry, hof⟩ := List.mem_filter.mp hentry
    obtain ⟨job, hjob⟩ := Option.isSome_iff_exists.mp hof
    have hjob : (accountOf uuid s ops).archive.jobOf entry.1 = some job := hjob
    unfold Account.held
    rw [Function.comp_apply, Account.settledView, Account.accountOf_marks hentry hjob, hjob]
    rfl
  rw [hview, hview]
  refine List.Perm.filter _ (h.perm ?_)
  intro e e' heq
  have hambiguous : ∀ job, (accountOf uuid s ops).ambiguous job e =
      (accountOf uuid s ops').ambiguous job e' := by
    intro job
    have hsettled := h.settled (hsound.refines.distinct huuid) (hsound'.refines.distinct huuid)
      e.scope job heq
    have hstatus := congrArg JobObservation.associationStatus hsettled
    unfold Account.ambiguous
    rw [← (Evidence.erased_eq heq).1]
    show decide (((accountOf uuid s ops).archive.settled e.scope job e).erased.associationStatus =
      .ambiguous) = _
    rw [hstatus]
    rfl
  unfold Account.settledView
  rw [heq, h.jobOf heq]
  simp only [hambiguous]

/-- The facts that belong to no job, as an account holds them. -/
theorem unsettled_eq (A : Account) : (A.entries.map A.held).filter (fun v => !v.2.1.isSome) =
    A.lingering.map fun e => (e.1, none, e.2) := by
  unfold Account.lingering
  rw [List.filter_map, List.map_map]
  have hpass : A.entries.filter ((fun v : Evidence × Option String × Bool => !v.2.1.isSome) ∘ A.held) =
      A.entries.filter fun entry => decide (A.archive.jobOf entry.1 = none) := by
    apply List.filter_congr
    intro entry _
    show (!(A.archive.jobOf entry.1).isSome) = _
    cases A.archive.jobOf entry.1 <;> rfl
  rw [hpass]
  apply List.map_congr_left
  intro entry hentry
  have hnone := of_decide_eq_true (List.mem_filter.mp hentry).2
  unfold Account.held
  rw [hnone]
  rfl

/-- Facts of no job that are the same are left with the same marks if the marked ones are. -/
theorem lingering_perm_iff {A A' : Account} (h : A.archive.Agrees A'.archive) :
    A.lingering.Perm A'.lingering ↔ A.stale.Perm A'.stale := by
  have hstale : ∀ A : Account, A.stale = (A.lingering.filter (·.2)).map Prod.fst := by
    intro A
    unfold Account.stale Account.lingering
    rw [List.filter_map, List.filter_filter, List.map_map]
    refine congrArg (List.map _) (List.filter_congr fun entry _ => ?_)
    exact Bool.and_comm ..
  have hfst : ∀ A : Account, A.lingering.map Prod.fst =
      ((A.archive.evidence.map fun e => (e.erased, A.archive.jobOf e)).filter fun v =>
        decide (v.2 = none)).map Prod.fst := by
    intro A
    show _ = (((A.entries.map Prod.fst).map _).filter _).map _
    rw [List.map_map, List.filter_map, List.map_map]
    exact List.map_map
  have hsame : (A.lingering.map Prod.fst).Perm (A'.lingering.map Prod.fst) := by
    rw [hfst, hfst]
    refine ((h.perm fun e e' heq => ?_).filter _).map _
    rw [heq, h.jobOf heq]
  rw [hstale, hstale, perm_iff_marked hsame]

/-- **Confluence.**  Two orders of the same facts and runners lead to tables that are alike, exactly
if they leave the same facts behind that were ambiguous in the job they were taken from. -/
theorem alike_iff (huuid : uuid.Injective) (hs : s.Untold) (hops : s.Performs uuid ops t)
    (hops' : s.Performs uuid ops' t')
    (hfacts : (ops.flatMap Op.facts).Perm (ops'.flatMap Op.facts))
    (hregistered : ∀ g, g ∈ ops.flatMap Op.registered ↔ g ∈ ops'.flatMap Op.registered) :
    Alike t t' ↔ (leftBehind uuid s ops).Perm (leftBehind uuid s ops') := by
  have hsound := hs.run huuid hops
  have hsound' := hs.run huuid hops'
  obtain ⟨haccounts, hagrees⟩ := hsound.agrees hsound' hfacts hregistered
  have hinjective : Function.Injective fun e : Evidence × Bool =>
      ((e.1, none, e.2) : Evidence × Option String × Bool) := by
    rintro ⟨e, mark⟩ ⟨e', mark'⟩ heq
    simpa using heq
  have hrest : (t.observations.map t.held).Perm (t'.observations.map t'.held) ↔
      (leftBehind uuid s ops).Perm (leftBehind uuid s ops') := by
    have hleft := (Account.accountOf_stale uuid s ops).2
    have hleft' := (Account.accountOf_stale uuid s ops').2
    rw [← hleft.congr_left, ← hleft'.congr_right, ← lingering_perm_iff haccounts,
      hsound.held_eq, hsound'.held_eq, perm_iff_filter fun v => v.2.1.isSome, unsettled_eq,
      unsettled_eq, List.map_perm_map_iff hinjective]
    exact ⟨fun h => h.2, fun h => ⟨settled_alike huuid haccounts hsound hsound', h⟩⟩
  constructor
  · exact fun h => hrest.mp h.facts
  · exact fun h => ⟨hsound.current.records hsound'.current hagrees, hrest.mpr h⟩

/-- Whatever the order, the records show the same, and the same facts are attached to them. -/
theorem records_alike (huuid : uuid.Injective) (hs : s.Untold) (hops : s.Performs uuid ops t)
    (hops' : s.Performs uuid ops' t')
    (hfacts : (ops.flatMap Op.facts).Perm (ops'.flatMap Op.facts))
    (hregistered : ∀ g, g ∈ ops.flatMap Op.registered ↔ g ∈ ops'.flatMap Op.registered) :
    (t.jobs.map shown).Perm (t'.jobs.map shown) ∧
      (t.observations.map fun row => (row.evidence.erased, t.recordOf row)).Perm
        (t'.observations.map fun row => (row.evidence.erased, t'.recordOf row)) := by
  have hsound := hs.run huuid hops
  have hsound' := hs.run huuid hops'
  obtain ⟨-, hagrees⟩ := hsound.agrees hsound' hfacts hregistered
  have hrows : ∀ {u : JobStore}, u.Current →
      (u.observations.map fun row => (row.evidence.erased, u.recordOf row)) =
        u.archive.evidence.map fun e => (e.erased, u.archive.jobOf e) := by
    intro u hu
    show _ = (u.observations.map _).map _
    rw [List.map_map]
    exact List.map_congr_left fun row hrow => by rw [hu.recordOf_eq hrow, Function.comp_apply]
  rw [hrows hsound.current, hrows hsound'.current]
  refine ⟨hsound.current.records hsound'.current hagrees, hagrees.perm fun e e' heq => ?_⟩
  rw [heq, hagrees.jobOf heq]

end JobStore

/-! ## A mark that is left behind -/

namespace Sample

def uuid (n : Nat) : String := String.ofList (List.replicate n 'x')

theorem uuid_injective : uuid.Injective := by
  intro n m h
  have hlists := congrArg String.toList h
  have hlength := congrArg List.length hlists
  simpa [uuid] using hlength

def delivery : Delivery := ⟨"fleet", ⟨"scope", "incarnation", 1⟩, 1, 20⟩

/-- A generation whose runner is named differently in the messages. -/
def store : JobStore where
  jobs := []
  observations := []
  identities := [⟨"generation", "scope", none⟩]
  generations := [⟨"generation", "runner-42", none⟩]
  drawn := 0

theorem store_untold : store.Untold := ⟨rfl, rfl, by decide⟩

/-- A request is available as a job. -/
def available (messageId : Int) (job : String) : Op :=
  .ingest delivery ⟨messageId, ⟨0, 0, 0, 0⟩, [⟨7, job, .empty⟩], [], [], []⟩

/-- The request started on the runner, under no job id. -/
def started : Op := .ingest delivery ⟨3, ⟨0, 0, 0, 0⟩, [], [], [⟨7, "", 42, "other", .empty⟩], []⟩

def early : List Op := [.register "generation" 42, available 1 "a", started, available 2 "b"]

def late : List Op := [.register "generation" 42, available 1 "a", available 2 "b", started]

def swapped : List Op := [.register "generation" 42, available 2 "b", available 1 "a", started]

def result (ops : List Op) : JobStore :=
  match ops.foldlM (JobStore.perform uuid) store with
  | .ok t => t
  | .error _ => store

theorem result_ok {ops : List Op} (h : (ops.foldlM (JobStore.perform uuid) store).isOk = true) :
    store.Performs uuid ops (result ops) := by
  obtain ⟨t, ht⟩ := exists_ok_of_isOk h
  unfold result
  rw [ht]
  exact ht

/-- The orders are accepted, and tell the same facts. -/
theorem orders :
    ((early.foldlM (JobStore.perform uuid) store).isOk = true ∧
      (late.foldlM (JobStore.perform uuid) store).isOk = true ∧
      (swapped.foldlM (JobStore.perform uuid) store).isOk = true) ∧
    (early.flatMap Op.facts).Perm (late.flatMap Op.facts) ∧
      (late.flatMap Op.facts).Perm (swapped.flatMap Op.facts) := by
  decide +kernel

theorem early_ok : store.Performs uuid early (result early) := result_ok orders.1.1

theorem late_ok : store.Performs uuid late (result late) := result_ok orders.1.2.1

theorem swapped_ok : store.Performs uuid swapped (result swapped) := result_ok orders.1.2.2

theorem same_facts : (early.flatMap Op.facts).Perm (late.flatMap Op.facts) := orders.2.1

theorem swapped_facts : (late.flatMap Op.facts).Perm (swapped.flatMap Op.facts) := orders.2.2

theorem same_runners (g : String × Int) :
    g ∈ early.flatMap Op.registered ↔ g ∈ late.flatMap Op.registered := Iff.rfl

end Sample

namespace JobStore

/-- The order in which facts arrive shows in a mark that a detached fact is left with. -/
theorem order_left_behind :
    ¬ ∀ (uuid : Nat → String) (s t t' : JobStore) (ops ops' : List Op), uuid.Injective → s.Untold →
      s.Performs uuid ops t → s.Performs uuid ops' t' →
      (ops.flatMap Op.facts).Perm (ops'.flatMap Op.facts) →
      (∀ g, g ∈ ops.flatMap Op.registered ↔ g ∈ ops'.flatMap Op.registered) → Alike t t' := by
  intro h
  have halike := h Sample.uuid Sample.store _ _ _ _ Sample.uuid_injective Sample.store_untold
    Sample.early_ok Sample.late_ok Sample.same_facts Sample.same_runners
  have hmarks := (halike.facts.map fun v => v.2.2).count_eq true
  revert hmarks
  decide +kernel

/-- The early start leaves a fact behind and the late one none, whichever job is named first. -/
theorem alike_iff_sample :
    ¬ Alike (Sample.result Sample.early) (Sample.result Sample.late) ∧
      Alike (Sample.result Sample.late) (Sample.result Sample.swapped) := by
  rw [alike_iff Sample.uuid_injective Sample.store_untold Sample.early_ok Sample.late_ok
    Sample.same_facts Sample.same_runners]
  rw [alike_iff Sample.uuid_injective Sample.store_untold Sample.late_ok Sample.swapped_ok
    Sample.swapped_facts fun _ => Iff.rfl]
  decide +kernel

end JobStore

end Jobs

end Shaula
