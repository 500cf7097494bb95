import Shaula.Jobs.Ingest
import Shaula.Jobs.Surrogate

/-! # The archive of facts

What the job tables are for, said of the set of facts they were told: which job a fact belongs to,
which generation an observation is evidence for, and what a job's facts amount to.  Nothing here
depends on the order in which the facts arrived, or on their surrogate fields.
-/

namespace Shaula

namespace Jobs

/-- A stored fact: its scope, the job it names (empty when it names none), and its observation. -/
structure Evidence where
  scope : String
  job : String
  observation : JobObservation
  deriving DecidableEq

def Evidence.erased (e : Evidence) : Evidence := { e with observation := e.observation.erased }

def Evidence.named (e : Evidence) : Option String := if e.job = "" then none else some e.job

/-- The facts, and the generations whose runners they may be about. -/
structure Archive where
  evidence : List Evidence
  identities : List IdentityRow
  generations : List RunnerRow

namespace Archive

variable (A : Archive)

/-! ## The job of a fact -/

/-- What facts about a request name. -/
def requestNames (scope : String) (request : Int) : List (Option String) :=
  (A.evidence.filter fun e => decide (e.scope = scope) &&
    decide (e.observation.runnerRequestId = request)).map (·.named)

/-- The job a fact belongs to: the one it names, or the one all facts of its request agree on. -/
def jobOf (e : Evidence) : Option String :=
  if e.job ≠ "" then some e.job
  else if e.observation.runnerRequestId > 0 then
    unique (A.requestNames e.scope e.observation.runnerRequestId)
  else none

/-- The facts that belong to a job. -/
def factsOf (scope job : String) : List Evidence :=
  A.evidence.filter fun e => decide (e.scope = scope) && decide (A.jobOf e = some job)

/-! ## The generation of an observation -/

def candidates (scope : String) (runner : Int) : List (String × String) :=
  (A.identities.filter fun i => i.scopeKey = scope ∧ i.githubRunnerId = some runner).filterMap
    fun i => (A.generations.find? fun g => g.id = i.generationId).map fun g =>
      (i.generationId, g.runnerName)

/-- What facts about a runner name. -/
def runnerNames (scope : String) (runner : Int) : List (Option String) :=
  (A.evidence.filter fun e => decide (e.scope = scope) &&
    decide (e.observation.runnerId = some runner)).map (·.named)

/-- Two of the names differ. -/
def disagree (names : List (Option String)) : Bool :=
  names.any fun name => names.any fun other => conflict name other

/-- The request is named by several jobs, and some fact about it names none. -/
def disputed (scope : String) (request : Int) : Bool :=
  decide (0 < request) && disagree (A.requestNames scope request) &&
    (A.requestNames scope request).any (·.isNone)

def associate (e : Evidence) : JobObservation :=
  match e.observation.runnerId with
  | none => e.observation.marked none .unverified
  | some runner =>
    match A.candidates e.scope runner with
    | [] => e.observation.marked none .unverified
    | (generation, name) :: others =>
      if others ≠ [] ∨ disagree (A.runnerNames e.scope runner) = true ∨
          e.observation.runnerName.any (· ≠ name) then
        e.observation.marked none .ambiguous
      else e.observation.marked (some generation) .verified

def resolve (e : Evidence) : JobObservation :=
  if A.disputed e.scope e.observation.runnerRequestId then
    (A.associate e).marked none .ambiguous
  else A.associate e

/-! ## What the facts of a job amount to -/

def projection (scope job : String) : JobProjection :=
  projectObservations ((A.factsOf scope job).map A.resolve)

/-- The association of a fact that belongs to a job: its own, unless the job is ambiguous. -/
def settled (scope job : String) (e : Evidence) : JobObservation :=
  if (A.projection scope job).associationStatus = .ambiguous then
    (A.resolve e).marked none .ambiguous
  else A.resolve e

/-! ## Agreement -/

/-- No two facts have the same surrogate id. -/
def Distinct : Prop := (A.evidence.map (·.observation.id)).Nodup

/-- The same facts up to their surrogate fields, and the same runners. -/
structure Agrees (A A' : Archive) : Prop where
  evidence : (A.evidence.map Evidence.erased).Perm (A'.evidence.map Evidence.erased)
  candidates : ∀ scope runner, A.candidates scope runner = A'.candidates scope runner

end Archive

/-- Lists with the same images can be paired off. -/
theorem exists_pairing {α β : Type} {f : α → β} {l l' : List α} (h : (l.map f).Perm (l'.map f)) :
    ∃ pairs : List (α × α), pairs.map Prod.fst = l ∧ (pairs.map Prod.snd).Perm l' ∧
      ∀ p ∈ pairs, f p.1 = f p.2 := by
  induction l generalizing l' with
  | nil =>
    have hnil : l' = [] := List.map_eq_nil_iff.mp (List.nil_perm.mp h)
    exact ⟨[], rfl, by rw [hnil]; exact .refl _, nofun⟩
  | cons a l ih =>
    have hmem : f a ∈ l'.map f := h.subset List.mem_cons_self
    obtain ⟨b, hb, hfb⟩ := List.mem_map.mp hmem
    obtain ⟨before, after, rfl⟩ := List.append_of_mem hb
    have hmiddle : ((before ++ b :: after).map f).Perm (f a :: (before ++ after).map f) := by
      rw [← hfb]
      exact (List.perm_middle.map f)
    have hrest : (l.map f).Perm ((before ++ after).map f) :=
      (List.perm_cons (f a)).mp (h.trans hmiddle)
    obtain ⟨pairs, hfst, hsnd, hpairs⟩ := ih hrest
    refine ⟨(a, b) :: pairs, by rw [List.map_cons, hfst], ?_, ?_⟩
    · exact (hsnd.cons b).trans List.perm_middle.symm
    · intro p hp
      rcases List.mem_cons.mp hp with rfl | hp
      · exact hfb.symm
      · exact hpairs p hp

theorem Evidence.erased_eq {e e' : Evidence} (h : e.erased = e'.erased) :
    e.scope = e'.scope ∧ e.job = e'.job ∧ e.observation.erased = e'.observation.erased := by
  simp only [Evidence.erased, Evidence.mk.injEq] at h
  exact h

@[simp] theorem JobObservation.marked_erased (o : JobObservation) (generation : Option String)
    (status : AssociationStatus) :
    (o.marked generation status).erased = o.erased.marked generation status := rfl

@[simp] theorem JobObservation.marked_marked (o : JobObservation)
    (generation generation' : Option String) (status status' : AssociationStatus) :
    (o.marked generation status).marked generation' status' = o.marked generation' status' := rfl

@[simp] theorem JobObservation.marked_id (o : JobObservation) (generation : Option String)
    (status : AssociationStatus) : (o.marked generation status).id = o.id := rfl

namespace Archive

/-- The association of an observation shows in its mark alone. -/
theorem associate_marked (A : Archive) (e : Evidence) :
    ∃ generation status, A.associate e = e.observation.marked generation status := by
  unfold associate
  split
  · exact ⟨_, _, rfl⟩
  · split
    · exact ⟨_, _, rfl⟩
    · split <;> exact ⟨_, _, rfl⟩

theorem resolve_marked (A : Archive) (e : Evidence) :
    ∃ generation status, A.resolve e = e.observation.marked generation status := by
  obtain ⟨generation, status, h⟩ := A.associate_marked e
  unfold resolve
  split
  · exact ⟨none, .ambiguous, by rw [h, JobObservation.marked_marked]⟩
  · exact ⟨generation, status, h⟩

theorem resolve_id (A : Archive) (e : Evidence) : (A.resolve e).id = e.observation.id := by
  obtain ⟨generation, status, h⟩ := A.resolve_marked e
  rw [h, JobObservation.marked_id]

/-! ## Archives of the same facts -/

namespace Agrees

variable {A A' : Archive} {e e' : Evidence}

theorem symm (h : A.Agrees A') : A'.Agrees A :=
  ⟨h.evidence.symm, fun scope runner => (h.candidates scope runner).symm⟩

/-- A selection that does not see the surrogate fields names the same in both. -/
theorem names (h : A.Agrees A') {test : Evidence → Bool}
    (htest : ∀ e e' : Evidence, e.erased = e'.erased → test e = test e') (name : Option String) :
    name ∈ (A.evidence.filter test).map (·.named) ↔
      name ∈ (A'.evidence.filter test).map (·.named) := by
  have hone : ∀ {B B' : Archive}, B.Agrees B' →
      name ∈ (B.evidence.filter test).map (·.named) →
        name ∈ (B'.evidence.filter test).map (·.named) := by
    intro B B' hagree hname
    obtain ⟨e, he, rfl⟩ := List.mem_map.mp hname
    obtain ⟨he, hpass⟩ := List.mem_filter.mp he
    have hmem : e.erased ∈ B'.evidence.map Evidence.erased :=
      hagree.evidence.subset (List.mem_map_of_mem he)
    obtain ⟨e', he', herased⟩ := List.mem_map.mp hmem
    refine List.mem_map.mpr ⟨e', List.mem_filter.mpr ⟨he', ?_⟩, ?_⟩
    · rw [htest e' e herased]
      exact hpass
    · simp only [Evidence.named, (Evidence.erased_eq herased).2.1]
  exact ⟨hone h, hone h.symm⟩

theorem fields (he : e.erased = e'.erased) :
    e.observation.runnerRequestId = e'.observation.runnerRequestId ∧
      e.observation.runnerId = e'.observation.runnerId ∧
        e.observation.runnerName = e'.observation.runnerName := by
  have h := (Evidence.erased_eq he).2.2
  have hrequest := congrArg JobObservation.runnerRequestId h
  have hrunner := congrArg JobObservation.runnerId h
  have hname := congrArg JobObservation.runnerName h
  exact ⟨hrequest, hrunner, hname⟩

theorem requestNames (h : A.Agrees A') (scope : String) (request : Int) (name : Option String) :
    name ∈ A.requestNames scope request ↔ name ∈ A'.requestNames scope request := by
  apply h.names
  intro e e' he
  rw [(Evidence.erased_eq he).1, (fields he).1]

theorem runnerNames (h : A.Agrees A') (scope : String) (runner : Int) (name : Option String) :
    name ∈ A.runnerNames scope runner ↔ name ∈ A'.runnerNames scope runner := by
  apply h.names
  intro e e' he
  rw [(Evidence.erased_eq he).1, (fields he).2.1]

theorem disagree {names names' : List (Option String)} (h : ∀ name, name ∈ names ↔ name ∈ names') :
    Archive.disagree names = Archive.disagree names' := by
  apply any_congr h
  intro name _
  exact any_congr h fun _ _ => rfl

theorem jobOf (h : A.Agrees A') (he : e.erased = e'.erased) : A.jobOf e = A'.jobOf e' := by
  obtain ⟨hscope, hjob, -⟩ := Evidence.erased_eq he
  obtain ⟨hrequest, -⟩ := fields he
  simp only [Archive.jobOf, hscope, hjob, hrequest,
    unique_congr (h.requestNames e'.scope e'.observation.runnerRequestId)]

theorem disputed (h : A.Agrees A') (scope : String) (request : Int) :
    A.disputed scope request = A'.disputed scope request := by
  have hnames := h.requestNames scope request
  have hnone := any_congr (p := fun name => name.isNone) (q := fun name => name.isNone) hnames
    fun _ _ => rfl
  simp only [Archive.disputed, disagree hnames, hnone]

theorem associate (h : A.Agrees A') (he : e.erased = e'.erased) :
    (A.associate e).erased = (A'.associate e').erased := by
  obtain ⟨hscope, -, hobservation⟩ := Evidence.erased_eq he
  obtain ⟨-, hrunner, hname⟩ := fields he
  simp only [Archive.associate, hscope, hrunner, hname]
  cases e'.observation.runnerId with
  | none => simp only [JobObservation.marked_erased, hobservation]
  | some runner =>
    simp only [h.candidates, disagree (h.runnerNames e'.scope runner)]
    cases A'.candidates e'.scope runner with
    | nil => simp only [JobObservation.marked_erased, hobservation]
    | cons candidate others =>
      simp only [apply_ite JobObservation.erased, JobObservation.marked_erased, hobservation]

theorem resolve (h : A.Agrees A') (he : e.erased = e'.erased) :
    (A.resolve e).erased = (A'.resolve e').erased := by
  obtain ⟨hscope, -⟩ := Evidence.erased_eq he
  obtain ⟨hrequest, -⟩ := fields he
  simp only [Archive.resolve, hscope, hrequest, h.disputed, apply_ite JobObservation.erased,
    JobObservation.marked_erased, h.associate he]

/-- Archives of the same facts project every job alike. -/
theorem projection (h : A.Agrees A') (hA : A.Distinct) (hA' : A'.Distinct) (scope job : String) :
    A.projection scope job = A'.projection scope job := by
  obtain ⟨pairs, hfst, hsnd, hpairs⟩ := exists_pairing h.evidence
  let belongs (p : Evidence × Evidence) : Bool :=
    decide (p.1.scope = scope) && decide (A.jobOf p.1 = some job)
  have hleft : A.factsOf scope job = (pairs.filter belongs).map Prod.fst := by
    rw [Archive.factsOf, ← hfst, List.filter_map]
    rfl
  have hright : (A'.factsOf scope job).Perm ((pairs.filter belongs).map Prod.snd) := by
    have hfilter : (pairs.map Prod.snd).filter (fun e => decide (e.scope = scope) &&
        decide (A'.jobOf e = some job)) = (pairs.filter belongs).map Prod.snd := by
      rw [List.filter_map, List.filter_congr (q := belongs)]
      intro p hp
      have he := hpairs p hp
      simp only [belongs, Function.comp_apply, (Evidence.erased_eq he).1, h.jobOf he]
    rw [← hfilter]
    exact hsnd.symm.filter _
  have hids : (pairs.map fun p => p.1.observation.id).Nodup := by
    have := hA
    rw [Archive.Distinct, ← hfst, List.map_map] at this
    exact this
  have hids' : (pairs.map fun p => p.2.observation.id).Nodup := by
    have := (hsnd.map fun e : Evidence => e.observation.id).nodup_iff.mpr hA'
    rw [List.map_map] at this
    exact this
  have hpaired : Paired ((pairs.filter belongs).map fun p => (A.resolve p.1, A'.resolve p.2)) := by
    constructor
    · intro q hq
      obtain ⟨p, hp, rfl⟩ := List.mem_map.mp hq
      exact h.resolve (hpairs p (List.mem_filter.mp hp).1)
    · intro q hq q' hq'
      obtain ⟨p, hp, rfl⟩ := List.mem_map.mp hq
      obtain ⟨p', hp', rfl⟩ := List.mem_map.mp hq'
      have hp := (List.mem_filter.mp hp).1
      have hp' := (List.mem_filter.mp hp').1
      constructor
      · intro heq
        have hid := congrArg JobObservation.id heq
        simp only [resolve_id] at hid
        rw [List.inj_on_of_nodup_map hids hp hp' hid]
      · intro heq
        have hid := congrArg JobObservation.id heq
        simp only [resolve_id] at hid
        rw [List.inj_on_of_nodup_map hids' hp hp' hid]
  have hproject := hpaired.projectObservations
  rw [List.map_map, List.map_map] at hproject
  rw [Archive.projection, Archive.projection, hleft, List.map_map]
  refine Eq.trans hproject (projectObservations_congr fun o => ?_)
  have hperm := hright.symm.map A'.resolve
  rw [List.map_map] at hperm
  exact hperm.mem_iff

theorem settled (h : A.Agrees A') (hA : A.Distinct) (hA' : A'.Distinct) (scope job : String)
    (he : e.erased = e'.erased) :
    (A.settled scope job e).erased = (A'.settled scope job e').erased := by
  simp only [Archive.settled, h.projection hA hA', apply_ite JobObservation.erased,
    JobObservation.marked_erased, h.resolve he]

end Agrees

end Archive

end Jobs

end Shaula
