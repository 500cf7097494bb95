import Shaula.RunnerOperation.Checkpoints
import Shaula.RunnerOperation.Lifetime

/-! # What a runner operation knows

The facts a call establishes about its generation stay true while the call runs.  For each effect:
when it may be performed, and which facts its answer adds.
-/

namespace Shaula

open Core Library Library.Outcome

namespace Store

variable {s s' : Store} {id : Uuid}

/-- Whether a Create is open depends on the Create operations alone. -/
theorem openOperations_any (s : Store) (id : Uuid) :
    (s.openOperations id).any (fun operation => operation.kind == "Create") =
      (s.createOperations id).any fun operation => decide (operation.state ∈ openOperationStates) := by
  simp only [openOperations, createOperations, List.any_filter]
  congr 1
  funext operation
  cases operation.generationId == id <;> cases operation.kind == "Create" <;>
    cases decide (operation.state ∈ openOperationStates) <;> rfl

/-- A requested expiry is recorded, of a generation that is not quarantined. -/
theorem generationRequestExpiry_ok {now : Int} {b : Bool}
    (h : s.generationRequestExpiry id now = .ok (s', b)) :
    s'.operations = s.operations ∧ ∃ g g', (s.view id).generation = some g ∧
      (s'.view id).generation = some g' ∧ g'.state = g.state ∧
      g'.resourcesDestroyedAt = g.resourcesDestroyedAt ∧
      (g.expiryRequestedAt ≠ none → g'.expiryRequestedAt ≠ none) ∧
      (b = true → g'.expiryRequestedAt ≠ none ∧ g.state ≠ .quarantined) := by
  simp only [generationRequestExpiry, bind_eq_ok, okOr_eq_ok] at h
  obtain ⟨g, hg, h⟩ := h
  have hg : (s.view id).generation = some g := hg
  split at h
  · cases pure_eq_ok.mp h
    exact ⟨rfl, g, g, hg, hg, rfl, rfl, fun h => h, fun h => by cases h⟩
  · next hlive =>
    have hnot : g.state ≠ .quarantined := fun h => hlive (.inr (.inr (.inl h)))
    split at h
    · cases pure_eq_ok.mp h
      refine ⟨rfl, g, { g with expiryRequestedAt := some now }, hg, ?_, rfl, rfl, ?_, ?_⟩
      · rw [view_setGeneration, hg]
        simp
      · exact fun _ => Option.some_ne_none _
      · exact fun _ => ⟨Option.some_ne_none _, hnot⟩
    · next hrequested =>
      cases pure_eq_ok.mp h
      exact ⟨rfl, g, g, hg, hg, rfl, rfl, fun h => h, fun _ => ⟨hrequested, hnot⟩⟩

theorem generationResourcesDestroyed_ok {now : Int}
    (h : s.generationResourcesDestroyed id now = .ok s') :
    s'.operations = s.operations ∧ ∃ g g', (s.view id).generation = some g ∧
      (s'.view id).generation = some g' ∧ g'.state = g.state ∧
      g'.expiryRequestedAt = g.expiryRequestedAt := by
  simp only [generationResourcesDestroyed, bind_eq_ok, okOr_eq_ok] at h
  obtain ⟨g, hg, _, -, h⟩ := h
  have hg : (s.view id).generation = some g := hg
  split at h
  · cases pure_eq_ok.mp h
    refine ⟨rfl, g, { g with resourcesDestroyedAt := some now }, hg, ?_, rfl, rfl⟩
    rw [view_setGeneration, hg]
    simp
  · cases pure_eq_ok.mp h
    exact ⟨rfl, g, g, hg, hg, rfl, rfl⟩

end Store

namespace RunnerOperation

variable {P : Platform} {id : Uuid}

/-! ## Calls -/

inductive Call where
  | retire (generation : GenerationRecord) (now : Int)
  | expire (generation : GenerationRecord) (now : Int)

def Call.generation : Call → GenerationRecord
  | retire generation _ | expire generation _ => generation

def Call.body (self : RunnerOperation) : Call → Routine DestroyOutcome
  | retire generation now => self.retire generation now
  | expire generation now => self.expire generation now

/-- Where an operation may be performed: resources are destroyed only of a generation that is not
quarantined, after its registration is gone or its expiry was requested, in a retirement the
former; and a generation is called destroyed only when it is not quarantined and, if its Create
started, after both removals. -/
def Allowed (id : Uuid) (c : Call) (w : World) : Operation → Prop
  | .runtimeDestroy _ => ¬ w.Quarantined id ∧ (w.Gone ∨ w.Expiring id) ∧
      ∀ generation now, c = .retire generation now → w.Gone
  | .generationAdvance _ .destroyed _ => ¬ w.Quarantined id ∧
      (w.CreateStarted id → w.Gone ∧ w.Cleaned)
  | _ => True

/-! ## Facts -/

/-- The invariant of the world: a generation descends only once its registration is gone or its
expiry was requested, and its resources are recorded as destroyed only after they were. -/
structure World.Sound (id : Uuid) (w : World) : Prop where
  descending : ∀ g, w.generation id = some g → Descending g.state → w.Expiring id ∨ w.Gone
  cleaned : ∀ g, w.generation id = some g → g.resourcesDestroyedAt ≠ none → w.Cleaned

/-- Which facts a call has established. -/
structure Known where
  gone : Prop := False
  expiring : Prop := False
  cleaned : Prop := False
  live : Prop := False
  unstarted : Prop := False
  descending : Prop := False

/-- The world is sound and the known facts hold of it. -/
structure Holds (id : Uuid) (k : Known) (w : World) : Prop where
  sound : w.Sound id
  gone : k.gone → w.Gone
  expiring : k.expiring → w.Expiring id
  cleaned : k.cleaned → w.Cleaned
  live : k.live → ¬ w.Quarantined id
  unstarted : k.unstarted → ¬ w.CreateStarted id
  descending : k.descending → ∃ g, w.generation id = some g ∧ Descending g.state

theorem Holds.weaken {k k' : Known} {w : World} (h : Holds id k w) (hgone : k'.gone → k.gone)
    (hexpiring : k'.expiring → k.expiring) (hcleaned : k'.cleaned → k.cleaned)
    (hlive : k'.live → k.live) (hunstarted : k'.unstarted → k.unstarted)
    (hdescending : k'.descending → k.descending) : Holds id k' w :=
  ⟨h.sound, h.gone ∘ hgone, h.expiring ∘ hexpiring, h.cleaned ∘ hcleaned, h.live ∘ hlive,
    h.unstarted ∘ hunstarted, h.descending ∘ hdescending⟩

/-- Facts rest on the row, the Create operations and the history. -/
theorem World.createStarted_congr {w w' : World}
    (h : w'.store.createOperations id = w.store.createOperations id) :
    w'.CreateStarted id ↔ w.CreateStarted id := by
  simp only [CreateStarted, Store.openOperations_any, Store.originalProvenance, h]

/-- One row became another, or there is none. -/
def Rows (id : Uuid) (w w' : World) (R : GenerationRow → GenerationRow → Prop) : Prop :=
  (w.generation id = none ∧ w'.generation id = none) ∨
    ∃ g g', w.generation id = some g ∧ w'.generation id = some g' ∧ R g g'

/-- Facts after a step that keeps a requested expiry, marks no destroyed resources unless they
were, and descends only where it may. -/
theorem Holds.step {k : Known} {w w' : World} {R : GenerationRow → GenerationRow → Prop}
    (h : Holds id k w) (hrows : Rows id w w' R) (hhistory : w.history ⊆ w'.history)
    (hcreates : w'.store.createOperations id = w.store.createOperations id)
    (hexpiry : ∀ g g', R g g' → g.expiryRequestedAt ≠ none → g'.expiryRequestedAt ≠ none)
    (hresources : ∀ g g', R g g' → g'.resourcesDestroyedAt ≠ none →
      g.resourcesDestroyedAt ≠ none ∨ k.cleaned)
    (hdescends : ∀ g g', R g g' → Descending g'.state →
      Descending g.state ∨ k.gone ∨ k.expiring)
    {k' : Known} (hgone : k'.gone → k.gone) (hexpiring : k'.expiring → k.expiring)
    (hcleaned : k'.cleaned → k.cleaned)
    (hlive : k'.live → k.live ∧ ∀ g g', R g g' → g'.state = .quarantined → g.state = .quarantined)
    (hunstarted : k'.unstarted → k.unstarted)
    (hdescending : k'.descending → k.descending ∧
      ∀ g g', R g g' → Descending g.state → Descending g'.state) : Holds id k' w' := by
  have hexpiring' : w.Expiring id → w'.Expiring id := by
    rintro ⟨g, hg, hrequested⟩
    rcases hrows with ⟨hnone, -⟩ | ⟨g₁, g', hg₁, hg', hR⟩
    · cases hnone.symm.trans hg
    · cases hg₁.symm.trans hg
      exact ⟨g', hg', hexpiry _ _ hR hrequested⟩
  refine ⟨⟨fun g' hg' hdesc => ?_, fun g' hg' hdone => ?_⟩, fun hk => hhistory (h.gone (hgone hk)),
    fun hk => hexpiring' (h.expiring (hexpiring hk)),
    fun hk => hhistory (h.cleaned (hcleaned hk)), fun hk => ?_, fun hk => ?_, fun hk => ?_⟩
  · rcases hrows with ⟨-, hnone⟩ | ⟨g, g₁, hg, hg₁, hR⟩
    · cases hnone.symm.trans hg'
    · cases hg₁.symm.trans hg'
      rcases hdescends _ _ hR hdesc with hbefore | hk | hk
      · exact (h.sound.descending g hg hbefore).imp hexpiring' fun h => hhistory h
      · exact .inr (hhistory (h.gone hk))
      · exact .inl (hexpiring' (h.expiring hk))
  · rcases hrows with ⟨-, hnone⟩ | ⟨g, g₁, hg, hg₁, hR⟩
    · cases hnone.symm.trans hg'
    · cases hg₁.symm.trans hg'
      rcases hresources _ _ hR hdone with hbefore | hk
      · exact hhistory (h.sound.cleaned g hg hbefore)
      · exact hhistory (h.cleaned hk)
  · rintro ⟨g', hg', hquarantined⟩
    obtain ⟨hk, hkeep⟩ := hlive hk
    rcases hrows with ⟨-, hnone⟩ | ⟨g, g₁, hg, hg₁, hR⟩
    · cases hnone.symm.trans hg'
    · cases hg₁.symm.trans hg'
      exact h.live hk ⟨g, hg, hkeep _ _ hR hquarantined⟩
  · rw [World.createStarted_congr hcreates]
    exact h.unstarted (hunstarted hk)
  · obtain ⟨hk, hkeep⟩ := hdescending hk
    obtain ⟨g, hg, hdesc⟩ := h.descending hk
    rcases hrows with ⟨hnone, -⟩ | ⟨g₁, g', hg₁, hg', hR⟩
    · cases hnone.symm.trans hg
    · cases hg₁.symm.trans hg
      exact ⟨g', hg', hkeep _ _ hR hdesc⟩

/-! ## Other steps -/

/-- What a step beside a call does to its generation's row. -/
def Served (g g' : GenerationRow) : Prop :=
  g'.lifetime = g.lifetime ∧ (g'.state = g.state ∨
    g.state ∈ [.waitingOnline, .idle, .busy] ∧ g'.state ∈ [.busy, .retiring])

theorem Served.refl (g : GenerationRow) : Served g g := ⟨rfl, .inl rfl⟩

theorem Served.of_change {fleet : String} {started completed : List RunnerEvent} {now : Int}
    {v v' : View} (h : Change P id (.listenerActivity fleet started completed now) v v') :
    (v.generation = none ∧ v'.generation = none) ∨
      ∃ g g', v.generation = some g ∧ v'.generation = some g' ∧ Served g g' := by
  cases h with
  | same =>
    cases hg : v.generation with
    | none => exact .inl ⟨rfl, rfl⟩
    | some g => exact .inr ⟨g, g, rfl, rfl, .refl g⟩
  | activity hg => exact .inr ⟨_, _, hg, rfl, activityRow_checkpoints _ _ _ _ _⟩
  | generationInserted hr | createStarting hr | destroyStarting hr | released hr | quarantined hr
  | replaced hr | completed hr => cases hr

theorem Beside.rows {w w' : World} (h : Beside P id w w') : Rows id w w' Served := by
  obtain ⟨l, τ, hstep, rfl, hrow, -⟩ := h
  have hsame : (τ.view id).generation = (w.system.view id).generation →
      Rows id w { w with system := τ } Served := by
    intro hsame
    cases hg : (w.system.view id).generation with
    | none => exact .inl ⟨hg, hsame.trans hg⟩
    | some g => exact .inr ⟨g, g, hg, hsame.trans hg, .refl g⟩
  rcases hrow with hrow | ⟨fleet, started, completed, now, hlistener⟩
  · exact hsame hrow
  · rcases hstep.change id with hview | ⟨r, hr, -, hchange⟩
    · exact hsame (congrArg View.generation hview)
    · cases hr.symm.trans hlistener
      exact Served.of_change hchange

theorem Served.quarantined {g g' : GenerationRow} (h : Served g g')
    (hq : g'.state = .quarantined) : g.state = .quarantined := by
  rcases h.2 with heq | ⟨-, hto⟩
  · exact heq ▸ hq
  · simp [hq] at hto

theorem Served.descending {g g' : GenerationRow} (h : Served g g') :
    Descending g'.state ↔ Descending g.state := by
  rcases h.2 with heq | ⟨hfrom, hto⟩
  · rw [heq]
  · simp only [List.mem_cons, List.not_mem_nil, or_false] at hfrom hto
    constructor <;> rintro (hs | hs) <;> simp_all

theorem expiry_of_lifetime {g g' : GenerationRow} (h : g'.lifetime = g.lifetime) :
    g'.expiryRequestedAt = g.expiryRequestedAt :=
  congrArg RunnerLifetime.expiryRequestedAt h

theorem resources_of_lifetime {g g' : GenerationRow} (h : g'.lifetime = g.lifetime) :
    g'.resourcesDestroyedAt = g.resourcesDestroyedAt :=
  congrArg RunnerLifetime.resourcesDestroyedAt h

/-- What a call knows stays true while it runs. -/
theorem Holds.stable {k : Known} : (machine P id).Stable (Holds id k) := by
  intro w w' h hbeside
  have hrows := Beside.rows hbeside
  obtain ⟨l, τ, -, rfl, -, hcreates⟩ := hbeside
  exact h.step hrows (fun _ he => he) hcreates (fun _ _ hR hne => expiry_of_lifetime hR.1 ▸ hne)
    (fun _ _ hR hne => .inl (resources_of_lifetime hR.1 ▸ hne)) (fun _ _ hR hdesc => .inl (hR.descending.mp hdesc))
    (fun h => h) (fun h => h) (fun h => h) (fun h => ⟨h, fun _ _ hR => hR.quarantined⟩)
    (fun h => h) (fun h => ⟨h, fun _ _ hR => hR.descending.mpr⟩)

/-- What the replacement of its worker does to a generation's row. -/
def Replaced (g g' : GenerationRow) : Prop :=
  g'.lifetime = g.lifetime ∧ (g'.state = .quarantined ∨ g'.state = replacedState g.state)

theorem Replaced.of_change {access : ControlAccess} {draw : Draw} {v v' : View}
    (h : Change P id (.replaceFenced access draw) v v') :
    (v'.generation = v.generation) ∨
      ∃ g g', v.generation = some g ∧ v'.generation = some g' ∧ Replaced g g' := by
  cases h with
  | same | released => exact .inl rfl
  | quarantined _ _ _ _ hg => exact .inr ⟨_, _, hg, rfl, rfl, .inl rfl⟩
  | replaced _ _ _ _ hg _ _ _ _ _ hanchored =>
    cases hanchored with
    | kept | anchored => exact .inr ⟨_, _, hg, rfl, rfl, .inr rfl⟩
  | generationInserted hr | createStarting hr | destroyStarting hr | completed hr => cases hr

theorem Replaces.rows {w w' : World} {answer : Except TemplateOutcomeError Unit}
    (h : Replaces P id w answer w') : Rows id w w' fun g g' => (g' = g ∨ Replaced g g') ∧
      (answer = .ok () → g'.state ≠ .quarantined) := by
  obtain ⟨access, draw, -, -, hw', -, hok⟩ := h
  have hchange := w.system.daemon.exec_change (P := P) (.replaceFenced access draw) id
  have hlive : ∀ g', w'.generation id = some g' → answer = .ok () → g'.state ≠ .quarantined :=
    fun g' hg' hanswer hq => hok hanswer ⟨g', hg', hq⟩
  subst hw'
  rcases Replaced.of_change hchange with hsame | ⟨g, g', hg, hg', hreplaced⟩
  · cases hg : w.generation id with
    | none => exact .inl ⟨hg, hsame.trans hg⟩
    | some g => exact .inr ⟨g, g, hg, hsame.trans hg, .inl rfl, hlive g (hsame.trans hg)⟩
  · exact .inr ⟨g, g', hg, hg', .inr hreplaced, hlive g' hg'⟩

/-- Between calls nobody else sends the generation down or records its resources as destroyed. -/
theorem Between.sound {w w' : World} (h : w.Sound id) (hbetween : Between P id w w') :
    w'.Sound id := by
  obtain ⟨l, τ, hstep, rfl, hretires⟩ := hbetween
  rcases hstep.change id with hview | ⟨r, hr, -, hchange⟩
  · have hsame : (τ.view id).generation = (w.system.view id).generation :=
      congrArg View.generation hview
    refine ⟨fun g hg hdesc => ?_, fun g hg => h.cleaned g (hsame.symm.trans hg)⟩
    refine (h.descending g (hsame.symm.trans hg) hdesc).imp (fun ⟨g₁, hg₁, hne⟩ => ?_) fun h => h
    exact ⟨g₁, hsame.trans hg₁, hne⟩
  · refine ⟨fun g' hg' hdesc => ?_, fun g' hg' hdone => ?_⟩
    · rcases hchange.checkpoints hg' with ⟨-, -, hnot⟩ | ⟨g, hg, hkept⟩
      · exact absurd hdesc hnot
      · rcases hkept.descending hdesc with hbefore | ⟨requestId, now, rfl⟩
        · refine (h.descending g hg hbefore).imp (fun ⟨g₁, hg₁, hne⟩ => ?_) fun h => h
          cases hg.symm.trans hg₁
          exact ⟨g', hg', hkept.expiry hne⟩
        · exact absurd (.advance hdesc) (hretires _ hr)
    · rcases hchange.checkpoints hg' with ⟨-, hnone, -⟩ | ⟨g, hg, hkept⟩
      · exact absurd hnone hdone
      · rcases hkept.resources hdone with hbefore | ⟨now, rfl⟩
        · exact h.cleaned g hg hbefore
        · exact absurd .resources (hretires _ hr)

/-! ## Effects -/

section Specs

variable (P) (id) (c : Call)

/-- The program is safe from every world with `A`, and returns with `B`. -/
abbrev Meets {α : Type} (A : World → Prop) (p : Routine α) (B : α → World → Prop) : Prop :=
  Spec (machine P id) (World.Sound id) (Allowed id c) A p B

end Specs

variable {c : Call} {k : Known}

/-- Facts rest on the system and the history, and more history never hurts. -/
theorem Holds.of_same {w w' : World} (h : Holds id k w) (hsystem : w'.system = w.system)
    (hhistory : w.history ⊆ w'.history) : Holds id k w' := by
  obtain ⟨system, backoff, history⟩ := w'
  cases hsystem
  exact ⟨⟨fun g hg hdesc => (h.sound.descending g hg hdesc).imp (fun h => h) fun h => hhistory h,
      fun g hg hdone => hhistory (h.sound.cleaned g hg hdone)⟩,
    fun hk => hhistory (h.gone hk), h.expiring, fun hk => hhistory (h.cleaned hk), h.live,
    h.unstarted, h.descending⟩

theorem Holds.noted {w : World} {events : List Event} (h : Holds id k w) :
    Holds id k { w with history := events ++ w.history } :=
  h.of_same rfl (List.subset_append_right _ _)

/-- An effect that leaves the ledger alone is allowed where the call may perform it, and adds the
facts its answer shows. -/
theorem meets_ask {op : Operation} {k' : op.Answer → Known}
    (hok : ∀ w, Holds id k w → Allowed id c w op)
    (hsound : ∀ w a w', Holds id k w → Effect P w op a w' → w'.Sound id)
    (hanswer : ∀ w a w', Holds id k w → Effect P w op a w' →
      Holds id (k' a) { w' with history := noted op a ++ w'.history }) :
    Meets P id c (Holds id k) (ask op) fun a => Holds id (k' a) := by
  refine Spec.lift Holds.stable hok ?_ ?_
  · rintro w w' h (rfl | ⟨a, hact⟩)
    · exact h.sound
    · exact hsound w a w' h hact
  · rintro w a w' h ⟨w₁, hact, rfl⟩
    have hafter := hanswer w a w₁ h hact
    exact ⟨hafter.sound, hafter⟩

/-- A question that changes nothing and tells nothing. -/
theorem meets_read (op : Operation) (hok : ∀ w, Allowed id c w op)
    (heffect : ∀ w a w', Effect P w op a w' → w'.system = w.system ∧ w'.history = w.history)
    (hnoted : ∀ a, noted op a = []) :
    Meets P id c (Holds id k) (ask op) fun _ => Holds id k := by
  have hsame : ∀ w a w', Holds id k w → Effect P w op a w' → Holds id k w' := by
    intro w a w' h hact
    obtain ⟨hsystem, hhistory⟩ := heffect w a w' hact
    exact h.of_same hsystem (by rw [hhistory]; exact List.Subset.refl _)
  refine meets_ask (fun w _ => hok w) (fun w a w' h hact => (hsame w a w' h hact).sound)
    fun w a w' h hact => ?_
  rw [hnoted a]
  exact hsame w a w' h hact

/-- A question to the registrations, whose answer is noted. -/
theorem meets_question (op : Operation) (verdict : op.Answer → Registration)
    (hok : ∀ w, Allowed id c w op) (heffect : ∀ w a w', Effect P w op a w' → w' = w)
    (hnoted : ∀ a, noted op a = [.answered (verdict a)]) :
    Meets P id c (Holds id k) (ask op) fun a =>
      Holds id { k with gone := k.gone ∨ verdict a = .gone } := by
  refine meets_ask (fun w _ => hok w) (fun w a w' h hact => heffect w a w' hact ▸ h.sound)
    fun w a w' h hact => ?_
  cases heffect w a w' hact
  refine { h.noted with gone := fun hk => ?_ }
  rcases hk with hk | hgone
  · exact h.noted.gone hk
  · rw [hnoted, hgone]
    exact List.mem_append_left _ (List.mem_singleton_self _)

theorem meets_admitRemoval {generation : GenerationRecord} {started : Bool} :
    Meets P id c (Holds id k) (ask (.admitRemoval generation started)) fun verdict =>
      Holds id { k with gone := k.gone ∨ verdict = Registration.gone } :=
  meets_question (.admitRemoval generation started) (fun verdict => verdict) (fun _ => trivial)
    (fun _ _ _ h => h) fun _ => rfl

theorem meets_remove {generation : GenerationRecord} {gate : RemovalGate} :
    Meets P id c (Holds id k) (ask (.remove generation gate)) fun verdict =>
      Holds id { k with gone := k.gone ∨ verdict = Registration.gone } :=
  meets_question (.remove generation gate) (fun verdict => verdict) (fun _ => trivial)
    (fun _ _ _ h => h) fun _ => rfl

theorem meets_proveUnrecordedAbsent {generation : GenerationRecord} :
    Meets P id c (Holds id k) (ask (.proveUnrecordedAbsent generation)) fun verdict =>
      Holds id { k with gone := k.gone ∨ verdict = Registration.gone } :=
  meets_question (.proveUnrecordedAbsent generation) (fun verdict => verdict) (fun _ => trivial)
    (fun _ _ _ h => h) fun _ => rfl

theorem Replaced.destroyed {g g' : GenerationRow} (h : Replaced g g') (hd : g'.state = .destroyed) :
    g.state = .destroyed := by
  rcases h.2 with hquarantined | hstate
  · cases hd.symm.trans hquarantined
  · rw [hstate] at hd
    cases hg : g.state <;> simp_all [replacedState]

/-- A replacement that does not quarantine leaves a descending generation where it is. -/
theorem Replaced.descending {g g' : GenerationRow} (h : g' = g ∨ Replaced g g') :
    (Descending g'.state → Descending g.state) ∧
      (g'.state ≠ .quarantined → (Descending g.state → Descending g'.state)) := by
  rcases h with rfl | ⟨-, hquarantined | hstate⟩
  · exact ⟨fun h => h, fun _ h => h⟩
  · refine ⟨fun hdesc => ?_, fun hlive => absurd hquarantined hlive⟩
    rw [hquarantined] at hdesc
    rcases hdesc with hdesc | hdesc <;> cases hdesc
  · rw [hstate]
    cases g.state <;> simp [replacedState, Descending]

/-- What a call knows when the runtime has replaced a worker. -/
theorem Holds.replaced {w w' : World} {answer : Except TemplateOutcomeError Unit} (h : Holds id k w)
    (hreplaces : Replaces P id w answer w') :
    Holds id { k with
      live := k.live ∧ answer = .ok ()
      descending := k.descending ∧ answer = .ok () } w' := by
  have hrows := hreplaces.rows
  obtain ⟨access, draw, -, -, rfl, hcreates, -⟩ := hreplaces
  have hlifetime : ∀ {g g' : GenerationRow}, g' = g ∨ Replaced g g' → g'.lifetime = g.lifetime := by
    rintro g g' (rfl | hreplaced)
    · rfl
    · exact hreplaced.1
  refine h.step hrows (fun _ he => he) hcreates
    (fun _ _ hR hne => expiry_of_lifetime (hlifetime hR.1) ▸ hne)
    (fun _ _ hR hne => .inl (resources_of_lifetime (hlifetime hR.1) ▸ hne))
    (fun _ _ hR hdesc => .inl ((Replaced.descending hR.1).1 hdesc)) (fun h => h) (fun h => h)
    (fun h => h) (fun hk => ⟨hk.1, fun _ _ hR hq => absurd hq (hR.2 hk.2)⟩) (fun h => h)
    fun hk => ⟨hk.1, fun _ _ hR => (Replaced.descending hR.1).2 (hR.2 hk.2)⟩

/-- The destroy of a live generation whose removal is due.  It may have quarantined the generation
unless it succeeded. -/
theorem meets_runtimeDestroy {request : TemplateDestroyRequest} (hid : request.generationId = id)
    (hlive : k.live) (hdue : k.gone ∨ k.expiring)
    (hretire : ∀ generation now, c = .retire generation now → k.gone) :
    Meets P id c (Holds id k) (ask (.runtimeDestroy request)) fun result =>
      Holds id { k with
        cleaned := k.cleaned ∨ result = Except.ok ()
        live := k.live ∧ result = Except.ok ()
        descending := k.descending ∧ result = Except.ok () } := by
  subst hid
  have hafter : ∀ w a w', Holds request.generationId k w →
      Effect P w (.runtimeDestroy request) a w' →
      Holds request.generationId { k with
        live := k.live ∧ a = Except.ok ()
        descending := k.descending ∧ a = Except.ok () } w' := by
    rintro w a w' h (rfl | hreplaces)
    · exact h.weaken (fun h => h) (fun h => h) (fun h => h) And.left (fun h => h) And.left
    · exact h.replaced hreplaces
  refine meets_ask (fun w h => ?_) (fun w a w' h hact => (hafter w a w' h hact).sound)
    fun w a w' h hact => ?_
  · exact ⟨h.live hlive, hdue.imp h.gone h.expiring,
      fun generation now hc => h.gone (hretire generation now hc)⟩
  · have hnoted : Holds request.generationId _
        { w' with history := noted (.runtimeDestroy request) a ++ w'.history } :=
      (hafter w a w' h hact).noted
    refine { hnoted with cleaned := fun hk => ?_ }
    rcases hk with hk | rfl
    · exact hnoted.cleaned hk
    · exact List.mem_append_left _ (List.mem_singleton_self _)

/-- A row that descends without a requested expiry shows that the registration is gone. -/
theorem meets_generationLifetime :
    Meets P id c (Holds id k) (ask (.generationLifetime id)) fun lifetime : RunnerLifetime =>
      Holds id { k with
        gone := k.gone ∨ (lifetime.expiryRequestedAt = none ∧ k.descending)
        cleaned := k.cleaned ∨ lifetime.resourcesDestroyedAt ≠ none } := by
  refine meets_ask (fun _ _ => trivial) (fun w a w' h hact => hact.1 ▸ h.sound) fun w a w' h hact => ?_
  obtain ⟨rfl, g, hg, rfl⟩ := hact
  refine { h with gone := fun hk => ?_, cleaned := fun hk => ?_ }
  · rcases hk with hk | ⟨hnone, hk⟩
    · exact h.gone hk
    · obtain ⟨g₁, hg₁, hdesc⟩ := h.descending hk
      cases hg.symm.trans hg₁
      rcases h.sound.descending g hg hdesc with ⟨g₂, hg₂, hne⟩ | hgone
      · cases hg.symm.trans hg₂
        exact absurd hnone hne
      · exact hgone
  · rcases hk with hk | hdone
    · exact h.cleaned hk
    · exact h.sound.cleaned g hg hdone

/-- The provenance a call has read stays the one on record. -/
theorem Provenance.stable {provenance : Option PlanProvenance} :
    (machine P id).Stable fun w => w.store.originalProvenance id = .ok provenance := by
  rintro w w' h ⟨l, τ, -, rfl, -, hcreates⟩
  simpa only [Store.originalProvenance, hcreates] using h

theorem meets_createStarted :
    Meets P id c (Holds id k) (createStarted id) fun started =>
      Holds id { k with unstarted := k.unstarted ∨ started = false } := by
  have hread : Meets P id c (Holds id k) (ask (.originalProvenance id))
      fun provenance : Option PlanProvenance => fun w => Holds id k w ∧
        w.store.originalProvenance id = .ok provenance := by
    refine Spec.lift Holds.stable (fun _ _ => trivial) ?_ ?_
    · rintro w w' h (rfl | ⟨a, rfl, -⟩) <;> exact h.sound
    · rintro w a w' h ⟨w₁, ⟨rfl, hanswer⟩, rfl⟩
      exact ⟨h.sound, h, hanswer⟩
  refine hread.bind fun provenance => ?_
  split
  · exact .done fun w h =>
      h.1.weaken (fun h => h) (fun h => h) (fun h => h) (fun h => h) (fun h => h.elim (fun h => h) nofun)
        (fun h => h)
  · next hnone =>
    have hnone : provenance = none := Option.not_isSome_iff_eq_none.mp hnone
    subst hnone
    have hopen : Meets P id c
        (fun w => Holds id k w ∧ w.store.originalProvenance id = .ok none)
        (ask (.openOperations id)) fun operations : List OperationRow => fun w => Holds id k w ∧
          w.store.originalProvenance id = .ok none ∧ operations = w.store.openOperations id := by
      refine Spec.lift (Holds.stable.and Provenance.stable) (fun _ _ => trivial) ?_ ?_
      · rintro w w' h (rfl | ⟨a, rfl, -⟩) <;> exact h.1.sound
      · rintro w a w' h ⟨w₁, ⟨rfl, hanswer⟩, rfl⟩
        exact ⟨h.1.sound, h.1, h.2, hanswer⟩
    refine hopen.bind fun operations => .done ?_
    rintro w ⟨h, hprovenance, rfl⟩
    refine { h with unstarted := fun hk => ?_ }
    rcases hk with hk | hk
    · exact h.unstarted hk
    · rintro (⟨proof, hproof⟩ | hopen)
      · cases hprovenance.symm.trans hproof
      · cases hk.symm.trans hopen

/-- An advance leaves the operations alone. -/
theorem execAdvance_createOperations {w : World} {next : GenerationState} {requestId : Uuid}
    {now : Int} {reply : Reply P}
    (h : (w.system.daemon.exec P (.generationAdvance id next requestId now)).2 = .ok reply) :
    (w.system.serve P (.generationAdvance id next requestId now)).daemon.store.createOperations id =
      w.store.createOperations id := by
  have hoperations : (w.system.daemon.exec P
      (.generationAdvance id next requestId now)).1.store.operations = w.store.operations := by
    simp only [Daemon.exec] at h ⊢
    split at h
    all_goals
      next hadvance =>
        first
        | exact Store.generationAdvance_operations hadvance
        | cases h
  simp only [Store.createOperations]
  exact congrArg _ (congrArg _ (congrArg Table.rows hoperations))

/-- An advance that descends only when it may, and ends only when it may. -/
theorem meets_advance {next : GenerationState} {now : Int}
    (hdesc : Descending next → k.gone ∨ k.expiring)
    (hend : next = .destroyed → k.live ∧ (k.unstarted ∨ k.gone ∧ k.cleaned)) :
    Meets P id c (Holds id k) (ask (.generationAdvance id next now)) fun _ =>
      Holds id { k with live := k.live ∧ next ≠ .quarantined, descending := False } := by
  have heffect : ∀ w a w', Holds id k w → Effect P w (.generationAdvance id next now) a w' →
      Holds id { k with live := k.live ∧ next ≠ .quarantined, descending := False } w' := by
    rintro w a w' h ⟨requestId, reply, hreply, rfl⟩
    have hchange := w.system.daemon.exec_change (P := P) (.generationAdvance id next requestId now) id
    have hrows : Rows id w { w with
        system := w.system.serve P (.generationAdvance id next requestId now) } fun g g' =>
          g'.lifetime = g.lifetime ∧ (g'.state = g.state ∨ g'.state = next) := by
      cases hg : w.generation id with
      | none =>
        refine .inl ⟨hg, Option.eq_none_iff_forall_ne_some.mpr fun g' hg' => ?_⟩
        obtain ⟨g, hg₁, -⟩ := hchange.advance_state hg'
        cases hg.symm.trans hg₁
      | some g =>
        obtain ⟨g', hg'⟩ := hchange.generation_stays hg
        obtain ⟨g₁, hg₁, hlife, hstate⟩ := hchange.advance_state hg'
        cases hg.symm.trans hg₁
        exact .inr ⟨g, g', hg, hg', hlife, hstate.imp_right And.right⟩
    refine h.step hrows (fun _ he => he) (execAdvance_createOperations hreply)
      (fun _ _ hR hne => expiry_of_lifetime hR.1 ▸ hne)
      (fun _ _ hR hne => .inl (resources_of_lifetime hR.1 ▸ hne))
      (fun g g' hR hd => ?_) (fun h => h) (fun h => h) (fun h => h)
      (fun hk => ⟨hk.1, fun g g' hR hq => ?_⟩) (fun h => h) nofun
    · rcases hR.2 with hsame | hnext
      · exact .inl (hsame ▸ hd)
      · exact .inr (hdesc (hnext ▸ hd))
    · rcases hR.2 with hsame | hnext
      · exact hsame ▸ hq
      · exact absurd (hnext ▸ hq) hk.2
  refine meets_ask (fun w h => ?_) (fun w a w' h hact => (heffect w a w' h hact).sound) heffect
  cases next with
  | destroyed =>
    obtain ⟨hlive, hremoved⟩ := hend rfl
    refine ⟨h.live hlive, fun hcreated => ?_⟩
    rcases hremoved with hk | ⟨hgone, hcleaned⟩
    · exact absurd hcreated (h.unstarted hk)
    · exact ⟨h.gone hgone, h.cleaned hcleaned⟩
  | _ => trivial

theorem meets_requestExpiry {now : Int} :
    Meets P id c (Holds id k) (ask (.requestExpiry id now)) fun requested : Bool =>
      Holds id { k with
        expiring := k.expiring ∨ requested = true
        live := k.live ∨ requested = true } := by
  have heffect : ∀ w (a : Bool) w', Holds id k w → Effect P w (.requestExpiry id now) a w' →
      Holds id { k with expiring := k.expiring ∨ a = true, live := k.live ∨ a = true } w' := by
    rintro w a w' h ⟨hreply, rfl⟩
    have hrequest : ∃ s', w.store.generationRequestExpiry id now = .ok (s', a) ∧
        (w.system.daemon.exec P (.generationRequestExpiry id now)).1.store = s' := by
      simp only [Daemon.exec, Daemon.transactWith] at hreply ⊢
      split at hreply
      · next s' b hok =>
        cases hreply
        exact ⟨s', hok, rfl⟩
      · cases hreply
    obtain ⟨s', hok, hstore⟩ := hrequest
    obtain ⟨hoperations, g, g', hg, hg', hstate, hresources, hexpiry, hrequested⟩ :=
      Store.generationRequestExpiry_ok hok
    have hg' : ((w.system.serve P (.generationRequestExpiry id now)).view id).generation =
        some g' := by
      show ((w.system.daemon.exec P (.generationRequestExpiry id now)).1.store.view id).generation = _
      rw [hstore]
      exact hg'
    have hcreates : (w.system.serve P
        (.generationRequestExpiry id now)).daemon.store.createOperations id =
          w.store.createOperations id := by
      show (w.system.daemon.exec P (.generationRequestExpiry id now)).1.store.createOperations id = _
      simp only [hstore, Store.createOperations, hoperations]
    have hrows : Rows id w { w with system := w.system.serve P (.generationRequestExpiry id now) }
        fun g₁ g₂ => g₁ = g ∧ g₂ = g' :=
      .inr ⟨g, g', hg, hg', rfl, rfl⟩
    have hstep : Holds id k { w with system := w.system.serve P (.generationRequestExpiry id now) } := h.step
      hrows (fun _ he => he) hcreates
      (by rintro _ _ ⟨rfl, rfl⟩; exact hexpiry)
      (by rintro _ _ ⟨rfl, rfl⟩ hne; exact .inl (hresources ▸ hne))
      (by rintro _ _ ⟨rfl, rfl⟩ hd; exact .inl (hstate ▸ hd))
      (fun h => h) (fun h => h) (fun h => h)
      (fun hk => ⟨hk, by rintro _ _ ⟨rfl, rfl⟩ hq; exact hstate ▸ hq⟩) (fun h => h)
      (fun hk => ⟨hk, by rintro _ _ ⟨rfl, rfl⟩ hd; exact hstate ▸ hd⟩)
    refine { hstep with expiring := fun hk => ?_, live := fun hk => ?_ }
    · rcases hk with hk | ha
      · exact hstep.expiring hk
      · exact ⟨g', hg', (hrequested ha).1⟩
    · rcases hk with hk | ha
      · exact hstep.live hk
      · rintro ⟨g₁, hg₁, hq⟩
        cases hg'.symm.trans hg₁
        exact (hrequested ha).2 (hstate ▸ hq)
  exact meets_ask (fun _ _ => trivial) (fun w a w' h hact => (heffect w a w' h hact).sound) heffect

theorem meets_resourcesDestroyed {now : Int} (hcleaned : k.cleaned) :
    Meets P id c (Holds id k) (ask (.resourcesDestroyed id now)) fun _ => Holds id k := by
  have heffect : ∀ w a w', Holds id k w → Effect P w (.resourcesDestroyed id now) a w' →
      Holds id k w' := by
    rintro w a w' h ⟨reply, hreply, rfl⟩
    have hrequest : ∃ s', w.store.generationResourcesDestroyed id now = .ok s' ∧
        (w.system.daemon.exec P (.generationResourcesDestroyed id now)).1.store = s' := by
      simp only [Daemon.exec, Daemon.transact] at hreply ⊢
      split at hreply
      · next s' hok => exact ⟨s', hok, rfl⟩
      · cases hreply
    obtain ⟨s', hok, hstore⟩ := hrequest
    obtain ⟨hoperations, g, g', hg, hg', hstate, hexpiry⟩ :=
      Store.generationResourcesDestroyed_ok hok
    have hg' : ((w.system.serve P (.generationResourcesDestroyed id now)).view id).generation =
        some g' := by
      show ((w.system.daemon.exec P
        (.generationResourcesDestroyed id now)).1.store.view id).generation = _
      rw [hstore]
      exact hg'
    have hcreates : (w.system.serve P
        (.generationResourcesDestroyed id now)).daemon.store.createOperations id =
          w.store.createOperations id := by
      show (w.system.daemon.exec P
        (.generationResourcesDestroyed id now)).1.store.createOperations id = _
      simp only [hstore, Store.createOperations, hoperations]
    have hrows : Rows id w { w with system := w.system.serve P (.generationResourcesDestroyed id now) }
        fun g₁ g₂ => g₁ = g ∧ g₂ = g' :=
      .inr ⟨g, g', hg, hg', rfl, rfl⟩
    have hstep : Holds id k { w with system := w.system.serve P (.generationResourcesDestroyed id now) } := h.step
      hrows (fun _ he => he) hcreates
      (by rintro _ _ ⟨rfl, rfl⟩ hne; exact hexpiry ▸ hne)
      (by rintro _ _ ⟨rfl, rfl⟩ -; exact .inr hcleaned)
      (by rintro _ _ ⟨rfl, rfl⟩ hd; exact .inl (hstate ▸ hd))
      (fun h => h) (fun h => h) (fun h => h)
      (fun hk => ⟨hk, by rintro _ _ ⟨rfl, rfl⟩ hq; exact hstate ▸ hq⟩) (fun h => h)
      (fun hk => ⟨hk, by rintro _ _ ⟨rfl, rfl⟩ hd; exact hstate ▸ hd⟩)
    exact hstep
  exact meets_ask (fun _ _ => trivial) (fun w a w' h hact => (heffect w a w' h hact).sound) heffect

end RunnerOperation

end Shaula
