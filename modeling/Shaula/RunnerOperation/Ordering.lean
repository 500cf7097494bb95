import Shaula.RunnerOperation.Knowledge
import Shaula.System.Script

/-! # Order of removals

Retirement removes the registration before the resources, and the lifetime path the resources
first; neither ends a generation before what its Create made is gone.  Each routine is shown safe
from what a call knows when it runs, and so every run of calls is.
-/

namespace Shaula

open Core Library Library.Outcome

namespace RunnerOperation

variable {P : Platform} {id : Uuid} {c : Call} {k : Known}

/-! ## The destroy chain -/

theorem chainRank_next {state : GenerationState} {r : Nat} (h : chainRank state = some r) :
    (∃ r', chainRank (chainNext state) = some r' ∧ r' ≤ r + 1) ∧
      (Descending (chainNext state) → 2 ≤ r) ∧ chainNext state ≠ .quarantined ∧
        chainNext state ≠ .destroyed := by
  cases state <;> cases h <;> simp [chainRank, chainNext, Descending]

/-- Past `retiring` a generation descends. -/
theorem descending_of_rank {state : GenerationState} {r : Nat} (h : chainRank state = some r)
    (hr : retiringRank < r) : Descending state := by
  cases state <;> cases h <;> first | exact .inl rfl | exact .inr rfl | exact absurd hr (by decide)

theorem meets_walkSteps {now : Int} {n r : Nat} {state : GenerationState}
    (hr : chainRank state = some r) (hmay : r + n ≤ 2 ∨ k.gone ∨ k.expiring) :
    Meets P id c (Holds id k) (walkSteps id now n state) fun _ =>
      Holds id { k with descending := False } := by
  induction n generalizing k r state with
  | zero =>
    exact .done fun w h => h.weaken (fun h => h) (fun h => h) (fun h => h) (fun h => h)
      (fun h => h) nofun
  | succ n ih =>
    obtain ⟨⟨r', hr', hle⟩, hdesc, hlive, hend⟩ := chainRank_next hr
    refine (meets_advance (fun hd => ?_) (fun h => absurd h hend)).bind fun _ => ?_
    · have := hdesc hd
      rcases hmay with hle | hmay
      · omega
      · exact hmay
    · refine (ih (k := { k with descending := False }) hr' ?_).weaken (fun w h => ?_) fun _ _ h => h
      · exact hmay.imp (by omega) fun h => h
      · exact h.weaken (fun h => h) (fun h => h) (fun h => h) (fun h => ⟨h, hlive⟩) (fun h => h)
          fun h => h

/-- A walk that leads below `retiring` only when the registration is gone or expiry requested. -/
theorem meets_walk {start target : GenerationState} {now : Int} {t : Nat}
    (ht : chainRank target = some t) (hmay : t ≤ 2 ∨ k.gone ∨ k.expiring) :
    Meets P id c (Holds id k) (walk id start target now) fun _ =>
      Holds id { k with descending := False } := by
  unfold walk
  simp only [rankOf, ht]
  cases hr : chainRank start with
  | none => exact .fail
  | some r =>
    by_cases hle : t ≤ r
    · rw [Program.done_bind, Program.done_bind, Nat.sub_eq_zero_of_le hle]
      exact .done fun w h => h.weaken (fun h => h) (fun h => h) (fun h => h) (fun h => h)
        (fun h => h) nofun
    · exact meets_walkSteps hr (hmay.imp (by omega) fun h => h)

/-! ## Routines -/

theorem meets_quarantine {now : Int} :
    Meets P id c (Holds id k) (quarantine id now) fun _ _ => True := by
  refine (meets_read (.backoffClear id) (fun _ => trivial) ?_ fun _ => rfl).bind fun _ => ?_
  · rintro w a w' rfl
    exact ⟨rfl, rfl⟩
  · refine (meets_advance (fun h => ?_) fun h => by cases h).bind fun _ => ?_
    · rcases h with h | h <;> cases h
    · exact .done fun _ _ => trivial

theorem meets_admitRegistration {generation : GenerationRecord} {started : Bool} :
    Meets P id c (Holds id k) (admitRegistration generation started) fun verdict =>
      Holds id { k with gone := k.gone ∨ verdict = Registration.gone } := by
  refine meets_admitRemoval.bind fun verdict => ?_
  cases verdict with
  | unrecorded =>
    have hforget : ∀ w, Holds id { k with gone := k.gone ∨ Registration.unrecorded = .gone } w →
        Holds id k w := fun w h =>
      h.weaken .inl (fun h => h) (fun h => h) (fun h => h) (fun h => h) fun h => h
    cases started with
    | true =>
      exact .done fun w h => (hforget w h).weaken (fun h => h.elim (fun h => h) nofun) (fun h => h)
        (fun h => h) (fun h => h) (fun h => h) fun h => h
    | false => exact meets_proveUnrecordedAbsent.weaken hforget fun _ _ h => h
  | _ => exact .done fun w h => h

/-- The proof is read, and the ledger left alone. -/
theorem meets_destroyProof {self : RunnerOperation} {generation : GenerationRecord}
    (hid : generation.id = id) :
    Meets P id c (Holds id k) (self.destroyProof generation) fun _ => Holds id k := by
  subst hid
  have hfail : ∀ reason, Meets P generation.id c (Holds generation.id k)
      (pure (.error reason) : Routine (Except String DestroyProof))
      fun _ => Holds generation.id k := fun _ => .done fun _ h => h
  unfold destroyProof
  refine (meets_read (.originalProvenance generation.id) (fun _ => trivial)
    (fun w a w' h => h.1 ▸ ⟨rfl, rfl⟩) fun _ => rfl).bind fun provenance => ?_
  cases provenance with
  | none => exact hfail _
  | some provenance =>
    refine (meets_read (.stateIdentity generation.id) (fun _ => trivial)
      (fun w a w' h => h.1 ▸ ⟨rfl, rfl⟩) fun _ => rfl).bind fun identity => ?_
    cases identity with
    | none => exact hfail _
    | some identity =>
      refine (meets_read (.protectedBindings _ _) (fun _ => trivial)
        (fun w a w' h => h ▸ ⟨rfl, rfl⟩) fun _ => rfl).bind fun bindings => ?_
      cases bindings with
      | none => exact hfail _
      | some bindings =>
        refine (meets_read (.ensureArtifactCached _) (fun _ => trivial)
          (fun w a w' h => h ▸ ⟨rfl, rfl⟩) fun _ => rfl).bind fun _ => ?_
        cases hdir : artifactDir self.artifactRoot generation.templateArtifactDigest with
        | none => exact hfail _
        | some dir =>
          refine (meets_read (.readManifest _) (fun _ => trivial)
            (fun w a w' h => h ▸ ⟨rfl, rfl⟩) fun _ => rfl).bind fun manifest => ?_
          cases manifest with
          | none => exact hfail _
          | some shape => exact .done fun _ h => h

/-- The destroy of a live generation whose removal is due; only its success cleans. -/
theorem meets_destroyResources {self : RunnerOperation} {generation : GenerationRecord}
    {proof : DestroyProof} {now : Int} (hid : generation.id = id) (hlive : k.live)
    (hdue : k.gone ∨ k.expiring) (hretire : ∀ generation now, c = .retire generation now → k.gone) :
    Meets P id c (Holds id k) (self.destroyResources generation proof now) fun result =>
      Holds id { k with
        cleaned := k.cleaned ∨ ∃ time, result = .destroyed time
        live := k.live ∧ ∃ time, result = .destroyed time
        descending := k.descending ∧ ∃ time, result = .destroyed time } := by
  subst hid
  unfold destroyResources
  refine (meets_read (.destroyAttempted generation.id) (fun _ => trivial)
    (fun w a w' h => h.1 ▸ ⟨rfl, rfl⟩) fun _ => rfl).bind fun retry => ?_
  have hrequest : (self.destroyRequest generation proof retry).generationId = generation.id := rfl
  refine (meets_runtimeDestroy hrequest hlive hdue hretire).bind fun result => ?_
  refine (meets_read (.nowAfter now) (fun _ => trivial) (fun w a w' h => h ▸ ⟨rfl, rfl⟩)
    fun _ => rfl).bind fun time => ?_
  -- Without success nothing is known of the state.
  have hfailed : ∀ {w : World} {failure : ResourceDestroy}, (∀ time, failure ≠ .destroyed time) →
      result ≠ .ok () → Holds generation.id { k with
        cleaned := k.cleaned ∨ result = Except.ok ()
        live := k.live ∧ result = Except.ok ()
        descending := k.descending ∧ result = Except.ok () } w →
      Holds generation.id { k with
        cleaned := k.cleaned ∨ ∃ time, failure = .destroyed time
        live := k.live ∧ ∃ time, failure = .destroyed time
        descending := k.descending ∧ ∃ time, failure = .destroyed time } w := by
    intro w failure hfailure hresult h
    have hnever : ¬ ∃ time, failure = .destroyed time := fun ⟨time, htime⟩ => hfailure time htime
    exact h.weaken (fun h => h) (fun h => h) (fun hk => .inl (hk.resolve_right hnever))
      (fun hk => absurd hk.2 hnever) (fun h => h) fun hk => absurd hk.2 hnever
  split
  · refine (meets_read (.backoffClear generation.id) (fun _ => trivial)
      (fun w a w' h => h ▸ ⟨rfl, rfl⟩) fun _ => rfl).bind fun _ => ?_
    refine (meets_read (.completeIntent time) (fun _ => trivial) (fun w a w' h => h ▸ ⟨rfl, rfl⟩)
      fun _ => rfl).bind fun _ => .done fun w h => ?_
    exact h.weaken (fun h => h) (fun h => h) (fun _ => .inr rfl) (fun hk => ⟨hk.1, rfl⟩)
      (fun h => h) fun hk => ⟨hk.1, rfl⟩
  · split
    · exact .done fun w h => hfailed nofun nofun h
    · refine (meets_read (.backoffFailed generation.id time) (fun _ => trivial)
        (fun w a w' h => h.1 ▸ ⟨rfl, rfl⟩) fun _ => rfl).bind fun _ => .done fun w h => ?_
      exact hfailed nofun nofun h
  · refine (meets_read (.backoffFailed generation.id time) (fun _ => trivial)
      (fun w a w' h => h.1 ▸ ⟨rfl, rfl⟩) fun _ => rfl).bind fun _ => .done fun w h => ?_
    exact hfailed nofun nofun h

/-- Whoever goes on after the removal knows that the registration is gone. -/
theorem meets_removeRegistration {generation : GenerationRecord} {started : Bool} {now : Int}
    (hid : generation.id = id) :
    Meets P id c (Holds id k) (removeRegistration generation started now) fun result w =>
      ∀ state, result = .inr state → Holds id { k with gone := True, descending := False } w := by
  subst hid
  unfold removeRegistration
  have hended : ∀ {k' : Known}, Meets P generation.id c (Holds generation.id k')
      (do
        let outcome ← quarantine generation.id now
        return (.inl outcome : DestroyOutcome ⊕ GenerationState))
      fun result w => ∀ state, result = .inr state →
        Holds generation.id { k with gone := True, descending := False } w :=
    meets_quarantine.bind fun _ => .done fun _ _ _ h => by cases h
  refine meets_admitRegistration.bind fun verdict => ?_
  cases verdict with
  | removable =>
    refine (meets_walk rfl (.inl (Nat.le_refl 2))).bind fun state => ?_
    refine meets_remove.bind fun verdict => ?_
    cases verdict with
    | gone =>
      exact .done fun w h _ _ => h.weaken (fun _ => .inr rfl) (fun h => h) (fun h => h) (fun h => h)
        (fun h => h) nofun
    | busy | unavailable => exact .done fun _ _ _ h => by cases h
    | removable | unprovable | unrecorded => exact hended
  | gone =>
    refine (meets_walk rfl (.inl (Nat.le_refl 2))).bind fun state => .done fun w h _ _ => ?_
    exact h.weaken (fun _ => .inr rfl) (fun h => h) (fun h => h) (fun h => h) (fun h => h) nofun
  | busy | unavailable => exact .done fun _ _ _ h => by cases h
  | unprovable | unrecorded => exact hended

theorem meets_destroyRemoved {self : RunnerOperation} {generation : GenerationRecord}
    {state : GenerationState} {started : Bool} {now : Int} (hid : generation.id = id)
    (hgone : k.gone) (hlive : k.live) (hstarted : started = false → k.unstarted) :
    Meets P id c (Holds id k) (self.destroyRemoved generation state started now)
      fun _ _ => True := by
  subst hid
  unfold destroyRemoved
  refine (meets_walk rfl (.inr (.inl hgone))).bind fun _ => ?_
  split
  · next hnever =>
    refine (meets_advance (fun h => by rcases h with h | h <;> cases h) fun _ => ?_).bind
      fun _ => .done fun _ _ => trivial
    exact ⟨hlive, .inl (hstarted hnever)⟩
  · refine (meets_destroyProof rfl).bind fun proof => ?_
    cases proof with
    | error reason => exact meets_quarantine
    | ok proof =>
      refine (meets_destroyResources rfl ?_ ?_ ?_).bind fun result => ?_
      · exact hlive
      · exact .inl hgone
      · exact fun _ _ _ => hgone
      cases result with
      | destroyed time =>
        refine (meets_advance (fun h => by rcases h with h | h <;> cases h) fun _ => ?_).bind
          fun _ => .done fun _ _ => trivial
        exact ⟨⟨hlive, time, rfl⟩, .inr ⟨hgone, .inr ⟨time, rfl⟩⟩⟩
      | failed time known =>
        refine (meets_advance (fun _ => ?_) fun h => ?_).bind fun _ => .done fun _ _ => trivial
        · exact .inl hgone
        · cases h
      | foreign => exact meets_quarantine

/-- Retirement from a fresh record is safe. -/
theorem meets_retire {self : RunnerOperation} (generation : GenerationRecord) {now : Int}
    (hid : generation.id = id) :
    Meets P id c (Holds id
        { live := generation.state ≠ .quarantined, descending := Descending generation.state })
      (self.retire generation now) fun _ _ => True := by
  subst hid
  unfold retire
  refine meets_generationLifetime.bind fun lifetime => ?_
  split
  · exact .done fun _ _ => trivial
  · next hnone =>
    have hnone : lifetime.expiryRequestedAt = none := Option.not_isSome_iff_eq_none.mp hnone
    refine (meets_read (.backoffDue generation.id now) (fun _ => trivial)
      (fun w a w' h => h.1 ▸ ⟨rfl, rfl⟩) fun _ => rfl).bind fun due => ?_
    split
    · exact .done fun _ _ => trivial
    · refine meets_createStarted.bind fun started => ?_
      simp only [rankOf]
      cases hrank : chainRank generation.state with
      | none => exact .fail
      | some rank =>
        have hlive : generation.state ≠ .quarantined := by
          rintro h
          rw [h] at hrank
          cases hrank
        rw [Program.done_bind]
        split
        · refine (meets_removeRegistration rfl).bind fun result => ?_
          cases result with
          | inl outcome => exact .done fun _ _ => trivial
          | inr state =>
            refine (meets_destroyRemoved rfl ?_ ?_ ?_).weaken (fun w h => h state rfl) fun _ _ h => h
            · exact trivial
            · exact hlive
            · exact .inr
        · next hpast =>
          have hdesc := descending_of_rank hrank (Nat.lt_of_not_le hpast)
          exact meets_destroyRemoved rfl (.inr ⟨hnone, hdesc⟩) hlive .inr

theorem meets_deregister {generation : GenerationRecord} {now : Int} (hid : generation.id = id)
    (hlive : k.live) (hcleaned : k.cleaned) :
    Meets P id c (Holds id k) (deregister generation now) fun _ _ => True := by
  subst hid
  unfold deregister
  refine meets_remove.bind fun verdict => ?_
  cases verdict with
  | gone =>
    refine (meets_read (.nowAfter now) (fun _ => trivial) (fun w a w' h => h ▸ ⟨rfl, rfl⟩)
      fun _ => rfl).bind fun time => ?_
    refine (meets_advance (fun h => by rcases h with h | h <;> cases h) fun _ => ?_).bind
      fun _ => .done fun _ _ => trivial
    exact ⟨hlive, .inr ⟨.inr rfl, hcleaned⟩⟩
  | busy | unavailable => exact .done fun _ _ => trivial
  | removable | unprovable | unrecorded => exact meets_quarantine

/-- An expiry step is safe from any record. -/
theorem meets_expire {self : RunnerOperation} (generation : GenerationRecord) {now now' : Int}
    {generation' : GenerationRecord} (hid : generation.id = id) :
    Meets P id (.expire generation' now') (Holds id {}) (self.expire generation now)
      fun _ _ => True := by
  subst hid
  unfold expire
  refine meets_requestExpiry.bind fun requested => ?_
  split
  · exact .done fun _ _ => trivial
  · next hrequested =>
    have hrequested : requested = true := Bool.eq_true_of_not_eq_false hrequested
    refine meets_generationLifetime.bind fun lifetime => ?_
    split
    · next hdone =>
      refine meets_deregister rfl ?_ ?_
      · exact .inr hrequested
      · refine .inr fun h => ?_
        rw [h] at hdone
        cases hdone
    · refine (meets_read (.backoffDue generation.id now) (fun _ => trivial)
        (fun w a w' h => h.1 ▸ ⟨rfl, rfl⟩) fun _ => rfl).bind fun due => ?_
      split
      · exact .done fun _ _ => trivial
      · refine (meets_destroyProof rfl).bind fun proof => ?_
        cases proof with
        | error reason => exact meets_quarantine
        | ok proof =>
          refine (meets_walk rfl ?_).bind fun _ => ?_
          · exact .inr (.inr (.inr hrequested))
          refine (meets_destroyResources rfl ?_ ?_ fun _ _ h => by cases h).bind fun result => ?_
          · exact .inr hrequested
          · exact .inr (.inr hrequested)
          cases result with
          | destroyed time =>
            refine (meets_resourcesDestroyed ?_).bind fun _ => meets_deregister rfl ?_ ?_
            · exact .inr ⟨time, rfl⟩
            · exact ⟨.inr hrequested, time, rfl⟩
            · exact .inr ⟨time, rfl⟩
          | failed time known =>
            refine (meets_advance (fun _ => ?_) fun h => by cases h).bind
              fun _ => .done fun _ _ => trivial
            exact .inr (.inr hrequested)
          | foreign => exact meets_quarantine

/-! ## Runs of calls -/

/-- The calls a supervisor makes about generation `id`, one at a time and each on the row it read;
in between the rest of the system goes on, and at any point the daemon may crash. -/
def session (P : Platform) (self : RunnerOperation) (id : Uuid) :
    Session effects Call World CoreError DestroyOutcome where
  machine := machine P id
  body := Call.body self
  begins w c := ∃ g, w.generation id = some g ∧ c.generation = g.record id
  idle := Between P id
  crash w := { w with system := w.system.restart, backoff := .empty }

def World.Initial (w : World) : Prop := ∃ createLimit, w = .initial createLimit

def World.Destroyed (w : World) (id : Uuid) : Prop :=
  ∃ g, w.generation id = some g ∧ g.state = .destroyed

/-- Effects that destroy resources, or call the generation destroyed. -/
def Operation.Destroys : Operation → Prop
  | .runtimeDestroy _ | .generationAdvance _ .destroyed _ => True
  | _ => False

theorem World.Initial.sound {w : World} (h : w.Initial) : w.Sound id := by
  obtain ⟨createLimit, rfl⟩ := h
  have hnone : (World.initial createLimit).generation id = none := rfl
  constructor
  all_goals
    intro g hg
    cases hnone.symm.trans hg

theorem World.Sound.holds {w : World} (h : w.Sound id) : Holds id {} w :=
  ⟨h, nofun, nofun, nofun, nofun, nofun, nofun⟩

theorem session_disciplined (self : RunnerOperation) :
    (session P self id).Disciplined (World.Sound id) (Allowed id) where
  env w w' h henv := (Holds.stable w w' h.holds henv).sound
  idle w w' h hidle := hidle.sound h
  crash w h := ⟨h.descending, h.cleaned⟩
  safe := by
    rintro w (⟨generation, now⟩ | ⟨generation, now⟩) h ⟨g, hg, hrecord⟩
    · cases hrecord
      have hretire : Meets P id (.retire (g.record id) now) (Holds id
          { live := g.state ≠ .quarantined, descending := Descending g.state })
          (self.retire (g.record id) now) fun _ _ => True := meets_retire (g.record id) rfl
      refine hretire w { h.holds with live := fun hlive => ?_, descending := fun hd => ?_ }
      · rintro ⟨g', hg', hq⟩
        cases hg.symm.trans hg'
        exact hlive hq
      · exact ⟨g, hg, hd⟩
    · cases hrecord
      have hexpire : Meets P id (.expire (g.record id) now) (Holds id {})
          (self.expire (g.record id) now) fun _ _ => True := meets_expire (g.record id) rfl
      exact hexpire w h.holds

/-- Only an advance to the end ends a generation. -/
theorem Effect.destroyed {w w' : World} {op : Operation} {a : op.Answer} (h : Effect P w op a w')
    (hd : w'.Destroyed id) : w.Destroyed id ∨ ∃ now, op = .generationAdvance id .destroyed now := by
  obtain ⟨g', hg', hstate⟩ := hd
  cases op with
  | generationAdvance target next now =>
    obtain ⟨requestId, reply, -, rfl⟩ := h
    have hchange := w.system.daemon.exec_change (P := P)
      (.generationAdvance target next requestId now) id
    obtain ⟨g, hg, -, hsame | ⟨rfl, hnext⟩⟩ := hchange.advance_state hg'
    · exact .inl ⟨g, hg, hsame ▸ hstate⟩
    · cases hnext.symm.trans hstate
      exact .inr ⟨now, rfl⟩
  | requestExpiry target now =>
    obtain ⟨-, rfl⟩ := h
    have hchange := w.system.daemon.exec_change (P := P) (.generationRequestExpiry target now) id
    obtain ⟨g, hg, hsame⟩ := hchange.lifetime_state (.inl rfl) hg'
    exact .inl ⟨g, hg, hsame ▸ hstate⟩
  | resourcesDestroyed target now =>
    obtain ⟨reply, -, rfl⟩ := h
    have hchange :=
      w.system.daemon.exec_change (P := P) (.generationResourcesDestroyed target now) id
    obtain ⟨g, hg, hsame⟩ := hchange.lifetime_state (.inr rfl) hg'
    exact .inl ⟨g, hg, hsame ▸ hstate⟩
  | generationLifetime | originalProvenance | openOperations | stateIdentity | destroyAttempted
  | backoffDue | backoffFailed =>
    obtain ⟨rfl, -⟩ := h
    exact .inl ⟨g', hg', hstate⟩
  | runtimeDestroy request =>
    rcases h with rfl | ⟨access, draw, -, -, rfl, -, -⟩
    · exact .inl ⟨g', hg', hstate⟩
    · have hchange := w.system.daemon.exec_change (P := P) (.replaceFenced access draw) id
      rcases Replaced.of_change hchange with hsame | ⟨g, g₁, hg, hg₁, hreplaced⟩
      · exact .inl ⟨g', hsame.symm.trans hg', hstate⟩
      · cases hg₁.symm.trans hg'
        exact .inl ⟨g, hg, hreplaced.destroyed hstate⟩
  | _ =>
    cases h
    exact .inl ⟨g', hg', hstate⟩

section Runs

variable {self : RunnerOperation} {κ κ' : Session.Config effects Call World CoreError DestroyOutcome}
  {event : Session.Event effects Call CoreError DestroyOutcome}

theorem Allowed.live {w : World} {op : Operation} (h : Allowed id c w op) (hop : op.Destroys) :
    ¬ w.Quarantined id := by
  cases op with
  | runtimeDestroy request => exact h.1
  | generationAdvance target next now =>
    cases next with
    | destroyed => exact h.1
    | _ => exact hop.elim
  | _ => exact hop.elim

/-- A step of a call that ends the generation is its advance to the end. -/
theorem ended {op : Operation} (hstep : (session P self id).Step κ event κ')
    (he : event.effect = some (c, op)) (hd : κ'.world.Destroyed id) :
    κ.world.Destroyed id ∨ ∃ now, op = .generationAdvance id .destroyed now := by
  cases hstep with
  | performed hact =>
    cases he
    obtain ⟨w₁, heffect, rfl⟩ := hact
    exact heffect.destroyed hd
  | lost hlost =>
    cases he
    rcases hlost with rfl | ⟨a, heffect⟩
    · exact .inl hd
    · exact heffect.destroyed hd
  | _ => cases he

/-- **Retirement ordering.**  In every run, a retirement destroys resources only after the
registration was answered gone; whoever destroys them first was asked to expire the generation; a
quarantined generation is destroyed by nobody; and a generation whose Create started ends only
after both its resources and its registration are gone. -/
theorem removals_ordered (h : Reachable (Session.Initial World.Initial) (session P self id).Step κ)
    (hstep : (session P self id).Step κ event κ') :
    (∀ generation now request,
      event.effect = some (.retire generation now, .runtimeDestroy request) → κ.world.Gone) ∧
    (∀ c request, event.effect = some (c, .runtimeDestroy request) →
      κ.world.Gone ∨ κ.world.Expiring id) ∧
    (∀ c op, event.effect = some (c, op) → op.Destroys → ¬ κ.world.Quarantined id) ∧
    ∀ c op, event.effect = some (c, op) → κ'.world.Destroyed id → κ.world.Destroyed id ∨
      ¬ κ.world.Quarantined id ∧ (κ.world.CreateStarted id → κ.world.Gone ∧ κ.world.Cleaned) := by
  have hguarded := (session_disciplined self).reached (fun _ => World.Initial.sound) h
  refine ⟨fun generation now request he => ?_, fun c request he => ?_, fun c op he hop => ?_,
    fun c op he hd => ?_⟩
  · exact (hguarded.obliged hstep he).2.2 generation now rfl
  · exact (hguarded.obliged hstep he).2.1
  · exact (hguarded.obliged hstep he).live hop
  · rcases ended hstep he hd with hd | ⟨now, rfl⟩
    · exact .inl hd
    · exact .inr (hguarded.obliged hstep he)

end Runs

/-! ## A generation that never started -/

section Sample

variable {self : RunnerOperation}

theorem Effect.of_advance {w : World} {next : GenerationState} {requestId : Uuid} {now : Int}
    (h : (w.system.daemon.exec P (.generationAdvance id next requestId now)).2.isOk = true) :
    Effect P w (.generationAdvance id next now) ()
      { w with system := w.system.serve P (.generationAdvance id next requestId now) } := by
  obtain ⟨reply, hreply⟩ := exists_ok_of_isOk h
  exact ⟨requestId, reply, hreply, rfl⟩

/-- Requests nobody but a runner operation makes aside, a script is a run between calls. -/
theorem reached_of_plays {σ : System} {rs : List (Request P)}
    (hσ : Reachable (Session.Initial World.Initial) (session P self id).Step ⟨⟨σ, .empty, []⟩, none⟩)
    (h : σ.Plays P rs) (hrs : ∀ r ∈ rs, ¬ Retires P id r) :
    Reachable (Session.Initial World.Initial) (session P self id).Step
      ⟨⟨σ.play P rs, .empty, []⟩, none⟩ := by
  induction rs generalizing σ with
  | nil => exact hσ
  | cons r rs ih =>
    refine ih (hσ.next (.passed ⟨_, _, .served σ r h.1, rfl, ?_⟩)) h.2
      fun r' hr' => hrs r' (List.mem_cons_of_mem r hr')
    intro r' hr'
    cases hr'
    exact hrs r List.mem_cons_self

/-- The advances of a retirement of a generation that is being created, down to `destroying`. -/
def downward (id : Uuid) (now : Int) : List (Request P) :=
  [.generationAdvance id .cleanupRequired ⟨101⟩ now, .generationAdvance id .retiring ⟨102⟩ now,
    .generationAdvance id .destroyPending ⟨103⟩ now, .generationAdvance id .destroying ⟨104⟩ now]

theorem performed {c : Call} {w w₁ : World} (op : Operation) (a : op.Answer)
    {k : op.Answer → Routine DestroyOutcome}
    (h : Reachable (Session.Initial World.Initial) (session P self id).Step
      ⟨w, some (c, .perform op k)⟩) (ha : Effect P w op a w₁) :
    Reachable (Session.Initial World.Initial) (session P self id).Step
      ⟨{ w₁ with history := noted op a ++ w₁.history }, some (c, k a)⟩ :=
  h.next (.performed ⟨w₁, ha, rfl⟩)

/-- The row of a generation that is being created. -/
def creatingRow (g : GenerationRow) : GenerationRow :=
  { g with state := .creating, expiryRequestedAt := none }

/-- Where a retirement of a never started generation stands before its last advance. -/
theorem reached_last {σ : System} (row : GenerationRow) (now : Int)
    (h : Reachable (Session.Initial World.Initial) (session P self id).Step
      ⟨⟨σ, .empty, []⟩, none⟩)
    (hrow : (σ.view id).generation = some (creatingRow row))
    (hnone : σ.daemon.store.operations.rows.isEmpty = true)
    (hdown : ((downward id now).foldl (fun (e : System × Bool) r =>
      (e.1.serve P r, e.2 && (e.1.daemon.exec P r).2.isOk)) (σ, true)).2 = true) :
    ∃ k, Reachable (Session.Initial World.Initial) (session P self id).Step
      ⟨⟨σ.play P (downward id now), .empty, [.answered .gone]⟩,
        some (.retire ((creatingRow row).record id) now,
          .perform (.generationAdvance id .destroyed now) k)⟩ := by
  have hprovenance : σ.daemon.store.originalProvenance id = .ok none := by
    simp [Store.originalProvenance, Store.createOperations, List.isEmpty_iff.mp hnone]
  have hopen : σ.daemon.store.openOperations id = [] := by
    simp [Store.openOperations, List.isEmpty_iff.mp hnone]
  simp only [downward, List.foldl_cons, List.foldl_nil, Bool.and_eq_true, true_and] at hdown
  obtain ⟨⟨⟨h₁, h₂⟩, h₃⟩, h₄⟩ := hdown
  have hbegun := h.next (.begun (c := .retire ((creatingRow row).record id) now)
    ⟨_, hrow, rfl⟩)
  have hlife := performed (P := P) (.generationLifetime id) (creatingRow row).lifetime
    hbegun ⟨rfl, _, hrow, rfl⟩
  have hdue := performed (P := P) (.backoffDue id now) true hlife ⟨rfl, rfl⟩
  have hprov := performed (P := P) (.originalProvenance id) none hdue ⟨rfl, hprovenance⟩
  have hops := performed (P := P) (.openOperations id) [] hprov ⟨rfl, hopen.symm⟩
  have hadmit := performed (P := P) (.admitRemoval _ _) .gone hops rfl
  have hw₁ := performed (P := P) (.generationAdvance id .cleanupRequired now) () hadmit
    (Effect.of_advance h₁)
  have hw₂ := performed (P := P) (.generationAdvance id .retiring now) () hw₁
    (Effect.of_advance h₂)
  have hw₃ := performed (P := P) (.generationAdvance id .destroyPending now) () hw₂
    (Effect.of_advance h₃)
  have hw₄ := performed (P := P) (.generationAdvance id .destroying now) () hw₃
    (Effect.of_advance h₄)
  exact ⟨_, hw₄⟩

/-- The last advance of such a retirement ends the generation. -/
theorem ended_by_last {τ : System} {c : Call} {history : List Event} {now : Int} (requestId : Uuid)
    {k : Unit → Routine DestroyOutcome}
    (h : Reachable (Session.Initial World.Initial) (session P self id).Step
      ⟨⟨τ, .empty, history⟩, some (c, .perform (.generationAdvance id .destroyed now) k)⟩)
    (hok : (τ.daemon.exec P (.generationAdvance id .destroyed requestId now)).2.isOk = true)
    (hbefore : ((τ.view id).generation.map (·.state)) = some .destroying)
    (hafter : (((τ.serve P (.generationAdvance id .destroyed requestId now)).view id).generation.map
      (·.state)) = some .destroyed) :
    ∃ κ event κ', Reachable (Session.Initial World.Initial) (session P self id).Step κ ∧
      (session P self id).Step κ event κ' ∧
      event.effect = some (c, .generationAdvance id .destroyed now) ∧
      κ'.world.Destroyed id ∧ ¬ κ.world.Destroyed id := by
  refine ⟨_, _, _, h, .performed ⟨_, Effect.of_advance hok, rfl⟩, rfl, ?_, ?_⟩
  · obtain ⟨g, hg, hstate⟩ := Option.map_eq_some_iff.mp hafter
    exact ⟨g, hg, hstate⟩
  · rintro ⟨g, hg, hstate⟩
    have hg : (τ.view id).generation = some g := hg
    rw [hg] at hbefore
    cases hstate.symm.trans (Option.some.inj hbefore)

open Script

def neverStarted : List (Request platform) :=
  [.fleetChanged "fleet" fleet, .generationInsert record,
    .generationAdvance generation .creating ⟨90⟩ 200]

/-- A retirement of a generation that never started reaches its last advance and ends it. -/
theorem neverStarted_ended {σ : System}
    (hσ : σ = (System.initial 2).play platform neverStarted) :
    ∃ κ c event κ', Reachable (Session.Initial World.Initial)
        (session platform ⟨"/artifacts", 0⟩ generation).Step κ ∧
      (session platform ⟨"/artifacts", 0⟩ generation).Step κ event κ' ∧
      event.effect = some (c, .generationAdvance generation .destroyed 300) ∧
      κ'.world.Destroyed generation ∧ ¬ κ.world.Destroyed generation := by
  have hreached : Reachable (Session.Initial World.Initial)
      (session platform ⟨"/artifacts", 0⟩ generation).Step ⟨⟨σ, .empty, []⟩, none⟩ := by
    have hplay : (System.initial 2).Plays platform neverStarted := by decide +kernel
    rw [hσ]
    refine reached_of_plays (.of_init ⟨⟨2, rfl⟩, rfl⟩) hplay ?_
    intro r hr
    simp only [neverStarted, List.mem_cons, List.not_mem_nil, or_false] at hr
    rcases hr with rfl | rfl | rfl <;> rintro (⟨h | h⟩ | _) <;> cases h
  have hlast := reached_last { record.row with updatedAt := 200 } 300 hreached
  rw [hσ] at hlast
  obtain ⟨k, hlast⟩ := hlast (by decide +kernel) (by decide +kernel) (by decide +kernel)
  obtain ⟨κ, event, κ', h⟩ := ended_by_last ⟨105⟩ hlast (by decide +kernel)
    (by decide +kernel) (by decide +kernel)
  exact ⟨κ, _, event, κ', h⟩

/-- The last advance of a retirement ends a generation that never started. -/
theorem removals_ordered_sample :
    ∃ κ event κ', Reachable (Session.Initial World.Initial)
        (session platform ⟨"/artifacts", 0⟩ generation).Step κ ∧
      (session platform ⟨"/artifacts", 0⟩ generation).Step κ event κ' ∧
      κ'.world.Destroyed generation ∧ ¬ κ.world.Quarantined generation ∧
      (κ.world.CreateStarted generation → κ.world.Gone ∧ κ.world.Cleaned) := by
  obtain ⟨κ, c, event, κ', hreached, hstep, heffect, hafter, hbefore⟩ := neverStarted_ended rfl
  refine ⟨κ, event, κ', hreached, hstep, hafter, ?_⟩
  exact ((removals_ordered hreached hstep).2.2.2 c _ heffect hafter).resolve_left hbefore

end Sample

end RunnerOperation

end Shaula
