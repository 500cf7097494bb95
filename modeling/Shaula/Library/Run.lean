import Mathlib.Data.List.Count
import Mathlib.Tactic.Common

/-! # Runs of a labelled transition system

A run lists its steps with the states before and after each of them.  The rules below turn what
one step preserves into what a whole run preserves: an invariant of states, a reflexive and
transitive relation between the first and the last state, and the "at most once" rule for steps
that need a flag to be clear and raise it for good.
-/

namespace Shaula.Library

variable {σ ℓ : Type*}

/-- `Run step s trace t`: the steps of `trace`, in order, lead from `s` to `t`. -/
inductive Run (step : σ → ℓ → σ → Prop) : σ → List (σ × ℓ × σ) → σ → Prop
  | nil (s : σ) : Run step s [] s
  | cons {s t u : σ} {l : ℓ} {trace : List (σ × ℓ × σ)} :
      step s l t → Run step t trace u → Run step s ((s, l, t) :: trace) u

/-- The states that runs from an initial state reach. -/
def Reachable (init : σ → Prop) (step : σ → ℓ → σ → Prop) (s : σ) : Prop :=
  ∃ s₀ trace, init s₀ ∧ Run step s₀ trace s

namespace Run

variable {step : σ → ℓ → σ → Prop} {s t u : σ} {trace trace' : List (σ × ℓ × σ)}

theorem single {l : ℓ} (h : step s l t) : Run step s [(s, l, t)] t :=
  .cons h (.nil t)

theorem append (h : Run step s trace t) (h' : Run step t trace' u) :
    Run step s (trace ++ trace') u := by
  induction h with
  | nil => exact h'
  | cons hstep _ ih => exact .cons hstep (ih h')

/-- A run of two parts passes a state between them. -/
theorem of_append (h : Run step s (trace ++ trace') u) :
    ∃ t, Run step s trace t ∧ Run step t trace' u := by
  induction trace generalizing s with
  | nil => exact ⟨s, .nil s, h⟩
  | cons e rest ih =>
    cases h with
    | cons hstep hrest =>
      obtain ⟨t, hfirst, hsecond⟩ := ih hrest
      exact ⟨t, .cons hstep hfirst, hsecond⟩

/-- The first step of a run starts where the run does. -/
theorem start_cons {e : σ × ℓ × σ} (h : Run step s (e :: trace) u) : e.1 = s := by
  cases h
  rfl

/-- A run of a restricted step relation is a run of the relation itself. -/
theorem mono {step' : σ → ℓ → σ → Prop} (himp : ∀ s l t, step s l t → step' s l t)
    (h : Run step s trace t) : Run step' s trace t := by
  induction h with
  | nil => exact .nil _
  | cons hstep _ ih => exact .cons (himp _ _ _ hstep) ih

/-- **Invariant rule.** -/
theorem invariant {I : σ → Prop} (hstep : ∀ s l t, I s → step s l t → I t)
    (h : Run step s trace t) (hs : I s) : I t := by
  induction h with
  | nil => exact hs
  | cons hst _ ih => exact ih (hstep _ _ _ hs hst)

/-- Every step of a run from an invariant state is a step from an invariant state. -/
theorem forall_mem {I : σ → Prop} {Q : σ → ℓ → σ → Prop}
    (hstep : ∀ s l t, I s → step s l t → I t) (hQ : ∀ s l t, I s → step s l t → Q s l t)
    (h : Run step s trace t) (hs : I s) : ∀ e ∈ trace, Q e.1 e.2.1 e.2.2 := by
  induction h with
  | nil => simp
  | cons hst _ ih =>
    intro e he
    rcases List.mem_cons.mp he with rfl | he
    · exact hQ _ _ _ hs hst
    · exact ih (hstep _ _ _ hs hst) e he

theorem mem_step {e : σ × ℓ × σ} (h : Run step s trace t) (he : e ∈ trace) :
    step e.1 e.2.1 e.2.2 :=
  h.forall_mem (I := fun _ => True) (Q := step) (fun _ _ _ _ _ => trivial)
    (fun _ _ _ _ hstep => hstep) trivial e he

/-- **Relation rule.**  What is reflexive, transitive and holds across each step holds across a
run. -/
theorem relates {I : σ → Prop} {R : σ → σ → Prop} (hrefl : ∀ s, R s s)
    (htrans : ∀ s t u, R s t → R t u → R s u) (hstep : ∀ s l t, I s → step s l t → I t)
    (hR : ∀ s l t, I s → step s l t → R s t) (h : Run step s trace t) (hs : I s) : R s t := by
  induction h with
  | nil => exact hrefl _
  | cons hst _ ih => exact htrans _ _ _ (hR _ _ _ hs hst) (ih (hstep _ _ _ hs hst))

/-- Once a flag that never goes down is up, no step that needs it down is in the run. -/
theorem countP_eq_zero {I f : σ → Prop} {p : σ × ℓ × σ → Bool}
    (hstep : ∀ s l t, I s → step s l t → I t) (hmono : ∀ s l t, I s → step s l t → f s → f t)
    (hp : ∀ s l t, I s → step s l t → p (s, l, t) = true → ¬ f s ∧ f t)
    (h : Run step s trace t) (hs : I s) (hf : f s) : trace.countP p = 0 := by
  induction h with
  | nil => rfl
  | @cons s t u l trace hst _ ih =>
    have hno : ¬ p (s, l, t) = true := fun hyes => (hp _ _ _ hs hst hyes).1 hf
    rw [List.countP_cons_of_neg hno]
    exact ih (hstep _ _ _ hs hst) (hmono _ _ _ hs hst hf)

/-- **At most once.**  Steps that need a flag down and leave it up, where no step takes the flag
down again, occur at most once in a run. -/
theorem countP_le_one {I f : σ → Prop} {p : σ × ℓ × σ → Bool}
    (hstep : ∀ s l t, I s → step s l t → I t) (hmono : ∀ s l t, I s → step s l t → f s → f t)
    (hp : ∀ s l t, I s → step s l t → p (s, l, t) = true → ¬ f s ∧ f t)
    (h : Run step s trace t) (hs : I s) : trace.countP p ≤ 1 := by
  induction h with
  | nil => exact Nat.zero_le _
  | @cons s t u l trace hst hrun ih =>
    have ht := hstep _ _ _ hs hst
    by_cases hyes : p (s, l, t) = true
    · have hup := (hp _ _ _ hs hst hyes).2
      have hrest := hrun.countP_eq_zero hstep hmono hp ht hup
      simp only [List.countP_cons_of_pos hyes, hrest, Nat.zero_add, Nat.le_refl]
    · rw [List.countP_cons_of_neg hyes]
      exact ih ht

/-- **Exactly once.**  Steps that raise a flag that no step takes down are counted by the flag. -/
theorem countP_add_flag {f : σ → Bool} {p : σ × ℓ × σ → Bool}
    (hmono : ∀ s l t, step s l t → f s = true → f t = true)
    (hp : ∀ s l t, step s l t → p (s, l, t) = (!f s && f t)) (h : Run step s trace t) :
    trace.countP p + (f s).toNat = (f t).toNat := by
  induction h with
  | nil => exact Nat.zero_add _
  | @cons s t u l trace hst hrun ih =>
    rw [List.countP_cons, hp _ _ _ hst, ← ih]
    cases hs : f s with
    | true =>
      rw [hmono _ _ _ hst hs]
      rfl
    | false => cases f t <;> simp

/-- **Balance.**  Where each step pays for what it takes, out of what it adds or out of a stock, a
run takes no more than it adds to the stock it starts with. -/
theorem countP_add_le {I : σ → Prop} {stock : σ → Nat} {p q : σ × ℓ × σ → Bool}
    (hstep : ∀ s l t, I s → step s l t → I t)
    (hpay : ∀ s l t, I s → step s l t →
      (p (s, l, t)).toNat + stock t ≤ (q (s, l, t)).toNat + stock s)
    (h : Run step s trace t) (hs : I s) :
    trace.countP p + stock t ≤ trace.countP q + stock s := by
  induction h with
  | nil => exact Nat.le_refl _
  | @cons s t u l trace hst _ ih =>
    have hfirst := hpay _ _ _ hs hst
    have hrest := ih (hstep _ _ _ hs hst)
    have hp : (((s, l, t) :: trace).countP p) = trace.countP p + (p (s, l, t)).toNat := by
      cases hpe : p (s, l, t) <;> simp [hpe]
    have hq : (((s, l, t) :: trace).countP q) = trace.countP q + (q (s, l, t)).toNat := by
      cases hqe : q (s, l, t) <;> simp [hqe]
    omega

/-- **No item twice.**  Where a step gives out only items whose flag is down and leaves these flags
up, and no step takes a flag down again, a run gives out no item twice. -/
theorem nodup_flatMap {α : Type*} {I : σ → Prop} {f : α → σ → Prop} {items : σ × ℓ × σ → List α}
    (hstep : ∀ s l t, I s → step s l t → I t)
    (hmono : ∀ a s l t, I s → step s l t → f a s → f a t)
    (hitems : ∀ s l t, I s → step s l t →
      (items (s, l, t)).Nodup ∧ ∀ a ∈ items (s, l, t), ¬ f a s ∧ f a t)
    (h : Run step s trace t) (hs : I s) :
    (trace.flatMap items).Nodup ∧ ∀ a ∈ trace.flatMap items, ¬ f a s := by
  induction h with
  | nil => exact ⟨List.nodup_nil, fun a ha => by cases ha⟩
  | @cons s t u l trace hst hrun ih =>
    obtain ⟨hnodup, hlater⟩ := ih (hstep _ _ _ hs hst)
    obtain ⟨hfirst, hflags⟩ := hitems _ _ _ hs hst
    rw [List.flatMap_cons]
    constructor
    · rw [List.nodup_append]
      refine ⟨hfirst, hnodup, ?_⟩
      rintro a ha b hb rfl
      exact hlater a hb (hflags a ha).2
    · intro a ha
      rcases List.mem_append.mp ha with ha | ha
      · exact (hflags a ha).1
      · exact fun hup => hlater a ha (hmono a _ _ _ hs hst hup)

end Run

/-! ## Deterministic systems -/

/-- The run that given labels make of a step function. -/
def play (f : σ → ℓ → σ) : σ → List ℓ → List (σ × ℓ × σ)
  | _, [] => []
  | s, l :: labels => (s, l, f s l) :: play f (f s l) labels

variable {f : σ → ℓ → σ}

theorem run_play (s : σ) (labels : List ℓ) :
    Run (fun s l t => t = f s l) s (play f s labels) (labels.foldl f s) := by
  induction labels generalizing s with
  | nil => exact .nil s
  | cons l labels ih => exact .cons rfl (ih (f s l))

/-- The last step of a played run. -/
theorem mem_play_append (s : σ) (labels : List ℓ) (l : ℓ) :
    (labels.foldl f s, l, f (labels.foldl f s) l) ∈ play f s (labels ++ [l]) := by
  induction labels generalizing s with
  | nil => exact List.mem_singleton.mpr rfl
  | cons first labels ih => exact List.mem_cons_of_mem _ (ih (f s first))

namespace Reachable

variable {init : σ → Prop} {step : σ → ℓ → σ → Prop} {s t : σ}

theorem of_init (h : init s) : Reachable init step s :=
  ⟨s, [], h, .nil s⟩

theorem run {trace : List (σ × ℓ × σ)} (h : Reachable init step s) (hr : Run step s trace t) :
    Reachable init step t := by
  obtain ⟨s₀, trace₀, h₀, hr₀⟩ := h
  exact ⟨s₀, trace₀ ++ trace, h₀, hr₀.append hr⟩

theorem next {l : ℓ} (h : Reachable init step s) (hst : step s l t) : Reachable init step t :=
  h.run (.single hst)

/-- What holds initially and is preserved by every step holds in every reachable state. -/
theorem invariant {I : σ → Prop} (hinit : ∀ s, init s → I s)
    (hstep : ∀ s l t, I s → step s l t → I t) (h : Reachable init step s) : I s := by
  obtain ⟨s₀, trace, h₀, hr⟩ := h
  exact hr.invariant hstep (hinit s₀ h₀)

theorem mono {step' : σ → ℓ → σ → Prop} (himp : ∀ s l t, step s l t → step' s l t)
    (h : Reachable init step s) : Reachable init step' s := by
  obtain ⟨s₀, trace, h₀, hr⟩ := h
  exact ⟨s₀, trace, h₀, hr.mono himp⟩

end Reachable

end Shaula.Library
