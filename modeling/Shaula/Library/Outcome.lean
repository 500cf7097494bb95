import Mathlib.Data.List.Forall2
import Mathlib.Tactic.Common

/-! # Fallible computations

Guards and option projections in `Except`, with the inversion lemmas that take a successful
computation apart: each rewrites "this computation returned `a`" to what had to hold for that.
-/

namespace Shaula.Library.Outcome

universe u

variable {ε α β : Type u}

/-- Continue only if `p` holds, otherwise fail with `e`. -/
def ensure (p : Prop) [Decidable p] (e : ε) : Except ε PUnit :=
  if p then .ok ⟨⟩ else .error e

/-- The value of an option, or the failure `e` when there is none. -/
def okOr (o : Option α) (e : ε) : Except ε α :=
  match o with
  | some a => .ok a
  | none => .error e

/-! ## Successful computations -/

@[simp] theorem bind_eq_ok {x : Except ε α} {f : α → Except ε β} {b : β} :
    (x >>= f) = .ok b ↔ ∃ a, x = .ok a ∧ f a = .ok b := by
  cases x <;> simp [bind, Except.bind]

@[simp] theorem pure_eq_ok {a b : α} : (pure a : Except ε α) = .ok b ↔ a = b := by
  simp [pure, Except.pure]

@[simp] theorem ensure_eq_ok {p : Prop} [Decidable p] {e : ε} {u : PUnit} :
    ensure p e = .ok u ↔ p := by
  by_cases h : p <;> simp [ensure, h]

@[simp] theorem okOr_eq_ok {o : Option α} {e : ε} {a : α} :
    okOr o e = .ok a ↔ o = some a := by
  cases o <;> simp [okOr]

@[simp] theorem mapError_eq_ok {δ : Type u} {x : Except ε α} {f : ε → δ} {a : α} :
    x.mapError f = .ok a ↔ x = .ok a := by
  cases x <;> simp [Except.mapError]

@[simp] theorem map_eq_ok {x : Except ε α} {f : α → β} {b : β} :
    (f <$> x) = .ok b ↔ ∃ a, x = .ok a ∧ f a = b := by
  cases x <;> simp [Functor.map, Except.map]

@[simp] theorem toOption_eq_some {x : Except ε α} {a : α} : x.toOption = some a ↔ x = .ok a := by
  cases x <;> simp [Except.toOption]

@[simp] theorem throw_ne_ok {e : ε} {a : α} : (throw e : Except ε α) = .ok a ↔ False := by
  simp [throw, throwThe, MonadExceptOf.throw]

/-- A loop of checks succeeds when each of them does. -/
@[simp] theorem forM_eq_ok {f : α → Except ε PUnit.{u + 1}} {l : List α} {r : PUnit.{u + 1}} :
    l.forM f = .ok r ↔ ∀ a ∈ l, f a = .ok ⟨⟩ := by
  induction l with
  | nil =>
    constructor
    · exact fun _ a ha => absurd ha List.not_mem_nil
    · exact fun _ => rfl
  | cons a rest ih =>
    change (f a >>= fun _ => rest.forM f) = _ ↔ _
    rw [bind_eq_ok]
    simp only [ih, List.mem_cons, forall_eq_or_imp]
    constructor
    · rintro ⟨_, ha, hrest⟩
      exact ⟨ha, hrest⟩
    · rintro ⟨ha, hrest⟩
      exact ⟨⟨⟩, ha, hrest⟩

/-- A loop that succeeds turned each element into the result at its place. -/
theorem mapM_eq_ok {f : α → Except ε β} {l : List α} {r : List β} :
    l.mapM f = .ok r ↔ List.Forall₂ (fun a b => f a = .ok b) l r := by
  induction l generalizing r with
  | nil => rw [List.mapM_nil, pure_eq_ok, List.forall₂_nil_left_iff, eq_comm]
  | cons a rest ih =>
    rw [List.mapM_cons, bind_eq_ok, List.forall₂_cons_left_iff]
    simp only [bind_eq_ok, pure_eq_ok, ih]
    constructor
    · rintro ⟨b, hb, bs, hbs, rfl⟩
      exact ⟨b, bs, hb, hbs, rfl⟩
    · rintro ⟨b, bs, hb, hbs, rfl⟩
      exact ⟨b, hb, bs, hbs, rfl⟩

/-- What is told of each result from its element is told of the whole loop. -/
theorem map_eq_of_mapM_eq_ok {γ : Type u} {f : α → Except ε β} {g : β → γ} {h : α → γ}
    {l : List α} {r : List β} (hr : l.mapM f = .ok r)
    (hstep : ∀ a ∈ l, ∀ b, f a = .ok b → g b = h a) : r.map g = l.map h := by
  have hforall := mapM_eq_ok.mp hr
  induction hforall with
  | nil => rfl
  | @cons a b l r hab hrest ih =>
    rw [List.map_cons, List.map_cons, hstep a List.mem_cons_self b hab,
      ih (mapM_eq_ok.mpr hrest) fun a ha => hstep a (List.mem_cons_of_mem _ ha)]

/-- Every step of a loop that succeeds did. -/
theorem exists_ok_of_mapM {f : α → Except ε β} {l : List α} {r : List β}
    (hr : l.mapM f = .ok r) {a : α} (ha : a ∈ l) : ∃ b, f a = .ok b := by
  have hforall := mapM_eq_ok.mp hr
  induction hforall with
  | nil => exact absurd ha List.not_mem_nil
  | @cons a' b l r hab hrest ih =>
    rcases List.mem_cons.mp ha with rfl | ha
    · exact ⟨b, hab⟩
    · exact ih (mapM_eq_ok.mpr hrest) ha

/-- A loop succeeds when each of its steps does. -/
theorem exists_mapM_eq_ok {f : α → Except ε β} {l : List α} (h : ∀ a ∈ l, ∃ b, f a = .ok b) :
    ∃ r, l.mapM f = .ok r := by
  induction l with
  | nil => exact ⟨[], rfl⟩
  | cons a rest ih =>
    obtain ⟨b, hb⟩ := h a List.mem_cons_self
    obtain ⟨r, hr⟩ := ih fun a ha => h a (List.mem_cons_of_mem _ ha)
    refine ⟨b :: r, ?_⟩
    rw [List.mapM_cons, hb, hr]
    rfl

/-- What every step of a successful fold preserves holds of its result. -/
theorem foldlM_invariant {σ : Type u} {f : σ → α → Except ε σ} {I : σ → Prop}
    (hstep : ∀ s a t, I s → f s a = .ok t → I t) {l : List α} {s t : σ}
    (h : l.foldlM f s = .ok t) (hs : I s) : I t := by
  induction l generalizing s with
  | nil => exact pure_eq_ok.mp h ▸ hs
  | cons a rest ih =>
    rw [List.foldlM_cons] at h
    obtain ⟨next, hnext, hrest⟩ := bind_eq_ok.mp h
    exact ih hrest (hstep s a next hs hnext)

/-- A success, from its test. -/
theorem exists_ok_of_isOk {x : Except ε α} (h : x.isOk = true) : ∃ a, x = .ok a := by
  cases x with
  | ok a => exact ⟨a, rfl⟩
  | error e => cases h

end Shaula.Library.Outcome
