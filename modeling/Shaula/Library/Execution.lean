import Shaula.Library.Program

/-! # Executions of a program that has its world to itself

A program that holds the only lock on its world sees no step of others between its effects.  It
still may end anywhere: an effect fails, or happens with nobody left to hear the answer.
-/

namespace Shaula.Library

namespace Program

variable {F : Interface} {W ε α β : Type}

/-- Go on with the value of a computation, or fail as it did. -/
def ofExcept : Except ε α → Program F ε α
  | .ok a => done a
  | .error e => fail e

/-- `Runs act p w ops r w'`: the program takes the world from `w` to `w'` with these effects having
happened, and returns `r` unless an effect was not answered. -/
inductive Runs (act : W → (op : F.Op) → F.Answer op → W → Prop) :
    Program F ε α → W → List F.Op → Option (Except ε α) → W → Prop
  | done {a : α} {w : W} : Runs act (.done a) w [] (some (.ok a)) w
  | fail {e : ε} {w : W} : Runs act (.fail e) w [] (some (.error e)) w
  | refused {op : F.Op} {k : F.Answer op → Program F ε α} {w : W} :
      Runs act (.perform op k) w [] none w
  | unanswered {op : F.Op} {k : F.Answer op → Program F ε α} {a : F.Answer op} {w w' : W} :
      act w op a w' → Runs act (.perform op k) w [op] none w'
  | answered {op : F.Op} {k : F.Answer op → Program F ε α} {a : F.Answer op} {ops : List F.Op}
      {r : Option (Except ε α)} {w w' w'' : W} : act w op a w' → Runs act (k a) w' ops r w'' →
      Runs act (.perform op k) w (op :: ops) r w''

/-- The end of a program that did not return a value, as the end of one that was to go on with
it. -/
def cut : Option (Except ε α) → Option (Except ε β)
  | some (.error e) => some (.error e)
  | _ => none

@[simp] theorem cut_none : cut (none : Option (Except ε α)) = (none : Option (Except ε β)) := rfl

@[simp] theorem cut_error (e : ε) :
    cut (some (.error e) : Option (Except ε α)) = (some (.error e) : Option (Except ε β)) := rfl

theorem cut_ne_ok (r : Option (Except ε α)) (b : β) : cut r ≠ some (.ok b) := by
  intro h
  rcases r with - | e | a <;> cases h

namespace Runs

variable {act : W → (op : F.Op) → F.Answer op → W → Prop} {w w' : W} {ops : List F.Op}

theorem of_done {a : α} {r : Option (Except ε α)}
    (h : Runs act (.done a : Program F ε α) w ops r w') :
    ops = [] ∧ r = some (.ok a) ∧ w' = w := by
  cases h
  exact ⟨rfl, rfl, rfl⟩

theorem of_fail {e : ε} {r : Option (Except ε α)}
    (h : Runs act (.fail e : Program F ε α) w ops r w') :
    ops = [] ∧ r = some (.error e) ∧ w' = w := by
  cases h
  exact ⟨rfl, rfl, rfl⟩

/-- A sequence of programs comes to its end in the second one, or is cut in the first. -/
theorem of_bind {p : Program F ε α} {f : α → Program F ε β} {r : Option (Except ε β)}
    (h : Runs act (p >>= f) w ops r w') :
    (∃ a w₁ first rest, Runs act p w first (some (.ok a)) w₁ ∧ Runs act (f a) w₁ rest r w' ∧
      ops = first ++ rest) ∨
      ∃ r₀ : Option (Except ε α), Runs act p w ops r₀ w' ∧ (∀ a, r₀ ≠ some (.ok a)) ∧
        r = cut r₀ := by
  induction p generalizing w ops with
  | done a => exact .inl ⟨a, w, [], ops, .done, h, rfl⟩
  | fail e =>
    obtain ⟨rfl, rfl, rfl⟩ := of_fail h
    exact .inr ⟨_, .fail, fun a => by simp, rfl⟩
  | perform op k ih =>
    cases h with
    | refused => exact .inr ⟨_, .refused, fun a => by simp, rfl⟩
    | unanswered hact => exact .inr ⟨_, .unanswered hact, fun a => by simp, rfl⟩
    | answered hact hrest =>
      rcases ih _ hrest with ⟨b, w₁, first, rest, hfirst, hsecond, rfl⟩ | ⟨r₀, hcut, hne, rfl⟩
      · exact .inl ⟨b, w₁, _ :: first, rest, .answered hact hfirst, hsecond, rfl⟩
      · exact .inr ⟨r₀, .answered hact hcut, hne, rfl⟩

theorem bind {p : Program F ε α} {f : α → Program F ε β} {r : Option (Except ε β)} {a : α}
    {w₁ : W} {first rest : List F.Op} (h : Runs act p w first (some (.ok a)) w₁)
    (hf : Runs act (f a) w₁ rest r w') : Runs act (p >>= f) w (first ++ rest) r w' := by
  generalize hr : (some (.ok a) : Option (Except ε α)) = r₀ at h
  induction h with
  | done =>
    cases hr
    exact hf
  | fail | refused | unanswered => cases hr
  | answered hact _ ih => exact .answered hact (ih hf hr)

theorem of_ensure_bind {p : Prop} [Decidable p] {e : ε} {f : Unit → Program F ε β}
    {r : Option (Except ε β)} (h : Runs act (.ensure p e >>= f) w ops r w') :
    (p ∧ Runs act (f ()) w ops r w') ∨
      (¬ p ∧ ops = [] ∧ r = some (.error e) ∧ w' = w) := by
  unfold Program.ensure at h
  split at h
  · next hp => exact .inl ⟨hp, h⟩
  · next hp => exact .inr ⟨hp, of_fail h⟩

theorem of_okOr_bind {o : Option α} {e : ε} {f : α → Program F ε β}
    {r : Option (Except ε β)} (h : Runs act (.okOr o e >>= f) w ops r w') :
    (∃ a, o = some a ∧ Runs act (f a) w ops r w') ∨
      (o = none ∧ ops = [] ∧ r = some (.error e) ∧ w' = w) := by
  cases o with
  | none => exact .inr ⟨rfl, of_fail h⟩
  | some a => exact .inl ⟨a, rfl, h⟩

/-- One effect, and what goes on with its answer. -/
theorem of_lift_bind {op : F.Op} {f : F.Answer op → Program F ε β} {r : Option (Except ε β)}
    (h : Runs act (.lift op >>= f) w ops r w') :
    (∃ a w₁ rest, act w op a w₁ ∧ Runs act (f a) w₁ rest r w' ∧ ops = op :: rest) ∨
      (r = none ∧ ((ops = [] ∧ w' = w) ∨ ∃ a, ops = [op] ∧ act w op a w')) := by
  cases h with
  | refused => exact .inr ⟨rfl, .inl ⟨rfl, rfl⟩⟩
  | unanswered hact => exact .inr ⟨rfl, .inr ⟨_, rfl, hact⟩⟩
  | answered hact hrest => exact .inl ⟨_, _, _, hact, hrest, rfl⟩

/-- One effect as a whole program. -/
theorem of_lift {op : F.Op} {r : Option (Except ε (F.Answer op))}
    (h : Runs act (.lift op : Program F ε (F.Answer op)) w ops r w') :
    (w' = w ∧ r = none) ∨ ∃ a, act w op a w' ∧ (r = none ∨ r = some (.ok a)) := by
  cases h with
  | refused => exact .inl ⟨rfl, rfl⟩
  | unanswered hact => exact .inr ⟨_, hact, .inl rfl⟩
  | answered hact hrest =>
    obtain ⟨-, rfl, rfl⟩ := of_done hrest
    exact .inr ⟨_, hact, .inr rfl⟩

/-- A program with its value changed ends as it does alone. -/
theorem of_map {p : Program F ε α} {f : α → β} {r : Option (Except ε β)}
    (h : Runs act (p >>= fun a => .done (f a)) w ops r w') :
    ∃ r₀ : Option (Except ε α), Runs act p w ops r₀ w' ∧ r = r₀.map (·.map f) := by
  rcases of_bind h with ⟨a, w₁, first, rest, hp, hdone, rfl⟩ | ⟨r₀, hp, hne, rfl⟩
  · obtain ⟨rfl, rfl, rfl⟩ := of_done hdone
    exact ⟨_, by rwa [List.append_nil], rfl⟩
  · refine ⟨r₀, hp, ?_⟩
    rcases r₀ with - | e | a
    · rfl
    · rfl
    · exact absurd rfl (hne a)

/-- **Frame rule.**  What holds across each effect in `P`, and is reflexive and transitive, holds
across every execution of a program of such effects. -/
theorem relates {P : F.Op → Prop} {R : W → W → Prop} {p : Program F ε α}
    {r : Option (Except ε α)} (hrefl : ∀ w, R w w)
    (htrans : ∀ w w₁ w₂, R w w₁ → R w₁ w₂ → R w w₂)
    (hact : ∀ op, P op → ∀ w a w', act w op a w' → R w w') (hp : p.Only P)
    (h : Runs act p w ops r w') : R w w' := by
  induction h with
  | done | fail | refused => exact hrefl _
  | unanswered hstep => exact hact _ hp.1 _ _ _ hstep
  | answered hstep _ ih => exact htrans _ _ _ (hact _ hp.1 _ _ _ hstep) (ih (hp.2 _))

end Runs

/-! ### What is returned -/

/-- Whatever is answered, a value that is returned is in `Q`. -/
def Yields (Q : α → Prop) : Program F ε α → Prop
  | .done a => Q a
  | .fail _ => True
  | .perform _ k => ∀ answer, Yields Q (k answer)

theorem Yields.bind {Q : β → Prop} {p : Program F ε α} {f : α → Program F ε β}
    (h : ∀ a, Yields Q (f a)) : Yields Q (p >>= f) := by
  induction p with
  | done a => exact h a
  | fail e => exact trivial
  | perform op k ih => exact fun answer => ih answer

theorem Runs.yields {act : W → (op : F.Op) → F.Answer op → W → Prop} {Q : α → Prop} {w w' : W}
    {p : Program F ε α} {ops : List F.Op} {a : α} (hp : p.Yields Q)
    (h : Runs act p w ops (some (.ok a)) w') : Q a := by
  generalize hr : (some (.ok a) : Option (Except ε α)) = r at h
  induction h with
  | done =>
    cases hr
    exact hp
  | fail | refused | unanswered => cases hr
  | answered _ _ ih => exact ih (hp _) hr

/-! ### Answers for certain -/

/-- Answers that the world may give make an execution. -/
theorem runs_play {act : W → (op : F.Op) → F.Answer op → W → Prop}
    {answer : W → (op : F.Op) → Option (F.Answer op × W)}
    (hanswer : ∀ w op a w', answer w op = some (a, w') → act w op a w') (p : Program F ε α) (w : W) :
    ∃ ops, Runs act p w ops (p.play answer w).2.ended (p.play answer w).1 := by
  induction p generalizing w with
  | done a => exact ⟨[], .done⟩
  | fail e => exact ⟨[], .fail⟩
  | perform op k ih =>
    simp only [play]
    cases hop : answer w op with
    | none => exact ⟨[], .refused⟩
    | some result =>
      obtain ⟨a, w'⟩ := result
      obtain ⟨ops, hruns⟩ := ih a w'
      exact ⟨op :: ops, .answered (hanswer w op a w' hop) hruns⟩

/-- Answered in this way the program comes to its end, with a value and a world as `Q` says. -/
def Leads (answer : W → (op : F.Op) → Option (F.Answer op × W)) (p : Program F ε α) (w : W)
    (Q : α → W → Prop) : Prop :=
  ∃ a w', p.play answer w = (w', .done a) ∧ Q a w'

namespace Leads

variable {answer : W → (op : F.Op) → Option (F.Answer op × W)} {w : W} {Q : α → W → Prop}

theorem done {a : α} (h : Q a w) : Leads answer (.done a : Program F ε α) w Q :=
  ⟨a, w, rfl, h⟩

theorem lift {op : F.Op} {Q : F.Answer op → W → Prop} {a : F.Answer op} {w' : W}
    (hop : answer w op = some (a, w')) (h : Q a w') :
    Leads answer (.lift op : Program F ε (F.Answer op)) w Q := by
  refine ⟨a, w', ?_, h⟩
  simp only [Program.lift, play, hop]

theorem mono {p : Program F ε α} {Q' : α → W → Prop} (hQ : ∀ a w, Q a w → Q' a w)
    (h : Leads answer p w Q) : Leads answer p w Q' := by
  obtain ⟨a, w', hplay, hQa⟩ := h
  exact ⟨a, w', hplay, hQ a w' hQa⟩

/-- **Sequence rule.** -/
theorem bind {p : Program F ε α} {f : α → Program F ε β} {Q : β → W → Prop}
    (h : Leads answer p w fun a w' => Leads answer (f a) w' Q) : Leads answer (p >>= f) w Q := by
  obtain ⟨a, w', hplay, hrest⟩ := h
  induction p generalizing w with
  | done a' =>
    cases hplay
    exact hrest
  | fail e => cases hplay
  | perform op k ih =>
    simp only [play] at hplay
    cases hop : answer w op with
    | none =>
      rw [hop] at hplay
      cases hplay
    | some result =>
      obtain ⟨b, w₁⟩ := result
      rw [hop] at hplay
      obtain ⟨c, w₂, hk, hQ⟩ := ih b hplay
      refine ⟨c, w₂, ?_, hQ⟩
      change (Program.perform op fun b => (k b).bind f).play answer w = _
      simp only [play, hop]
      exact hk

end Leads

end Program

end Shaula.Library
