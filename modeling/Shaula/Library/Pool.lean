import Shaula.Library.Program

/-! # Pools of programs

Any number of programs run at once in one world, each of them one effect at a time.  What an answer
makes a program do next cannot be prevented by the others, only delayed.
-/

namespace Shaula.Library

namespace Program

variable {F : Interface} {ε α β : Type}

/-- The failure of a program as a value. -/
def attempt : Program F ε α → Program F ε (Except ε α)
  | done a => done (.ok a)
  | fail e => done (.error e)
  | perform op k => perform op fun answer => (k answer).attempt

/-- The effect after an answer is the one it demands, if it demands one. -/
def Heeds (demand : (op : F.Op) → F.Answer op → Option F.Op) : Program F ε α → Prop
  | done _ => True
  | fail _ => True
  | perform op k => ∀ a, (∀ next, demand op a = some next → (k a).next = some next) ∧
    Heeds demand (k a)

variable {demand : (op : F.Op) → F.Answer op → Option F.Op}

theorem next_bind {p : Program F ε α} {f : α → Program F ε β} {op : F.Op}
    (h : p.next = some op) : (p >>= f).next = some op := by
  obtain ⟨k, rfl⟩ := eq_perform_of_next h
  rfl

theorem next_attempt {p : Program F ε α} {op : F.Op} (h : p.next = some op) :
    p.attempt.next = some op := by
  obtain ⟨k, rfl⟩ := eq_perform_of_next h
  rfl

namespace Heeds

theorem bind {p : Program F ε α} {f : α → Program F ε β} (hp : p.Heeds demand)
    (hf : ∀ a, (f a).Heeds demand) : (p >>= f).Heeds demand := by
  induction p with
  | done a => exact hf a
  | fail e => exact trivial
  | perform op k ih =>
    intro a
    obtain ⟨hnext, hrest⟩ := hp a
    exact ⟨fun next h => next_bind (hnext next h), ih a hrest⟩

theorem attempt {p : Program F ε α} (hp : p.Heeds demand) : p.attempt.Heeds demand := by
  induction p with
  | done | fail => exact trivial
  | perform op k ih =>
    intro a
    obtain ⟨hnext, hrest⟩ := hp a
    exact ⟨fun next h => next_attempt (hnext next h), ih a hrest⟩

/-- An effect whose answers demand nothing. -/
theorem after {op : F.Op} {f : F.Answer op → Program F ε α} (hop : ∀ a, demand op a = none)
    (hf : ∀ a, (f a).Heeds demand) : (Program.lift op >>= f).Heeds demand := by
  refine fun a => ⟨fun next h => ?_, hf a⟩
  rw [hop] at h
  cases h

theorem ensure_bind {p : Prop} [Decidable p] {e : ε} {f : Unit → Program F ε α}
    (hf : (f ()).Heeds demand) : (Program.ensure p e >>= f).Heeds demand := by
  unfold Program.ensure
  split
  · exact hf
  · exact trivial

end Heeds

end Program

/-! ## Pools -/

/-- Programs that are called at any time, in a world that others change as well. -/
structure Pool (F : Interface) (C W ε α : Type) where
  env : W → W → Prop
  /-- The effect of a caller happened, with this answer. -/
  act : Nat → W → (op : F.Op) → F.Answer op → W → Prop
  body : C → Program F ε α
  /-- A caller that is done lets go of what it has. -/
  leave : Nat → W → W

namespace Pool

variable {F : Interface} {C W ε α : Type}

/-- The world, and the rest of every caller's program. -/
structure Config (F : Interface) (C W ε α : Type) where
  world : W
  calls : Nat → Option (C × Program F ε α)

inductive Event (F : Interface) (C ε α : Type) where
  | interfered
  | begun (i : Nat) (c : C)
  | performed (i : Nat) (op : F.Op) (a : F.Answer op)
  | returned (i : Nat) (result : Except ε α)

inductive Step (P : Pool F C W ε α) :
    Config F C W ε α → Event F C ε α → Config F C W ε α → Prop
  | interfered {w w' : W} {calls : Nat → Option (C × Program F ε α)} : P.env w w' →
      Step P ⟨w, calls⟩ .interfered ⟨w', calls⟩
  | begun {w : W} {calls : Nat → Option (C × Program F ε α)} {i : Nat} {c : C} :
      calls i = none →
      Step P ⟨w, calls⟩ (.begun i c) ⟨w, Function.update calls i (some (c, P.body c))⟩
  | performed {w w' : W} {calls : Nat → Option (C × Program F ε α)} {i : Nat} {c : C} {op : F.Op}
      {k : F.Answer op → Program F ε α} {a : F.Answer op} :
      calls i = some (c, .perform op k) → P.act i w op a w' →
      Step P ⟨w, calls⟩ (.performed i op a) ⟨w', Function.update calls i (some (c, k a))⟩
  | done {w : W} {calls : Nat → Option (C × Program F ε α)} {i : Nat} {c : C} {a : α} :
      calls i = some (c, .done a) →
      Step P ⟨w, calls⟩ (.returned i (.ok a)) ⟨P.leave i w, Function.update calls i none⟩
  | fail {w : W} {calls : Nat → Option (C × Program F ε α)} {i : Nat} {c : C} {e : ε} :
      calls i = some (c, .fail e) →
      Step P ⟨w, calls⟩ (.returned i (.error e)) ⟨P.leave i w, Function.update calls i none⟩

/-- Nobody has called yet. -/
def Initial (init : W → Prop) (κ : Config F C W ε α) : Prop :=
  init κ.world ∧ ∀ i, κ.calls i = none

/-- Some caller performs this effect next. -/
def Pending (κ : Config F C W ε α) (op : F.Op) : Prop :=
  ∃ i c p, κ.calls i = some (c, p) ∧ p.next = some op

/-- The rest of every call is as `Q` says. -/
def Rests (Q : C → Program F ε α → Prop) (κ : Config F C W ε α) : Prop :=
  ∀ i c p, κ.calls i = some (c, p) → Q c p

/-- What the answers to every caller demand is done. -/
def Heeding (demand : (op : F.Op) → F.Answer op → Option F.Op) (κ : Config F C W ε α) : Prop :=
  ∀ i c p, κ.calls i = some (c, p) → p.Heeds demand

variable {P : Pool F C W ε α} {κ κ' : Config F C W ε α} {event : Event F C ε α} {op next : F.Op}
  {demand : (op : F.Op) → F.Answer op → Option F.Op}

/-- What the bodies are, and every answer leaves them, is the rest of every call. -/
theorem Rests.step {Q : C → Program F ε α → Prop} (hbody : ∀ c, Q c (P.body c))
    (hnext : ∀ c op k a, Q c (.perform op k) → Q c (k a)) (h : Rests Q κ)
    (hstep : P.Step κ event κ') : Rests Q κ' := by
  have hupdate : ∀ (calls : Nat → Option (C × Program F ε α)) i call,
      (∀ j c p, calls j = some (c, p) → Q c p) → (∀ c p, call = some (c, p) → Q c p) →
      ∀ j c p, Function.update calls i call j = some (c, p) → Q c p := by
    intro calls i call hcalls hcall j c p hj
    by_cases hji : j = i
    · rw [hji, Function.update_self] at hj
      exact hcall c p hj
    · rw [Function.update_of_ne hji] at hj
      exact hcalls j c p hj
  cases hstep with
  | interfered => exact h
  | begun =>
    refine hupdate _ _ _ h fun c p hc => ?_
    cases hc
    exact hbody _
  | performed hcall =>
    refine hupdate _ _ _ h fun c p hc => ?_
    cases hc
    exact hnext _ _ _ _ (h _ _ _ hcall)
  | done | fail =>
    refine hupdate _ _ _ h fun c p hc => ?_
    cases hc

theorem Heeding.step (hbody : ∀ c, (P.body c).Heeds demand) (h : Heeding demand κ)
    (hstep : P.Step κ event κ') : Heeding demand κ' :=
  Rests.step (Q := fun _ p => p.Heeds demand) hbody (fun _ _ _ a h => (h a).2) h hstep

/-- A caller that is about to perform an effect stays so until it does. -/
theorem Pending.step (h : Pending κ op) (hstep : P.Step κ event κ') :
    (∃ i a, event = .performed i op a) ∨ Pending κ' op := by
  obtain ⟨i, c, p, hcall, hnext⟩ := h
  have hother : ∀ (w : W) calls j call, calls i = some (c, p) → i ≠ j →
      Pending (⟨w, Function.update calls j call⟩ : Config F C W ε α) op := by
    intro w calls j call hi hij
    exact ⟨i, c, p, (Function.update_of_ne hij _ _).trans hi, hnext⟩
  cases hstep with
  | interfered => exact .inr ⟨i, c, p, hcall, hnext⟩
  | @begun w calls j _ hfree =>
    refine .inr (hother _ _ _ _ hcall fun hij => ?_)
    subst hij
    cases hfree.symm.trans hcall
  | @performed w w' calls j c' op' k a hcall' hact =>
    by_cases hij : i = j
    · subst hij
      cases hcall.symm.trans hcall'
      cases hnext
      exact .inl ⟨i, a, rfl⟩
    · exact .inr (hother _ _ _ _ hcall hij)
  | @done w calls j c' a hcall' =>
    refine .inr (hother _ _ _ _ hcall fun hij => ?_)
    subst hij
    cases hcall.symm.trans hcall'
    cases hnext
  | @fail w calls j c' e hcall' =>
    refine .inr (hother _ _ _ _ hcall fun hij => ?_)
    subst hij
    cases hcall.symm.trans hcall'
    cases hnext

/-- What an answer demands is pending. -/
theorem Heeding.demanded {i : Nat} {a : F.Answer op} (h : Heeding demand κ)
    (hstep : P.Step κ (.performed i op a) κ') (hnext : demand op a = some next) :
    Pending κ' next := by
  cases hstep with
  | performed hcall hact =>
    exact ⟨i, _, _, Function.update_self .., (h _ _ _ hcall _).1 next hnext⟩

/-- A caller gets to where answers the world may give lead it, by steps that are all allowed. -/
theorem reaches_play {start : Config F C W ε α → Prop}
    {R : Config F C W ε α → Event F C ε α → Config F C W ε α → Prop}
    {answer : W → (op : F.Op) → Option (F.Answer op × W)} {i : Nat} {c : C}
    (hanswer : ∀ w op a w' calls k, answer w op = some (a, w') →
      calls i = some (c, .perform op k) →
      R ⟨w, calls⟩ (.performed i op a) ⟨w', Function.update calls i (some (c, k a))⟩)
    {w : W} {p : Program F ε α} {calls : Nat → Option (C × Program F ε α)}
    (hcall : calls i = some (c, p)) (h : Reachable start R ⟨w, calls⟩) :
    Reachable start R
      ⟨(p.play answer w).1, Function.update calls i (some (c, (p.play answer w).2))⟩ := by
  have hsame : ∀ {p}, calls i = some (c, p) → Function.update calls i (some (c, p)) = calls :=
    fun hcall => hcall ▸ Function.update_eq_self i calls
  induction p generalizing w calls with
  | done | fail =>
    rw [Program.play, hsame hcall]
    exact h
  | perform op k ih =>
    cases hop : answer w op with
    | none =>
      simp only [Program.play, hop]
      rw [hsame hcall]
      exact h
    | some result =>
      simp only [Program.play, hop]
      have hnext := h.next (hanswer w op result.1 result.2 calls k hop hcall)
      have hrest := ih result.1 (Function.update_self ..) hnext
        fun hcall => hcall ▸ Function.update_eq_self i _
      rw [Function.update_idem] at hrest
      exact hrest

end Pool

end Shaula.Library
