import Shaula.Library.Execution
import Shaula.Library.Pool

/-! # What a caller has heard

A caller of a pool is as far as the answers have led it that the trace holds for it since it began.
What it returns is therefore a fact about the worlds in which these answers were given.
-/

namespace Shaula.Library

namespace Program

variable {F : Interface} {ε α : Type}

/-- `Follows p log q`: these answers lead `p` to `q`. -/
inductive Follows : Program F ε α → List (Σ op, F.Answer op) → Program F ε α → Prop
  | nil (p : Program F ε α) : Follows p [] p
  | cons {op : F.Op} {k : F.Answer op → Program F ε α} {a : F.Answer op}
      {log : List (Σ op, F.Answer op)} {q : Program F ε α} :
      Follows (k a) log q → Follows (perform op k) (⟨op, a⟩ :: log) q

theorem Follows.snoc {p : Program F ε α} {log : List (Σ op, F.Answer op)} {op : F.Op}
    {k : F.Answer op → Program F ε α} (h : Follows p log (perform op k)) (a : F.Answer op) :
    Follows p (log ++ [⟨op, a⟩]) (k a) := by
  generalize hq : perform op k = q at h
  induction h with
  | nil =>
    subst hq
    exact .cons (.nil _)
  | cons _ ih => exact .cons (ih hq)

namespace Follows

variable {β : Type} {log : List (Σ op, F.Answer op)}

/-- The log of a sequence is the log of its first part and that of its second. -/
theorem of_bind {p : Program F ε α} {f : α → Program F ε β} {b : β}
    (h : Follows (p >>= f) log (done b)) :
    ∃ first second a, log = first ++ second ∧ Follows p first (done a) ∧
      Follows (f a) second (done b) := by
  induction p generalizing log with
  | done a => exact ⟨[], log, a, rfl, .nil _, h⟩
  | fail e => cases h
  | perform op k ih =>
    cases h with
    | cons hrest =>
      obtain ⟨first, second, a, rfl, hfirst, hsecond⟩ := ih _ hrest
      exact ⟨_ :: first, second, a, rfl, .cons hfirst, hsecond⟩

theorem of_done {a b : α} (h : Follows (done a : Program F ε α) log (done b)) :
    log = [] ∧ b = a := by
  cases h
  exact ⟨rfl, rfl⟩

theorem of_lift_bind {op : F.Op} {f : F.Answer op → Program F ε α} {b : α}
    (h : Follows (Program.lift op >>= f) log (done b)) :
    ∃ a rest, log = ⟨op, a⟩ :: rest ∧ Follows (f a) rest (done b) := by
  cases h with
  | cons hrest => exact ⟨_, _, rfl, hrest⟩

theorem of_ensure_bind {p : Prop} [Decidable p] {e : ε} {f : Unit → Program F ε α} {b : α}
    (h : Follows (Program.ensure p e >>= f) log (done b)) :
    p ∧ Follows (f ()) log (done b) := by
  unfold Program.ensure at h
  split at h
  · next hp => exact ⟨hp, h⟩
  · cases h

theorem of_okOr_bind {o : Option α} {e : ε} {f : α → Program F ε β} {b : β}
    (h : Follows (Program.okOr o e >>= f) log (done b)) :
    ∃ a, o = some a ∧ Follows (f a) log (done b) := by
  cases o with
  | none => cases h
  | some a => exact ⟨a, rfl, h⟩

theorem of_ofExcept {r : Except ε α} {a : α}
    (h : Follows (Program.ofExcept r : Program F ε α) log (done a)) : log = [] ∧ r = .ok a := by
  cases r with
  | error e => cases h
  | ok a' =>
    obtain ⟨hlog, rfl⟩ := h.of_done
    exact ⟨hlog, rfl⟩

theorem of_ofExcept_bind {r : Except ε α} {f : α → Program F ε β} {b : β}
    (h : Follows (Program.ofExcept r >>= f) log (done b)) :
    ∃ a, r = .ok a ∧ Follows (f a) log (done b) := by
  cases r with
  | error e => cases h
  | ok a => exact ⟨a, rfl, h⟩

end Follows

/-! ### Answers that end a program -/

/-- After a fatal answer the program fails, with its error. -/
def FailsOn (fatal : (op : F.Op) → F.Answer op → Option ε) : Program F ε α → Prop
  | done _ => True
  | fail _ => True
  | perform op k => ∀ a, (∀ e, fatal op a = some e → k a = fail e) ∧ FailsOn fatal (k a)

namespace FailsOn

variable {β : Type} {fatal : (op : F.Op) → F.Answer op → Option ε}

theorem bind {p : Program F ε α} {f : α → Program F ε β} (hp : p.FailsOn fatal)
    (hf : ∀ a, (f a).FailsOn fatal) : (p >>= f).FailsOn fatal := by
  induction p with
  | done a => exact hf a
  | fail e => exact trivial
  | perform op k ih =>
    intro a
    obtain ⟨hfatal, hrest⟩ := hp a
    refine ⟨fun e he => ?_, ih a hrest⟩
    exact congrArg (· >>= f) (hfatal e he)

/-- An effect whose fatal answers the program goes on to fail with. -/
theorem after {op : F.Op} {f : F.Answer op → Program F ε α}
    (hop : ∀ a e, fatal op a = some e → f a = fail e) (hf : ∀ a, (f a).FailsOn fatal) :
    (Program.lift op >>= f).FailsOn fatal :=
  fun a => ⟨hop a, hf a⟩

theorem ensure {p : Prop} [Decidable p] {e : ε} :
    (Program.ensure p e : Program F ε Unit).FailsOn fatal := by
  unfold Program.ensure
  split <;> exact trivial

theorem okOr {o : Option α} {e : ε} : (Program.okOr o e : Program F ε α).FailsOn fatal := by
  cases o <;> exact trivial

theorem ofExcept {r : Except ε α} : (Program.ofExcept r : Program F ε α).FailsOn fatal := by
  cases r <;> exact trivial

end FailsOn

end Program

namespace Pool

variable {F : Interface} {C W ε α : Type} {P : Pool F C W ε α} {init : W → Prop}
  {κ κ₀ : Config F C W ε α} {i : Nat}

/-- An effect with its answer, and the worlds before and after it. -/
structure Heard (F : Interface) (W : Type) where
  before : W
  op : F.Op
  answer : F.Answer op
  after : W

def Heard.entry (e : Heard F W) : Σ op, F.Answer op := ⟨e.op, e.answer⟩

abbrev Trace (F : Interface) (C W ε α : Type) :=
  List (Config F C W ε α × Event F C ε α × Config F C W ε α)

/-- What caller `i` has heard after one more step. -/
def hear (i : Nat) (heard : List (Heard F W))
    (e : Config F C W ε α × Event F C ε α × Config F C W ε α) : List (Heard F W) :=
  match e.2.1 with
  | .interfered => heard
  | .begun j _ => if j = i then [] else heard
  | .performed j op a =>
    if j = i then heard ++ [⟨e.1.world, op, a, e.2.2.world⟩] else heard
  | .returned j _ => if j = i then [] else heard

/-- The answers to caller `i` since it began. -/
def heard (i : Nat) (trace : Trace F C W ε α) : List (Heard F W) := trace.foldl (hear i) []

/-- The rest of every call is its body after what it has heard. -/
def Follows (P : Pool F C W ε α) (heard : Nat → List (Heard F W)) (κ : Config F C W ε α) : Prop :=
  ∀ i c p, κ.calls i = some (c, p) → (P.body c).Follows ((heard i).map Heard.entry) p

theorem Follows.step {heard : Nat → List (Heard F W)} {event : Event F C ε α}
    {κ' : Config F C W ε α} (h : Follows P heard κ) (hstep : P.Step κ event κ') :
    Follows P (fun i => hear i (heard i) (κ, event, κ')) κ' := by
  intro i c p hcall
  have hother : ∀ {calls : Nat → Option (C × Program F ε α)} {j call}, j ≠ i →
      Function.update calls j call i = calls i :=
    fun hji => Function.update_of_ne (Ne.symm hji) _ _
  have hself : ∀ {calls : Nat → Option (C × Program F ε α)} {call},
      Function.update calls i call i = call := Function.update_self ..
  cases hstep with
  | interfered => exact h i c p hcall
  | @begun _ _ j =>
    by_cases hij : j = i
    · subst hij
      cases hself.symm.trans hcall
      simp only [hear, if_pos]
      exact .nil _
    · simp only [hear, if_neg hij]
      exact h i c p ((hother hij).symm.trans hcall)
  | @performed _ _ _ j _ _ _ a hbefore =>
    by_cases hij : j = i
    · subst hij
      cases hself.symm.trans hcall
      simp only [hear, if_pos, List.map_append]
      exact (h j _ _ hbefore).snoc a
    · simp only [hear, if_neg hij]
      exact h i c p ((hother hij).symm.trans hcall)
  | @done _ _ j | @fail _ _ j =>
    by_cases hij : j = i
    · subst hij
      cases hself.symm.trans hcall
    · simp only [hear, if_neg hij]
      exact h i c p ((hother hij).symm.trans hcall)

/-- **What a caller has heard led it to where it is.** -/
theorem follows_heard {trace : Trace F C W ε α} (hinit : Initial init κ₀)
    (h : Run P.Step κ₀ trace κ) : Follows P (fun i => heard i trace) κ := by
  have hrun : ∀ heard, Follows P heard κ₀ →
      Follows P (fun i => trace.foldl (hear i) (heard i)) κ := by
    clear hinit
    induction h with
    | nil => exact fun _ hstart => hstart
    | cons hstep _ ih => exact fun heard hstart => ih _ (hstart.step hstep)
  refine hrun (fun _ => []) fun i c p hcall => ?_
  rw [hinit.2 i] at hcall
  cases hcall

/-- What was heard happened in the trace. -/
theorem mem_heard {trace : Trace F C W ε α} {e : Heard F W} (he : e ∈ heard i trace) :
    ∃ step ∈ trace, step.2.1 = .performed i e.op e.answer ∧ step.1.world = e.before ∧
      step.2.2.world = e.after := by
  have hfold : ∀ start : List (Heard F W), e ∈ trace.foldl (hear i) start → e ∈ start ∨
      ∃ step ∈ trace, step.2.1 = .performed i e.op e.answer ∧ step.1.world = e.before ∧
        step.2.2.world = e.after := by
    clear he
    induction trace with
    | nil => exact fun _ he => .inl he
    | cons step trace ih =>
      intro start he
      rcases ih _ he with hstart | ⟨step', hmem, hstep'⟩
      · have hhear : e ∈ start ∨ step.2.1 = .performed i e.op e.answer ∧
            step.1.world = e.before ∧ step.2.2.world = e.after := by
          unfold hear at hstart
          split at hstart
          · exact .inl hstart
          · split at hstart
            · cases hstart
            · exact .inl hstart
          · next j op a hevent =>
            split at hstart
            · next hij =>
              subst hij
              rcases List.mem_append.mp hstart with hstart | hstart
              · exact .inl hstart
              · cases List.mem_singleton.mp hstart
                exact .inr ⟨hevent, rfl, rfl⟩
            · exact .inl hstart
          · split at hstart
            · cases hstart
            · exact .inl hstart
        rcases hhear with hstart | hstep
        · exact .inl hstart
        · exact .inr ⟨step, List.mem_cons_self, hstep⟩
      · exact .inr ⟨step', List.mem_cons_of_mem _ hmem, hstep'⟩
  exact (hfold [] he).resolve_left List.not_mem_nil

/-- A caller that begins has heard nothing of what was before. -/
theorem heard_begun {before after : Trace F C W ε α} {c : C} {κ' : Config F C W ε α} :
    heard i (before ++ (κ, .begun i c, κ') :: after) = heard i after := by
  simp only [heard, List.foldl_append, List.foldl_cons, hear, if_pos]

/-! ## What every call goes on with -/

/-- **Confinement.**  A program that performs only effects it is allowed goes on with such. -/
theorem only_step {A : C → F.Op → Prop} {κ' : Config F C W ε α} {event : Event F C ε α}
    (hbody : ∀ c, (P.body c).Only (A c)) (h : Rests (fun c p => p.Only (A c)) κ)
    (hstep : P.Step κ event κ') : Rests (fun c p => p.Only (A c)) κ' :=
  h.step hbody (fun _ _ _ a h => h.2 a) hstep

/-- A program that fails on fatal answers goes on to do so. -/
theorem failsOn_step {fatal : (op : F.Op) → F.Answer op → Option ε} {κ' : Config F C W ε α}
    {event : Event F C ε α} (hbody : ∀ c, (P.body c).FailsOn fatal)
    (h : Rests (fun _ p => p.FailsOn fatal) κ) (hstep : P.Step κ event κ') :
    Rests (fun _ p => p.FailsOn fatal) κ' :=
  h.step hbody (fun _ _ _ a h => (h a).2) hstep

end Pool

end Shaula.Library
