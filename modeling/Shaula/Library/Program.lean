import Shaula.Library.Run
import Mathlib.Logic.Relation

/-! # Programs of effects

A program performs effects and goes on with their answers.  It runs in a world that others change
between any two of its effects; an effect may fail, or its answer may be lost in a crash, and what
it did to the world then stays.  The rules below take what each effect needs and leaves to what
holds throughout every run in which programs are called one at a time.
-/

namespace Shaula.Library

/-- Effects, with the type of what each of them answers. -/
structure Interface where
  Op : Type
  Answer : Op → Type

inductive Program (F : Interface) (ε α : Type) where
  | done (a : α)
  | fail (e : ε)
  | perform (op : F.Op) (k : F.Answer op → Program F ε α)

namespace Program

variable {F : Interface} {ε α β : Type}

def bind : Program F ε α → (α → Program F ε β) → Program F ε β
  | done a, f => f a
  | fail e, _ => fail e
  | perform op k, f => perform op fun answer => (k answer).bind f

instance : Monad (Program F ε) where
  pure := done
  bind := bind

/-- The program of one effect. -/
def lift (op : F.Op) : Program F ε (F.Answer op) := perform op done

@[simp] theorem pure_eq (a : α) : (pure a : Program F ε α) = done a := rfl

@[simp] theorem done_bind (a : α) (f : α → Program F ε β) : (done a >>= f) = f a := rfl

@[simp] theorem fail_bind (e : ε) (f : α → Program F ε β) : (fail e >>= f) = fail e := rfl

@[simp] theorem lift_bind (op : F.Op) (f : F.Answer op → Program F ε β) :
    (lift op >>= f) = perform op f := rfl

/-- Go on only if `p` holds. -/
def ensure (p : Prop) [Decidable p] (e : ε) : Program F ε Unit :=
  if p then done () else fail e

/-- Go on with the value of an option. -/
def okOr (o : Option α) (e : ε) : Program F ε α :=
  match o with
  | some a => done a
  | none => fail e

/-- What is left of a program, and its world, when effects are answered as long as there is an
answer. -/
def play {W : Type} (answer : W → (op : F.Op) → Option (F.Answer op × W)) :
    Program F ε α → W → W × Program F ε α
  | done a, w => (w, done a)
  | fail e, w => (w, fail e)
  | perform op k, w =>
    match answer w op with
    | none => (w, perform op k)
    | some (a, w') => (k a).play answer w'

/-- The effect a program performs next. -/
def next : Program F ε α → Option F.Op
  | perform op _ => some op
  | _ => none

theorem eq_perform_of_next {p : Program F ε α} {op : F.Op} (h : p.next = some op) :
    ∃ k, p = perform op k := by
  cases p with
  | perform op' k =>
    cases h
    exact ⟨k, rfl⟩
  | done | fail => cases h

/-- How a program ended, unless it waits for an answer. -/
def ended : Program F ε α → Option (Except ε α)
  | done a => some (.ok a)
  | fail e => some (.error e)
  | perform _ _ => none

/-! ### The effects of a program -/

/-- Whatever is answered, the program performs only effects in `P`. -/
def Only (P : F.Op → Prop) : Program F ε α → Prop
  | done _ => True
  | fail _ => True
  | perform op k => P op ∧ ∀ a, Only P (k a)

namespace Only

variable {P : F.Op → Prop}

theorem lift {op : F.Op} (h : P op) : Only P (.lift op : Program F ε (F.Answer op)) :=
  ⟨h, fun _ => trivial⟩

theorem bind {p : Program F ε α} {f : α → Program F ε β} (h : Only P p)
    (hf : ∀ a, Only P (f a)) : Only P (p >>= f) := by
  induction p with
  | done a => exact hf a
  | fail e => exact trivial
  | perform op k ih => exact ⟨h.1, fun a => ih a (h.2 a)⟩

theorem mono {P' : F.Op → Prop} {p : Program F ε α} (hP : ∀ op, P op → P' op) (h : Only P p) :
    Only P' p := by
  induction p with
  | done | fail => exact trivial
  | perform op k ih => exact ⟨hP op h.1, fun a => ih a (h.2 a)⟩

theorem ensure {p : Prop} [Decidable p] {e : ε} : Only P (.ensure p e : Program F ε Unit) := by
  unfold Program.ensure
  split <;> exact trivial

theorem okOr {o : Option α} {e : ε} : Only P (.okOr o e : Program F ε α) := by
  cases o <;> exact trivial

end Only

/-! ### Finished runs -/

/-- The program may come to its end with these effects having happened, whatever they were
answered.  It has no result of its own when an effect failed. -/
inductive Ran : Program F ε α → List F.Op → Option (Except ε α) → Prop
  | done {a : α} : Ran (.done a) [] (some (.ok a))
  | fail {e : ε} : Ran (.fail e) [] (some (.error e))
  | refused {op : F.Op} {k : F.Answer op → Program F ε α} : Ran (.perform op k) [] none
  | unanswered {op : F.Op} {k : F.Answer op → Program F ε α} : Ran (.perform op k) [op] none
  | answered {op : F.Op} {k : F.Answer op → Program F ε α} {a : F.Answer op} {ops : List F.Op}
      {r : Option (Except ε α)} : Ran (k a) ops r → Ran (.perform op k) (op :: ops) r

/-- What happens, and the result, when every effect is answered. -/
def trace (answer : (op : F.Op) → F.Answer op) : Program F ε α → List F.Op × Except ε α
  | done a => ([], .ok a)
  | fail e => ([], .error e)
  | perform op k =>
    let rest := (k (answer op)).trace answer
    (op :: rest.1, rest.2)

theorem ran_trace (answer : (op : F.Op) → F.Answer op) (p : Program F ε α) :
    p.Ran (p.trace answer).1 (some (p.trace answer).2) := by
  induction p with
  | done a => exact .done
  | fail e => exact .fail
  | perform op k ih => exact .answered (ih (answer op))

theorem Ran.only {P : F.Op → Prop} {p : Program F ε α} {ops : List F.Op}
    {r : Option (Except ε α)} (h : p.Ran ops r) (hp : p.Only P) : ∀ op ∈ ops, P op := by
  induction h with
  | done | fail | refused =>
    intro op hop
    exact absurd hop List.not_mem_nil
  | unanswered =>
    intro op hop
    rw [List.mem_singleton.mp hop]
    exact hp.1
  | answered _ ih =>
    intro op hop
    rcases List.mem_cons.mp hop with rfl | hop
    · exact hp.1
    · exact ih (hp.2 _) op hop

end Program

/-- What effects do to a world that a program shares with others. -/
structure Machine (F : Interface) (W : Type) where
  /-- One step of the others. -/
  env : W → W → Prop
  /-- The effect happened, with this answer. -/
  act : W → (op : F.Op) → F.Answer op → W → Prop
  /-- The effect failed, or nobody got its answer. -/
  lost : W → F.Op → W → Prop

/-! ## Safe programs -/

section Safety

variable {F : Interface} {W ε α β : Type} (M : Machine F W) (I : W → Prop) (ok : W → F.Op → Prop)

/-- Whatever the others do: each effect is performed where it may be and keeps the invariant, and
what is returned is as promised. -/
def Safe : Program F ε α → (α → W → Prop) → W → Prop
  | .done a, B, w => B a w
  | .fail _, _, _ => True
  | .perform op k, B, w => ∀ w', Relation.ReflTransGen M.env w w' →
      ok w' op ∧ (∀ w'', M.lost w' op w'' → I w'') ∧
        ∀ a w'', M.act w' op a w'' → I w'' ∧ Safe (k a) B w''

/-- The others keep `A`. -/
def Machine.Stable (A : W → Prop) : Prop := ∀ w w', A w → M.env w w' → A w'

/-- From every world with `A` the program is safe and returns with `B`. -/
def Spec (A : W → Prop) (p : Program F ε α) (B : α → W → Prop) : Prop :=
  ∀ w, A w → Safe M I ok p B w

variable {M I ok} {A A' : W → Prop} {B B' : α → W → Prop}

theorem Machine.Stable.trans {w w' : W} (h : M.Stable A) (hw : A w)
    (henv : Relation.ReflTransGen M.env w w') : A w' := by
  induction henv with
  | refl => exact hw
  | tail _ hstep ih => exact h _ _ ih hstep

theorem Machine.Stable.and (h : M.Stable A) (h' : M.Stable A') :
    M.Stable fun w => A w ∧ A' w :=
  fun _ _ hw henv => ⟨h _ _ hw.1 henv, h' _ _ hw.2 henv⟩

theorem Safe.mono {p : Program F ε α} {w : W} (hB : ∀ a w, B a w → B' a w)
    (h : Safe M I ok p B w) : Safe M I ok p B' w := by
  induction p generalizing w with
  | done a => exact hB a w h
  | fail e => exact h
  | perform op k ih =>
    intro w' henv
    obtain ⟨hok, hlost, hact⟩ := h w' henv
    exact ⟨hok, hlost, fun a w'' h' => ⟨(hact a w'' h').1, ih a (hact a w'' h').2⟩⟩

theorem Safe.bind {p : Program F ε α} {f : α → Program F ε β} {C : β → W → Prop} {w : W}
    (h : Safe M I ok p (fun a w => Safe M I ok (f a) C w) w) : Safe M I ok (p >>= f) C w := by
  induction p generalizing w with
  | done a => exact h
  | fail e => exact trivial
  | perform op k ih =>
    intro w' henv
    obtain ⟨hok, hlost, hact⟩ := h w' henv
    exact ⟨hok, hlost, fun a w'' h' => ⟨(hact a w'' h').1, ih a (hact a w'' h').2⟩⟩

/-- The others do not make a program unsafe. -/
theorem Safe.env {p : Program F ε α} {w w' : W} (h : Safe M I ok p (fun _ _ => True) w)
    (henv : M.env w w') : Safe M I ok p (fun _ _ => True) w' := by
  cases p with
  | done | fail => exact trivial
  | perform op k => exact fun w'' h' => h w'' (.head henv h')

namespace Spec

theorem done {a : α} (h : ∀ w, A w → B a w) : Spec M I ok A (.done a : Program F ε α) B :=
  h

theorem fail {e : ε} : Spec M I ok A (.fail e : Program F ε α) B :=
  fun _ _ => trivial

theorem weaken {p : Program F ε α} (h : Spec M I ok A' p B') (hA : ∀ w, A w → A' w)
    (hB : ∀ a w, B' a w → B a w) : Spec M I ok A p B :=
  fun w hw => (h w (hA w hw)).mono hB

theorem bind {p : Program F ε α} {f : α → Program F ε β} {C : β → W → Prop}
    (h : Spec M I ok A p B) (hf : ∀ a, Spec M I ok (B a) (f a) C) :
    Spec M I ok A (p >>= f) C :=
  fun w hw => .bind ((h w hw).mono fun a w' => hf a w')

/-- What one effect needs and leaves, in a world the others keep as it is needed. -/
theorem lift {op : F.Op} {B : F.Answer op → W → Prop} (hstable : M.Stable A)
    (hok : ∀ w, A w → ok w op) (hlost : ∀ w w', A w → M.lost w op w' → I w')
    (hact : ∀ w a w', A w → M.act w op a w' → I w' ∧ B a w') :
    Spec M I ok A (.lift op : Program F ε (F.Answer op)) B := by
  intro w hw w' henv
  have hw' := hstable.trans hw henv
  exact ⟨hok w' hw', fun _ => hlost w' _ hw', fun a w'' => hact w' a w'' hw'⟩

theorem ensure {p : Prop} [Decidable p] {e : ε} {B : Unit → W → Prop}
    (h : ∀ w, A w → p → B () w) :
    Spec M I ok A (.ensure p e : Program F ε Unit) B := by
  unfold Program.ensure
  split
  · next hp => exact fun w hw => h w hw hp
  · exact fail

theorem ensure_bind {p : Prop} [Decidable p] {e : ε} {f : Unit → Program F ε α}
    (h : p → Spec M I ok A (f ()) B) : Spec M I ok A (.ensure p e >>= f) B := by
  unfold Program.ensure
  split
  · next hp => exact h hp
  · exact fail

theorem okOr {o : Option α} {e : ε} (h : ∀ w a, A w → o = some a → B a w) :
    Spec M I ok A (.okOr o e : Program F ε α) B := by
  cases o with
  | none => exact fail
  | some a => exact fun w hw => h w a hw rfl

theorem okOr_bind {o : Option β} {e : ε} {f : β → Program F ε α}
    (h : ∀ a, o = some a → Spec M I ok A (f a) B) : Spec M I ok A (.okOr o e >>= f) B := by
  cases o with
  | none => exact fail
  | some a => exact h a rfl

/-- A program keeps what all its effects and the others keep. -/
theorem frame {P : F.Op → Prop} {p : Program F ε α} (hp : p.Only P) (hstable : M.Stable A)
    (hop : ∀ op, P op → ∀ w, A w → ok w op ∧ (∀ w', M.lost w op w' → I w') ∧
      ∀ a w', M.act w op a w' → I w' ∧ A w') :
    Spec M I ok A p fun _ => A := by
  induction p with
  | done a => exact done fun _ hw => hw
  | fail e => exact fail
  | perform op k ih =>
    intro w hw w' henv
    have hw' := hstable.trans hw henv
    obtain ⟨hok, hlost, hact⟩ := hop op hp.1 w' hw'
    refine ⟨hok, hlost, fun a w'' h => ⟨(hact a w'' h).1, ?_⟩⟩
    exact ih a (hp.2 a) w'' (hact a w'' h).2

end Spec

/-! ### A part of the world -/

variable {V : Type} {view : W → V} {A A' : V → Prop} {B B' : α → V → Prop}

variable (M I ok view) in
/-- A specification about a part of the world, under the invariant. -/
def ViewSpec (A : V → Prop) (p : Program F ε α) (B : α → V → Prop) : Prop :=
  Spec M I ok (fun w => I w ∧ A (view w)) p fun a w => I w ∧ B a (view w)

variable (M I view) in
/-- The others keep the invariant and that part of the world. -/
def Machine.Spares : Prop := ∀ w w', I w → M.env w w' → I w' ∧ view w' = view w

theorem Machine.Spares.stable (h : M.Spares I view) :
    M.Stable fun w => I w ∧ A (view w) := by
  rintro w w' ⟨hI, hA⟩ henv
  obtain ⟨hI', hview⟩ := h w w' hI henv
  exact ⟨hI', hview.symm ▸ hA⟩

namespace ViewSpec

theorem bind {p : Program F ε α} {f : α → Program F ε β} {D : β → V → Prop}
    (h : ViewSpec M I ok view A p B) (hf : ∀ a, ViewSpec M I ok view (B a) (f a) D) :
    ViewSpec M I ok view A (p >>= f) D :=
  Spec.bind h hf

theorem weaken {p : Program F ε α} {C : V → Prop} (h : ViewSpec M I ok view C p B')
    (hA : ∀ v, A v → C v)
    (hB : ∀ a v, B' a v → B a v) : ViewSpec M I ok view A p B :=
  Spec.weaken h (fun _ hw => ⟨hw.1, hA _ hw.2⟩) fun _ _ hw => ⟨hw.1, hB _ _ hw.2⟩

theorem done {a : α} (h : ∀ v, A v → B a v) :
    ViewSpec M I ok view A (.done a : Program F ε α) B :=
  fun _ hw => ⟨hw.1, h _ hw.2⟩

theorem fail {e : ε} : ViewSpec M I ok view A (.fail e : Program F ε α) B :=
  Spec.fail

theorem ensure_bind {p : Prop} [Decidable p] {e : ε} {f : Unit → Program F ε α}
    (h : p → ViewSpec M I ok view A (f ()) B) :
    ViewSpec M I ok view A (.ensure p e >>= f) B :=
  Spec.ensure_bind h

/-- One effect, from what it needs and leaves; a failed one keeps the invariant at least. -/
theorem lift {op : F.Op} {B : F.Answer op → V → Prop} (hspares : M.Spares I view)
    (hok : ∀ w, I w → A (view w) → ok w op)
    (hlost : ∀ w w', I w → A (view w) → M.lost w op w' → I w')
    (hact : ∀ w a w', I w → A (view w) → M.act w op a w' → I w' ∧ B a (view w')) :
    ViewSpec M I ok view A (.lift op : Program F ε (F.Answer op)) B := by
  refine Spec.lift hspares.stable (fun w hw => hok w hw.1 hw.2)
    (fun w w' hw hlost' => hlost w w' hw.1 hw.2 hlost') fun w a w' hw h => ?_
  have h' := hact w a w' hw.1 hw.2 h
  exact ⟨h'.1, h'⟩

end ViewSpec

end Safety

/-! ## Calls -/

/-- Programs that are called one at a time, in a world that changes between the calls as well. -/
structure Session (F : Interface) (C W ε α : Type) where
  machine : Machine F W
  body : C → Program F ε α
  /-- The call may begin here. -/
  begins : W → C → Prop
  /-- One step of the world between calls. -/
  idle : W → W → Prop
  crash : W → W

namespace Session

variable {F : Interface} {C W ε α : Type}

/-- The world, and the rest of the call under way. -/
structure Config (F : Interface) (C W ε α : Type) where
  world : W
  call : Option (C × Program F ε α)

inductive Event (F : Interface) (C ε α : Type) where
  | passed
  | interfered
  | begun (c : C)
  | performed (c : C) (op : F.Op) (a : F.Answer op)
  | lost (c : C) (op : F.Op)
  | returned (c : C) (result : Except ε α)
  | crashed

/-- The effect an event is about, whether it was answered or not. -/
def Event.effect : Event F C ε α → Option (C × F.Op)
  | performed c op _ | lost c op => some (c, op)
  | _ => none

inductive Step (S : Session F C W ε α) :
    Config F C W ε α → Event F C ε α → Config F C W ε α → Prop
  | passed {w w' : W} : S.idle w w' → Step S ⟨w, none⟩ .passed ⟨w', none⟩
  | interfered {w w' : W} {call : C × Program F ε α} : S.machine.env w w' →
      Step S ⟨w, some call⟩ .interfered ⟨w', some call⟩
  | begun {w : W} {c : C} : S.begins w c → Step S ⟨w, none⟩ (.begun c) ⟨w, some (c, S.body c)⟩
  | performed {w w' : W} {c : C} {op : F.Op} {k : F.Answer op → Program F ε α}
      {a : F.Answer op} : S.machine.act w op a w' →
      Step S ⟨w, some (c, .perform op k)⟩ (.performed c op a) ⟨w', some (c, k a)⟩
  | lost {w w' : W} {c : C} {op : F.Op} {k : F.Answer op → Program F ε α} :
      S.machine.lost w op w' →
      Step S ⟨w, some (c, .perform op k)⟩ (.lost c op) ⟨w', none⟩
  | done {w : W} {c : C} {a : α} :
      Step S ⟨w, some (c, .done a)⟩ (.returned c (.ok a)) ⟨w, none⟩
  | fail {w : W} {c : C} {e : ε} :
      Step S ⟨w, some (c, .fail e)⟩ (.returned c (.error e)) ⟨w, none⟩
  | crashed {w : W} {call : Option (C × Program F ε α)} :
      Step S ⟨w, call⟩ .crashed ⟨S.crash w, none⟩

/-- The invariant of the world, which holds across every step but the effects', and every call's
obligations. -/
structure Disciplined (S : Session F C W ε α) (I : W → Prop) (ok : C → W → F.Op → Prop) :
    Prop where
  env : S.machine.Stable I
  idle : ∀ w w', I w → S.idle w w' → I w'
  crash : ∀ w, I w → I (S.crash w)
  safe : ∀ w c, I w → S.begins w c →
    Safe S.machine I (ok c) (S.body c) (fun _ _ => True) w

variable {S : Session F C W ε α} {I : W → Prop} {ok : C → W → F.Op → Prop}
  {κ κ' : Config F C W ε α} {event : Event F C ε α}

/-- The invariant holds, and the rest of the call under way is safe. -/
def Guarded (S : Session F C W ε α) (I : W → Prop) (ok : C → W → F.Op → Prop)
    (κ : Config F C W ε α) : Prop :=
  I κ.world ∧ ∀ c p, κ.call = some (c, p) → Safe S.machine I (ok c) p (fun _ _ => True) κ.world

theorem Disciplined.step (h : S.Disciplined I ok) (hκ : S.Guarded I ok κ)
    (hstep : S.Step κ event κ') : S.Guarded I ok κ' := by
  obtain ⟨hI, hsafe⟩ := hκ
  cases hstep with
  | passed hidle => exact ⟨h.idle _ _ hI hidle, fun c p hc => by cases hc⟩
  | interfered henv =>
    refine ⟨h.env _ _ hI henv, fun c p hc => ?_⟩
    exact (hsafe c p hc).env henv
  | begun hbegins =>
    refine ⟨hI, fun c p hc => ?_⟩
    cases hc
    exact h.safe _ _ hI hbegins
  | performed hact =>
    obtain ⟨-, -, hnext⟩ := hsafe _ _ rfl _ .refl
    refine ⟨(hnext _ _ hact).1, fun c p hc => ?_⟩
    cases hc
    exact (hnext _ _ hact).2
  | lost hlost =>
    obtain ⟨-, hleft, -⟩ := hsafe _ _ rfl _ .refl
    exact ⟨hleft _ hlost, fun c p hc => by cases hc⟩
  | done | fail => exact ⟨hI, fun c p hc => by cases hc⟩
  | crashed => exact ⟨h.crash _ hI, fun c p hc => by cases hc⟩

/-- The worlds calls start from. -/
def Initial (init : W → Prop) (κ : Config F C W ε α) : Prop := init κ.world ∧ κ.call = none

theorem Disciplined.reached {init : W → Prop} (h : S.Disciplined I ok) (hinit : ∀ w, init w → I w)
    (hκ : Reachable (Initial init) S.Step κ) : S.Guarded I ok κ := by
  refine hκ.invariant (I := S.Guarded I ok) ?_ fun _ _ _ hκ hstep => h.step hκ hstep
  rintro κ ⟨hw, hcall⟩
  refine ⟨hinit _ hw, fun c p hc => ?_⟩
  rw [hcall] at hc
  cases hc

/-- **Obligations rule.**  Every effect of every run is performed where it may be. -/
theorem Guarded.obliged {c : C} {op : F.Op} (hκ : S.Guarded I ok κ) (hstep : S.Step κ event κ')
    (heffect : event.effect = some (c, op)) : ok c κ.world op := by
  cases hstep with
  | performed | lost =>
    cases heffect
    exact (hκ.2 _ _ rfl _ .refl).1
  | _ => cases heffect

/-- A call gets to where answers the world may give lead it, by steps that are all allowed. -/
theorem reaches_play_by {init : W → Prop}
    {R : Config F C W ε α → Event F C ε α → Config F C W ε α → Prop}
    {answer : W → (op : F.Op) → Option (F.Answer op × W)} {c : C}
    (hanswer : ∀ w op a w', answer w op = some (a, w') → ∃ w₁,
      (w₁ = w ∨ ∀ p, R ⟨w, some (c, p)⟩ .interfered ⟨w₁, some (c, p)⟩) ∧
        ∀ k, R ⟨w₁, some (c, .perform op k)⟩ (.performed c op a) ⟨w', some (c, k a)⟩)
    {w : W} {p : Program F ε α} (h : Reachable (Initial init) R ⟨w, some (c, p)⟩) :
    Reachable (Initial init) R ⟨(p.play answer w).1, some (c, (p.play answer w).2)⟩ := by
  induction p generalizing w with
  | done | fail => exact h
  | perform op k ih =>
    cases hop : answer w op with
    | none =>
      simp only [Program.play, hop]
      exact h
    | some result =>
      obtain ⟨w₁, rfl | hinterfered, hperformed⟩ := hanswer w op result.1 result.2 hop
      · simp only [Program.play, hop]
        exact ih result.1 (Reachable.next h (hperformed k))
      · simp only [Program.play, hop]
        exact ih result.1 ((Reachable.next h (hinterfered _)).next (hperformed k))

/-- A call gets to where answers the world may give lead it. -/
theorem reaches_play {init : W → Prop} {answer : W → (op : F.Op) → Option (F.Answer op × W)}
    (hanswer : ∀ w op a w', answer w op = some (a, w') →
      ∃ w₁, S.machine.env w w₁ ∧ S.machine.act w₁ op a w')
    {w : W} {c : C} {p : Program F ε α}
    (h : Reachable (Initial init) S.Step ⟨w, some (c, p)⟩) :
    Reachable (Initial init) S.Step ⟨(p.play answer w).1, some (c, (p.play answer w).2)⟩ := by
  refine reaches_play_by (fun w op a w' hop => ?_) h
  obtain ⟨w₁, henv, hact⟩ := hanswer w op a w' hop
  exact ⟨w₁, .inr fun _ => .interfered henv, fun _ => .performed hact⟩

end Session

end Shaula.Library
