import Mathlib.Data.List.Count
import Mathlib.Data.List.Forall2
import Shaula.Library.Outcome

/-! # Comparing two checks

Two checks of one document are compared part by part.  The first one answers, the second one answers
or fails.  A part on which the two are known to answer alike is taken as its answer, and a part on
which they are known to differ as a difference, which decides unless another part does.
-/

namespace Shaula.Library

/-- What is known of two answers: both accept, both refuse, just one of them accepts, both are
answers, or nothing. -/
inductive Agreement where
  | accepted
  | refused
  | apart
  | unclear
  | failing
  deriving DecidableEq

namespace Agreement

variable {ε β : Type}

/-- The answers are as is known of them. -/
def Of (known : Agreement) (first : Bool) (second : Except ε Bool) : Prop :=
  match known with
  | accepted => first = true ∧ second = .ok true
  | refused => first = false ∧ second = .ok false
  | apart => second = .ok (!first)
  | unclear => ∃ answer, second = .ok answer
  | failing => True

/-- The answers are known to be the same. -/
def Decided (known : Agreement) : Prop := known = accepted ∨ known = refused

instance (known : Agreement) : Decidable known.Decided := inferInstanceAs (Decidable (_ ∨ _))

/-- Two answers. -/
def ofPair (first second : Bool) : Agreement :=
  if first = second then if first then accepted else refused else apart

/-- One part and then the rest: the second check fails in the rest unless the part is refused. -/
def andThen : Agreement → Agreement → Agreement
  | accepted, rest => rest
  | refused, _ => refused
  | failing, _ => failing
  | _, refused => refused
  | _, failing => failing
  | apart, accepted => apart
  | _, _ => unclear

/-- All parts, in order. -/
def all (parts : List Agreement) : Agreement := parts.foldr andThen accepted

/-- The opposite answers. -/
def negated : Agreement → Agreement
  | accepted => refused
  | refused => accepted
  | known => known

/-- A part that only the first check looks at. -/
def ofFirst : Agreement → Agreement
  | accepted => accepted
  | refused => apart
  | _ => unclear

/-- A part that only the second check looks at. -/
def ofSecond : Agreement → Agreement
  | accepted => accepted
  | refused => apart
  | failing => failing
  | _ => unclear

/-- Whether enough parts accept, when `sure` of them do and up to `unsure` more may.  A single part
that is apart decides where the rest does not. -/
def counted (enough : Nat → Bool) (sure unsure : Nat) (single : Bool) : Agreement :=
  if ∀ n ≤ unsure, enough (sure + n) = true then accepted
  else if ∀ n ≤ unsure, enough (sure + n) = false then refused
  else if single then apart
  else unclear

/-- A combinator that asks whether enough branches accept. -/
def combined (enough : Nat → Bool) (branches : List Agreement) : Agreement :=
  if failing ∈ branches then failing
  else counted enough (branches.count accepted) (branches.count apart + branches.count unclear)
    (branches.count apart = 1 ∧ unclear ∉ branches)

variable {known rest : Agreement} {first first' : Bool} {second second' : Except ε Bool}

/-- Where the answers are known to be the same both accept or none does. -/
theorem Of.iff (h : known.Of first second) (hdecided : known.Decided) :
    first = true ↔ second = .ok true := by
  rcases hdecided with rfl | rfl
  · obtain ⟨rfl, rfl⟩ := h
    simp
  · obtain ⟨rfl, rfl⟩ := h
    simp

theorem Of.not_iff (h : apart.Of first second) : ¬ (first = true ↔ second = .ok true) := by
  have hsecond : second = .ok (!first) := h
  cases first <;> simp [hsecond]

theorem of_ofPair (first second : Bool) : (ofPair first second).Of first (.ok second : Except ε Bool) := by
  cases first <;> cases second <;> simp [ofPair, Of]

theorem Of.andThen (h : known.Of first second) (h' : rest.Of first' second') :
    (known.andThen rest).Of (first && first')
      (second >>= fun accepted => if accepted = true then second' else .ok false) := by
  cases known with
  | accepted =>
    obtain ⟨rfl, rfl⟩ := h
    exact h'
  | refused =>
    obtain ⟨rfl, rfl⟩ := h
    exact ⟨rfl, rfl⟩
  | failing => exact trivial
  | apart =>
    have hsecond : second = .ok (!first) := h
    subst hsecond
    cases rest with
    | accepted =>
      obtain ⟨rfl, rfl⟩ := h'
      cases first <;> rfl
    | refused =>
      obtain ⟨rfl, rfl⟩ := h'
      cases first <;> exact ⟨rfl, rfl⟩
    | failing => exact trivial
    | apart =>
      have hsecond' : second' = .ok (!first') := h'
      subst hsecond'
      cases first <;> exact ⟨_, rfl⟩
    | unclear =>
      obtain ⟨answer, rfl⟩ := h'
      cases first <;> exact ⟨_, rfl⟩
  | unclear =>
    obtain ⟨answer, rfl⟩ := h
    cases rest with
    | accepted =>
      obtain ⟨rfl, rfl⟩ := h'
      cases answer <;> exact ⟨_, rfl⟩
    | refused =>
      obtain ⟨rfl, rfl⟩ := h'
      refine ⟨Bool.and_false _, ?_⟩
      cases answer <;> rfl
    | failing => exact trivial
    | apart =>
      have hsecond' : second' = .ok (!first') := h'
      subst hsecond'
      cases answer <;> exact ⟨_, rfl⟩
    | unclear =>
      obtain ⟨answer', rfl⟩ := h'
      cases answer <;> exact ⟨_, rfl⟩

theorem Of.negated (h : known.Of first second) :
    known.negated.Of (!first) (second >>= fun accepted => .ok (!accepted)) := by
  cases known with
  | accepted | refused =>
    obtain ⟨rfl, rfl⟩ := h
    exact ⟨rfl, rfl⟩
  | apart =>
    have hsecond : second = .ok (!first) := h
    subst hsecond
    rfl
  | unclear =>
    obtain ⟨answer, rfl⟩ := h
    exact ⟨_, rfl⟩
  | failing => exact trivial

theorem Of.ofFirst (h : known.Of first second) : known.ofFirst.Of first (.ok true : Except ε Bool) := by
  cases known with
  | accepted =>
    obtain ⟨rfl, rfl⟩ := h
    exact ⟨rfl, rfl⟩
  | refused =>
    obtain ⟨rfl, rfl⟩ := h
    rfl
  | _ => exact ⟨_, rfl⟩

theorem Of.ofSecond (h : known.Of first second) : known.ofSecond.Of true second := by
  cases known with
  | accepted =>
    obtain ⟨rfl, rfl⟩ := h
    exact ⟨rfl, rfl⟩
  | refused =>
    obtain ⟨rfl, rfl⟩ := h
    rfl
  | apart => exact ⟨_, h⟩
  | unclear => exact h
  | failing => exact trivial

/-- All the parts, with the second check stopping at the first part that it refuses. -/
theorem of_all {parts : List β} {compare : β → Agreement} {first : β → Bool}
    {second : β → Except ε Bool} (h : ∀ part ∈ parts, (compare part).Of (first part) (second part)) :
    (all (parts.map compare)).Of (parts.all first) (parts.foldr (fun part rest =>
      second part >>= fun accepted => if accepted = true then rest else .ok false) (.ok true)) := by
  induction parts with
  | nil => exact ⟨rfl, rfl⟩
  | cons part parts ih =>
    exact (h part List.mem_cons_self).andThen (ih fun p hp => h p (List.mem_cons_of_mem _ hp))

/-- Between the branches that are sure to accept and those that may, both checks count. -/
theorem of_count {branches : List β} {compare : β → Agreement} {first : β → Bool}
    {second : β → Except ε Bool}
    (h : ∀ branch ∈ branches, (compare branch).Of (first branch) (second branch))
    (hfailing : failing ∉ branches.map compare) :
    ∃ results, branches.mapM second = .ok results ∧ ∃ n m,
      branches.countP first = (branches.map compare).count accepted + n ∧
      results.count true = (branches.map compare).count accepted + m ∧
      n ≤ (branches.map compare).count apart + (branches.map compare).count unclear ∧
      m ≤ (branches.map compare).count apart + (branches.map compare).count unclear ∧
      (unclear ∉ branches.map compare → n + m = (branches.map compare).count apart) := by
  induction branches with
  | nil => exact ⟨[], rfl, 0, 0, by simp⟩
  | cons branch branches ih =>
    rw [List.map_cons, List.mem_cons, not_or] at hfailing
    obtain ⟨results, hresults, n, m, hn, hm, hnle, hmle, hsum⟩ :=
      ih (fun b hb => h b (List.mem_cons_of_mem _ hb)) hfailing.2
    have hbranch := h branch List.mem_cons_self
    -- What one branch adds to either count.
    obtain ⟨answer, hanswer, k, l, hk, hl, hkle, hlle, hkl⟩ : ∃ answer, second branch = .ok answer ∧
        ∃ k l, (if first branch then 1 else 0) = [compare branch].count accepted + k ∧
          (if answer then 1 else 0) = [compare branch].count accepted + l ∧
          k ≤ [compare branch].count apart + [compare branch].count unclear ∧
          l ≤ [compare branch].count apart + [compare branch].count unclear ∧
          (compare branch ≠ unclear → k + l = [compare branch].count apart) := by
      cases hcompare : compare branch with
      | failing => exact absurd hcompare.symm hfailing.1
      | accepted | refused =>
        rw [hcompare] at hbranch
        obtain ⟨hfirst, hsecond⟩ := hbranch
        exact ⟨_, hsecond, 0, 0, by simp [hfirst], by simp, by simp, by simp, by simp⟩
      | apart =>
        rw [hcompare] at hbranch
        refine ⟨_, hbranch, if first branch then 1 else 0, if first branch then 0 else 1, ?_⟩
        cases first branch <;> simp
      | unclear =>
        rw [hcompare] at hbranch
        obtain ⟨answer, hsecond⟩ := hbranch
        refine ⟨answer, hsecond, if first branch then 1 else 0, if answer then 1 else 0, ?_⟩
        cases first branch <;> cases answer <;> simp
    refine ⟨answer :: results, ?_, n + k, m + l, ?_, ?_, ?_, ?_, fun hclear => ?_⟩
    · rw [List.mapM_cons, hanswer, hresults]
      rfl
    all_goals
      simp only [List.map_cons, List.countP_cons, List.count_cons, List.count_nil, beq_iff_eq,
        List.mem_cons, not_or] at *
    · omega
    · omega
    · omega
    · omega
    · have hrest := hsum hclear.2
      have hhere := hkl (Ne.symm hclear.1)
      omega

theorem of_counted {enough : Nat → Bool} {sure unsure n m : Nat} {single : Bool} (hn : n ≤ unsure)
    (hm : m ≤ unsure) (hsingle : single = true → unsure = 1 ∧ n + m = 1) :
    (counted enough sure unsure single).Of (enough (sure + n))
      (.ok (enough (sure + m)) : Except ε Bool) := by
  unfold counted
  by_cases hall : ∀ n ≤ unsure, enough (sure + n) = true
  · rw [if_pos hall]
    exact ⟨hall n hn, congrArg Except.ok (hall m hm)⟩
  by_cases hnone : ∀ n ≤ unsure, enough (sure + n) = false
  · rw [if_neg hall, if_pos hnone]
    exact ⟨hnone n hn, congrArg Except.ok (hnone m hm)⟩
  rw [if_neg hall, if_neg hnone]
  by_cases hone : single = true
  · rw [if_pos hone]
    obtain ⟨rfl, hsum⟩ := hsingle hone
    -- The counts are `sure` and one more, in either order.
    have hdiffer : enough sure ≠ enough (sure + 1) := by
      intro hsame
      cases hvalue : enough sure with
      | true =>
        refine hall fun k hk => ?_
        obtain rfl | rfl : k = 0 ∨ k = 1 := by omega
        · exact hvalue
        · rw [← hsame, hvalue]
      | false =>
        refine hnone fun k hk => ?_
        obtain rfl | rfl : k = 0 ∨ k = 1 := by omega
        · exact hvalue
        · rw [← hsame, hvalue]
    show Except.ok _ = Except.ok _
    obtain ⟨rfl, rfl⟩ | ⟨rfl, rfl⟩ : (n = 0 ∧ m = 1) ∨ (n = 1 ∧ m = 0) := by omega
    · exact congrArg Except.ok (Bool.eq_not_of_ne hdiffer.symm)
    · exact congrArg Except.ok (Bool.eq_not_of_ne hdiffer)
  · rw [if_neg hone]
    exact ⟨_, rfl⟩

/-- A combinator over branches that are compared. -/
theorem of_combined {branches : List β} {compare : β → Agreement} {first : β → Bool}
    {second : β → Except ε Bool} (enough : Nat → Bool)
    (h : ∀ branch ∈ branches, (compare branch).Of (first branch) (second branch)) :
    (combined enough (branches.map compare)).Of (enough (branches.countP first))
      (branches.mapM second >>= fun results => .ok (enough (results.count true))) := by
  unfold combined
  by_cases hfailing : failing ∈ branches.map compare
  · rw [if_pos hfailing]
    exact trivial
  · obtain ⟨results, hresults, n, m, hn, hm, hnle, hmle, hsum⟩ := of_count h hfailing
    rw [if_neg hfailing, hresults, hn]
    show Of _ _ (.ok (enough (results.count true)))
    rw [hm]
    refine of_counted hnle hmle fun hsingle => ?_
    obtain ⟨hone, hclear⟩ := of_decide_eq_true hsingle
    rw [hsum hclear, hone, List.count_eq_zero.mpr hclear]
    exact ⟨rfl, rfl⟩

end Agreement

end Shaula.Library
