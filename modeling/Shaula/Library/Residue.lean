import Mathlib.Data.Nat.Periodic
import Mathlib.Algebra.BigOperators.Group.List.Lemmas
import Mathlib.Data.List.TakeDrop
import Mathlib.Order.Interval.Finset.Nat

/-! # Counting residues

How many numbers below a multiple of a modulus have their residue in a given interval, and the
largest multiple below a bound.
-/

namespace Shaula

namespace Residue

open Finset

/-- The largest multiple of `modulus` that is at most `bound`. -/
def floorTo (bound modulus : Nat) : Nat := bound - bound % modulus

variable {bound modulus low width : Nat}

theorem floorTo_eq_mul : floorTo bound modulus = bound / modulus * modulus := by
  have hdivision := Nat.div_add_mod bound modulus
  rw [floorTo, Nat.mul_comm]
  omega

theorem floorTo_div (hpos : 0 < modulus) : floorTo bound modulus / modulus = bound / modulus := by
  rw [floorTo_eq_mul, Nat.mul_div_cancel _ hpos]

theorem floorTo_le : floorTo bound modulus ≤ bound := Nat.sub_le ..

theorem sub_floorTo : bound - floorTo bound modulus = bound % modulus := by
  have hle := Nat.mod_le bound modulus
  rw [floorTo]
  omega

/-- The residues of `modulus` that lie in an interval. -/
theorem count_interval (hfits : low + width ≤ modulus) :
    modulus.count (fun n => low ≤ n % modulus ∧ n % modulus < low + width) = width := by
  rw [Nat.count_eq_card_filter_range]
  have hinterval : (range modulus).filter
      (fun n => low ≤ n % modulus ∧ n % modulus < low + width) = Ico low (low + width) := by
    ext n
    simp only [mem_filter, mem_range, mem_Ico]
    constructor
    · rintro ⟨hn, hlow, hhigh⟩
      rw [Nat.mod_eq_of_lt hn] at hlow hhigh
      exact ⟨hlow, hhigh⟩
    · rintro ⟨hlow, hhigh⟩
      have hn : n < modulus := by omega
      rw [Nat.mod_eq_of_lt hn]
      exact ⟨hn, hlow, hhigh⟩
  rw [hinterval, Nat.card_Ico]
  omega

/-- Each full round of the modulus holds every residue once. -/
theorem card_range_interval (hfits : low + width ≤ modulus) (rounds : Nat) :
    ((range (rounds * modulus)).filter
      (fun n => low ≤ n % modulus ∧ n % modulus < low + width)).card = width * rounds := by
  induction rounds with
  | zero => simp
  | succ rounds ih =>
    have hsplit : range ((rounds + 1) * modulus) =
        range (rounds * modulus) ∪ Ico (rounds * modulus) (rounds * modulus + modulus) := by
      ext n
      simp only [mem_union, mem_range, mem_Ico, Nat.add_mul, Nat.one_mul]
      omega
    have hdisjoint : Disjoint (range (rounds * modulus))
        (Ico (rounds * modulus) (rounds * modulus + modulus)) := by
      rw [Finset.disjoint_left]
      intro n hn hround
      rw [mem_range] at hn
      rw [mem_Ico] at hround
      omega
    have hperiodic : Function.Periodic
        (fun n => low ≤ n % modulus ∧ n % modulus < low + width) modulus := by
      intro n
      simp only [Nat.add_mod_right]
    rw [hsplit, filter_union, card_union_of_disjoint (disjoint_filter_filter hdisjoint), ih,
      Nat.filter_Ico_card_eq_of_periodic _ _ _ hperiodic, count_interval hfits, Nat.mul_succ]

end Residue

/-! ## Running sums -/

/-- The sum of the first entries of a list. -/
def runningSum (weights : List Nat) (count : Nat) : Nat := (weights.take count).sum

@[simp] theorem runningSum_zero (weights : List Nat) : runningSum weights 0 = 0 := rfl

@[simp] theorem runningSum_cons_succ (weight : Nat) (weights : List Nat) (count : Nat) :
    runningSum (weight :: weights) (count + 1) = weight + runningSum weights count := by
  simp [runningSum]

theorem runningSum_succ {weights : List Nat} {index weight : Nat}
    (hentry : weights[index]? = some weight) :
    runningSum weights (index + 1) = runningSum weights index + weight := by
  simp [runningSum, List.take_add_one, hentry]

theorem runningSum_le_sum (weights : List Nat) (count : Nat) :
    runningSum weights count ≤ weights.sum := by
  have hsplit := List.sum_take_add_sum_drop weights count
  rw [runningSum]
  omega

end Shaula
