import Shaula.Library.Residue
import Shaula.Registry.Spec

/-! # Weighted choice of a pool member

Admission draws 128 bits of entropy and maps them to one of the eligible members in proportion to
the weights.  A draw in the tail above the rejection bound is thrown away.
-/

namespace Shaula

namespace Registry

/-- The number of values of a `u128`. -/
def u128Count : Nat := 2 ^ 128

/-- `u128::MAX` -/
def u128Max : Nat := u128Count - 1

/-- The weights as the numbers they denote. -/
def weightValues (weights : List UInt32) : List Nat := weights.map UInt32.toNat

def totalWeight (weights : List UInt32) : Nat := (weightValues weights).sum

/-- The position of the first member whose running offset passes the draw. -/
def weightedPosition (draw : Nat) : Nat → List UInt32 → Option Nat
  | _, [] => none
  | offset, weight :: rest =>
    let offset := offset + weight.toNat
    if draw < offset then some 0 else (weightedPosition draw offset rest).map (· + 1)

/-- `limit`: the entropy from here on is rejected. -/
def rejectionLimit (weights : List UInt32) : Nat := u128Max - u128Max % totalWeight weights

/-- Maps uniform entropy to a member interval without modulo bias. -/
def weightedMemberIndex (weights : List UInt32) (entropy : Nat) : Option Nat :=
  let total := totalWeight weights
  if total = 0 then none
  else if rejectionLimit weights ≤ entropy then none
  else weightedPosition (entropy % total) 0 weights

variable {weights : List UInt32} {entropy index offset draw : Nat}

/-- The sum of a slice's weights fits a `u128`: no addition of the loop overflows. -/
theorem totalWeight_lt (hslice : weights.length < 2 ^ 64) : totalWeight weights < 2 ^ 96 := by
  have hbound : (weightValues weights).sum ≤ (weightValues weights).length * (2 ^ 32 - 1) := by
    apply List.sum_le_card_nsmul
    intro weight hweight
    simp only [weightValues, List.mem_map] at hweight
    obtain ⟨word, -, rfl⟩ := hweight
    have hword := word.toNat_lt
    omega
  simp only [weightValues, List.length_map] at hbound
  simp only [totalWeight, weightValues]
  omega

/-- The position chosen is the one whose interval of offsets holds the draw. -/
theorem weightedPosition_eq_some (hoffset : offset ≤ draw) :
    weightedPosition draw offset weights = some index ↔
      index < weights.length ∧
        offset + runningSum (weightValues weights) index ≤ draw ∧
        draw < offset + runningSum (weightValues weights) (index + 1) := by
  induction weights generalizing offset index with
  | nil => simp [weightedPosition]
  | cons weight rest ih =>
    simp only [weightedPosition, weightValues, List.map_cons, List.length_cons,
      runningSum_cons_succ]
    by_cases hhere : draw < offset + weight.toNat
    · rw [if_pos hhere]
      cases index with
      | zero => simp [hoffset, hhere]
      | succ index =>
        simp only [Option.some.injEq, runningSum_cons_succ]
        omega
    · rw [if_neg hhere]
      cases index with
      | zero =>
        simp only [runningSum_zero, Option.map_eq_some_iff]
        constructor
        · rintro ⟨found, -, hfound⟩
          omega
        · rintro ⟨-, -, hlt⟩
          exact absurd hlt (by simpa using hhere)
      | succ index =>
        have hrest := @ih index (offset + weight.toNat) (by omega)
        simp only [Option.map_eq_some_iff, Nat.add_right_cancel_iff, exists_eq_right, hrest,
          runningSum_cons_succ, weightValues]
        constructor <;> (rintro ⟨hlength, hlow, hhigh⟩; refine ⟨by omega, by omega, by omega⟩)

/-- A draw below the total weight is inside the interval of some member. -/
theorem exists_weightedPosition (hoffset : offset ≤ draw)
    (hdraw : draw < offset + totalWeight weights) :
    ∃ index, weightedPosition draw offset weights = some index := by
  induction weights generalizing offset with
  | nil =>
    simp only [totalWeight, weightValues, List.map_nil, List.sum_nil] at hdraw
    omega
  | cons weight rest ih =>
    simp only [weightedPosition]
    by_cases hhere : draw < offset + weight.toNat
    · exact ⟨0, by rw [if_pos hhere]⟩
    · have htotal : totalWeight (weight :: rest) = weight.toNat + totalWeight rest := by
        simp [totalWeight, weightValues]
      obtain ⟨index, hindex⟩ := @ih (offset + weight.toNat) (by omega) (by omega)
      exact ⟨index + 1, by rw [if_neg hhere, hindex]; rfl⟩

theorem rejectionLimit_eq : rejectionLimit weights = Residue.floorTo u128Max (totalWeight weights) :=
  rfl

theorem weightedMemberIndex_eq_some (hpos : 0 < totalWeight weights) :
    weightedMemberIndex weights entropy = some index ↔
      entropy < rejectionLimit weights ∧ index < weights.length ∧
        runningSum (weightValues weights) index ≤ entropy % totalWeight weights ∧
        entropy % totalWeight weights < runningSum (weightValues weights) (index + 1) := by
  have hposition := @weightedPosition_eq_some weights index 0 _
    (Nat.zero_le (entropy % totalWeight weights))
  simp only [weightedMemberIndex, if_neg hpos.ne']
  by_cases hrejected : rejectionLimit weights ≤ entropy
  · simp only [if_pos hrejected, reduceCtorEq, false_iff]
    omega
  · rw [if_neg hrejected, hposition]
    simp only [Nat.zero_add]
    omega

/-- The entropy that is rejected is the tail from the limit on. -/
theorem weightedMemberIndex_eq_none (hpos : 0 < totalWeight weights) :
    weightedMemberIndex weights entropy = none ↔ rejectionLimit weights ≤ entropy := by
  simp only [weightedMemberIndex, if_neg hpos.ne']
  by_cases hrejected : rejectionLimit weights ≤ entropy
  · simp [hrejected]
  · have hdraw := Nat.mod_lt entropy hpos
    obtain ⟨index, hindex⟩ := @exists_weightedPosition weights 0 _
      (Nat.zero_le (entropy % totalWeight weights)) (by omega)
    simp [hrejected, hindex]

/-! ## How often each member is chosen -/

/-- The entropy values that choose a member. -/
def choosing (weights : List UInt32) (index : Nat) : Finset Nat :=
  (Finset.range u128Count).filter fun entropy => weightedMemberIndex weights entropy = some index

/-- The entropy values that are thrown away. -/
def rejected (weights : List UInt32) : Finset Nat :=
  (Finset.range u128Count).filter fun entropy => weightedMemberIndex weights entropy = none

theorem rejectionLimit_lt : rejectionLimit weights < u128Count := by
  have hle : rejectionLimit weights ≤ u128Max := Residue.floorTo_le
  have hmax : u128Max < u128Count := by simp [u128Max, u128Count]
  omega

theorem weightedMemberIndex_positive (hpos : 0 < totalWeight weights)
    (hchosen : weightedMemberIndex weights entropy = some index) :
    ∃ weight, weights[index]? = some weight ∧ 0 < weight := by
  obtain ⟨-, hlength, hlow, hhigh⟩ := (weightedMemberIndex_eq_some hpos).mp hchosen
  have hentry : (weightValues weights)[index]? = some weights[index].toNat := by
    simp [weightValues, hlength]
  rw [runningSum_succ hentry] at hhigh
  refine ⟨weights[index], List.getElem?_eq_getElem hlength, ?_⟩
  rw [UInt32.lt_iff_toNat_lt]
  simp only [UInt32.toNat_zero]
  omega

theorem card_choosing (hpos : 0 < totalWeight weights) {weight : UInt32}
    (hweight : weights[index]? = some weight) :
    (choosing weights index).card =
      weight.toNat * (rejectionLimit weights / totalWeight weights) := by
  have hentry : (weightValues weights)[index]? = some weight.toNat := by
    simp [weightValues, hweight]
  have hnext := runningSum_succ hentry
  have hfits : runningSum (weightValues weights) index + weight.toNat ≤ totalWeight weights := by
    rw [← hnext]
    exact runningSum_le_sum _ _
  have hlength : index < weights.length := (List.getElem?_eq_some_iff.mp hweight).1
  have hrounds : rejectionLimit weights / totalWeight weights * totalWeight weights =
      rejectionLimit weights := by
    rw [rejectionLimit_eq, Residue.floorTo_div hpos, ← Residue.floorTo_eq_mul]
  have hset : choosing weights index = (Finset.range (rejectionLimit weights)).filter
      (fun entropy => runningSum (weightValues weights) index ≤ entropy % totalWeight weights ∧
        entropy % totalWeight weights <
          runningSum (weightValues weights) index + weight.toNat) := by
    ext entropy
    have hlimit := @rejectionLimit_lt weights
    simp only [choosing, Finset.mem_filter, Finset.mem_range, weightedMemberIndex_eq_some hpos,
      hnext]
    constructor
    · rintro ⟨-, hbelow, -, hlow, hhigh⟩
      exact ⟨hbelow, hlow, hhigh⟩
    · rintro ⟨hbelow, hlow, hhigh⟩
      exact ⟨by omega, hbelow, hlength, hlow, hhigh⟩
  rw [hset, ← hrounds, Residue.card_range_interval hfits, hrounds]

theorem card_rejected (hpos : 0 < totalWeight weights) :
    (rejected weights).card = u128Max % totalWeight weights + 1 := by
  have htail : rejected weights = Finset.Ico (rejectionLimit weights) u128Count := by
    ext entropy
    simp only [rejected, Finset.mem_filter, Finset.mem_range, weightedMemberIndex_eq_none hpos,
      Finset.mem_Ico]
    omega
  have hgap : u128Max - rejectionLimit weights = u128Max % totalWeight weights :=
    Residue.sub_floorTo
  have hle : rejectionLimit weights ≤ u128Max := Residue.floorTo_le
  have hmax : u128Count = u128Max + 1 := by simp [u128Max, u128Count]
  rw [htail, Nat.card_Ico]
  omega

/-- The draw loop of admission: the first entropy that is not rejected chooses the member. -/
def drawMember (weights : List UInt32) (samples : List Nat) : Option Nat :=
  samples.findSome? (weightedMemberIndex weights)

/-- The loop ends at the first sample below the limit, with a member of positive weight. -/
theorem drawMember_positive (hpos : 0 < totalWeight weights) {samples : List Nat}
    (hsample : ∃ entropy ∈ samples, entropy < rejectionLimit weights) :
    ∃ index weight, drawMember weights samples = some index ∧
      weights[index]? = some weight ∧ 0 < weight := by
  cases hdraw : drawMember weights samples with
  | none =>
    obtain ⟨entropy, hmem, hbelow⟩ := hsample
    have hnone := List.findSome?_eq_none_iff.mp hdraw entropy hmem
    rw [weightedMemberIndex_eq_none hpos] at hnone
    omega
  | some index =>
    obtain ⟨entropy, -, hchosen⟩ := List.exists_of_findSome?_eq_some hdraw
    obtain ⟨weight, hweight, hpositive⟩ := weightedMemberIndex_positive hpos hchosen
    exact ⟨index, weight, rfl, hweight, hpositive⟩

/-- The choice is exactly proportional to the weights, and the tail it throws away is no longer
than the total weight and less than half of all entropy. -/
theorem weighted_choice_proportional (weights : List UInt32)
    (hslice : weights.length < 2 ^ 64) (hpos : 0 < totalWeight weights) :
    (∀ entropy index, weightedMemberIndex weights entropy = some index →
      ∃ weight, weights[index]? = some weight ∧ 0 < weight) ∧
    (∀ index weight, weights[index]? = some weight →
      (choosing weights index).card =
        weight.toNat * (rejectionLimit weights / totalWeight weights)) ∧
    (rejected weights).card ≤ totalWeight weights ∧
    2 * (rejected weights).card < u128Count := by
  have hsmall := totalWeight_lt hslice
  refine ⟨fun entropy index hchosen => weightedMemberIndex_positive hpos hchosen,
    fun index weight hweight => card_choosing hpos hweight, ?_, ?_⟩
  · have hlt := Nat.mod_lt u128Max hpos
    rw [card_rejected hpos]
    omega
  · have hlt := Nat.mod_lt u128Max hpos
    rw [card_rejected hpos]
    have hcount : 2 ^ 97 + 2 < u128Count := by decide
    omega

theorem weighted_choice_proportional_sample :
    (choosing [10, 20] 1).card = 20 * (rejectionLimit [10, 20] / 30) := by
  have hall := weighted_choice_proportional [10, 20] (by decide) (by decide)
  exact hall.2.1 1 20 rfl

/-- With one member of weight one, one value is thrown away: not fewer than the total weight. -/
theorem rejected_reaches_total : ¬ (rejected [1]).card < totalWeight [1] := by
  have hpos : 0 < totalWeight [1] := by decide
  rw [card_rejected hpos]
  decide

end Registry

end Shaula
