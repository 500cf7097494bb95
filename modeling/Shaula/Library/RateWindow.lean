import Mathlib.Data.List.Count
import Mathlib.Tactic.Common

/-! # Rates over a sliding window

An entry is admitted only while fewer than a limit of the entries before it are younger than a window.
Entries may carry times that are not in their order; no window holds more than the limit all the same.
-/

namespace Shaula.Library

/-- Times of entries, the last admitted first: when each was admitted, fewer than `limit` of the
earlier ones were later than its own time less `width`. -/
inductive Paced (limit : Nat) (width : Int) : List Int → Prop
  | nil : Paced limit width []
  | cons {time : Int} {times : List Int} : times.countP (fun t => time - width < t) < limit →
      Paced limit width times → Paced limit width (time :: times)

namespace Paced

variable {limit : Nat} {width : Int} {times : List Int}

/-- **No window holds more than the limit.**  The last entry in it was admitted while all others
counted. -/
theorem countP_window_le (h : Paced limit width times) (start : Int) :
    times.countP (fun t => start ≤ t ∧ t < start + width) ≤ limit := by
  induction h with
  | nil => exact Nat.zero_le _
  | @cons time times hfew _ ih =>
    by_cases hin : start ≤ time ∧ time < start + width
    · have hcounted : times.countP (fun t => start ≤ t ∧ t < start + width) ≤
          times.countP (fun t => time - width < t) := by
        refine List.countP_mono_left fun t _ ht => ?_
        obtain ⟨hstart, -⟩ := of_decide_eq_true ht
        refine decide_eq_true ?_
        omega
      rw [List.countP_cons_of_pos (by simpa using hin)]
      exact Nat.succ_le_of_lt (Nat.lt_of_le_of_lt hcounted hfew)
    · rw [List.countP_cons_of_neg (by simpa using hin)]
      exact ih

end Paced

end Shaula.Library
