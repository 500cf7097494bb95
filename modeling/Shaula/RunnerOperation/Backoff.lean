import Shaula.Core.Records
import Shaula.Library.Table

/-! # Destroy backoff

Exponential backoff between failed resource destroys of one generation.  The failure counts are
process memory: after a restart the first retry is immediate.
-/

namespace Shaula.RunnerOperation

open Core Library

/-- Delay after the first consecutive failure; doubled per further failure. -/
def baseMs : Int := 15000

/-- Upper bound, so a long-failing destroy is still retried regularly. -/
def capMs : Int := 300000

/-- Consecutive failures and earliest next attempt of each generation. -/
structure DestroyBackoff where
  failures : Table Uuid (Nat × Int)

namespace DestroyBackoff

def empty : DestroyBackoff := ⟨∅⟩

/-- A 64-bit shift, which fails on a shift of the whole width and drops what it shifts out. -/
def checkedShl (value : Int) (n : Nat) : Option Int :=
  if n < 64 then some (Int.bmod (value * 2 ^ n) (2 ^ 64)) else none

/-- The delay after this many consecutive failures. -/
def delay (count : Nat) : Int :=
  match (checkedShl baseMs (count - 1)).filter (0 < ·) with
  | some delay => min delay capMs
  | none => capMs

/-- Whether a destroy of the generation may be attempted. -/
def due (b : DestroyBackoff) (id : Uuid) (now : Int) : Bool :=
  (b.failures.find id).all fun entry => entry.2 ≤ now

/-- Records a failed destroy and returns the delay. -/
def failed (b : DestroyBackoff) (id : Uuid) (time : Int) : DestroyBackoff × Int :=
  let count := min (((b.failures.find id).getD (0, time)).1 + 1) (2 ^ 32 - 1)
  (⟨b.failures.put id (count, min (time + delay count) (2 ^ 63 - 1))⟩, delay count)

/-- Forgets a generation whose destroy succeeded or ended in quarantine. -/
def clear (b : DestroyBackoff) (id : Uuid) : DestroyBackoff :=
  ⟨b.failures.delete id⟩

theorem delay_bounds (count : Nat) : 0 < delay count ∧ delay count ≤ capMs := by
  have hcap : 0 < capMs := by decide
  unfold delay
  split
  · next d hd =>
    have hpos : 0 < d := by simpa using (Option.filter_eq_some_iff.mp hd).2
    exact ⟨Int.lt_min.mpr ⟨hpos, hcap⟩, Int.min_le_right _ _⟩
  · exact ⟨hcap, Int.le_refl _⟩

/-- However often a destroy failed, the next attempt is due within the cap. -/
theorem due_after_failed (b : DestroyBackoff) (id : Uuid) {time now : Int}
    (h : time + capMs ≤ now) : (b.failed id time).1.due id now = true := by
  simp only [due, failed, Table.find_put, if_true, Option.all_some, decide_eq_true_eq]
  have hcap := (delay_bounds (min (((b.failures.find id).getD (0, time)).1 + 1) (2 ^ 32 - 1))).2
  exact Int.le_trans (Int.min_le_left _ _) (by omega)

end DestroyBackoff

end Shaula.RunnerOperation
