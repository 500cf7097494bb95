import Mathlib.Algebra.Group.Nat.Defs
import Mathlib.Data.List.Nodup
import Mathlib.Tactic.Common

/-! # Digests known on some texts

A digest function that is assumed to be injective has a witness that agrees with the real one on the
texts of interest: it makes every other text longer than any digest.
-/

namespace Shaula.Library

/-- The 32 bytes of a digest, highest first. -/
def digestBytes (n : Nat) : List UInt8 :=
  (List.range 32).map fun i => UInt8.ofNat (n / 256 ^ (31 - i))

def knownDigest (known : List (List UInt8 × Nat)) (text : List UInt8) : List UInt8 :=
  match known.find? fun entry => entry.1 = text with
  | some entry => digestBytes entry.2
  | none => text ++ List.replicate 33 0

theorem knownDigest_cases (known : List (List UInt8 × Nat)) (text : List UInt8) :
    (∃ entry ∈ known, entry.1 = text ∧ knownDigest known text = digestBytes entry.2) ∨
      knownDigest known text = text ++ List.replicate 33 0 := by
  unfold knownDigest
  split
  · next entry hfind =>
    have htext : entry.1 = text := by simpa using List.find?_some hfind
    exact .inl ⟨entry, List.mem_of_find?_eq_some hfind, htext, rfl⟩
  · exact .inr rfl

theorem knownDigest_injective {known : List (List UInt8 × Nat)}
    (h : (known.map fun entry => digestBytes entry.2).Nodup) :
    Function.Injective (knownDigest known) := by
  have hlength : ∀ n, (digestBytes n).length = 32 := fun n => by simp [digestBytes]
  intro a b heq
  rcases knownDigest_cases known a with ⟨x, hx, rfl, hxa⟩ | ha <;>
  rcases knownDigest_cases known b with ⟨y, hy, rfl, hyb⟩ | hb
  · rw [hxa, hyb] at heq
    rw [List.inj_on_of_nodup_map h hx hy heq]
  · have hlengths := congrArg List.length heq
    rw [hxa, hb, hlength, List.length_append, List.length_replicate] at hlengths
    omega
  · have hlengths := congrArg List.length heq
    rw [hyb, ha, hlength, List.length_append, List.length_replicate] at hlengths
    omega
  · rw [ha, hb] at heq
    exact List.append_cancel_right heq

end Shaula.Library
