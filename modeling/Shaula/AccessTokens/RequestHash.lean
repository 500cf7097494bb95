import Shaula.AccessTokens.Records
import Shaula.Library.Framing

/-! # The hash of a request

Two requests of one owner have one hash exactly when they ask for the same token, as far as the
digest tells texts apart: parts are framed by their lengths, and the JSON text is read back.
-/

namespace Shaula.AccessTokens

open Core Library
open JsonText (writeText writeItems writeText_append_inj writeTexts_append_inj)

namespace IssueToken

theorem toNat_toUInt8 {c : Char} (h : c.isDigit = true) :
    c.toUInt8.toNat = c.toNat ∧ 48 ≤ c.toNat ∧ c.toNat ≤ 57 := by
  simp only [Char.isDigit, Bool.and_eq_true, decide_eq_true_eq] at h
  obtain ⟨hge, hle⟩ : 48 ≤ c.toNat ∧ c.toNat ≤ 57 := h
  refine ⟨?_, hge, hle⟩
  exact (UInt32.toNat_toUInt8 c.val).trans (Nat.mod_eq_of_lt (Nat.lt_of_le_of_lt hle (by decide)))

theorem isDigit_toDigits {n : Nat} {c : Char} (h : c ∈ Nat.toDigits 10 n) : c.isDigit = true :=
  Nat.isDigit_of_mem_toDigits (by decide) (by decide) h

/-- The digits of a number are read off its text. -/
theorem map_ofNat_decimal (n : Nat) :
    (decimal n).map (fun b => Char.ofNat b.toNat) = Nat.toDigits 10 n := by
  have hdigit : ∀ c ∈ Nat.toDigits 10 n, Char.ofNat c.toUInt8.toNat = c := by
    intro c hc
    rw [(toNat_toUInt8 (isDigit_toDigits hc)).1, Char.ofNat_toNat]
  rw [decimal, List.map_map]
  exact (List.map_congr_left hdigit).trans (List.map_id _)

theorem decimal_injective : Function.Injective decimal := by
  intro m n h
  have hdigits := congrArg (List.map fun b => Char.ofNat b.toNat) h
  rw [map_ofNat_decimal, map_ofNat_decimal] at hdigits
  rw [← Nat.ofDigitChars_ten_toDigits (n := m), hdigits, Nat.ofDigitChars_ten_toDigits]

/-- A decimal text has digits only. -/
theorem mem_decimal {n : Nat} {b : UInt8} (h : b ∈ decimal n) : 48 ≤ b.toNat ∧ b.toNat ≤ 57 := by
  obtain ⟨c, hc, rfl⟩ := List.mem_map.mp h
  obtain ⟨hbyte, hbounds⟩ := toNat_toUInt8 (isDigit_toDigits hc)
  rw [hbyte]
  exact hbounds

theorem ttl_injective {a b : IssueToken} (h : a.ttl = b.ttl) :
    a.expiresInSeconds = b.expiresInSeconds := by
  have hnull : ∀ n, decimal n ≠ [0x6e, 0x75, 0x6c, 0x6c] := by
    intro n hn
    have hbounds := mem_decimal (n := n) (b := 0x6e) (by rw [hn]; exact List.mem_cons_self)
    exact absurd hbounds.2 (by decide)
  unfold ttl at h
  cases ha : a.expiresInSeconds with
  | none =>
    cases hb : b.expiresInSeconds with
    | none => rfl
    | some n =>
      rw [ha, hb] at h
      exact absurd h.symm (hnull n)
  | some m =>
    cases hb : b.expiresInSeconds with
    | none =>
      rw [ha, hb] at h
      exact absurd h (hnull m)
    | some n =>
      rw [ha, hb] at h
      exact congrArg some (decimal_injective h)

theorem canonical_injective : Function.Injective canonical := by
  intro a b h
  simp only [canonical, writeItems, List.cons.injEq, true_and, List.append_assoc,
    List.append_cancel_left_eq, List.cons_append] at h
  obtain ⟨hname, h⟩ := writeText_append_inj h
  simp only [List.cons.injEq, true_and, List.append_cancel_left_eq] at h
  obtain ⟨hscopes, h⟩ := writeTexts_append_inj h
  simp only [List.cons.injEq, true_and, List.append_cancel_left_eq] at h
  have httl := ttl_injective (List.append_cancel_right h)
  cases a
  cases b
  simp_all

end IssueToken

namespace Crates

theorem hashInput_injective : Function.Injective hashInput := by
  have hframe : ∀ (part : Bytes) parts, hashInput (part :: parts) =
      IssueToken.decimal part.length ++ 0x3a :: (part ++ 0x7c :: hashInput parts) := by
    intro part parts
    simp [hashInput]
  have hcolon : ∀ n, (0x3a : UInt8) ∉ IssueToken.decimal n := by
    intro n hmem
    exact absurd (IssueToken.mem_decimal hmem).2 (by decide)
  intro a b h
  induction a generalizing b with
  | nil =>
    cases b with
    | nil => rfl
    | cons part parts =>
      rw [hframe] at h
      simp [hashInput] at h
  | cons part parts ih =>
    cases b with
    | nil =>
      rw [hframe] at h
      simp [hashInput] at h
    | cons part' parts' =>
      rw [hframe, hframe] at h
      obtain ⟨hlength, h⟩ := key_append_inj (hcolon _) (hcolon _) h
      obtain ⟨rfl, hrest⟩ := List.append_inj h (IssueToken.decimal_injective hlength)
      rw [ih (List.cons.inj hrest).2]

/-- **One hash is one request**, if the digest tells texts apart. -/
theorem requestHash_inj {crates : Crates} (hsha : Function.Injective crates.sha256) {owner : String}
    {body body' : IssueToken} (h : crates.requestHash owner body = crates.requestHash owner body') :
    body = body' := by
  have hdigest := hexEncode_injective (String.append_right_inj _ |>.mp h)
  have hparts := hashInput_injective (hsha hdigest)
  simp only [List.cons.injEq, true_and, and_true] at hparts
  exact IssueToken.canonical_injective hparts

end Crates

end Shaula.AccessTokens
