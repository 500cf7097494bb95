import Mathlib.Data.List.Infix
import Mathlib.Tactic.Common

/-! # Replacing a pattern in a text

Every occurrence of a pattern, from the left and without overlaps, gives way to a marker.  Where the
marker is a word between two brackets, a pattern without brackets cannot arise across the marker, so
that replacing one pattern after the other leaves none of them.
-/

namespace Shaula.Library

variable {α : Type*} [DecidableEq α]

/-- The text after its first `skip` items, with `pattern` replaced by `marker`. -/
def replaceFrom (pattern marker : List α) : Nat → List α → List α
  | _, [] => []
  | skip + 1, _ :: text => replaceFrom pattern marker skip text
  | 0, c :: text =>
    if pattern <+: c :: text then marker ++ replaceFrom pattern marker (pattern.length - 1) text
    else c :: replaceFrom pattern marker 0 text

/-- Every occurrence of `pattern`; the empty pattern occurs around every item. -/
def replaceAll (pattern marker text : List α) : List α :=
  if pattern = [] then marker ++ text.flatMap (fun c => c :: marker)
  else replaceFrom pattern marker 0 text

/-- `v` has no brackets, and is no part of the word between them. -/
structure Unmarked (opening closing : α) (word v : List α) : Prop where
  opening : opening ∉ v
  closing : closing ∉ v
  word : ¬ v <:+: word

variable {opening closing : α} {word pattern text v : List α} {skip : Nat}

omit [DecidableEq α] in
theorem Unmarked.ne_nil (h : Unmarked opening closing word v) : v ≠ [] := by
  rintro rfl
  exact h.word (List.nil_infix)

omit [DecidableEq α] in
/-- A list without `b` does not reach across `b`. -/
theorem infix_append_cons {b : α} {xs ys : List α} (hb : b ∉ v) (h : v <:+: xs ++ b :: ys) :
    v <:+: xs ∨ v <:+: ys := by
  induction xs with
  | nil =>
    rcases List.infix_cons_iff.mp h with hprefixed | hwithin
    · rcases List.prefix_cons_iff.mp hprefixed with rfl | ⟨t, rfl, -⟩
      · exact .inl List.nil_infix
      · exact absurd List.mem_cons_self hb
    · exact .inr hwithin
  | cons x xs ih =>
    rcases List.infix_cons_iff.mp h with hprefixed | hwithin
    · obtain ⟨rest, hrest⟩ := hprefixed
      rcases List.append_eq_append_iff.mp (hrest.trans (List.cons_append ..).symm) with
        ⟨a, hsplit, -⟩ | ⟨a, hsplit, htail⟩
      · exact .inl ⟨[], a, by simpa using hsplit.symm⟩
      · cases a with
        | nil => exact .inl ⟨[], [], by simpa using hsplit⟩
        | cons y a =>
          cases (List.cons.inj htail).1
          exact absurd (by rw [hsplit]; simp) hb
    · rcases ih hwithin with hleft | hright
      · exact .inl (hleft.trans (List.suffix_cons x xs).isInfix)
      · exact .inr hright

/-- What is at the front of the result and free of brackets was at the front of the text. -/
theorem prefix_of_prefix_replaceFrom (ho : opening ∉ v)
    (h : v <+: replaceFrom pattern (opening :: word ++ [closing]) skip text) :
    v <+: text.drop skip := by
  induction text generalizing skip v with
  | nil => simpa [replaceFrom] using h
  | cons c text ih =>
    cases skip with
    | succ skip => exact ih ho h
    | zero =>
      rw [replaceFrom] at h
      split at h
      · rcases List.prefix_cons_iff.mp h with rfl | ⟨t, rfl, -⟩
        · exact List.nil_prefix
        · exact absurd List.mem_cons_self ho
      · rcases List.prefix_cons_iff.mp h with rfl | ⟨t, rfl, ht⟩
        · exact List.nil_prefix
        · have htext : t <+: text := ih (fun hmem => ho (List.mem_cons_of_mem _ hmem)) ht
          exact List.cons_prefix_cons.mpr ⟨rfl, htext⟩

omit [DecidableEq α] in
/-- A part of a marker and what follows it is a part of what follows it. -/
theorem Unmarked.infix_marker {rest : List α} (hv : Unmarked opening closing word v)
    (h : v <:+: opening :: word ++ [closing] ++ rest) : v <:+: rest := by
  have hinner : v <:+: word ++ closing :: rest := by
    have hsplit : v <:+: [] ++ opening :: (word ++ closing :: rest) := by simpa using h
    rcases infix_append_cons hv.opening hsplit with hnil | hinner
    · exact hnil.trans List.nil_infix
    · exact hinner
  exact (infix_append_cons hv.closing hinner).resolve_left hv.word

/-- A replacement makes no new occurrence. -/
theorem Unmarked.infix_of_infix_replaceFrom (hv : Unmarked opening closing word v)
    (h : v <:+: replaceFrom pattern (opening :: word ++ [closing]) skip text) : v <:+: text := by
  induction text generalizing skip with
  | nil => simpa [replaceFrom] using h
  | cons c text ih =>
    have hlater : v <:+: text → v <:+: c :: text :=
      fun hwithin => hwithin.trans (List.suffix_cons c text).isInfix
    cases skip with
    | succ skip => exact hlater (ih h)
    | zero =>
      rw [replaceFrom] at h
      split at h
      · exact hlater (ih (hv.infix_marker h))
      · next hno =>
        rcases List.infix_cons_iff.mp h with hprefixed | hwithin
        · have hfront : v <+: replaceFrom pattern (opening :: word ++ [closing]) 0 (c :: text) := by
            rw [replaceFrom, if_neg hno]
            exact hprefixed
          exact (prefix_of_prefix_replaceFrom hv.opening hfront).isInfix
        · exact hlater (ih hwithin)

/-- No occurrence of the pattern is left. -/
theorem Unmarked.not_infix_replaceFrom (hv : Unmarked opening closing word v) :
    ¬ v <:+: replaceFrom v (opening :: word ++ [closing]) skip text := by
  induction text generalizing skip with
  | nil =>
    intro h
    exact hv.ne_nil (List.infix_nil.mp (by simpa [replaceFrom] using h))
  | cons c text ih =>
    cases skip with
    | succ skip => exact ih
    | zero =>
      intro h
      rw [replaceFrom] at h
      split at h
      · exact ih (hv.infix_marker h)
      · next hno =>
        rcases List.infix_cons_iff.mp h with hprefixed | hwithin
        · have hfront : v <+: replaceFrom v (opening :: word ++ [closing]) 0 (c :: text) := by
            rw [replaceFrom, if_neg hno]
            exact hprefixed
          exact hno (prefix_of_prefix_replaceFrom hv.opening hfront)
        · exact ih hwithin

/-- One pattern after the other. -/
def replaceEach (marker : List α) (patterns : List (List α)) (text : List α) : List α :=
  patterns.foldl (fun text pattern => replaceAll pattern marker text) text

/-- **Redaction.**  After all patterns were replaced, none of them is left. -/
theorem not_infix_replaceEach {patterns : List (List α)}
    (hpatterns : ∀ p ∈ patterns, Unmarked opening closing word p) :
    ∀ v ∈ patterns, ¬ v <:+: replaceEach (opening :: word ++ [closing]) patterns text := by
  have hkept : ∀ (later : List (List α)) (text : List α),
      (∀ p ∈ later, Unmarked opening closing word p) → ∀ v, Unmarked opening closing word v →
      v <:+: replaceEach (opening :: word ++ [closing]) later text → v <:+: text := by
    intro later
    induction later with
    | nil => exact fun _ _ _ _ h => h
    | cons p later ih =>
      intro text hlater v hv h
      have hp := hlater p List.mem_cons_self
      have hfirst : v <:+: replaceAll p (opening :: word ++ [closing]) text :=
        ih _ (fun q hq => hlater q (List.mem_cons_of_mem _ hq)) v hv h
      rw [replaceAll, if_neg hp.ne_nil] at hfirst
      exact hv.infix_of_infix_replaceFrom hfirst
  induction patterns generalizing text with
  | nil => exact fun v hv => absurd hv List.not_mem_nil
  | cons p patterns ih =>
    intro v hmem
    have hp := hpatterns p List.mem_cons_self
    have hrest : ∀ q ∈ patterns, Unmarked opening closing word q :=
      fun q hq => hpatterns q (List.mem_cons_of_mem _ hq)
    rcases List.mem_cons.mp hmem with rfl | hmem
    · intro h
      have hfirst : v <:+: replaceAll v (opening :: word ++ [closing]) text :=
        hkept patterns _ hrest v hp h
      rw [replaceAll, if_neg hp.ne_nil] at hfirst
      exact hp.not_infix_replaceFrom hfirst
    · exact ih hrest v hmem

end Shaula.Library
