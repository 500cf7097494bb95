import Mathlib.Tactic.Common

/-! # Lines of text

A text splits at its line breaks, and lines without a break in them are what their text splits into.
-/

namespace Shaula.Library

/-- What precedes `tail` in `value`. -/
def stripSuffix (tail : Char) (value : String) : Option String :=
  if value.toList.getLast? = some tail then some (String.ofList value.toList.dropLast) else none

/-- A line that ended in a newline, without a carriage return before it. -/
def withoutReturn (line : List Char) : List Char :=
  if line.getLast? = some '\r' then line.dropLast else line

/-- The lines that the parts between newlines make: nothing follows the last newline. -/
def linesOf : List (List Char) → List (List Char)
  | [] => []
  | [last] => if last = [] then [] else [last]
  | part :: next :: rest => withoutReturn part :: linesOf (next :: rest)

/-- The lines of a text. -/
def lines (value : String) : List String :=
  (linesOf (value.toList.splitOn '\n')).map String.ofList

/-- The text of some lines, each ended by a newline. -/
def unlines : List String → String
  | [] => ""
  | line :: rest => line ++ "\n" ++ unlines rest

/-- A line break is no part of a line. -/
def IsLine (line : String) : Prop := ∀ c ∈ line.toList, c ≠ '\n' ∧ c ≠ '\r'

instance (line : String) : Decidable (IsLine line) := List.decidableBAll _ _

@[simp] theorem stripSuffix_append (value : String) :
    stripSuffix '"' (value ++ "\"") = some value := by
  simp [stripSuffix]

theorem IsLine.append {a b : String} (ha : IsLine a) (hb : IsLine b) : IsLine (a ++ b) := by
  intro c hc
  rw [String.toList_append, List.mem_append] at hc
  rcases hc with hc | hc
  · exact ha c hc
  · exact hb c hc

theorem IsLine.withoutReturn {line : String} (h : IsLine line) :
    withoutReturn line.toList = line.toList := by
  unfold Library.withoutReturn
  rw [if_neg]
  intro hlast
  exact (h '\r' (List.mem_of_getLast? hlast)).2 rfl

/-- A first line is split off at its newline. -/
theorem lines_cons {line : String} (h : IsLine line) (rest : String) :
    lines (line ++ "\n" ++ rest) = line :: lines rest := by
  have hparts : (line ++ "\n" ++ rest).toList.splitOn '\n' =
      line.toList :: rest.toList.splitOn '\n' := by
    have hno : '\n' ∉ line.toList := fun hmem => (h '\n' hmem).1 rfl
    have hchars : (line ++ "\n" ++ rest).toList = line.toList ++ '\n' :: rest.toList := by
      simp
    rw [hchars, List.splitOn_append_cons_self, List.splitOn_eq_singleton hno,
      List.singleton_append]
  obtain ⟨part, parts, hrest⟩ := List.exists_cons_of_ne_nil
    (List.splitOn_ne_nil '\n' rest.toList)
  unfold lines
  rw [hparts, hrest, linesOf, h.withoutReturn, List.map_cons, String.ofList_toList]

theorem lines_unlines {ls : List String} (h : ∀ line ∈ ls, IsLine line) :
    lines (unlines ls) = ls := by
  induction ls with
  | nil => rfl
  | cons line rest ih =>
    rw [unlines, lines_cons (h line List.mem_cons_self)]
    rw [ih fun l hl => h l (List.mem_cons_of_mem _ hl)]

/-- What stands between separators has none in it. -/
theorem notMem_of_mem_splitOn {α : Type} [DecidableEq α] {x : α} {xs part : List α}
    (h : part ∈ xs.splitOn x) : x ∉ part := by
  induction xs generalizing part with
  | nil =>
    rw [List.splitOn_nil, List.mem_singleton] at h
    simp [h]
  | cons y ys ih =>
    rw [List.splitOn_cons_eq_if_modifyHead] at h
    split at h
    · rcases List.mem_cons.mp h with rfl | h
      · exact List.not_mem_nil
      · exact ih h
    · next hy =>
      obtain ⟨first, others, hparts⟩ := List.exists_cons_of_ne_nil (List.splitOn_ne_nil x ys)
      rw [hparts] at h ih
      rw [List.modifyHead_cons] at h
      rcases List.mem_cons.mp h with rfl | h
      · have hfirst := ih List.mem_cons_self
        rw [List.mem_cons, not_or]
        refine ⟨?_, hfirst⟩
        rintro rfl
        simp at hy
      · exact ih (List.mem_cons_of_mem _ h)

theorem mem_of_mem_withoutReturn {c : Char} {line : List Char} (h : c ∈ withoutReturn line) :
    c ∈ line := by
  unfold withoutReturn at h
  split at h
  · exact List.dropLast_subset _ h
  · exact h

theorem notMem_linesOf {parts : List (List Char)} (h : ∀ part ∈ parts, '\n' ∉ part) :
    ∀ line ∈ linesOf parts, '\n' ∉ line := by
  fun_induction linesOf parts with
  | case1 => exact nofun
  | case2 => exact nofun
  | case3 last hlast => exact h
  | case4 part next rest ih =>
    intro line hline
    rcases List.mem_cons.mp hline with rfl | hline
    · intro hmem
      exact h part List.mem_cons_self (mem_of_mem_withoutReturn hmem)
    · exact ih (fun p hp => h p (List.mem_cons_of_mem _ hp)) line hline

/-- A line has no newline in it. -/
theorem notMem_lines {value line : String} (h : line ∈ lines value) : '\n' ∉ line.toList := by
  obtain ⟨chars, hchars, rfl⟩ := List.mem_map.mp h
  rw [String.toList_ofList]
  exact notMem_linesOf (fun part hpart => notMem_of_mem_splitOn hpart) chars hchars

end Shaula.Library
