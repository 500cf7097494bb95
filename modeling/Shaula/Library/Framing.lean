import Mathlib.Data.List.Basic
import Mathlib.Tactic.Common

/-! # Keys and values run together

Records written one after the other, each as its key, one separator and its value, with nothing
behind the value.  Keys hold no separator, so a reader finds the first key; where the first value
ends it cannot tell.  Two lists of records spell the same text exactly when they are equal or the
value of one record, the first one that differs, goes on with what the other list spells after it.
-/

namespace Shaula.Library

variable {α : Type*} {sep : α} {F G : List (List α × List α)}

/-- The text of the records. -/
def spelled (sep : α) (records : List (List α × List α)) : List α :=
  records.flatMap fun record => record.1 ++ sep :: record.2

@[simp] theorem spelled_nil : spelled sep [] = [] := rfl

@[simp] theorem spelled_cons (key value : List α) (records : List (List α × List α)) :
    spelled sep ((key, value) :: records) = key ++ sep :: (value ++ spelled sep records) := by
  simp [spelled]

/-- `F` and `G` agree up to a record whose value is longer in `G`, by the beginning of what the
records after it spell in `F`. -/
def Respelled (sep : α) (F G : List (List α × List α)) : Prop :=
  ∃ common key value more rest rest', more ≠ [] ∧ F = common ++ (key, value) :: rest ∧
    G = common ++ (key, value ++ more) :: rest' ∧ spelled sep rest = more ++ spelled sep rest'

theorem Respelled.ne (h : Respelled sep F G) : F ≠ G := by
  obtain ⟨common, key, value, more, rest, rest', hmore, rfl, rfl, -⟩ := h
  intro heq
  have hcons := List.append_cancel_left heq
  injection hcons with hrecord
  have hvalue : value = value ++ more := (Prod.mk.inj hrecord).2
  exact hmore (List.self_eq_append_right.mp hvalue)

theorem Respelled.spelled_eq (h : Respelled sep F G) : spelled sep F = spelled sep G := by
  obtain ⟨common, key, value, more, rest, rest', -, rfl, rfl, hrest⟩ := h
  simp only [spelled, List.flatMap_append, List.flatMap_cons]
  have hrest' : rest.flatMap (fun record => record.1 ++ sep :: record.2) =
      more ++ rest'.flatMap fun record => record.1 ++ sep :: record.2 := hrest
  simp [hrest', List.append_assoc]

theorem Respelled.cons (record : List α × List α) (h : Respelled sep F G) :
    Respelled sep (record :: F) (record :: G) := by
  obtain ⟨common, key, value, more, rest, rest', hmore, rfl, rfl, hrest⟩ := h
  exact ⟨record :: common, key, value, more, rest, rest', hmore, rfl, rfl, hrest⟩

/-- The first separator ends the first key. -/
theorem key_append_inj {key key' rest rest' : List α} (hkey : sep ∉ key) (hkey' : sep ∉ key')
    (h : key ++ sep :: rest = key' ++ sep :: rest') : key = key' ∧ rest = rest' := by
  induction key generalizing key' with
  | nil =>
    cases key' with
    | nil => exact ⟨rfl, (List.cons.inj h).2⟩
    | cons x key' =>
      have hx : sep = x := (List.cons.inj h).1
      exact absurd (hx ▸ List.mem_cons_self) hkey'
  | cons x key ih =>
    cases key' with
    | nil =>
      have hx : x = sep := (List.cons.inj h).1
      exact absurd (hx ▸ List.mem_cons_self) hkey
    | cons y key' =>
      obtain ⟨hx, htail⟩ := List.cons.inj h
      have hboth := ih (fun hmem => hkey (List.mem_cons_of_mem _ hmem))
        (fun hmem => hkey' (List.mem_cons_of_mem _ hmem)) htail
      exact ⟨by rw [hx, hboth.1], hboth.2⟩

/-- **Framing by a separator behind the key.** -/
theorem spelled_eq_iff (hF : ∀ record ∈ F, sep ∉ record.1) (hG : ∀ record ∈ G, sep ∉ record.1) :
    spelled sep F = spelled sep G ↔ F = G ∨ Respelled sep F G ∨ Respelled sep G F := by
  constructor
  · intro h
    induction F generalizing G with
    | nil =>
      cases G with
      | nil => exact .inl rfl
      | cons record G => simp [spelled] at h
    | cons record F ih =>
      cases G with
      | nil => simp [spelled] at h
      | cons record' G =>
        obtain ⟨key, value⟩ := record
        obtain ⟨key', value'⟩ := record'
        rw [spelled_cons, spelled_cons] at h
        obtain ⟨rfl, hrest⟩ := key_append_inj (hF _ List.mem_cons_self) (hG _ List.mem_cons_self) h
        have hF' : ∀ record ∈ F, sep ∉ record.1 :=
          fun record hmem => hF record (List.mem_cons_of_mem _ hmem)
        have hG' : ∀ record ∈ G, sep ∉ record.1 :=
          fun record hmem => hG record (List.mem_cons_of_mem _ hmem)
        rcases List.append_eq_append_iff.mp hrest with ⟨more, rfl, hmore⟩ | ⟨more, rfl, hmore⟩
        · cases more with
          | nil =>
            rw [List.append_nil]
            rcases ih hF' hG' hmore with rfl | hone | hother
            · exact .inl rfl
            · exact .inr (.inl (hone.cons _))
            · exact .inr (.inr (hother.cons _))
          | cons x more =>
            exact .inr (.inl ⟨[], key, value, x :: more, F, G, by simp, rfl, rfl, hmore⟩)
        · cases more with
          | nil =>
            rw [List.append_nil]
            rcases ih hF' hG' hmore.symm with rfl | hone | hother
            · exact .inl rfl
            · exact .inr (.inl (hone.cons _))
            · exact .inr (.inr (hother.cons _))
          | cons x more =>
            exact .inr (.inr ⟨[], key, value', x :: more, G, F, by simp, rfl, rfl, hmore⟩)
  · rintro (rfl | h | h)
    · rfl
    · exact h.spelled_eq
    · exact h.spelled_eq.symm

/-- The text tells two lists of records apart exactly when neither respells the other. -/
theorem spelled_faithful_iff (hF : ∀ record ∈ F, sep ∉ record.1)
    (hG : ∀ record ∈ G, sep ∉ record.1) :
    (spelled sep F = spelled sep G ↔ F = G) ↔ ¬ (Respelled sep F G ∨ Respelled sep G F) := by
  rw [spelled_eq_iff hF hG]
  constructor
  · rintro h (hone | hother)
    · exact hone.ne (h.mp (.inr (.inl hone)))
    · exact hother.ne (h.mp (.inr (.inr hother))).symm
  · intro h
    constructor
    · rintro (heq | hone)
      · exact heq
      · exact absurd hone h
    · exact .inl

end Shaula.Library
