import Mathlib.Order.Lattice
import Mathlib.Tactic.Common

/-! # Keyset pages

A reader goes down the keys of a collection that changes under it.  Every read starts behind the last
key of the one before it.  Keys that stay in the collection all along are seen exactly once.
-/

namespace Shaula.Library

variable {K : Type*} [LinearOrder K]

/-- The key comes behind the cursor; every key comes behind the top. -/
def Behind (cursor : Option K) (k : K) : Prop := ∀ c ∈ cursor, k < c

/-- The key is not behind the end; the bottom is behind every key. -/
def Within (last : Option K) (k : K) : Prop := ∀ c ∈ last, c ≤ k

/-- Going down from a cursor to an end, a reader sees keys once each, and every key that stays. -/
structure Covers (stays : K → Prop) (cursor last : Option K) (seen : List K) : Prop where
  sorted : seen.Pairwise (· > ·)
  behind : ∀ k ∈ seen, Behind cursor k
  within : ∀ k ∈ seen, Within last k
  complete : ∀ k, stays k → Behind cursor k → Within last k → k ∈ seen

namespace Covers

variable {stays : K → Prop} {cursor last : Option K} {middle k : K} {seen seen' : List K}

/-- Nothing is between a key and itself. -/
theorem nil : Covers stays (some k) (some k) [] where
  sorted := .nil
  behind _ h := by cases h
  within _ h := by cases h
  complete _ _ hbehind hwithin :=
    absurd (hwithin k rfl) (not_le_of_gt (hbehind k rfl))

/-- What is read behind the end of a first read goes on where that ended. -/
theorem append (h : Covers stays cursor (some middle) seen)
    (h' : Covers stays (some middle) last seen') (hmiddle : ∀ c ∈ cursor, middle ≤ c)
    (hlast : Within last middle) : Covers stays cursor last (seen ++ seen') := by
  refine ⟨?_, fun k hk => ?_, fun k hk => ?_, fun k hstays hbehind hwithin => ?_⟩
  · refine List.pairwise_append.mpr ⟨h.sorted, h'.sorted, fun a ha b hb => ?_⟩
    exact lt_of_lt_of_le (h'.behind b hb middle rfl) (h.within a ha middle rfl)
  · rcases List.mem_append.mp hk with hk | hk
    · exact h.behind k hk
    · exact fun c hc => (h'.behind k hk middle rfl).trans_le (hmiddle c hc)
  · rcases List.mem_append.mp hk with hk | hk
    · exact fun c hc => (hlast c hc).trans (h.within k hk middle rfl)
    · exact h'.within k hk
  · rcases le_or_gt middle k with hle | hlt
    · refine List.mem_append_left _ (h.complete k hstays hbehind fun c hc => ?_)
      exact Option.some.inj hc ▸ hle
    · refine List.mem_append_right _ (h'.complete k hstays (fun c hc => ?_) hwithin)
      exact Option.some.inj hc ▸ hlt

/-- A reader that stops at a key it saw has read down to that key. -/
theorem stop (h : Covers stays cursor last (seen ++ k :: seen')) :
    Covers stays cursor (some k) (seen ++ [k]) := by
  obtain ⟨hseen, hrest, hacross⟩ := List.pairwise_append.mp h.sorted
  obtain ⟨hafter, -⟩ := List.pairwise_cons.mp hrest
  have hsub : ∀ x ∈ seen ++ [k], x ∈ seen ++ k :: seen' := by
    intro x hx
    rcases List.mem_append.mp hx with hx | hx
    · exact List.mem_append_left _ hx
    · exact List.mem_append_right _ (List.mem_singleton.mp hx ▸ List.mem_cons_self)
  refine ⟨?_, fun x hx => h.behind x (hsub x hx), fun x hx c hc => ?_, fun x hstays hbehind hx => ?_⟩
  · refine List.pairwise_append.mpr ⟨hseen, List.pairwise_singleton _ _, fun a ha b hb => ?_⟩
    exact hacross a ha b (List.mem_singleton.mp hb ▸ List.mem_cons_self)
  · cases hc
    rcases List.mem_append.mp hx with hx | hx
    · exact (hacross x hx k List.mem_cons_self).le
    · exact (List.mem_singleton.mp hx).ge
  · have hle : k ≤ x := hx k rfl
    have hwithin : Within last x := fun c hc =>
      (h.within k (List.mem_append_right _ List.mem_cons_self) c hc).trans hle
    rcases List.mem_append.mp (h.complete x hstays hbehind hwithin) with hmem | hmem
    · exact List.mem_append_left _ hmem
    · rcases List.mem_cons.mp hmem with rfl | hmem
      · exact List.mem_append_right _ (List.mem_singleton_self _)
      · exact absurd hle (not_le_of_gt (hafter x hmem))

theorem mono {stays' : K → Prop} (h : Covers stays cursor last seen)
    (hstays : ∀ k, stays' k → stays k) : Covers stays' cursor last seen :=
  ⟨h.sorted, h.behind, h.within, fun k hk => h.complete k (hstays k hk)⟩

end Covers

/-! ## Sweeps -/

/-- Pages that follow each other's cursors, from a cursor to where the last of them ends. -/
inductive Sweep (stays : K → Prop) : Option K → List (List K) → Option K → Prop
  | last {cursor last : Option K} {seen : List K} : Covers stays cursor last seen →
      Sweep stays cursor [seen] last
  | page {cursor last : Option K} {k : K} {seen : List K} {pages : List (List K)} :
      (∀ c ∈ cursor, k ≤ c) → Within last k → Covers stays cursor (some k) seen →
      Sweep stays (some k) pages last → Sweep stays cursor (seen :: pages) last

/-- **A sweep sees every key that stays exactly once, in order.** -/
theorem Sweep.covers {stays : K → Prop} {cursor last : Option K} {pages : List (List K)}
    (h : Sweep stays cursor pages last) : Covers stays cursor last pages.flatten := by
  induction h with
  | last hcovers => simpa using hcovers
  | page hcursor hlast hcovers _ ih => exact hcovers.append ih hcursor hlast

end Shaula.Library
