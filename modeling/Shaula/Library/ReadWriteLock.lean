import Mathlib.Data.List.Pairwise

/-! # Readers and writers

One lock for each key.  A holder has a ticket for its key; readers share the lock of a key, a writer
holds it alone.
-/

namespace Shaula.Library

/-- How a lock is held. -/
inductive LockMode where
  | shared
  | exclusive
  deriving DecidableEq, Repr

/-- A ticket for the lock of a key, and what it was taken for. -/
structure Ticket (κ τ : Type*) where
  key : κ
  mode : LockMode
  purpose : τ

namespace Ticket

variable {κ τ : Type*} {a b t : Ticket κ τ} {before after : List (Ticket κ τ)}

/-- Two tickets may be held at once. -/
def Compatible (a b : Ticket κ τ) : Prop :=
  a.key = b.key → a.mode = .shared ∧ b.mode = .shared

theorem Compatible.symm (h : a.Compatible b) : b.Compatible a :=
  fun hkey => (h hkey.symm).symm

instance : Std.Symm (Compatible : Ticket κ τ → Ticket κ τ → Prop) where
  symm _ _ h := h.symm

/-- The lock can be given out beside its holders. -/
def Grants (holders : List (Ticket κ τ)) (t : Ticket κ τ) : Prop :=
  ∀ h ∈ holders, t.Compatible h

/-- The holders of the locks exclude each other. -/
def Sound (holders : List (Ticket κ τ)) : Prop :=
  holders.Pairwise Compatible

theorem sound_nil : Sound ([] : List (Ticket κ τ)) := List.Pairwise.nil

theorem Sound.grant {holders : List (Ticket κ τ)} (h : Sound holders) (ht : Grants holders t) :
    Sound (t :: holders) :=
  List.pairwise_cons.mpr ⟨ht, h⟩

/-- Handing a ticket back. -/
theorem Sound.release (h : Sound (before ++ t :: after)) : Sound (before ++ after) :=
  h.sublist ((List.sublist_cons_self t after).append_left before)

/-- A ticket that is held for something else from now on. -/
theorem Sound.repurpose {u : Ticket κ τ} (h : Sound (before ++ t :: after))
    (hkey : u.key = t.key) (hmode : u.mode = t.mode) : Sound (before ++ u :: after) := by
  unfold Sound at h ⊢
  rw [List.pairwise_append, List.pairwise_cons] at h ⊢
  obtain ⟨hbefore, ⟨hhead, hafter⟩, hacross⟩ := h
  refine ⟨hbefore, ⟨?_, hafter⟩, ?_⟩
  · intro b hb hsame
    obtain ⟨hshared, hother⟩ := hhead b hb (hkey.symm.trans hsame)
    exact ⟨hmode.trans hshared, hother⟩
  · intro a ha b hb hsame
    rcases List.mem_cons.mp hb with rfl | hb
    · obtain ⟨hother, hshared⟩ := hacross a ha t (List.mem_cons_self ..) (hsame.trans hkey)
      exact ⟨hother, hmode.trans hshared⟩
    · exact hacross a ha b (List.mem_cons_of_mem _ hb) hsame

/-- While a writer holds a key, no reader does. -/
theorem Sound.alone {holders : List (Ticket κ τ)} (h : Sound holders) (ht : t ∈ holders)
    (hmode : t.mode = .exclusive) (hb : b ∈ holders) (hkey : b.key = t.key) :
    b.mode = .exclusive := by
  by_contra hshared
  have hne : t ≠ b := by
    intro heq
    rw [heq] at hmode
    exact hshared hmode
  have hcompatible : t.Compatible b := h.forall ht hb hne
  have hboth := hcompatible hkey.symm
  rw [hmode] at hboth
  cases hboth.1

end Ticket

end Shaula.Library
