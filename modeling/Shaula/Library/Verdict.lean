import Shaula.Library.Run

/-! # Verdicts

Records that each speak of a subject and may carry a verdict on it.  A report settles a record that
has no verdict yet, and a record can be turned to another subject, which drops the verdict.  From
what a single step may do to a record follows what a run does: a verdict stays until its record is
turned, and every verdict was reported.
-/

namespace Shaula.Library

/-- What a record says: its subject, and the verdict on it once there is one. -/
structure Finding (α β : Type*) where
  subject : α
  verdict : Option β

namespace Verdict

variable {σ ℓ κ α β : Type*}

/-- What one step may do to the record under a key, where `turns` are the steps that turn a record
away from a subject and `reports` those that report a verdict on one. -/
inductive Moves (turns : κ → α → Prop) (reports : κ → α → β → Prop) (k : κ) :
    Option (Finding α β) → Option (Finding α β) → Prop
  | same (c : Option (Finding α β)) : Moves turns reports k c c
  | opened (a : α) : Moves turns reports k none (some ⟨a, none⟩)
  | openedWith {a : α} {b : β} (h : reports k a b) : Moves turns reports k none (some ⟨a, some b⟩)
  | settled {a : α} {b : β} (h : reports k a b) :
    Moves turns reports k (some ⟨a, none⟩) (some ⟨a, some b⟩)
  | turned {a a' : α} {v : Option β} (h : turns k a) :
    Moves turns reports k (some ⟨a, v⟩) (some ⟨a', none⟩)

variable {turns : κ → α → Prop} {reports : κ → α → β → Prop} {k : κ} {c c' c'' : Option (Finding α β)}

theorem Moves.mono {turns' : κ → α → Prop} {reports' : κ → α → β → Prop}
    (h : Moves turns reports k c c') (hturns : ∀ a, turns k a → turns' k a)
    (hreports : ∀ a b, reports k a b → reports' k a b) : Moves turns' reports' k c c' := by
  cases h with
  | same => exact .same _
  | opened => exact .opened _
  | openedWith hreport => exact .openedWith (hreports _ _ hreport)
  | settled hreport => exact .settled (hreports _ _ hreport)
  | turned hturn => exact .turned (hturns _ hturn)

/-- A step that reports nothing brings no verdict. -/
theorem Moves.verdict_of_quiet (h : Moves turns reports k c c') (hquiet : ∀ a b, ¬ reports k a b)
    {a : α} {b : β} (hafter : c' = some ⟨a, some b⟩) : c = some ⟨a, some b⟩ := by
  cases h with
  | same => exact hafter
  | opened => cases hafter
  | openedWith hreport => exact absurd hreport (hquiet _ _)
  | settled hreport => exact absurd hreport (hquiet _ _)
  | turned => cases hafter

/-- Moves of quiet steps compose. -/
theorem Moves.trans_of_quiet (h : Moves turns reports k c c') (h' : Moves turns reports k c' c'')
    (hquiet : ∀ a b, ¬ reports k a b) : Moves turns reports k c c'' := by
  cases h with
  | same => exact h'
  | openedWith hreport => exact absurd hreport (hquiet _ _)
  | settled hreport => exact absurd hreport (hquiet _ _)
  | opened a =>
    cases h' with
    | same => exact .opened a
    | settled hreport => exact absurd hreport (hquiet _ _)
    | turned => exact .opened _
  | turned hturn =>
    cases h' with
    | same => exact .turned hturn
    | settled hreport => exact absurd hreport (hquiet _ _)
    | turned => exact .turned hturn

section

variable {step : σ → ℓ → σ → Prop} {view : σ → κ → Option (Finding α β)}
  {turns : ℓ → κ → α → Prop} {reports : ℓ → κ → α → β → Prop} {I : σ → Prop}
  {s t : σ} {trace : List (σ × ℓ × σ)} {a : α} {b : β}

/-- A verdict stays while no step turns its record away from the subject. -/
theorem kept (hstep : ∀ s l t, I s → step s l t → I t)
    (hmoves : ∀ s l t, I s → step s l t → Moves (turns l) (reports l) k (view s k) (view t k))
    (h : Run step s trace t) (hs : I s) (hturns : ∀ e ∈ trace, ¬ turns e.2.1 k a)
    (hbefore : view s k = some ⟨a, some b⟩) : view t k = some ⟨a, some b⟩ := by
  induction h with
  | nil => exact hbefore
  | @cons s u t l trace hst _ ih =>
    have hmove := hmoves _ _ _ hs hst
    have hnext : view u k = some ⟨a, some b⟩ := by
      rw [hbefore] at hmove
      generalize hafter : view u k = after at hmove
      cases hmove with
      | same => rfl
      | turned hturn => exact absurd hturn (hturns _ List.mem_cons_self)
    exact ih (hstep _ _ _ hs hst) (fun e he => hturns e (List.mem_cons_of_mem _ he)) hnext

/-- A verdict that was not there at first was reported on the way. -/
theorem reported (hstep : ∀ s l t, I s → step s l t → I t)
    (hmoves : ∀ s l t, I s → step s l t → Moves (turns l) (reports l) k (view s k) (view t k))
    (h : Run step s trace t) (hs : I s) (hafter : view t k = some ⟨a, some b⟩) :
    view s k = some ⟨a, some b⟩ ∨ ∃ e ∈ trace, reports e.2.1 k a b := by
  induction h with
  | nil => exact .inl hafter
  | @cons s u t l trace hst _ ih =>
    rcases ih (hstep _ _ _ hs hst) hafter with hnext | ⟨e, he, hreport⟩
    · have hmove := hmoves _ _ _ hs hst
      rw [hnext] at hmove
      generalize view s k = before at hmove
      cases hmove with
      | same => exact .inl rfl
      | openedWith hreport => exact .inr ⟨_, List.mem_cons_self, hreport⟩
      | settled hreport => exact .inr ⟨_, List.mem_cons_self, hreport⟩
    · exact .inr ⟨e, List.mem_cons_of_mem _ he, hreport⟩

end

end Verdict

end Shaula.Library
