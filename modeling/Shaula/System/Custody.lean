import Shaula.System.Backend

/-! # Custody of pending admissions

While an admission waits to be taken, nobody outside the daemon holds the state capability of its
generation's row.  Its backend therefore stays unlocked, so that a second replacement, whose
admission cannot be published, finds no lock to clear.
-/

namespace Shaula

open Core Library

variable {P : Platform} {σ τ : System} {l : Label P} {id : Uuid}

namespace System

/-- Row `c` of generation `id` is unlocked, and its drawn capability is neither handed out nor
waiting in another generation's admission. -/
structure Reserved (P : Platform) (σ : System) (id : Uuid) (c : StateColumns) : Prop where
  state : (σ.view id).state = some c
  unlocked : c.lockId = none
  drawn : ∃ k ∈ σ.stateDraws, k.verifier P = c.capabilityHash
  unheld : ∀ k ∈ σ.handed, k.verifier P ≠ c.capabilityHash
  unshared : ∀ other admission, other ≠ id → σ.daemon.pending.find other = some admission →
    admission.state.verifier P ≠ c.capabilityHash

/-- What holds of pending admissions and of capabilities handed out. -/
structure Custody (P : Platform) (σ : System) : Prop where
  handed : ∀ k ∈ σ.handed, k ∈ σ.stateDraws
  pending : ∀ id admission, σ.daemon.pending.find id = some admission →
    admission.state ∈ σ.stateDraws
  reserved : ∀ id, (σ.daemon.pending.find id).isSome → ∃ c, σ.Reserved P id c

theorem Custody.initial (createLimit : Nat) : Custody P (initial createLimit) :=
  ⟨by simp [System.initial], by simp [System.initial], by simp [System.initial]⟩

/-- With no admission pending there is nothing to reserve. -/
theorem Custody.of_empty (hhanded : ∀ k ∈ σ.handed, k ∈ σ.stateDraws)
    (hpending : σ.daemon.pending = ∅) : Custody P σ := by
  refine ⟨hhanded, ?_, ?_⟩ <;> simp [hpending]

variable {r : Request P}

/-- What serving hands out was drawn by then. -/
theorem Custody.serve_handed (hσ : Custody P σ) :
    ∀ k ∈ (σ.serve P r).handed, k ∈ (σ.serve P r).stateDraws := by
  intro k hk
  rcases List.mem_append.mp hk with hk | hk
  · obtain ⟨-, hdrawn | ⟨id, admission, hfind, rfl, -⟩⟩ := Daemon.exec_handed hk
    · exact List.mem_append_left _ hdrawn
    · exact List.mem_append_right _ (hσ.pending id admission hfind)
  · exact List.mem_append_right _ (hσ.handed k hk)

/-- A credential drawn for this request differs from those handed out before. -/
theorem Custody.draw_unheld (hσ : Custody P σ) (hpermits : σ.Permits P r)
    {k : StateCapability} (hk : k ∈ r.stateDraws) :
    ∀ k' ∈ σ.handed, k'.verifier P ≠ k.verifier P :=
  fun k' hk' => hpermits.freshState k hk k' (hσ.handed k' hk')

/-- A row whose capability was just drawn for a publication is reserved, once it is unlocked. -/
theorem Custody.serve_fresh (hσ : Custody P σ) (hpermits : σ.Permits P r)
    {c : StateColumns} {k : StateCapability} (hpublishes : r.publishes = some id) (hk : k ∈ r.stateDraws)
    (hrow : ((σ.serve P r).view id).state = some c) (hunlocked : c.lockId = none)
    (hhash : c.capabilityHash = k.verifier P) : (σ.serve P r).Reserved P id c := by
  refine ⟨hrow, hunlocked, ⟨k, List.mem_append_left _ hk, hhash.symm⟩, ?_, ?_⟩
  · intro k' hk'
    rw [hhash]
    rcases List.mem_append.mp hk' with hk' | hk'
    · -- A request that publishes hands nothing out.
      obtain ⟨hnone, -⟩ := Daemon.exec_handed hk'
      cases hpublishes.symm.trans hnone
    · exact hσ.draw_unheld hpermits hk k' hk'
  · intro other admission hother hfind
    rw [hhash]
    rcases Daemon.exec_pending hfind with hold | ⟨hpublishes', -⟩
    · exact hpermits.freshState k hk _ (hσ.pending other admission hold)
    · exact absurd (Option.some.inj (hpublishes'.symm.trans hpublishes)) hother

/-- Nobody can lock a reserved row. -/
theorem Reserved.not_granted {c : StateColumns} {access : StateAccess}
    (hreserved : σ.Reserved P id c) (hpermits : σ.Permits P r)
    (hpresented : r.stateAccess = some access)
    (hgranted : (σ.view id).Granted P access c) : False := by
  obtain ⟨k, hk, hhash⟩ := hreserved.drawn
  have hmatch : access.capability.verifier P = c.capabilityHash :=
    beq_iff_eq.mp hgranted.capability
  have hheld := hpermits.secret _ (by rw [hpresented]; rfl) k hk (hhash.trans hmatch.symm)
  exact hreserved.unheld k hheld hhash

/-- A row stays reserved while its admission stays pending. -/
theorem Custody.serve_reserved (hσ : Custody P σ) (hpermits : σ.Permits P r)
    {c : StateColumns} {admission : WorkerAdmission} (hreserved : σ.Reserved P id c)
    (hstill : (σ.serve P r).daemon.pending.find id = some admission) :
    ∃ c', (σ.serve P r).Reserved P id c' := by
  have hchange : Change P id r (σ.view id) ((σ.serve P r).view id) :=
    σ.daemon.exec_change r id
  rcases hchange.authority hreserved.state with ⟨c', hrow, hkeeps⟩ | ⟨w, draw, hreplaces⟩
  · obtain ⟨c₁, hrow₁, hmove⟩ := hchange.move hreserved.state
    cases Option.some.inj (hrow₁.symm.trans hrow)
    have hhash := hkeeps.capabilityHash
    have hunlocked : c'.lockId = none := by
      cases hmove with
      | kept hsame => exact (congrArg Backend.lockId hsame).trans hreserved.unlocked
      | locked hid hgranted =>
        exact (hreserved.not_granted hpermits rfl hgranted).elim
      | unlocked | cleared => rfl
      | written => exact hreserved.unlocked
    obtain ⟨k₀, hk₀, hhash₀⟩ := hreserved.drawn
    refine ⟨c', hrow, hunlocked, ⟨k₀, List.mem_append_right _ hk₀, hhash₀.trans hhash.symm⟩, ?_, ?_⟩
    · intro k hk
      rw [hhash]
      rcases List.mem_append.mp hk with hk | hk
      · obtain ⟨hnone, hdrawn | ⟨other, taken, hfind, rfl, hdeleted⟩⟩ := Daemon.exec_handed hk
        · rw [← hhash₀]
          exact (hpermits.freshState k hdrawn k₀ hk₀).symm
        · refine hreserved.unshared other taken ?_ hfind
          rintro rfl
          have hstill : (σ.daemon.exec P r).1.pending.find other = some admission := hstill
          rw [hdeleted, Table.find_delete, if_pos rfl] at hstill
          cases hstill
      · exact hreserved.unheld k hk
    · intro other admission' hother hfind
      rw [hhash]
      rcases Daemon.exec_pending hfind with hold | ⟨-, hdrawn, -⟩
      · exact hreserved.unshared other admission' hother hold
      · rw [← hhash₀]
        exact (hpermits.freshState _ hdrawn k₀ hk₀).symm
  · obtain ⟨record, -, -, -, -, hrow, -⟩ := hreplaces.rotated
    exact ⟨_, hσ.serve_fresh hpermits hreplaces.publishes hreplaces.draws.1 hrow rfl rfl⟩

theorem Custody.serve (hσ : Custody P σ) (hpermits : σ.Permits P r) :
    Custody P (σ.serve P r) := by
  refine ⟨hσ.serve_handed, ?_, ?_⟩
  · intro id admission hfind
    rcases Daemon.exec_pending hfind with hold | ⟨-, hdrawn, -⟩
    · exact List.mem_append_right _ (hσ.pending id admission hold)
    · exact List.mem_append_left _ hdrawn
  · intro id hsome
    obtain ⟨admission, hfind⟩ := Option.isSome_iff_exists.mp hsome
    rcases Daemon.exec_pending hfind with hold | ⟨hpublishes, hdrawn, c, hrow, hunlocked, hhash⟩
    · obtain ⟨c, hreserved⟩ := hσ.reserved id (by rw [hold]; rfl)
      exact hσ.serve_reserved hpermits hreserved hfind
    · exact ⟨c, hσ.serve_fresh hpermits hpublishes hdrawn hrow hunlocked hhash⟩

theorem Custody.step (hσ : Custody P σ) (h : Step P σ l τ) : Custody P τ := by
  cases h with
  | served r hpermits => exact hσ.serve hpermits
  | failed r => exact hσ
  | crashed r hpermits =>
    exact .of_empty (fun k hk => List.mem_append_right _ (hσ.handed k hk)) rfl
  | restarted => exact .of_empty hσ.handed rfl

/-- Custody holds in every reachable state. -/
theorem Reached.custody (h : Reached P σ) : Custody P σ := by
  refine Reachable.invariant (I := Custody P) ?_ (fun _ _ _ hσ hstep => hσ.step hstep) h
  rintro σ ⟨createLimit, rfl⟩
  exact .initial createLimit

end System

end Shaula
