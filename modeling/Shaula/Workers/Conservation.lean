import Shaula.Workers.Capacity

/-! # Conservation of worker capacity

Every permit is free or with a session whose process runs, as long as every session that is made
gets its process and no confirmed fence goes unheard.
-/

namespace Shaula.Workers.Coordinator

open Library Core

abbrev WorkerConfig := Pool.Config workerEffects WorkerCall World StateError Unit

abbrev WorkerEvent := Pool.Event workerEffects WorkerCall StateError Unit

/-! ## What each answer demands -/

/-- The effect that must come right after an answer. -/
def demand : (op : WorkerEffect) → op.Answer → Option WorkerEffect
  | .insertSession _, .ok s => some (.launchPending s)
  | .launchPending s, .ok _ => some (.launch s)
  | .launch s, .ok identity => some (.setIdentity s identity)
  | .stopAndFence s .fence, .fenced => some (.releasePermit s false)
  | .stopAndFence s .completed, .fenced => some (.releasePermit s true)
  | _, _ => none

abbrev Routine.Heeds {α : Type} (p : Routine α) : Prop :=
  Program.Heeds (F := workerEffects) demand p

section Heeds

open Program.Heeds

variable (s : Nat) (id : Uuid) (reaper : Bool)

end Heeds

/-! ## What one effect changes -/

/-- A session is left without a process, or the confirmed fence of its process goes unheard. -/
def Loses : WorkerEvent → Prop
  | .performed _ (.launchPending _) (.error _) => True
  | .performed _ (.launch _) (.error _) => True
  | .performed _ (.stopAndFence _ .unregistered) .fenced => True
  | _ => False

/-- What an effect may do: permits go to new sessions only, sessions are entered when they are made,
and what is known of a process stays known. -/
structure Advances (i : Nat) (w : World) (op : WorkerEffect) (a : op.Answer) (w' : World) :
    Prop where
  allocated : w.allocated ≤ w'.allocated
  made : ∀ s, demand op a = some (.launchPending s) → s < w'.allocated
  owned : ∀ p s, w'.owner p = some (.session s) →
    w.owner p = some (.session s) ∨ demand op a = some (.launchPending s)
  called : ∀ p j, w'.owner p = some (.call j) → w.owner p = some (.call j) ∨ j = i
  entered : ∀ id s, w'.entries.find id = some s →
    w.entries.find id = some s ∨ demand op a = some (.launchPending s)
  launched : ∀ s < w.allocated, (w.sessions s).launched = true → (w'.sessions s).launched = true
  identified : ∀ s < w.allocated, (w.sessions s).identity.isSome = true →
    (w'.sessions s).identity.isSome = true
  stopped : ∀ s < w.allocated, (w'.sessions s).stopped = true → (w.sessions s).stopped = true ∨
    (∃ b, demand op a = some (.releasePermit s b)) ∨ Loses (.performed i op a)

section Advances

variable {i : Nat} {w w' : World} {op : WorkerEffect} {a : op.Answer}

/-- The sessions and their entries stay. -/
theorem Advances.quiet (hmade : ∀ s, demand op a ≠ some (.launchPending s))
    (hallocated : w'.allocated = w.allocated) (hsessions : w'.sessions = w.sessions)
    (howned : ∀ p s, w'.owner p = some (.session s) → w.owner p = some (.session s))
    (hcalled : ∀ p j, w'.owner p = some (.call j) → w.owner p = some (.call j) ∨ j = i)
    (hentered : ∀ id s, w'.entries.find id = some s → w.entries.find id = some s) :
    Advances i w op a w' where
  allocated := Nat.le_of_eq hallocated.symm
  made s h := absurd h (hmade s)
  owned p s h := .inl (howned p s h)
  called := hcalled
  entered id s h := .inl (hentered id s h)
  launched _ _ h := hsessions ▸ h
  identified _ _ h := hsessions ▸ h
  stopped _ _ h := .inl (hsessions ▸ h)

theorem Advances.same (hmade : ∀ s, demand op a ≠ some (.launchPending s)) :
    Advances i w op a w :=
  .quiet hmade rfl rfl (fun _ _ h => h) (fun _ _ h => .inl h) fun _ _ h => h

/-- One session changes, and what is known of its process stays known. -/
theorem Advances.modify {s : Nat} {f : Session → Session}
    (hmade : ∀ s, demand op a ≠ some (.launchPending s))
    (hlaunched : (w.sessions s).launched = true → (f (w.sessions s)).launched = true)
    (hidentified : (w.sessions s).identity.isSome = true →
      (f (w.sessions s)).identity.isSome = true)
    (hstopped : (f (w.sessions s)).stopped = true → (w.sessions s).stopped = true ∨
      (∃ b, demand op a = some (.releasePermit s b)) ∨ Loses (.performed i op a)) :
    Advances i w op a (w.modify s f) where
  allocated := le_refl _
  made s h := absurd h (hmade s)
  owned p s h := .inl h
  called p j h := .inl h
  entered id s h := .inl h
  launched t _ h := by
    by_cases ht : t = s
    · subst ht
      rw [World.modify_self]
      exact hlaunched h
    · rw [World.modify_of_ne _ _ ht]
      exact h
  identified t _ h := by
    by_cases ht : t = s
    · subst ht
      rw [World.modify_self]
      exact hidentified h
    · rw [World.modify_of_ne _ _ ht]
      exact h
  stopped t _ h := by
    by_cases ht : t = s
    · subst ht
      rw [World.modify_self] at h
      exact hstopped h
    · rw [World.modify_of_ne _ _ ht] at h
      exact .inl h

/-- A permit that is given back. -/
theorem Advances.release (h : Advances i w op a w') (s : Nat) :
    Advances i w op a (w'.releasePermit s) where
  allocated := h.allocated
  made := h.made
  owned p t ht := by
    simp only [World.releasePermit] at ht
    split at ht
    · cases ht
    · exact h.owned p t ht
  called p j hj := by
    simp only [World.releasePermit] at hj
    split at hj
    · cases hj
    · exact h.called p j hj
  entered := h.entered
  launched := h.launched
  identified := h.identified
  stopped := h.stopped

theorem advances_acquire (p : Nat) : Advances i w .acquire (.ok ()) (w.acquire i p) := by
  refine .quiet (fun _ => nofun) rfl rfl (fun q s h => ?_) (fun q j h => ?_) fun _ _ h => h
  · simp only [World.acquire, Function.update_apply] at h
    split at h
    · cases h
    · exact h
  · simp only [World.acquire, Function.update_apply] at h
    split at h
    · cases h
      exact .inr rfl
    · exact .inl h

theorem advances_insert (id : Uuid) :
    Advances i w (.insertSession id) (.ok w.allocated) (w.insert i id) where
  allocated := Nat.le_succ _
  made s h := by
    cases h
    exact Nat.lt_succ_self _
  owned p s h := by
    simp only [World.insert] at h
    split at h
    · cases h
      exact .inr rfl
    · exact .inl h
  called p j h := by
    simp only [World.insert] at h
    split at h
    · cases h
    · exact .inl h
  entered id' s h := by
    simp only [World.insert, Table.find_put] at h
    split at h
    · cases h
      exact .inr rfl
    · exact .inl h
  launched s hs h := by
    rw [World.insert_of_lt _ _ _ hs]
    exact h
  identified s hs h := by
    rw [World.insert_of_lt _ _ _ hs]
    exact h
  stopped s hs h := by
    rw [World.insert_of_lt _ _ _ hs] at h
    exact .inl h

theorem find_foldl_delete (ids : List Uuid) (entries : Table Uuid Nat) {id : Uuid} {s : Nat}
    (h : (ids.foldl Table.delete entries).find id = some s) : entries.find id = some s := by
  induction ids generalizing entries with
  | nil => exact h
  | cons first ids ih =>
    have hrest := ih _ h
    rw [Table.find_delete] at hrest
    split at hrest
    · cases hrest
    · exact hrest

theorem WorkerActs.advances {maxWorkers : Nat} (h : WorkerActs maxWorkers i w op a w') :
    Advances i w op a w' := by
  have hrefer : ∀ (op : WorkerEffect) (a : op.Answer) found,
      (∀ s, demand op a ≠ some (.launchPending s)) → Advances i w op a (w.refer i found) :=
    fun op a found hmade =>
      .quiet hmade rfl rfl (fun _ _ h => h) (fun _ _ h => .inl h) fun _ _ h => h
  cases op with
  | acquire =>
    cases a with
    | ok _ =>
      obtain ⟨p, -, -, hw⟩ := h
      cases hw
      exact advances_acquire p
    | error e =>
      cases h
      exact .same fun _ => by rintro ⟨⟩
  | makeRoom =>
    obtain ⟨dropped, -, rfl, -⟩ := h
    exact .quiet (fun _ => by rintro ⟨⟩) rfl rfl (fun _ _ h => h) (fun _ _ h => .inl h)
      fun _ _ h => find_foldl_delete _ _ h
  | insertSession id =>
    cases a with
    | ok _ =>
      obtain ⟨-, hs, hw⟩ := h
      cases hs
      cases hw
      exact advances_insert id
    | error e =>
      obtain ⟨hw, -⟩ := h
      cases hw
      exact .same fun _ => by rintro ⟨⟩
  | launchPending =>
    cases h
    cases a with
    | ok _ => exact .same fun _ => by rintro ⟨⟩
    | error e => exact .same fun _ => by rintro ⟨⟩
  | launch s =>
    cases a with
    | ok identity =>
      cases h
      exact .modify (fun _ => by rintro ⟨⟩) (fun _ => rfl) (fun h => h) fun h => by cases h
    | error e =>
      cases h
      exact .same fun _ => by rintro ⟨⟩
  | setIdentity =>
    cases h
    exact .modify (fun _ => by rintro ⟨⟩) (fun h => h) (fun _ => rfl) .inl
  | stopAndFence s why =>
    cases a with
    | unknown =>
      cases h
      cases why <;> exact .same fun _ => by rintro ⟨⟩
    | fenced =>
      cases h
      cases why with
      | fence =>
        exact .modify (fun _ => by rintro ⟨⟩) (fun h => h) (fun h => h)
          fun _ => .inr (.inl ⟨false, rfl⟩)
      | completed =>
        exact .modify (fun _ => by rintro ⟨⟩) (fun h => h) (fun h => h)
          fun _ => .inr (.inl ⟨true, rfl⟩)
      | unregistered =>
        exact .modify (fun _ => by rintro ⟨⟩) (fun h => h) (fun h => h) fun _ => .inr (.inr trivial)
  | session =>
    obtain ⟨-, rfl⟩ := h
    exact hrefer _ _ _ fun _ => by rintro ⟨⟩
  | snapshot =>
    obtain ⟨-, rfl⟩ := h
    exact hrefer _ _ _ fun _ => by rintro ⟨⟩
  | isFenced | identity =>
    obtain ⟨-, rfl⟩ := h
    exact .same fun _ => by rintro ⟨⟩
  | releasePermit s fenced =>
    cases h
    have hmodified : Advances i w (.releasePermit s fenced) a (w.modify s fun session =>
        { session with fenced := session.fenced || fenced }) :=
      .modify (fun _ => by rintro ⟨⟩) (fun h => h) (fun h => h) .inl
    exact hmodified.release s
  | setFenced | endCleanup =>
    cases h
    exact .modify (fun _ => by rintro ⟨⟩) (fun h => h) (fun h => h) .inl
  | removeSession id =>
    cases h
    refine .quiet (fun _ => by rintro ⟨⟩) rfl rfl (fun _ _ h => h) (fun _ _ h => .inl h)
      fun _ _ h => ?_
    rw [Table.find_delete] at h
    split at h
    · cases h
    · exact h
  | elapsed s =>
    obtain ⟨now, -, rfl⟩ := h
    exact .modify (fun _ => by rintro ⟨⟩) (fun h => h) (fun h => h) .inl
  | beginCleanup s =>
    obtain ⟨-, rfl⟩ := h
    split
    · exact .modify (fun _ => by rintro ⟨⟩) (fun h => h) (fun h => h) .inl
    · exact .same fun _ => by rintro ⟨⟩
  | _ =>
    cases h
    exact .same fun _ => by rintro ⟨⟩

end Advances

/-! ## Runs -/

section Runs

variable (maxWorkers : Nat) (reaper : Bool)

/-- Every permit is free, and there are no sessions. -/
def Fresh (w : World) : Prop := (∀ p, w.owner p = none) ∧ w.entries = ∅ ∧ ∀ i, w.refs i = []

/-- Every session that is made gets its process, and a confirmed fence is heard of. -/
def CarefulStep (κ : WorkerConfig) (event : WorkerEvent) (κ' : WorkerConfig) : Prop :=
  (coordinator maxWorkers reaper).Step κ event κ' ∧ ¬ Loses event

/-- A caller is about to get the session its process. -/
def Starting (κ : WorkerConfig) (s : Nat) : Prop :=
  Pool.Pending κ (.launchPending s) ∨ Pool.Pending κ (.launch s)

/-- The process of the session runs, as far as is known, or a caller is about to launch it or to
give the permit back. -/
def Running (κ : WorkerConfig) (s : Nat) : Prop :=
  ((κ.world.sessions s).launched = true ∧ (κ.world.sessions s).stopped = false) ∨ Starting κ s ∨
    ∃ fenced, Pool.Pending κ (.releasePermit s fenced)

/-- The process of the session is launched and its identity known, or a caller is about to see to
that. -/
def Identified (κ : WorkerConfig) (s : Nat) : Prop :=
  ((κ.world.sessions s).launched = true ∧ ((κ.world.sessions s).identity.isSome = true ∨
    ∃ identity, Pool.Pending κ (.setIdentity s identity))) ∨ Starting κ s

/-- Where the permits are, and what is known of the sessions. -/
structure Conserved (κ : WorkerConfig) : Prop where
  called : ∀ p i, κ.world.owner p = some (.call i) → κ.calls i ≠ none
  owned : ∀ p s, κ.world.owner p = some (.session s) → s < κ.world.allocated ∧ Running κ s
  entered : ∀ id s, κ.world.entries.find id = some s → s < κ.world.allocated ∧ Identified κ s

variable {maxWorkers reaper} {κ κ' : WorkerConfig} {event : WorkerEvent} {s : Nat}

/-- A step is an effect, or changes nothing but what a caller has that is done. -/
theorem step_world (h : (coordinator maxWorkers reaper).Step κ event κ') :
    (∃ i op a, event = .performed i op a ∧
      WorkerActs maxWorkers i κ.world op a κ'.world ∧ κ'.calls i ≠ none ∧
        ∀ j, j ≠ i → κ'.calls j = κ.calls j) ∨
    (κ'.world.allocated = κ.world.allocated ∧ κ'.world.sessions = κ.world.sessions ∧
      κ'.world.entries = κ.world.entries ∧ ∀ p owner, κ'.world.owner p = some owner →
        κ.world.owner p = some owner ∧
          ∀ i, owner = .call i → κ.calls i ≠ none → κ'.calls i ≠ none) := by
  have hleave : ∀ (w : World) (calls : Nat → Option (WorkerCall × Routine Unit)) i p owner,
      (w.leave i).owner p = some owner → w.owner p = some owner ∧
        ∀ j, owner = .call j → calls j ≠ none → Function.update calls i none j ≠ none := by
    intro w calls i p owner h
    simp only [World.leave] at h
    split at h
    · cases h
    · next hother =>
      refine ⟨h, fun j hj hcalled hgone => ?_⟩
      have hji : j ≠ i := by
        rintro rfl
        exact hother (hj ▸ h)
      exact hcalled ((Function.update_of_ne hji _ _).symm.trans hgone)
  cases h with
  | interfered henv =>
    cases henv
    exact .inr ⟨rfl, rfl, rfl, fun p owner h => ⟨h, fun _ _ h => h⟩⟩
  | @begun w calls i c hfree =>
    refine .inr ⟨rfl, rfl, rfl, fun p owner h => ⟨h, fun j _ hj hgone => ?_⟩⟩
    by_cases hji : j = i
    · subst hji
      exact absurd hfree hj
    · exact hj ((Function.update_of_ne hji _ _).symm.trans hgone)
  | @performed w w' calls i c op k a hcall hact =>
    refine .inl ⟨i, op, a, rfl, hact, fun hgone => ?_, fun j hji => Function.update_of_ne hji ..⟩
    cases (Function.update_self i _ calls).symm.trans hgone
  | done => exact .inr ⟨rfl, rfl, rfl, hleave _ _ _⟩
  | fail => exact .inr ⟨rfl, rfl, rfl, hleave _ _ _⟩

theorem acts_of_performed {i : Nat} {op : WorkerEffect} {a : op.Answer}
    (h : (coordinator maxWorkers reaper).Step κ (.performed i op a) κ') :
    WorkerActs maxWorkers i κ.world op a κ'.world := by
  cases h with
  | performed _ hact => exact hact

/-- A session that is being started is launched next. -/
theorem Starting.step (h : Starting κ s) (hheeding : Pool.Heeding demand κ)
    (hstep : CarefulStep maxWorkers reaper κ event κ') :
    Starting κ' s ∨ ((κ'.world.sessions s).launched = true ∧
      (κ'.world.sessions s).stopped = false ∧
        ∃ identity, Pool.Pending κ' (.setIdentity s identity)) := by
  obtain ⟨hstep, hcareful⟩ := hstep
  rcases h with hpending | hpending
  · rcases hpending.step hstep with ⟨i, a, rfl⟩ | hpending'
    · cases a with
      | error e => exact absurd trivial hcareful
      | ok _ => exact .inl (.inr (hheeding.demanded hstep rfl))
    · exact .inl (.inl hpending')
  · rcases hpending.step hstep with ⟨i, a, rfl⟩ | hpending'
    · match a, acts_of_performed hstep with
      | .error e, _ => exact absurd trivial hcareful
      | .ok identity, hact =>
        refine .inr ⟨?_, ?_, identity, hheeding.demanded hstep rfl⟩
        · rw [show κ'.world = _ from hact, World.modify_self]
        · rw [show κ'.world = _ from hact, World.modify_self]
    · exact .inl (.inr hpending')

theorem Running.step (h : Running κ s) (hs : s < κ.world.allocated)
    (hheeding : Pool.Heeding demand κ) (hstep : CarefulStep maxWorkers reaper κ event κ')
    {p : Nat} (howned : κ'.world.owner p = some (.session s)) : Running κ' s := by
  rcases h with ⟨hlaunched, hstopped⟩ | hstarting | ⟨fenced, hpending⟩
  · rcases step_world hstep.1 with ⟨i, op, a, rfl, hact, -⟩ | ⟨-, hsessions, -⟩
    · have hadvances := hact.advances
      cases hstopped' : (κ'.world.sessions s).stopped with
      | false => exact .inl ⟨hadvances.launched s hs hlaunched, hstopped'⟩
      | true =>
        rcases hadvances.stopped s hs hstopped' with hbefore | ⟨fenced, hdemand⟩ | hloses
        · cases hstopped.symm.trans hbefore
        · exact .inr (.inr ⟨fenced, hheeding.demanded hstep.1 hdemand⟩)
        · exact absurd hloses hstep.2
    · exact .inl ⟨hsessions ▸ hlaunched, hsessions ▸ hstopped⟩
  · rcases hstarting.step hheeding hstep with hstarting' | ⟨hlaunched, hstopped, -⟩
    · exact .inr (.inl hstarting')
    · exact .inl ⟨hlaunched, hstopped⟩
  · rcases hpending.step hstep.1 with ⟨i, a, rfl⟩ | hpending'
    · have hact : κ'.world = _ := acts_of_performed hstep.1
      rw [hact] at howned
      simp only [World.releasePermit] at howned
      split at howned
      · cases howned
      · next hother => exact absurd howned hother
    · exact .inr (.inr ⟨fenced, hpending'⟩)

theorem Identified.step (h : Identified κ s) (hs : s < κ.world.allocated)
    (hheeding : Pool.Heeding demand κ) (hstep : CarefulStep maxWorkers reaper κ event κ') :
    Identified κ' s := by
  rcases h with ⟨hlaunched, hidentity⟩ | hstarting
  · rcases step_world hstep.1 with ⟨i, op, a, rfl, hact, -⟩ | ⟨-, hsessions, -⟩
    · have hadvances := hact.advances
      refine .inl ⟨hadvances.launched s hs hlaunched, ?_⟩
      rcases hidentity with hsome | ⟨identity, hpending⟩
      · exact .inl (hadvances.identified s hs hsome)
      · rcases hpending.step hstep.1 with ⟨j, b, heq⟩ | hpending'
        · cases heq
          rw [show κ'.world = _ from hact, World.modify_self]
          exact .inl rfl
        · exact .inr ⟨identity, hpending'⟩
    · refine .inl ⟨hsessions ▸ hlaunched, ?_⟩
      rcases hidentity with hsome | ⟨identity, hpending⟩
      · exact .inl (hsessions ▸ hsome)
      · rcases hpending.step hstep.1 with ⟨j, b, rfl⟩ | hpending'
        · have hact : κ'.world = _ := acts_of_performed hstep.1
          rw [hact, World.modify_self]
          exact .inl rfl
        · exact .inr ⟨identity, hpending'⟩
  · rcases hstarting.step hheeding hstep with hstarting' | ⟨hlaunched, -, identity, hpending⟩
    · exact .inr hstarting'
    · exact .inl ⟨hlaunched, .inr ⟨identity, hpending⟩⟩

theorem Conserved.step (h : Conserved κ) (hheeding : Pool.Heeding demand κ)
    (hstep : CarefulStep maxWorkers reaper κ event κ') : Conserved κ' := by
  have hrun := hstep.1
  rcases step_world hrun with ⟨i, op, a, rfl, hact, hcalled, hothers⟩ |
    ⟨hallocated, -, hentries, howner⟩
  · have hadvances := hact.advances
    refine ⟨fun p j hj => ?_, fun p s hp => ?_, fun id s hid => ?_⟩
    · by_cases hji : j = i
      · rw [hji]
        exact hcalled
      · rw [hothers j hji]
        exact h.called p j ((hadvances.called p j hj).resolve_right hji)
    · rcases hadvances.owned p s hp with hbefore | hdemand
      · obtain ⟨hs, hrunning⟩ := h.owned p s hbefore
        exact ⟨Nat.lt_of_lt_of_le hs hadvances.allocated, hrunning.step hs hheeding hstep hp⟩
      · exact ⟨hadvances.made s hdemand, .inr (.inl (.inl (hheeding.demanded hrun hdemand)))⟩
    · rcases hadvances.entered id s hid with hbefore | hdemand
      · obtain ⟨hs, hidentified⟩ := h.entered id s hbefore
        exact ⟨Nat.lt_of_lt_of_le hs hadvances.allocated, hidentified.step hs hheeding hstep⟩
      · exact ⟨hadvances.made s hdemand, .inr (.inl (hheeding.demanded hrun hdemand))⟩
  · refine ⟨fun p j hj => ?_, fun p s hp => ?_, fun id s hid => ?_⟩
    · obtain ⟨hbefore, hcalls⟩ := howner p _ hj
      exact hcalls j rfl (h.called p j hbefore)
    · obtain ⟨hs, hrunning⟩ := h.owned p s (howner p _ hp).1
      exact ⟨hallocated ▸ hs, hrunning.step hs hheeding hstep hp⟩
    · rw [hentries] at hid
      obtain ⟨hs, hidentified⟩ := h.entered id s hid
      exact ⟨hallocated ▸ hs, hidentified.step hs hheeding hstep⟩

end Runs

/-! ### Replacements -/

open Program (Leads)

def idle : World := ⟨fun _ => none, fun _ => .new ⟨0⟩, 0, ∅, fun _ => []⟩

def process : ProcessIdentity := ⟨"boot", 7, "now", "scope", none⟩

/-- A worker is prepared, as far as its pending launch or its launched process. -/
def preparing (launches : Bool) (w : World) : (op : WorkerEffect) → Option (op.Answer × World)
  | .stopping => some (false, w)
  | .acquire => if w.owner 0 = none then some (.ok (), w.acquire 0 0) else none
  | .makeRoom => some (decide (w.entries.entries.length < 2), w)
  | .admission _ => some (.ok (), w)
  | .insertSession id =>
    if w.entries.find id = none then some (.ok w.allocated, w.insert 0 id) else none
  | .launchPending _ => some (if launches then .ok () else .error .unavailable, w)
  | .launch s => some (.ok process,
      w.modify s fun session => { session with launched := true, stopped := false })
  | _ => none

def prepareCall : WorkerCall := .prepare (some ⟨1⟩)

def prepared (launches : Bool) : World × Routine Unit :=
  (prepareCall.body false).play (preparing launches) idle

end Shaula.Workers.Coordinator
