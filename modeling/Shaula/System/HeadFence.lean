import Shaula.Library.ReadWriteLock
import Shaula.Registry.Heads
import Shaula.System.Fencing

/-! # Creates behind the fleet head

The plan of a Create is made long before its durable record.  The record compares the fleet head in
its own transaction, and the effect gate of the fleet keeps deletions and replacements out from the
record to the handover of the spawn.
-/

namespace Shaula

open Core Library Library.Outcome

variable {P : Platform}

/-! ## The record's own fence -/

namespace Store

variable {s s' : Store}

/-- A Create is recorded only under a live head at the generation's own revision. -/
theorem operationApplyStarting_fence {insert : OperationInsert} (hkind : insert.kind = "Create")
    (h : s.operationApplyStarting insert = .ok s') :
    ∃ g fleet, s.generations.find insert.generationId = some g ∧
      s.fleets.find g.fleetKey = some fleet ∧ fleet.deletionMarker = false ∧
      fleet.tombstone = false ∧ fleet.desiredRevision = g.fleetRevision := by
  simp only [operationApplyStarting, bind_eq_ok, okOr_eq_ok] at h
  obtain ⟨g, hg, h⟩ := h
  rw [if_pos hkind] at h
  simp only [bind_eq_ok, okOr_eq_ok] at h
  obtain ⟨fleet, hfleet, _, hfence, -⟩ := h
  obtain ⟨hdeleting, hrevision⟩ := ensure_eq_ok.mp hfence
  rw [Bool.or_eq_false_iff] at hdeleting
  exact ⟨g, fleet, hg, hfleet, hdeleting.1, hdeleting.2, hrevision⟩

theorem recordApplyStarting_fence {proof : PlanProvenance} {path : String} {now : Int}
    (hintent : proof.intent = .create)
    (h : s.recordApplyStarting P proof path now = .ok s') :
    ∃ g fleet, s.generations.find proof.generationId = some g ∧
      s.fleets.find g.fleetKey = some fleet ∧ fleet.deletionMarker = false ∧
      fleet.tombstone = false ∧ fleet.desiredRevision = g.fleetRevision := by
  simp only [recordApplyStarting, bind_eq_ok, mapError_eq_ok] at h
  obtain ⟨s₁, hrecord, -⟩ := h
  exact operationApplyStarting_fence (by rw [hintent]; rfl) hrecord

end Store

namespace Daemon

variable {d : Daemon} {r : Request P} {proof : PlanProvenance}

/-- A recorded start is a transaction that committed. -/
theorem exec_startsApply (hr : StartsApply proof r) {reply : Reply P}
    (h : (d.exec P r).2 = .ok reply) :
    ∃ path now s', d.store.recordApplyStarting P proof path now = .ok s' := by
  cases hr with
  | @direct path now =>
    rcases transact_cases (d := d) (P := P) .core
      (d.store.recordApplyStarting P proof path now) with ⟨e, herror⟩ | ⟨s', hok⟩
    · rw [exec, herror] at h
      cases h
    · exact ⟨path, now, s', hok⟩
  | @control session capability claim path now =>
    rcases transact_cases (d := d) (P := P) .state
      (d.store.applyStarting P session capability claim proof path now) with
        ⟨e, herror⟩ | ⟨s', hok⟩
    · rw [exec, herror] at h
      cases h
    · exact ⟨path, now, s', Store.applyStarting_ok hok⟩

/-- A refused start is rolled back. -/
theorem exec_startsApply_error (hr : StartsApply proof r) {e : RequestError}
    (h : (d.exec P r).2 = .error e) : (d.exec P r).1 = d := by
  cases hr with
  | @direct path now =>
    rw [exec] at h ⊢
    unfold transact at h ⊢
    split at h
    · cases h
    · rfl
  | control =>
    rw [exec] at h ⊢
    unfold transact at h ⊢
    split at h
    · cases h
    · rfl

end Daemon

/-- No change moves a generation to another fleet or fleet revision. -/
theorem Change.fence_kept {id : Uuid} {r : Request P} {v v' : View} {g : GenerationRow}
    (h : Change P id r v v') (hg : v.generation = some g) :
    ∃ g', v'.generation = some g' ∧ g'.fleetKey = g.fleetKey ∧
      g'.fleetRevision = g.fleetRevision := by
  cases h with
  | inserted _ hnone | admitted _ hnone | generationInserted _ _ hnone =>
    cases hnone.symm.trans hg
  | completed _ _ _ hg' | finalized _ _ hg' | finalizedBare _ hg' | quarantined _ _ _ _ hg'
  | imported _ _ _ hg' | importQuarantined _ hg' | advanced hg' | jitSet hg' | resultSet hg'
  | expiryRequested hg' | resourcesDestroyed hg' =>
    cases Option.some.inj (hg'.symm.trans hg)
    exact ⟨_, rfl, rfl, rfl⟩
  | replaced _ _ _ _ hg' _ _ _ _ _ hanchored | anchored hg' _ _ hanchored =>
    cases Option.some.inj (hg'.symm.trans hg)
    refine ⟨_, rfl, ?_⟩
    cases hanchored <;> exact ⟨rfl, rfl⟩
  | activity hg' =>
    cases Option.some.inj (hg'.symm.trans hg)
    refine ⟨_, rfl, ?_⟩
    have hstep : ∀ fleet next froms now (event : RunnerEvent) (g : GenerationRow),
        (activityStep fleet next froms now event g).fleetKey = g.fleetKey ∧
          (activityStep fleet next froms now event g).fleetRevision = g.fleetRevision := by
      intro fleet next froms now event g
      unfold activityStep
      split <;> exact ⟨rfl, rfl⟩
    exact activityRow_relates
      (R := fun g g' => g'.fleetKey = g.fleetKey ∧ g'.fleetRevision = g.fleetRevision)
      (fun _ => ⟨rfl, rfl⟩) (fun _ _ _ h h' => ⟨h'.1.trans h.1, h'.2.trans h.2⟩)
      (hstep _ _ _ _) (hstep _ _ _ _) _ _ g
  | _ => exact ⟨g, hg, rfl, rfl⟩

/-! ## The plane -/

/-- The columns of a head that fence generations. -/
def Registry.FleetRow.fence (row : Registry.FleetRow) : Shaula.FleetRow where
  incarnation := row.incarnation
  desiredRevision := row.desiredRevision
  mutationFence := row.mutationFence
  deletionMarker := row.deletionMarker
  tombstone := row.tombstone

/-- The heads, as the lifecycle store reads them. -/
def fleetFences (fleets : Table String Registry.FleetRow) : Table String FleetRow where
  entries := fleets.entries.map (Sigma.map id fun _ row => row.fence)
  nodupKeys := List.NodupKeys.map₂ _ _ fleets.nodupKeys

@[simp] theorem find_fleetFences (fleets : Table String Registry.FleetRow) (key : String) :
    (fleetFences fleets).find key = (fleets.find key).map (·.fence) :=
  List.dlookup_map₂ key

/-- What a ticket of a fleet's effect gate is for. -/
inductive GatePurpose where
  /-- An apply that is not recorded yet. -/
  | apply (proof : PlanProvenance)
  /-- An apply from its record to the handover of its spawn. -/
  | admitted (proof : PlanProvenance)
  | mutation (mutation : Registry.FleetMutation)
  | decommission (facts : Registry.MutationFacts) (authDesired : Option (String × Int))
  /-- A bootstrap, a registration, a finalization, a tombstone, or a commit that is done. -/
  | other

abbrev GateTicket := Ticket String GatePurpose

/-- The daemon and the registry over one database, and the effect gate between them. -/
structure Plane where
  daemon : Daemon
  control : Registry.ControlPlane
  waiting : List GateTicket
  holders : List GateTicket

namespace Plane

/-- The daemon over the current fleet heads. -/
def lifecycle (σ : Plane) : Daemon :=
  { σ.daemon with store := { σ.daemon.store with fleets := fleetFences σ.control.fleets } }

/-- The generation's ledger row. -/
def ledgerRow (σ : Plane) (id : Uuid) : Option GenerationRow := σ.daemon.store.generations.find id

/-- Who may ask for which ticket: an apply for a shared one of its generation's fleet, a commit for
an exclusive one of its own. -/
def Asks (σ : Plane) (t : GateTicket) : Prop :=
  match t.purpose with
  | .apply proof =>
    t.mode = .shared ∧ ∃ g, σ.ledgerRow proof.generationId = some g ∧ t.key = g.fleetKey
  | .admitted _ => False
  | .mutation mutation => t.mode = .exclusive ∧ t.key = mutation.resourceKey
  | .decommission facts _ => t.mode = .exclusive ∧ t.key = facts.resourceKey
  | .other => True

/-- What a step of the plane shows. -/
inductive Label (P : Platform) where
  | quiet
  | served (r : Request P) (outcome : Outcome P)
  | committed (t : GateTicket)

/-- The ticket of an apply after its record was answered. -/
def afterRecord (t : GateTicket) (proof : PlanProvenance) (outcome : Outcome P) :
    List GateTicket :=
  match outcome with
  | .ok _ => [{ t with purpose := .admitted proof }]
  | .error _ => []

inductive Step (P : Platform) : Plane → Label P → Plane → Prop
  -- the gate
  | asked {σ : Plane} {t : GateTicket} : σ.Asks t →
      Step P σ .quiet { σ with waiting := t :: σ.waiting }
  | granted {σ : Plane} {t : GateTicket} {before after : List GateTicket} :
      σ.waiting = before ++ t :: after → Ticket.Grants σ.holders t →
      Step P σ .quiet { σ with waiting := before ++ after, holders := t :: σ.holders }
  | cancelled {σ : Plane} {t : GateTicket} {before after : List GateTicket} :
      σ.waiting = before ++ t :: after →
      Step P σ .quiet { σ with waiting := before ++ after }
  -- a spawn that was handed over, a commit that was refused, or a task that ended
  | returned {σ : Plane} {t : GateTicket} {before after : List GateTicket} :
      σ.holders = before ++ t :: after →
      Step P σ .quiet { σ with holders := before ++ after }
  -- effects and other requests
  | recorded {σ : Plane} {t : GateTicket} {before after : List GateTicket} {proof : PlanProvenance}
      {path : String} {now : Int} :
      σ.holders = before ++ t :: after → t.purpose = .apply proof →
      Step P σ (.served (.recordApplyStarting proof path now)
          (σ.lifecycle.exec P (.recordApplyStarting proof path now)).2)
        { σ with
          daemon := (σ.lifecycle.exec P (.recordApplyStarting proof path now)).1
          holders := before ++ (afterRecord t proof
            (σ.lifecycle.exec P (.recordApplyStarting proof path now)).2 ++ after) }
  | served {σ : Plane} {r : Request P} : (∀ key fleet, r ≠ .fleetChanged key fleet) →
      Step P σ (.served r (σ.lifecycle.exec P r).2)
        { σ with daemon := (σ.lifecycle.exec P r).1 }
  -- writers of heads behind the gate
  | mutated {σ : Plane} {t : GateTicket} {before after : List GateTicket}
      {mutation : Registry.FleetMutation} {control : Registry.ControlPlane} :
      σ.holders = before ++ t :: after → t.purpose = .mutation mutation →
      σ.control.commitFleetMutation mutation = .ok control →
      Step P σ (.committed t)
        { σ with control, holders := before ++ { t with purpose := .other } :: after }
  | decommissioned {σ : Plane} {t : GateTicket} {before after : List GateTicket}
      {facts : Registry.MutationFacts} {authDesired : Option (String × Int)}
      {control : Registry.ControlPlane} :
      σ.holders = before ++ t :: after → t.purpose = .decommission facts authDesired →
      σ.control.commitDecommission facts authDesired = .ok control →
      Step P σ (.committed t)
        { σ with control, holders := before ++ { t with purpose := .other } :: after }
  -- writers of heads that take no ticket
  | noop {σ : Plane} {facts : Registry.MutationFacts} {control : Registry.ControlPlane} :
      σ.control.commitFleetNoop facts = .ok control → Step P σ .quiet { σ with control }
  | tombstoned {σ : Plane} {key : String} {control : Registry.ControlPlane} :
      σ.control.fleetSetTombstone key = .ok control → Step P σ .quiet { σ with control }
  | observed {σ : Plane} {key : String} {guard : FleetRuntimeGuard}
      {phase : Registry.ControlPlane.FleetObservationPhase} {sessionCurrent accepted : Bool}
      {control : Registry.ControlPlane} :
      σ.control.fleetSetObserved key guard phase sessionCurrent = .ok (control, accepted) →
      Step P σ .quiet { σ with control }
  | promoted {σ : Plane} {candidate : String × Int} {revisionRow : Registry.AuthRevisionRow}
      {profile : Registry.AuthProfileRow} {snapshot : Registry.SnapshotDocument}
      {admits : Registry.FleetSpec → Option String} {changeId : String → String}
      {control : Registry.ControlPlane} :
      σ.control.promoteToken candidate revisionRow profile snapshot admits changeId =
        .ok control →
      Step P σ .quiet { σ with control }
  -- everything else in the registry's tables
  | unrelated {σ : Plane} {control : Registry.ControlPlane} : control.fleets = σ.control.fleets →
      Step P σ .quiet { σ with control }
  | crashed {σ : Plane} : Step P σ .quiet
      { σ with daemon := { σ.daemon with pending := ∅ }, waiting := [], holders := [] }

/-- The daemon has just started; the database is as it was left. -/
structure Initial (σ : Plane) : Prop where
  waiting : σ.waiting = []
  holders : σ.holders = []

variable {σ τ υ : Plane} {l : Label P} {trace : List (Plane × Label P × Plane)}

/-! ## What a step keeps -/

/-- Heads only move forward. -/
theorem Step.follows (h : Step P σ l τ) : Registry.HeadsFollow σ.control τ.control := by
  cases h with
  | mutated _ _ hcommit => exact Registry.ControlPlane.commitFleetMutation_follows hcommit
  | decommissioned _ _ hcommit => exact Registry.ControlPlane.commitDecommission_follows hcommit
  | noop hcommit => exact Registry.ControlPlane.commitFleetNoop_follows hcommit
  | tombstoned hcommit => exact Registry.ControlPlane.fleetSetTombstone_follows hcommit
  | observed hcommit => exact Registry.ControlPlane.fleetSetObserved_follows hcommit
  | promoted hcommit => exact Registry.ControlPlane.promoteToken_follows hcommit
  | unrelated hfleets => exact .of_fleets hfleets
  | _ => exact .refl _

/-- The gate's holders keep excluding each other. -/
theorem Step.sound (h : Step P σ l τ) (hσ : Ticket.Sound σ.holders) :
    Ticket.Sound τ.holders := by
  cases h with
  | granted _ hgrants => exact hσ.grant hgrants
  | returned hholders =>
    rw [hholders] at hσ
    exact hσ.release
  | @recorded t before after proof path now hholders =>
    rw [hholders] at hσ
    show Ticket.Sound (before ++ (afterRecord t proof
      (σ.lifecycle.exec P (.recordApplyStarting proof path now)).2 ++ after))
    cases (σ.lifecycle.exec P (.recordApplyStarting proof path now)).2 with
    | ok reply => exact hσ.repurpose rfl rfl
    | error e => exact hσ.release
  | mutated hholders | decommissioned hholders =>
    rw [hholders] at hσ
    exact hσ.repurpose rfl rfl
  | crashed => exact Ticket.sound_nil
  | _ => exact hσ

/-- A generation stays in its fleet and fleet revision. -/
theorem Step.fence_kept {id : Uuid} {g : GenerationRow} (h : Step P σ l τ)
    (hg : σ.ledgerRow id = some g) :
    ∃ g', τ.ledgerRow id = some g' ∧ g'.fleetKey = g.fleetKey ∧
      g'.fleetRevision = g.fleetRevision := by
  have hserved : ∀ r : Request P, ∃ g',
      (σ.lifecycle.exec P r).1.store.generations.find id = some g' ∧
        g'.fleetKey = g.fleetKey ∧ g'.fleetRevision = g.fleetRevision := by
    intro r
    exact (σ.lifecycle.exec_change r id).fence_kept (g := g) hg
  cases h with
  | recorded | served => exact hserved _
  | _ => exact ⟨g, hg, rfl, rfl⟩

/-! ## The gate -/

/-- The mode and the key of a ticket are those of its purpose. -/
def Fits (σ : Plane) (t : GateTicket) : Prop :=
  match t.purpose with
  | .apply proof | .admitted proof =>
    t.mode = .shared ∧ ∃ g, σ.ledgerRow proof.generationId = some g ∧ t.key = g.fleetKey
  | .mutation mutation => t.mode = .exclusive ∧ t.key = mutation.resourceKey
  | .decommission facts _ => t.mode = .exclusive ∧ t.key = facts.resourceKey
  | .other => True

theorem Asks.fits {t : GateTicket} (h : σ.Asks t) : σ.Fits t := by
  unfold Asks at h
  unfold Fits
  split at h
  · exact h
  · cases h
  · exact h
  · exact h
  · trivial

theorem Fits.step {t : GateTicket} (ht : σ.Fits t) (h : Step P σ l τ) : τ.Fits t := by
  have happly : ∀ proof : PlanProvenance,
      (t.mode = .shared ∧ ∃ g, σ.ledgerRow proof.generationId = some g ∧ t.key = g.fleetKey) →
        t.mode = .shared ∧ ∃ g, τ.ledgerRow proof.generationId = some g ∧
          t.key = g.fleetKey := by
    rintro proof ⟨hmode, g, hg, hkey⟩
    obtain ⟨g', hg', hsame, -⟩ := h.fence_kept hg
    exact ⟨hmode, g', hg', hkey.trans hsame.symm⟩
  unfold Fits at ht ⊢
  split at ht
  · exact happly _ ht
  · exact happly _ ht
  · exact ht
  · exact ht
  · trivial

/-- The holders of the gate exclude each other, and every ticket is what it says. -/
structure Gated (σ : Plane) : Prop where
  sound : Ticket.Sound σ.holders
  waiting : ∀ t ∈ σ.waiting, σ.Fits t
  holders : ∀ t ∈ σ.holders, σ.Fits t

theorem Initial.gated (h : σ.Initial) : σ.Gated := by
  refine ⟨?_, ?_, ?_⟩
  · rw [h.holders]
    exact Ticket.sound_nil
  · rw [h.waiting]
    exact fun t ht => by cases ht
  · rw [h.holders]
    exact fun t ht => by cases ht

theorem mem_of_split {tickets before after : List GateTicket} {t b : GateTicket}
    (h : tickets = before ++ t :: after) (hb : b ∈ before ++ after) : b ∈ tickets := by
  rw [h]
  exact ((List.sublist_cons_self t after).append_left before).subset hb

theorem mem_split {tickets before after : List GateTicket} {t : GateTicket}
    (h : tickets = before ++ t :: after) : t ∈ tickets := by
  rw [h]
  exact List.mem_append_right _ (List.mem_cons_self ..)

theorem Gated.step (hσ : σ.Gated) (h : Step P σ l τ) : τ.Gated := by
  have hmoved : ∀ t, σ.Fits t → τ.Fits t := fun t ht => ht.step h
  refine ⟨h.sound hσ.sound, ?_, ?_⟩
  · intro t ht
    cases h with
    | asked hasks =>
      rcases List.mem_cons.mp ht with rfl | ht
      · exact hmoved _ hasks.fits
      · exact hmoved t (hσ.waiting t ht)
    | granted hwaiting | cancelled hwaiting =>
      exact hmoved t (hσ.waiting t (mem_of_split hwaiting ht))
    | crashed => cases ht
    | _ => exact hmoved t (hσ.waiting t ht)
  · intro t ht
    cases h with
    | granted hwaiting =>
      rcases List.mem_cons.mp ht with rfl | ht
      · exact hmoved _ (hσ.waiting _ (mem_split hwaiting))
      · exact hmoved t (hσ.holders t ht)
    | returned hholders => exact hmoved t (hσ.holders t (mem_of_split hholders ht))
    | @recorded t' before after proof path now hholders hpurpose =>
      have happly := hmoved t' (hσ.holders t' (mem_split hholders))
      rcases List.mem_append.mp ht with ht | ht
      · exact hmoved t (hσ.holders t (mem_of_split hholders (List.mem_append_left _ ht)))
      · rcases List.mem_append.mp ht with ht | ht
        · unfold afterRecord at ht
          split at ht
          · rw [List.mem_singleton.mp ht]
            unfold Fits at happly ⊢
            rw [hpurpose] at happly
            exact happly
          · cases ht
        · exact hmoved t (hσ.holders t (mem_of_split hholders (List.mem_append_right _ ht)))
    | mutated hholders | decommissioned hholders =>
      rcases List.mem_append.mp ht with ht | ht
      · exact hmoved t (hσ.holders t (mem_of_split hholders (List.mem_append_left _ ht)))
      · rcases List.mem_cons.mp ht with rfl | ht
        · trivial
        · exact hmoved t (hσ.holders t (mem_of_split hholders (List.mem_append_right _ ht)))
    | crashed => cases ht
    | _ => exact hmoved t (hσ.holders t ht)

/-- While a deletion or a replacement of a fleet commits, no apply of one of its generations stands
between its record and the handover of its spawn. -/
theorem Step.committed_alone {t b : GateTicket} {proof : PlanProvenance}
    (h : Step P σ (.committed t) τ) (hσ : σ.Gated) (hb : b ∈ σ.holders)
    (hpurpose : b.purpose = .admitted proof) :
    ∃ g, σ.ledgerRow proof.generationId = some g ∧ g.fleetKey ≠ t.key := by
  have hheld : t ∈ σ.holders ∧ t.mode = .exclusive := by
    cases h with
    | mutated hholders hmutation =>
      have hfits := hσ.holders t (mem_split hholders)
      unfold Fits at hfits
      rw [hmutation] at hfits
      exact ⟨mem_split hholders, hfits.1⟩
    | decommissioned hholders hdecommission =>
      have hfits := hσ.holders t (mem_split hholders)
      unfold Fits at hfits
      rw [hdecommission] at hfits
      exact ⟨mem_split hholders, hfits.1⟩
  have hfits := hσ.holders b hb
  unfold Fits at hfits
  rw [hpurpose] at hfits
  obtain ⟨hshared, g, hg, hkey⟩ := hfits
  refine ⟨g, hg, ?_⟩
  intro hsame
  have halone := hσ.sound.alone hheld.1 hheld.2 hb (hkey.trans hsame)
  cases hshared.symm.trans halone

/-! ## What a recorded Create shows -/

/-- The step records the start of a Create of generation `id`. -/
def CreateRecorded (id : Uuid) (e : Plane × Label P × Plane) : Prop :=
  ∃ proof r reply, StartsApply proof r ∧ proof.intent = .create ∧ proof.generationId = id ∧
    e.2.1 = .served r (.ok reply)

/-- The step commits the deletion of a fleet. -/
def DeletionCommitted (key : String) (e : Plane × Label P × Plane) : Prop :=
  ∃ t facts authDesired, e.2.1 = .committed t ∧ t.purpose = .decommission facts authDesired ∧
    facts.resourceKey = key

/-- The fleet's deletion was committed. -/
def Deleting (σ : Plane) (key : String) : Prop :=
  ∃ row, σ.control.fleets.find key = some row ∧ row.deletionMarker = true

/-- The fleet's head is at a later revision. -/
def MovedPast (σ : Plane) (key : String) (revision : Int) : Prop :=
  ∃ row, σ.control.fleets.find key = some row ∧ revision < row.desiredRevision

theorem Deleting.step {key : String} (hσ : σ.Deleting key) (h : Step P σ l τ) : τ.Deleting key := by
  obtain ⟨old, hold, hmarker⟩ := hσ
  obtain ⟨new, hnew, hfollows⟩ := h.follows key old hold
  exact ⟨new, hnew, hfollows.marker hmarker⟩

theorem MovedPast.step {key : String} {revision : Int} (hσ : σ.MovedPast key revision)
    (h : Step P σ l τ) : τ.MovedPast key revision := by
  obtain ⟨old, hold, hpast⟩ := hσ
  obtain ⟨new, hnew, hfollows⟩ := h.follows key old hold
  exact ⟨new, hnew, Int.lt_of_lt_of_le hpast hfollows.revision⟩

theorem Step.deletionCommitted {key : String} (h : Step P σ l τ)
    (hdeletion : DeletionCommitted key (σ, l, τ)) : τ.Deleting key := by
  obtain ⟨t, facts, authDesired, hl, hpurpose, rfl⟩ := hdeletion
  cases h with
  | @decommissioned t' before after facts' authDesired' control _ hpurpose' hcommit =>
    cases hl
    cases hpurpose.symm.trans hpurpose'
    obtain ⟨current, -, hput⟩ := Registry.ControlPlane.commitDecommission_fleets hcommit
    have hhead := congrArg (fun fleets => fleets.find facts.resourceKey) hput
    simp only [Table.find_put, if_true] at hhead
    exact ⟨_, hhead, rfl⟩
  | mutated _ hpurpose' =>
    cases hl
    cases hpurpose.symm.trans hpurpose'
  | _ => cases hl

/-- A recorded Create had its fleet's head at its own revision, and no deletion. -/
theorem Step.createRecorded {id : Uuid} (h : Step P σ l τ)
    (hcreate : CreateRecorded id (σ, l, τ)) :
    ∃ g row, σ.ledgerRow id = some g ∧ σ.control.fleets.find g.fleetKey = some row ∧
      row.deletionMarker = false ∧ row.desiredRevision = g.fleetRevision := by
  obtain ⟨proof, r, reply, hr, hintent, rfl, hl⟩ := hcreate
  have hok : (σ.lifecycle.exec P r).2 = .ok reply := by
    cases h with
    | recorded | served =>
      injection hl with hr' houtcome
      rw [← hr']
      exact houtcome
    | _ => cases hl
  obtain ⟨path, now, s', hrecord⟩ := Daemon.exec_startsApply hr hok
  obtain ⟨g, fleet, hg, hfleet, hmarker, -, hrevision⟩ :=
    Store.recordApplyStarting_fence hintent hrecord
  have hhead : (fleetFences σ.control.fleets).find g.fleetKey = some fleet := hfleet
  rw [find_fleetFences, Option.map_eq_some_iff] at hhead
  obtain ⟨row, hrow, rfl⟩ := hhead
  exact ⟨g, row, hg, hrow, hmarker, hrevision⟩

theorem Run.deleting_refuses {key : String} (hrun : Run (Step P) σ trace τ)
    (hσ : σ.Deleting key) : ∀ e ∈ trace, ∀ id g, CreateRecorded id e →
      e.1.ledgerRow id = some g → g.fleetKey ≠ key := by
  refine hrun.forall_mem (I := fun σ => σ.Deleting key)
    (Q := fun σ l τ => ∀ id g, CreateRecorded id (σ, l, τ) → σ.ledgerRow id = some g →
      g.fleetKey ≠ key) (fun _ _ _ h hstep => h.step hstep) ?_ hσ
  rintro σ l τ ⟨head, hhead, hmarker⟩ hstep id g hcreate hg rfl
  obtain ⟨g', row, hg', hrow, hlive, -⟩ := hstep.createRecorded hcreate
  cases Option.some.inj (hg.symm.trans hg')
  cases Option.some.inj (hhead.symm.trans hrow)
  cases hmarker.symm.trans hlive

theorem Run.past_refuses {key : String} {revision : Int} (hrun : Run (Step P) σ trace τ)
    (hσ : σ.MovedPast key revision) : ∀ e ∈ trace, ∀ id g, CreateRecorded id e →
      e.1.ledgerRow id = some g → g.fleetKey = key → revision < g.fleetRevision := by
  refine hrun.forall_mem (I := fun σ => σ.MovedPast key revision)
    (Q := fun σ l τ => ∀ id g, CreateRecorded id (σ, l, τ) → σ.ledgerRow id = some g →
      g.fleetKey = key → revision < g.fleetRevision) (fun _ _ _ h hstep => h.step hstep) ?_ hσ
  rintro σ l τ ⟨head, hhead, hpast⟩ hstep id g hcreate hg rfl
  obtain ⟨g', row, hg', hrow, -, hrevision⟩ := hstep.createRecorded hcreate
  cases Option.some.inj (hg.symm.trans hg')
  cases Option.some.inj (hhead.symm.trans hrow)
  rw [← hrevision]
  exact hpast

/-- A refused start changes neither operations nor generations. -/
theorem Step.refused {proof : PlanProvenance} {r : Request P} {error : RequestError}
    (h : Step P σ (.served r (.error error)) τ) (hr : StartsApply proof r) :
    τ.daemon.store.operations = σ.daemon.store.operations ∧
      τ.daemon.store.generations = σ.daemon.store.generations := by
  have hkept : (σ.lifecycle.exec P r).2 = .error error →
      (σ.lifecycle.exec P r).1 = σ.lifecycle := Daemon.exec_startsApply_error hr
  generalize hl : (Label.served r (.error error) : Label P) = l at h
  cases h with
  | recorded | served =>
    injection hl with hr' houtcome
    subst hr'
    have hsame := hkept houtcome.symm
    have hoperations := congrArg (fun d : Daemon => d.store.operations) hsame
    have hgenerations := congrArg (fun d : Daemon => d.store.generations) hsame
    exact ⟨hoperations, hgenerations⟩
  | _ => cases hl

/-- **No Create behind the fence.**  In every run of the database and the effect gate, crashes
included, no Create is recorded for a generation of a fleet after the fleet's deletion committed, or
after the fleet's head moved past the revision the generation was admitted under, which never
changes.  A refused record changes neither the operations nor the generations.  No deletion and no
replacement of a fleet commits while an apply of it is between its record and its spawn. -/
theorem no_create_behind_fence (hσ : σ.Initial) (hrun : Run (Step P) σ trace τ) :
    (∀ pre e post key, trace = pre ++ e :: post → DeletionCommitted key e →
      ∀ e' ∈ post, ∀ id g, CreateRecorded id e' → e'.1.ledgerRow id = some g →
        g.fleetKey ≠ key) ∧
    (∀ pre e post key revision, trace = pre ++ e :: post → e.2.2.MovedPast key revision →
      ∀ e' ∈ post, ∀ id g, CreateRecorded id e' → e'.1.ledgerRow id = some g →
        g.fleetKey = key → revision < g.fleetRevision) ∧
    (∀ e ∈ trace, ∀ id g, e.1.ledgerRow id = some g → ∃ g', e.2.2.ledgerRow id = some g' ∧
      g'.fleetKey = g.fleetKey ∧ g'.fleetRevision = g.fleetRevision) ∧
    (∀ e ∈ trace, ∀ proof r error, StartsApply proof r → e.2.1 = .served r (.error error) →
      e.2.2.daemon.store.operations = e.1.daemon.store.operations ∧
        e.2.2.daemon.store.generations = e.1.daemon.store.generations) ∧
    ∀ e ∈ trace, ∀ t, e.2.1 = .committed t → ∀ b ∈ e.1.holders, ∀ proof,
      b.purpose = .admitted proof →
        ∃ g, e.1.ledgerRow proof.generationId = some g ∧ g.fleetKey ≠ t.key := by
  refine ⟨?_, ?_, ?_, ?_, ?_⟩
  · intro pre e post key htrace hdeletion
    rw [htrace] at hrun
    obtain ⟨ρ, -, hrest⟩ := hrun.of_append
    cases hrest with
    | cons hstep hpost => exact Run.deleting_refuses hpost (hstep.deletionCommitted hdeletion)
  · intro pre e post key revision htrace hpast
    rw [htrace] at hrun
    obtain ⟨ρ, -, hrest⟩ := hrun.of_append
    cases hrest with
    | cons hstep hpost => exact Run.past_refuses hpost hpast
  · intro e he id g hg
    exact (hrun.mem_step he).fence_kept hg
  · intro e he proof r error hr hl
    have hstep := hrun.mem_step he
    rw [hl] at hstep
    exact hstep.refused hr
  · exact hrun.forall_mem (I := Gated)
      (Q := fun σ l _ => ∀ t, l = .committed t → ∀ b ∈ σ.holders, ∀ proof,
        b.purpose = .admitted proof →
          ∃ g, σ.ledgerRow proof.generationId = some g ∧ g.fleetKey ≠ t.key)
      (fun _ _ _ h hstep => h.step hstep)
      (fun _ _ _ hgated hstep t hl b hb proof hpurpose => by
        subst hl
        exact hstep.committed_alone hgated hb hpurpose) hσ.gated

/-! ## A deletion between a plan and its record -/

end Plane

namespace Script

/-- The registry with the script's fleet. -/
def registry : Registry.ControlPlane :=
  { Registry.ControlPlane.empty with
    fleets := (∅ : Table String Registry.FleetRow).put "fleet"
      { incarnation := "first"
        desiredRevision := 1
        observedRevision := 0
        mutationFence := 1
        deletionMarker := false
        phase := .pending
        tombstone := false } }

/-- A generation of the fleet was admitted without a worker, and its Create is planned. -/
def planned : Plane where
  daemon := ((System.initial 2).play platform [.generationInsert record]).daemon
  control := registry
  waiting := []
  holders := []

def deletion : Registry.MutationFacts where
  idempotencyOperation := "delete"
  resourceKind := "fleet"
  resourceKey := "fleet"
  incarnation := "first"
  revision := 2
  actor := "operator"
  change :=
    { id := "change-1"
      resourceKind := "fleet"
      resourceKey := "fleet"
      revision := 2
      kind := .decommission
      state := .pending }
  idempotency := none

def deletionTicket : GateTicket := ⟨"fleet", .exclusive, .decommission deletion none⟩

end Script

namespace Plane

open Script in
/-- The fleet is deleted before the Create's record, which is then refused. -/
theorem no_create_behind_fence_sample :
    ∃ (pre post : List (Plane × Label platform × Plane)) (e : Plane × Label platform × Plane)
      (τ : Plane), planned.Initial ∧ Run (Step platform) planned (pre ++ e :: post) τ ∧
      DeletionCommitted "fleet" e ∧ (∃ e' ∈ post, ∃ error,
        e'.2.1 = .served (.recordApplyStarting (createProof "attempt-1") "plan" 200)
          (.error error)) ∧
      (∀ e' ∈ post, ∀ id g, CreateRecorded id e' → e'.1.ledgerRow id = some g →
        g.fleetKey ≠ "fleet") := by
  have hinitial : planned.Initial := ⟨rfl, rfl⟩
  obtain ⟨control, hcommit⟩ := exists_ok_of_isOk
    (x := registry.commitDecommission deletion none) (by decide +kernel)
  obtain ⟨g, hg, hfleet⟩ : ∃ g, planned.ledgerRow generation = some g ∧ g.fleetKey = "fleet" := by
    have hrow : (planned.ledgerRow generation).any (·.fleetKey == "fleet") = true := by
      decide +kernel
    obtain ⟨g, hg, hkey⟩ := (Option.any_eq_true _ _).mp hrow
    exact ⟨g, hg, beq_iff_eq.mp hkey⟩
  let asked : Plane := { planned with waiting := [deletionTicket] }
  let held : Plane := { planned with holders := [deletionTicket] }
  let deleted : Plane :=
    { planned with control, holders := [{ deletionTicket with purpose := .other }] }
  let start : Request platform := .recordApplyStarting (createProof "attempt-1") "plan" 200
  let refused : Plane := { deleted with daemon := (deleted.lifecycle.exec platform start).1 }
  have hasked : Step platform planned .quiet asked := .asked ⟨rfl, rfl⟩
  have hgranted : Step platform asked .quiet held :=
    @Step.granted platform asked deletionTicket [] [] rfl fun _ h => by cases h
  have hdeleted : Step platform held (.committed deletionTicket) deleted :=
    @Step.decommissioned platform held deletionTicket [] [] deletion none control rfl rfl hcommit
  have hstart : Step platform deleted (.served start (deleted.lifecycle.exec platform start).2)
      refused := .served (by simp [start])
  have hrun : Run (Step platform) planned
      ([(planned, .quiet, asked), (asked, .quiet, held)] ++
        (held, .committed deletionTicket, deleted) ::
          [(deleted, .served start (deleted.lifecycle.exec platform start).2, refused)]) refused :=
    .cons hasked (.cons hgranted (.cons hdeleted (.cons hstart (.nil _))))
  have hdeletion : DeletionCommitted (P := platform) "fleet"
      (held, .committed deletionTicket, deleted) :=
    ⟨deletionTicket, deletion, none, rfl, rfl, rfl⟩
  have hfence := (no_create_behind_fence hinitial hrun).1 _ _ _ "fleet" rfl hdeletion
  refine ⟨_, _, _, refused, hinitial, hrun, hdeletion, ?_, hfence⟩
  refine ⟨_, List.mem_singleton_self _, ?_⟩
  cases houtcome : (deleted.lifecycle.exec platform start).2 with
  | error error => exact ⟨error, rfl⟩
  | ok reply =>
    have hcreate : CreateRecorded (P := platform) generation
        (deleted, .served start (deleted.lifecycle.exec platform start).2, refused) :=
      ⟨createProof "attempt-1", start, reply, .direct, rfl, rfl, by rw [houtcome]⟩
    exact absurd hfleet (hfence _ (List.mem_singleton_self _) generation g hcreate hg)

end Plane

end Shaula
