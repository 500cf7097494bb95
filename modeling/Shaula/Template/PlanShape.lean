import Shaula.Template.Plan
import Shaula.Template.Result
import Shaula.Core.StateBackend
import Mathlib.Algebra.GroupWithZero.Nat
import Mathlib.Algebra.Order.BigOperators.Group.List
import Mathlib.Algebra.Order.Group.Nat

/-! # The declared shape, in a plan and in a state

Create admission counts an instance for the first role of its type; the state proof adds up the roles
of a type.  They agree exactly on the shapes whose roles have distinct types.
-/

namespace Shaula

open Library Library.Outcome
open Core (StateDocument Platform)

namespace Template

variable {shape : List ManagedResourceRole} {plan : PlanAdmission}

/-! ## Counting by type -/

/-- How many managed instances of a type the plan has. -/
def PlanAdmission.created (plan : PlanAdmission) (resourceType : String) : Nat :=
  plan.managed.countP fun item => item.resourceType = resourceType

/-- How many instances of a type the roles of a shape declare together. -/
def expectedOf (shape : List ManagedResourceRole) (resourceType : String) : Nat :=
  ((shape.filter fun role => role.terraformType = resourceType).map (·.exactCount)).sum

/-- Counts for the first role of each type, after the roles of the types `seen`. -/
def assignFirst (count : String → Nat) : List String → List ManagedResourceRole → PerRole
  | _, [] => []
  | seen, role :: rest =>
    (role, if role.terraformType ∈ seen then 0 else count role.terraformType) ::
      assignFirst count (role.terraformType :: seen) rest

theorem assignFirst_zero (seen : List String) (shape : List ManagedResourceRole) :
    assignFirst (fun _ => 0) seen shape = shape.map fun role => (role, 0) := by
  induction shape generalizing seen with
  | nil => rfl
  | cons role rest ih => simp [assignFirst, ih]

theorem assignFirst_congr {count count' : String → Nat} {seen : List String}
    (h : ∀ t, t ∉ seen → count t = count' t) (shape : List ManagedResourceRole) :
    assignFirst count seen shape = assignFirst count' seen shape := by
  induction shape generalizing seen with
  | nil => rfl
  | cons role rest ih =>
    simp only [assignFirst]
    rw [ih fun t ht => h t fun hmem => ht (List.mem_cons_of_mem _ hmem)]
    by_cases hseen : role.terraformType ∈ seen
    · simp [hseen]
    · simp [hseen, h _ hseen]

/-- An instance is counted for the first role of its type, if there is one. -/
theorem add_assignFirst (count : String → Nat) {seen : List String} {t : String} (ht : t ∉ seen)
    (shape : List ManagedResourceRole) :
    (assignFirst count seen shape).add t =
      if t ∈ shape.map (·.terraformType) then
        some (assignFirst (fun t' => if t' = t then count t' + 1 else count t') seen shape)
      else none := by
  induction shape generalizing seen with
  | nil => rfl
  | cons role rest ih =>
    by_cases heq : role.terraformType = t
    · have hrest : assignFirst count (role.terraformType :: seen) rest =
          assignFirst (fun t' => if t' = t then count t' + 1 else count t')
            (role.terraformType :: seen) rest := by
        apply assignFirst_congr
        intro t' ht'
        have hne : t' ≠ t := fun h => ht' (h ▸ heq ▸ List.mem_cons_self)
        simp [hne]
      simp only [assignFirst, PerRole.add, heq, ht, if_true, if_false, List.map_cons,
        List.mem_cons, true_or]
      rw [← heq, hrest, heq]
    · have hnot : t ∉ role.terraformType :: seen := by
        simp only [List.mem_cons, not_or]
        exact ⟨fun h => heq h.symm, ht⟩
      simp only [assignFirst, PerRole.add, heq, if_false, ih hnot, List.map_cons, List.mem_cons,
        Ne.symm heq, false_or]
      by_cases hmem : t ∈ rest.map (·.terraformType)
      · rw [if_pos hmem, if_pos hmem]
        rfl
      · rw [if_neg hmem, if_neg hmem]
        rfl

/-! ## Create admission -/

/-- A managed instance that is plainly created. -/
structure PlannedInstance.Creates (item : PlannedInstance) : Prop where
  deposed : item.deposed = false
  moved : item.previousAddress = none
  actions : item.actions = ["create"]

theorem admitManagedInstance_eq_ok {T : Quoting.Tables} {perRole perRole' : PerRole}
    {item : PlannedInstance} :
    admitManagedInstance T "create" "create" perRole item = .ok perRole' ↔
      (item.mode ≠ "managed" ∧ perRole = perRole') ∨
        (item.mode = "managed" ∧ item.Creates ∧ perRole.add item.resourceType = some perRole') := by
  unfold admitManagedInstance
  by_cases hmode : item.mode = "managed"
  · simp only [hmode, ne_eq, not_true_eq_false, if_false, bind_eq_ok, ensure_eq_ok, okOr_eq_ok,
      exists_and_left, exists_const, false_and, true_and, false_or]
    constructor
    · rintro ⟨hdeposed, hmoved, -, hactions, hadd⟩
      exact ⟨⟨hdeposed, hmoved, hactions⟩, hadd⟩
    · rintro ⟨⟨hdeposed, hmoved, hactions⟩, hadd⟩
      refine ⟨hdeposed, hmoved, ?_, hactions, hadd⟩
      rw [hactions]
      decide
  · simp [hmode]

/-- What a loop over instances leaves: every one is a create of a declared type, and is counted. -/
theorem foldlM_admitManagedInstance {T : Quoting.Tables} (count : String → Nat)
    (items : List PlannedInstance) (perRole : PerRole) :
    items.foldlM (admitManagedInstance T "create" "create") (assignFirst count [] shape) =
        .ok perRole ↔
      (∀ item ∈ items, item.mode = "managed" →
        item.Creates ∧ item.resourceType ∈ shape.map (·.terraformType)) ∧
      perRole = assignFirst (fun t => count t + items.countP fun item =>
        decide (item.mode = "managed") && decide (item.resourceType = t)) [] shape := by
  induction items generalizing count with
  | nil =>
    simp only [List.foldlM_nil, pure_eq_ok, List.not_mem_nil, false_implies, implies_true,
      true_and, List.countP_nil, Nat.add_zero]
    exact eq_comm
  | cons item rest ih =>
    rw [List.foldlM_cons, bind_eq_ok]
    simp only [admitManagedInstance_eq_ok, List.mem_cons, forall_eq_or_imp]
    by_cases hmode : item.mode = "managed"
    · simp only [hmode, ne_eq, not_true_eq_false, false_and, true_and, false_or, true_implies,
        add_assignFirst count List.not_mem_nil]
      have hcount : (fun t => (if t = item.resourceType then count t + 1 else count t) +
            rest.countP fun other =>
              decide (other.mode = "managed") && decide (other.resourceType = t)) =
          fun t => count t + (item :: rest).countP fun other =>
            decide (other.mode = "managed") && decide (other.resourceType = t) := by
        funext t
        rw [List.countP_cons]
        by_cases heq : t = item.resourceType
        · simp only [heq, if_true, hmode, decide_true, Bool.and_self]
          omega
        · simp [heq, Ne.symm heq, hmode]
      constructor
      · rintro ⟨next, ⟨hcreates, hadd⟩, hrest⟩
        split at hadd
        · next hdeclared =>
          cases hadd
          rw [ih, hcount] at hrest
          exact ⟨⟨⟨hcreates, hdeclared⟩, hrest.1⟩, hrest.2⟩
        · cases hadd
      · rintro ⟨⟨⟨hcreates, hdeclared⟩, hrest⟩, rfl⟩
        refine ⟨_, ⟨hcreates, if_pos hdeclared⟩, ?_⟩
        rw [ih, hcount]
        exact ⟨hrest, rfl⟩
    · have hcount : ∀ t, ((item :: rest).countP fun other =>
            decide (other.mode = "managed") && decide (other.resourceType = t)) =
          rest.countP fun other =>
            decide (other.mode = "managed") && decide (other.resourceType = t) := by
        intro t
        rw [List.countP_cons]
        simp [hmode]
      simp only [hmode, ne_eq, not_false_eq_true, true_and, false_and, or_false, false_implies,
        hcount, ← ih]
      constructor
      · rintro ⟨_, rfl, hrest⟩
        exact hrest
      · intro hrest
        exact ⟨_, rfl, hrest⟩

theorem created_eq (plan : PlanAdmission) (t : String) :
    plan.created t = plan.instances.countP fun item =>
      decide (item.mode = "managed") && decide (item.resourceType = t) := by
  rw [PlanAdmission.created, PlanAdmission.managed, List.countP_filter]
  congr 1
  funext item
  exact Bool.and_comm _ _

/-- Create admission, role by role in the order of the shape. -/
theorem admitManaged_eq_ok {T : Quoting.Tables} :
    admitManaged T plan shape "create" "create" = .ok () ↔
      (∀ item ∈ plan.managed, item.Creates ∧ item.resourceType ∈ shape.map (·.terraformType)) ∧
      ∀ entry ∈ assignFirst plan.created [] shape, entry.2 = entry.1.exactCount := by
  simp only [admitManaged, bind_eq_ok, forM_eq_ok, ensure_eq_ok, ← assignFirst_zero [] shape,
    foldlM_admitManagedInstance, Nat.zero_add, ← created_eq]
  constructor
  · rintro ⟨_, ⟨hmanaged, rfl⟩, hcounts⟩
    exact ⟨fun item hitem => hmanaged item (mem_managed.mp hitem).1 (mem_managed.mp hitem).2,
      hcounts⟩
  · rintro ⟨hmanaged, hcounts⟩
    exact ⟨_, ⟨fun item hitem hmode => hmanaged item (mem_managed.mpr ⟨hitem, hmode⟩), rfl⟩,
      hcounts⟩

/-! ## Shapes with distinct types -/

theorem assignFirst_of_nodup {count : String → Nat} {seen : List String}
    (hnodup : (shape.map (·.terraformType)).Nodup)
    (hseen : ∀ role ∈ shape, role.terraformType ∉ seen) :
    assignFirst count seen shape = shape.map fun role => (role, count role.terraformType) := by
  induction shape generalizing seen with
  | nil => rfl
  | cons role rest ih =>
    rw [List.map_cons, List.nodup_cons] at hnodup
    simp only [assignFirst, hseen role List.mem_cons_self, if_false, List.map_cons]
    rw [ih hnodup.2]
    intro other hother hmem
    rcases List.mem_cons.mp hmem with heq | hmem
    · exact hnodup.1 (heq ▸ List.mem_map_of_mem hother)
    · exact hseen other (List.mem_cons_of_mem role hother) hmem

theorem expectedOf_of_nodup (hnodup : (shape.map (·.terraformType)).Nodup)
    {role : ManagedResourceRole} (hrole : role ∈ shape) :
    expectedOf shape role.terraformType = role.exactCount := by
  induction shape with
  | nil => cases hrole
  | cons first rest ih =>
    rw [List.map_cons, List.nodup_cons] at hnodup
    have hnone : ∀ t, (∀ other ∈ rest, other.terraformType ≠ t) →
        (rest.filter fun other => other.terraformType = t) = [] := by
      intro t h
      rw [List.filter_eq_nil_iff]
      intro other hother
      simpa using h other hother
    rcases List.mem_cons.mp hrole with rfl | hrest
    · have hfirst : ∀ other ∈ rest, other.terraformType ≠ role.terraformType := by
        intro other hother heq
        exact hnodup.1 (heq ▸ List.mem_map_of_mem hother)
      simp [expectedOf, hnone _ hfirst]
    · have hne : first.terraformType ≠ role.terraformType := fun heq =>
        hnodup.1 (heq ▸ List.mem_map_of_mem hrest)
      have := ih hnodup.2 hrest
      simp only [expectedOf, List.filter_cons, hne, decide_false, Bool.false_eq_true, if_false]
      exact this

theorem expectedOf_eq_zero {t : String} (h : t ∉ shape.map (·.terraformType)) :
    expectedOf shape t = 0 := by
  have hnone : (shape.filter fun role => role.terraformType = t) = [] := by
    rw [List.filter_eq_nil_iff]
    intro role hrole heq
    rw [decide_eq_true_eq] at heq
    exact h (heq ▸ List.mem_map_of_mem hrole)
  rw [expectedOf, hnone, List.map_nil, List.sum_nil]

/-- A role whose type an earlier role has is counted nothing. -/
theorem assignFirst_zero_of_repeated {count : String → Nat} {seen : List String}
    (h : ¬ ((shape.map (·.terraformType)).Nodup ∧
      ∀ role ∈ shape, role.terraformType ∉ seen)) :
    ∃ role ∈ shape, (role, 0) ∈ assignFirst count seen shape := by
  induction shape generalizing seen with
  | nil => simp at h
  | cons role rest ih =>
    by_cases hseen : role.terraformType ∈ seen
    · exact ⟨role, List.mem_cons_self, by simp [assignFirst, hseen]⟩
    · have hrest : ¬ ((rest.map (·.terraformType)).Nodup ∧
          ∀ other ∈ rest, other.terraformType ∉ role.terraformType :: seen) := by
        rintro ⟨hnodup, hnot⟩
        apply h
        constructor
        · rw [List.map_cons, List.nodup_cons]
          refine ⟨fun hmem => ?_, hnodup⟩
          obtain ⟨other, hother, heq⟩ := List.mem_map.mp hmem
          exact hnot other hother (heq ▸ List.mem_cons_self)
        · intro other hother hmem
          rcases List.mem_cons.mp hother with rfl | hother
          · exact hseen hmem
          · exact hnot other hother (List.mem_cons_of_mem _ hmem)
      obtain ⟨other, hother, hzero⟩ := ih hrest
      exact ⟨other, List.mem_cons_of_mem role hother, by simp [assignFirst, hzero]⟩

/-! ## The shape in a state -/

variable {P : Platform}

/-- How many managed instances of a type a state tracks. -/
def tracked (d : StateDocument P) (resourceType : String) : Nat :=
  ((d.header.resources.filter fun r => r.mode == "managed" && r.resourceType == resourceType).map
    (·.instances)).sum

/-- The sum over the entries under a key. -/
def sumOf (entries : List (String × Nat)) (key : String) : Nat :=
  ((entries.filter fun e => e.1 = key).map (·.2)).sum

theorem find_foldl_tally (entries : List (String × Nat)) (t : Table String Nat) (key : String) :
    (entries.foldl (fun t e => t.put e.1 ((t.find e.1).getD 0 + e.2)) t).find key =
      if key ∈ entries.map (·.1) then some ((t.find key).getD 0 + sumOf entries key)
      else t.find key := by
  induction entries generalizing t with
  | nil => rfl
  | cons e rest ih =>
    rw [List.foldl_cons, ih]
    by_cases heq : key = e.1
    · subst heq
      by_cases hmem : e.1 ∈ rest.map (·.1)
      · simp [hmem, sumOf, Nat.add_assoc]
      · have hnone : (rest.filter fun other => other.1 = e.1) = [] := by
          rw [List.filter_eq_nil_iff]
          intro other hother hsame
          rw [decide_eq_true_eq] at hsame
          exact hmem (hsame ▸ List.mem_map_of_mem hother)
        simp [hmem, sumOf, hnone]
    · simp only [Table.find_put, heq, if_false, List.map_cons, List.mem_cons, false_or, sumOf,
        List.filter_cons, Ne.symm heq, decide_false, Bool.false_eq_true]

theorem find_tally (entries : List (String × Nat)) (key : String) :
    (StateDocument.tally entries).find key =
      if key ∈ entries.map (·.1) then some (sumOf entries key) else none := by
  rw [StateDocument.tally, find_foldl_tally]
  simp

theorem sumOf_shape (shape : List ManagedResourceRole) (t : String) :
    sumOf (shape.map fun role => (role.terraformType, role.exactCount)) t = expectedOf shape t := by
  rw [sumOf, expectedOf, List.filter_map, List.map_map]
  rfl

theorem find_expected (shape : List ManagedResourceRole) (t : String) :
    (StateDocument.tally (shape.map fun role => (role.terraformType, role.exactCount))).find t =
      if t ∈ shape.map (·.terraformType) then some (expectedOf shape t) else none := by
  rw [find_tally, sumOf_shape, List.map_map]
  rfl

theorem getD_find_managedCounts (d : StateDocument P) (t : String) :
    (d.managedCounts.find t).getD 0 = tracked d t := by
  have hsum : sumOf ((d.header.resources.filter fun r => r.mode == "managed").map
      fun r => (r.resourceType, r.instances)) t = tracked d t := by
    rw [sumOf, tracked, List.filter_map, List.map_map, List.filter_filter]
    congr 2
    apply List.filter_congr
    intro r _
    rw [Bool.and_comm]
    rfl
  rw [StateDocument.managedCounts, find_tally, hsum]
  split
  · rfl
  · next hnot =>
    symm
    have hnone : (d.header.resources.filter fun r =>
        r.mode == "managed" && r.resourceType == t) = [] := by
      rw [List.filter_eq_nil_iff]
      intro r hr hsame
      rw [Bool.and_eq_true, beq_iff_eq, beq_iff_eq] at hsame
      apply hnot
      rw [List.map_map]
      refine List.mem_map.mpr ⟨r, List.mem_filter.mpr ⟨hr, ?_⟩, hsame.2⟩
      simp [hsame.1]
    rw [tracked, hnone, List.map_nil, List.sum_nil]
    rfl

theorem expectedOf_pos (hpositive : ∀ role ∈ shape, role.exactCount ≠ 0) {t : String} :
    0 < expectedOf shape t ↔ t ∈ shape.map (·.terraformType) := by
  constructor
  · intro hpos
    by_contra hnot
    rw [expectedOf_eq_zero hnot] at hpos
    omega
  · intro hmem
    obtain ⟨role, hrole, rfl⟩ := List.mem_map.mp hmem
    have hle : role.exactCount ≤ expectedOf shape role.terraformType := by
      apply List.single_le_sum (fun _ _ => Nat.zero_le _)
      exact List.mem_map_of_mem (List.mem_filter.mpr ⟨hrole, decide_eq_true rfl⟩)
    have := hpositive role hrole
    omega

/-- A state that tracks what the roles declare together records the whole shape. -/
theorem recordsWholeShape_of_tracked {d : StateDocument P} (hne : shape ≠ [])
    (hpositive : ∀ role ∈ shape, role.exactCount ≠ 0)
    (htracked : ∀ t, tracked d t = expectedOf shape t) :
    d.recordsWholeShape (shape.map (·.toManagedResourceRole)) = true := by
  have hentries : ((shape.map (·.toManagedResourceRole)).map fun role =>
      (role.terraformType, role.exactCount)) =
      shape.map fun role => (role.terraformType, role.exactCount) := by
    rw [List.map_map]
    rfl
  simp only [StateDocument.recordsWholeShape, hentries]
  let expected := StateDocument.tally
    (shape.map fun role => (role.terraformType, role.exactCount))
  have hmem : ∀ t n, (t, n) ∈ expected.rows ↔
      t ∈ shape.map (·.terraformType) ∧ n = expectedOf shape t := by
    intro t n
    rw [Table.mem_rows, find_expected]
    simp [eq_comm]
  have hnonempty : expected.rows.isEmpty = false := by
    obtain ⟨role, rest, rfl⟩ := List.exists_cons_of_ne_nil hne
    rw [List.isEmpty_eq_false_iff_exists_mem]
    exact ⟨_, (hmem role.terraformType _).mpr ⟨List.mem_cons_self, rfl⟩⟩
  have hall : (expected.rows.all fun e => (d.managedCounts.find e.1).getD 0 == e.2) = true := by
    rw [List.all_eq_true]
    rintro ⟨t, n⟩ he
    rw [getD_find_managedCounts, htracked, ((hmem t n).mp he).2]
    exact beq_self_eq_true _
  have hcount : d.managedCounts.count (fun _ count => decide (0 < count)) =
      expected.rows.length := by
    have hfilter : d.managedCounts.count (fun _ count => decide (0 < count)) =
        ((d.managedCounts.rows.filter fun e => decide (0 < e.2)).map (·.1)).length := by
      rw [List.length_map, ← List.countP_eq_length_filter, Table.rows, List.countP_map]
      rfl
    have hkeys : expected.rows.length = (expected.rows.map (·.1)).length :=
      (List.length_map _).symm
    rw [hfilter, hkeys]
    apply List.Perm.length_eq
    rw [List.perm_ext_iff_of_nodup
      ((Table.nodup_keys _).sublist (List.filter_sublist.map _)) (Table.nodup_keys _)]
    intro t
    have hleft : t ∈ (d.managedCounts.rows.filter fun e => decide (0 < e.2)).map (·.1) ↔
        0 < tracked d t := by
      rw [← getD_find_managedCounts]
      simp only [List.mem_map, List.mem_filter, decide_eq_true_eq, Prod.exists, Table.mem_rows,
        exists_and_right, exists_eq_right]
      cases d.managedCounts.find t with
      | none => simp
      | some n => simp
    have hright : t ∈ expected.rows.map (·.1) ↔ t ∈ shape.map (·.terraformType) := by
      rw [List.mem_map]
      simp only [Prod.exists, hmem, exists_and_right, exists_eq_right]
    rw [hleft, hright, htracked, expectedOf_pos hpositive]
  have hcount' : (d.managedCounts.count (fun _ count => decide (0 < count)) ==
      expected.rows.length) = true := by
    rw [hcount]
    exact beq_self_eq_true _
  change (!expected.rows.isEmpty && _ && _) = true
  rw [hnonempty, hcount', hall]
  rfl

/-! ## Agreement -/

/-- A Create plan that creates what the roles declare together, and nothing else managed. -/
structure CreatesShape (plan : PlanAdmission) (shape : List ManagedResourceRole) : Prop where
  prior : ∀ managed ∈ plan.priorStateManaged, managed = []
  creates : ∀ item ∈ plan.managed, item.Creates
  counts : ∀ t, plan.created t = expectedOf shape t
  reads : ∀ item ∈ plan.instances, item.mode = "data" →
    item.actions = ["read"] ∨ item.actions = ["no-op"]

/-- A state in which exactly the plan was applied: it tracks what the plan creates. -/
def Applied (plan : PlanAdmission) (d : StateDocument P) : Prop :=
  ∀ t, tracked d t = plan.created t

/-- A declared shape is read the same at plan and state: a plan of the shape is admitted, applying
it records the whole shape, and an admitted plan creates the shape, each role exactly. -/
structure ShapeAgrees (T : Quoting.Tables) (shape : List ManagedResourceRole) : Prop where
  admitted : ∀ plan, CreatesShape plan shape → admitCreatePlan T plan true shape = .ok ()
  recorded : ∀ plan, CreatesShape plan shape → ∀ (P : Platform) (d : StateDocument P),
    Applied plan d → d.recordsWholeShape (shape.map (·.toManagedResourceRole)) = true
  creates : ∀ plan priorStateEmpty, admitCreatePlan T plan priorStateEmpty shape = .ok () →
    CreatesShape plan shape ∧ ∀ role ∈ shape, plan.created role.terraformType = role.exactCount

theorem admitCreatePlan_eq_ok {T : Quoting.Tables} {priorStateEmpty : Bool} :
    admitCreatePlan T plan priorStateEmpty shape = .ok () ↔
      priorStateEmpty = true ∧ (∀ managed ∈ plan.priorStateManaged, managed = []) ∧
        admitManaged T plan shape "create" "create" = .ok () ∧
        admitDataResources T plan = .ok () := by
  simp only [admitCreatePlan, bind_eq_ok, ensure_eq_ok, exists_and_left, exists_const]
  constructor
  · rintro ⟨hprior, hsnapshot, ⟨⟩, hmanaged, hdata⟩
    exact ⟨hprior, hsnapshot, hmanaged, hdata⟩
  · rintro ⟨hprior, hsnapshot, hmanaged, hdata⟩
    exact ⟨hprior, hsnapshot, ⟨⟩, hmanaged, hdata⟩

theorem created_pos {t : String} : 0 < plan.created t ↔ ∃ i ∈ plan.managed, i.resourceType = t := by
  simp [PlanAdmission.created, List.countP_pos_iff]

/-- A plan that creates the roles of a shape, one instance after another. -/
def planOf (shape : List ManagedResourceRole) : PlanAdmission where
  formatVersion := 1
  terraformVersion := none
  instances := shape.flatMap fun role => List.replicate role.exactCount
    { moduleAddress := none
      mode := "managed"
      address := role.role
      resourceType := role.terraformType
      actions := ["create"]
      deposed := false
      previousAddress := none }
  priorStateManaged := none

theorem planOf_creates (shape : List ManagedResourceRole) : CreatesShape (planOf shape) shape where
  prior := by simp [planOf]
  creates := by
    intro item hitem
    obtain ⟨hitem, -⟩ := mem_managed.mp hitem
    obtain ⟨role, -, hrole⟩ := List.mem_flatMap.mp hitem
    rw [List.eq_of_mem_replicate hrole]
    exact ⟨rfl, rfl, rfl⟩
  counts := by
    intro t
    rw [created_eq]
    induction shape with
    | nil => rfl
    | cons role rest ih =>
      simp only [planOf, List.flatMap_cons, List.countP_append] at ih ⊢
      rw [ih, List.countP_replicate]
      by_cases heq : role.terraformType = t
      · simp [expectedOf, heq]
      · simp [expectedOf, heq]
  reads := by
    intro item hitem hdata
    obtain ⟨role, -, hrole⟩ := List.mem_flatMap.mp hitem
    rw [List.eq_of_mem_replicate hrole] at hdata
    simp at hdata

section Distinct

variable (hnodup : (shape.map (·.terraformType)).Nodup)

include hnodup in
/-- Over distinct types, create admission is the creation of the shape. -/
theorem admitCreatePlan_iff {T : Quoting.Tables}
    (hpositive : ∀ role ∈ shape, role.exactCount ≠ 0) :
    admitCreatePlan T plan true shape = .ok () ↔ CreatesShape plan shape := by
  have hassign : assignFirst plan.created [] shape =
      shape.map fun role => (role, plan.created role.terraformType) :=
    assignFirst_of_nodup hnodup fun _ _ => List.not_mem_nil
  simp only [admitCreatePlan_eq_ok, admitManaged_eq_ok, hassign, List.forall_mem_map,
    admitDataResources_eq_ok, true_and]
  constructor
  · rintro ⟨hprior, ⟨hmanaged, hcounts⟩, hdata⟩
    refine ⟨hprior, fun item hitem => (hmanaged item hitem).1, fun t => ?_, hdata⟩
    by_cases ht : t ∈ shape.map (·.terraformType)
    · obtain ⟨role, hrole, rfl⟩ := List.mem_map.mp ht
      rw [expectedOf_of_nodup hnodup hrole]
      exact hcounts role hrole
    · rw [expectedOf_eq_zero ht]
      by_contra hne
      obtain ⟨item, hitem, rfl⟩ := created_pos.mp (Nat.pos_of_ne_zero hne)
      exact ht (hmanaged item hitem).2
  · intro h
    refine ⟨h.prior, ⟨fun item hitem => ⟨h.creates item hitem, ?_⟩, fun role hrole => ?_⟩, h.reads⟩
    · rw [← expectedOf_pos hpositive, ← h.counts]
      exact created_pos.mpr ⟨item, hitem, rfl⟩
    · rw [h.counts, expectedOf_of_nodup hnodup hrole]

end Distinct

/-- A shape in which two roles have one type admits no Create plan at all. -/
theorem admitCreatePlan_repeated_type {T : Quoting.Tables}
    (hrepeated : ¬ (shape.map (·.terraformType)).Nodup)
    (hpositive : ∀ role ∈ shape, role.exactCount ≠ 0) (priorStateEmpty : Bool) :
    admitCreatePlan T plan priorStateEmpty shape ≠ .ok () := by
  intro hok
  obtain ⟨-, -, hmanaged, -⟩ := admitCreatePlan_eq_ok.mp hok
  have hzero : ∃ role ∈ shape, (role, 0) ∈ assignFirst plan.created [] shape :=
    assignFirst_zero_of_repeated fun h => hrepeated h.1
  obtain ⟨role, hrole, hzero⟩ := hzero
  have := (admitManaged_eq_ok.mp hmanaged).2 (role, 0) hzero
  exact hpositive role hrole this.symm

/-- **Agreement.**  The shape of a valid manifest is read the same at plan and state if and only if
its roles have distinct resource types. -/
theorem shape_agrees_iff (C : Crates) (manifest : ProfileManifest)
    (hvalid : manifest.validate C = .ok ()) :
    ShapeAgrees C.tables manifest.managedResourceShape ↔
      (manifest.managedResourceShape.map (·.terraformType)).Nodup := by
  have hshape := ProfileManifest.validShape_of_validate hvalid
  have hpositive : ∀ role ∈ manifest.managedResourceShape, role.exactCount ≠ 0 :=
    fun role hrole => (hshape.entries role hrole).2.2
  constructor
  · intro hagrees
    by_contra hrepeated
    exact admitCreatePlan_repeated_type hrepeated hpositive true
      (hagrees.admitted _ (planOf_creates _))
  · intro hnodup
    constructor
    · exact fun plan hcreates => (admitCreatePlan_iff hnodup hpositive).mpr hcreates
    · intro plan hcreates P d happlied
      apply recordsWholeShape_of_tracked hshape.nonempty hpositive
      intro t
      rw [happlied t, hcreates.counts t]
    · intro plan priorStateEmpty hok
      have hempty := (admitCreatePlan_eq_ok.mp hok).1
      subst hempty
      have hcreates := (admitCreatePlan_iff hnodup hpositive).mp hok
      refine ⟨hcreates, fun role hrole => ?_⟩
      rw [hcreates.counts, expectedOf_of_nodup hnodup hrole]

/-- A runner and its disk, of two types. -/
theorem shape_agrees_iff_sample :
    ShapeAgrees Quoting.asciiTables
      [vmRole "runner" 2, ⟨⟨"proxmox_virtual_environment_file", 1⟩, "disk"⟩] :=
  (shape_agrees_iff noCrates
    (vmManifest [vmRole "runner" 2, ⟨⟨"proxmox_virtual_environment_file", 1⟩, "disk"⟩])
    (by decide +kernel)).mpr (by decide)

/-- Two roles of one type: the plan that creates both is refused, though the manifest is valid and
the plan is of the declared shape. -/
theorem roles_of_one_type_refused :
    (vmManifest [vmRole "runner" 1, vmRole "helper" 1]).validate noCrates = .ok () ∧
      CreatesShape (planOf [vmRole "runner" 1, vmRole "helper" 1])
        [vmRole "runner" 1, vmRole "helper" 1] ∧
      admitCreatePlan Quoting.asciiTables (planOf [vmRole "runner" 1, vmRole "helper" 1]) true
        [vmRole "runner" 1, vmRole "helper" 1] ≠ .ok () :=
  ⟨by decide +kernel, planOf_creates _, by decide +kernel⟩

end Template

end Shaula
