import Shaula.Template.Manifest

/-! # Saved-plan admission

The part of a saved plan the policy reasons about, and what is admitted: managed actions must be
exactly a create or exactly a delete, data resources may only be read.
-/

namespace Shaula

open Library Library.Outcome

namespace Template

/-- One resource instance as observed inside the plan. -/
structure PlannedInstance where
  moduleAddress : Option String
  mode : String
  address : String
  resourceType : String
  actions : List String
  deposed : Bool
  previousAddress : Option String
  deriving DecidableEq, Repr

structure PlanAdmission where
  formatVersion : Nat
  terraformVersion : Option String
  instances : List PlannedInstance
  /-- Managed addresses of the refreshed snapshot the plan carries, if it carries one. -/
  priorStateManaged : Option (List String)
  deriving DecidableEq, Repr

def planFailed (message : String) : CoreError := ⟨.templatePlanFailed, message⟩

/-- The managed instances of a plan. -/
def PlanAdmission.managed (plan : PlanAdmission) : List PlannedInstance :=
  plan.instances.filter fun item => item.mode = "managed"

section Admission

open Quoting (debugText debugTexts)

variable (T : Quoting.Tables)

/-! ## Data resources -/

def admitDataResources (plan : PlanAdmission) : CoreResult Unit :=
  plan.instances.forM fun item =>
    ensure (item.mode ≠ "data" ∨ item.actions = ["read"] ∨
        item.actions = ["no-op"])
      (planFailed ("data resource may only read or no-op, found " ++ debugTexts T item.actions ++
        " at " ++ item.address))

/-! ## Create -/

/-- How many instances each role has been found to create. -/
abbrev PerRole := List (ManagedResourceRole × Nat)

/-- Count an instance for the first role of its type. -/
def PerRole.add (resourceType : String) : PerRole → Option PerRole
  | [] => none
  | (role, count) :: rest =>
    if role.terraformType = resourceType then some ((role, count + 1) :: rest)
    else (PerRole.add resourceType rest).map ((role, count) :: ·)

/-- The checks of one instance, which count it for its role. -/
def admitManagedInstance (exactAction kind : String) (perRole : PerRole)
    (item : PlannedInstance) : CoreResult PerRole :=
  if item.mode ≠ "managed" then .ok perRole
  else do
    ensure (item.deposed = false)
      (planFailed ("deposed instance in " ++ kind ++ " plan: " ++ item.address))
    ensure (item.previousAddress = none)
      (planFailed ("moved resource in " ++ kind ++ " plan: " ++ item.address))
    ensure (∀ action ∈ item.actions, action ∉ ["import", "move", "forget"])
      (planFailed ("forbidden action in " ++ kind ++ " plan: " ++ item.address))
    ensure (item.actions = [exactAction])
      (planFailed (kind ++ " plan requires actions exactly [" ++ debugText T exactAction ++
        "] but found " ++ debugTexts T item.actions ++ " at " ++ item.address))
    okOr (perRole.add item.resourceType)
      (planFailed ("undeclared managed resource type in " ++ kind ++ " plan: " ++
        item.resourceType))

def admitManaged (plan : PlanAdmission) (manifestShape : List ManagedResourceRole)
    (exactAction kind : String) : CoreResult Unit := do
  let perRole ← plan.instances.foldlM (admitManagedInstance T exactAction kind)
    (manifestShape.map fun role => (role, 0))
  perRole.forM fun (role, count) =>
    ensure (count = role.exactCount)
      (planFailed (kind ++ " plan role '" ++ role.role ++ "' expects exactly " ++
        toString role.exactCount ++ " instance(s) of '" ++ role.terraformType ++ "', found " ++
        toString count))

/-- Every declared managed instance exactly once, over an empty managed prior state. -/
def admitCreatePlan (plan : PlanAdmission) (priorStateEmpty : Bool)
    (manifestShape : List ManagedResourceRole) : CoreResult Unit := do
  ensure (priorStateEmpty = true) (planFailed "create requires empty managed prior state")
  ensure (∀ managed ∈ plan.priorStateManaged, managed = [])
    (planFailed "create requires empty managed prior state (plan prior_state snapshot is not empty)")
  admitManaged T plan manifestShape "create" "create"
  admitDataResources T plan

/-! ## Destroy -/

/-- The checks of one managed instance of a delete plan. -/
def admitDeletedInstance (declaredTypes : List String) (item : PlannedInstance) :
    CoreResult Unit := do
  ensure (item.deposed = false)
    (planFailed ("deposed instance in delete plan: " ++ item.address))
  ensure (item.previousAddress = none)
    (planFailed ("moved resource in delete plan: " ++ item.address))
  ensure (item.actions = ["delete"])
    (planFailed ("delete plan requires actions exactly [delete] but found " ++
      debugTexts T item.actions ++ " at " ++ item.address))
  ensure (item.resourceType ∈ declaredTypes)
    (planFailed ("undeclared managed resource type in delete plan: " ++ item.resourceType))

/-- An omitted address is admitted only when the plan's own refresh dropped it. -/
def PlanAdmission.refreshedAway (plan : PlanAdmission) (address : String) : Bool :=
  plan.priorStateManaged.any fun managed => address ∉ managed

/-- The planned managed address set corresponds exactly to the bound state. -/
def admitDestroyPlan (plan : PlanAdmission) (stateAddresses : List String)
    (manifestShape : List ManagedResourceRole) : CoreResult Unit := do
  plan.managed.forM (admitDeletedInstance T (manifestShape.map (·.terraformType)))
  admitDataResources T plan
  let planned := plan.managed.map (·.address)
  ensure planned.Nodup (planFailed "destroy plan lists a managed address more than once")
  ensure (∀ address ∈ planned, address ∈ stateAddresses)
    (planFailed "destroy plan introduces address not present in state: address out of bound state")
  stateAddresses.forM fun address =>
    ensure (address ∈ planned ∨ plan.refreshedAway address)
      (planFailed ("destroy plan omits bound-state address " ++ debugText T address ++
        ": the apply would orphan it"))

end Admission

/-! ## What is admitted -/

section Admitted

variable {T : Quoting.Tables} {plan : PlanAdmission} {shape : List ManagedResourceRole}
  {stateAddresses : List String}

theorem admitDataResources_eq_ok :
    admitDataResources T plan = .ok () ↔
      ∀ i ∈ plan.instances, i.mode = "data" → i.actions = ["read"] ∨ i.actions = ["no-op"] := by
  simp only [admitDataResources, forM_eq_ok, ensure_eq_ok, ne_eq, imp_iff_not_or]

theorem mem_managed {i : PlannedInstance} :
    i ∈ plan.managed ↔ i ∈ plan.instances ∧ i.mode = "managed" := by
  simp [PlanAdmission.managed]

end Admitted

end Template

end Shaula
