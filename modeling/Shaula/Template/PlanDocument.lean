import Shaula.Template.Plan

/-! # Plan documents

Reading a saved plan out of the engine's JSON, and the admission of a Destroy over the document: the
deleted resources, the omitted addresses and the check results.
-/

namespace Shaula

open Library Library.Outcome

namespace Template

open Quoting (debugText)

variable (T : Quoting.Tables)

/-! ## Resource changes -/

/-- A change is deposed, at either level. -/
def isDeposed (change changeObj : Json) : Bool :=
  change.present "deposed" || changeObj.present "deposed"

/-- A change imports, at either level or by its reason. -/
def isImporting (change changeObj : Json) : Bool :=
  change.present "importing" || changeObj.present "importing"

def parseAction (action : Json) : CoreResult String :=
  okOr action.asStr (planFailed "non-string action")

/-- One entry of `resource_changes`. -/
def parseChange (change : Json) : CoreResult PlannedInstance := do
  ensure (change.isObject = true) (planFailed "resource_change entry is not an object")
  let address ← okOr (change.strAt "address") (planFailed "resource change without address")
  let mode ← okOr (change.strAt "mode") (planFailed "resource change without mode")
  let resourceType ← okOr (change.strAt "type") (planFailed "resource change without type")
  let changeObj ← okOr ((change.get "change").filter Json.isObject)
    (planFailed "resource change without change object")
  ensure (mode = "managed" ∨ mode = "data")
    (planFailed ("unknown resource mode " ++ debugText T mode ++ " at " ++ address))
  let actions ← okOr ((changeObj.get "actions").bind Json.asArray)
    (planFailed "resource change without actions array")
  let actions ← actions.mapM parseAction
  ensure (isImporting change changeObj = false)
    (planFailed ("planned import is rejected: " ++ address))
  ensure (changeObj.strAt "action_reason" ≠ some "import")
    (planFailed ("planned import (action_reason) is rejected: " ++ address))
  pure
    { moduleAddress := change.strAt "module_address"
      mode := mode
      address := address
      resourceType := resourceType
      actions := actions
      deposed := isDeposed change changeObj
      previousAddress := change.strAt "previous_address" }

/-! ## The prior state -/

/-- The address a managed resource of a snapshot is listed under; a resource without one still
witnesses a non-empty state. -/
def managedAddress (resource : Json) : Option String :=
  if resource.strAt "mode" = some "managed" then some ((resource.strAt "address").getD "")
  else none

/-- Managed addresses of a module and of the modules below it. -/
def collectManagedAddresses (root : Json) : List String :=
  (root.itemsAt "resources").filterMap managedAddress ++
    (root.itemsAt "child_modules").attach.flatMap fun child =>
      collectManagedAddresses child.1
termination_by sizeOf root
decreasing_by
  obtain ⟨items, hget, hmem⟩ := Json.mem_itemsAt.mp child.2
  exact Nat.lt_trans (Json.sizeOf_mem_array rfl hmem) (Json.sizeOf_get hget)

/-- The root module of the snapshot a plan carries. -/
def priorRoot (plan : Json) : Option Json :=
  ((plan.get "prior_state").bind (·.get "values")).bind (·.get "root_module")

/-! ## The document -/

def supportedFormatMajor : Nat := 1

def formatMajor (version : String) : Option Nat := (split '.' version).head?.bind parseU64

def flagAt (plan : Json) (key : String) (default : Bool) : Bool :=
  ((plan.get key).bind Json.asBool).getD default

/-- The subset of the plan the policy reasons about. -/
def parsePlanShape (plan : Json) : CoreResult PlanAdmission := do
  ensure (plan.isObject = true) (planFailed "plan document is not a JSON object")
  let formatVersion ← okOr ((plan.strAt "format_version").bind formatMajor)
    (planFailed "plan format_version missing or malformed")
  ensure (formatVersion = supportedFormatMajor)
    (planFailed ("unsupported plan format major " ++ toString formatVersion))
  ensure (flagAt plan "applyable" false = true) (planFailed "plan is not applyable")
  ensure (flagAt plan "complete" false = true) (planFailed "plan is incomplete")
  ensure (flagAt plan "errored" true = false) (planFailed "plan has errored")
  let instances ← (plan.itemsAt "resource_changes").mapM (parseChange T)
  ensure ((plan.itemsAt "deferred_changes").isEmpty = true)
    (planFailed "plan contains deferred changes")
  pure
    { formatVersion := formatVersion
      terraformVersion := plan.strAt "terraform_version"
      instances := instances
      priorStateManaged := (priorRoot plan).map collectManagedAddresses }

/-! ## Checks -/

def emptyOrAbsent (value : Json) (member : String) : Bool :=
  (value.get member).all fun value => value.asArray.any List.isEmpty

def checkFailed : CoreError := planFailed "plan contains failed, errored or unresolved checks"

def passedInstance (item : Json) : Bool :=
  decide (item.strAt "status" = some "pass") && emptyOrAbsent item "problems"

def admitPassedInstances (check : Json) : CoreResult Unit :=
  match check.get "instances" with
  | none => .ok ()
  | some instances => do
    let items ← okOr instances.asArray (planFailed "plan check instances must be an array")
    ensure ((items.all passedInstance) = true)
      (planFailed "plan contains failed, errored or unresolved check instances")

/-- A deleted resource's condition the engine does not evaluate: the aggregate without instance
results, over the very resource that is deleted. -/
def skippedDeletedResource (check plan : Json) (deleted : List PlannedInstance) : Bool :=
  emptyOrAbsent check "instances" && (check.get "address").any fun address =>
    decide (address.strAt "kind" = some "resource") &&
      decide (address.strAt "mode" = some "managed") &&
      (address.strAt "to_display").any fun display =>
        (deleted.find? fun item => decide (item.address = display) &&
            decide (item.mode = "managed") && decide (item.actions = ["delete"])).any fun resource =>
          decide (address.strAt "type" = some resource.resourceType) &&
            (address.strAt "name").any fun name => name ≠ "" &&
              (plan.itemsAt "resource_changes").any fun change =>
                decide (change.strAt "address" = some display) &&
                  decide (change.strAt "name" = some name)

/-- A check that names an address names it first. -/
def noteCheckAddress (seen : List String) (check : Json) : CoreResult (List String) :=
  match (check.get "address").bind (·.get "to_display") with
  | none => .ok seen
  | some display => do
    let address ← okOr (display.asStr.filter (· ≠ "")) (planFailed "plan check address is malformed")
    ensure (address ∉ seen) (planFailed "plan contains duplicate check addresses")
    pure (address :: seen)

def admitCheckStatus (plan : Json) (deleted : List PlannedInstance) (check : Json) :
    CoreResult Unit :=
  if check.strAt "status" = some "pass" then admitPassedInstances check
  else
    ensure (check.strAt "status" = some "unknown" ∧
      skippedDeletedResource check plan deleted = true) checkFailed

def admitCheck (plan : Json) (deleted : List PlannedInstance) (seen : List String) (check : Json) :
    CoreResult (List String) := do
  let seen ← noteCheckAddress seen check
  ensure (emptyOrAbsent check "problems" = true) (planFailed "plan contains check problems")
  admitCheckStatus plan deleted check
  pure seen

def admitCheckList (plan : Json) (deleted : List PlannedInstance) :
    List String → List Json → CoreResult Unit
  | _, [] => .ok ()
  | seen, check :: rest => do
    let seen ← admitCheck plan deleted seen check
    admitCheckList plan deleted seen rest

def admitChecks (plan : Json) (deleted : List PlannedInstance) : CoreResult Unit :=
  match plan.get "checks" with
  | none => .ok ()
  | some checks => do
    let checks ← okOr checks.asArray (planFailed "plan checks must be an array")
    admitCheckList plan deleted [] checks

/-- Extracts what the policy reasons about, and no unresolved check. -/
def parsePlan (plan : Json) : CoreResult PlanAdmission := do
  let parsed ← parsePlanShape T plan
  admitChecks plan []
  pure parsed

/-- Admits a Destroy plan against the exact remaining bound state. -/
def admitDestroyPlanJson (plan : Json) (stateAddresses : List String)
    (manifestShape : List ManagedResourceRole) : CoreResult Unit := do
  let parsed ← parsePlanShape T plan
  admitDestroyPlan T parsed stateAddresses manifestShape
  admitChecks plan parsed.instances

end Template

end Shaula
