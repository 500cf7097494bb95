import Shaula.Template.PlanDocument
import Mathlib.Data.List.Nodup

/-! # Soundness of Destroy admission

What an admitted Destroy document says about the resources it deletes and the ones it omits.  Members
the reader looks for under another kind are read as absent, so the document has to be readable.
-/

namespace Shaula

open Library Library.Outcome

namespace Template

variable {plan change root : Json} {stateAddresses : List String}
  {shape : List ManagedResourceRole} {item : PlannedInstance} {parsed : PlanAdmission}

/-! ## Readable documents -/

/-- A member is absent, `null`, or of the kind it is read as. -/
def ReadAs (expected : Json → Prop) (value : Json) (key : String) : Prop :=
  ∀ member, value.get key = some member → member = .null ∨ expected member

abbrev ReadAsArray : Json → String → Prop := ReadAs fun member => ∃ items, member = .array items
abbrev ReadAsString : Json → String → Prop := ReadAs fun member => ∃ text, member = .string text
abbrev ReadAsObject : Json → String → Prop := ReadAs fun member => member.isObject = true

/-- A snapshot entry that says whether it is managed, and if so where. -/
def ReadableResource (resource : Json) : Prop :=
  ∃ mode, resource.strAt "mode" = some mode ∧
    (mode = "managed" → ∃ address, resource.strAt "address" = some address)

/-- A snapshot module whose resources are all read, in the modules below it too. -/
inductive ReadableModule : Json → Prop where
  | absent : ReadableModule .null
  | present {root : Json} (object : root.isObject = true) (resources : ReadAsArray root "resources")
      (entries : ∀ resource ∈ root.itemsAt "resources", ReadableResource resource)
      (children : ReadAsArray root "child_modules")
      (below : ∀ child ∈ root.itemsAt "child_modules", ReadableModule child) : ReadableModule root

/-- The managed entries of `resource_changes`. -/
def managedChanges (plan : Json) : List Json :=
  (plan.itemsAt "resource_changes").filter fun change => change.strAt "mode" = some "managed"

/-- Every part of the document that could carry a change has the kind it is read as. -/
structure Readable (plan : Json) : Prop where
  changes : ReadAsArray plan "resource_changes"
  deferred : ReadAsArray plan "deferred_changes"
  moves : ∀ change ∈ managedChanges plan, ReadAsString change "previous_address"
  reasons : ∀ change ∈ managedChanges plan, ∀ changeObj,
    change.get "change" = some changeObj → ReadAsString changeObj "action_reason"
  prior : ReadAsObject plan "prior_state"
  values : ∀ prior, plan.get "prior_state" = some prior → ReadAsObject prior "values"
  snapshot : ∀ root, priorRoot plan = some root → ReadableModule root

/-! ## Sound admissions -/

/-- A snapshot lists a managed resource at an address. -/
inductive Lists : Json → String → Prop where
  | here {root resource : Json} {address : String}
      (resource_mem : resource ∈ root.itemsAt "resources")
      (managed : resource.strAt "mode" = some "managed")
      (listed : resource.strAt "address" = some address) : Lists root address
  | inChild {root child : Json} {address : String}
      (child_mem : child ∈ root.itemsAt "child_modules") (listed : Lists child address) :
      Lists root address

/-- A listed resource is collected. -/
theorem Lists.collected {address : String} (h : Lists root address) :
    address ∈ collectManagedAddresses root := by
  induction h with
  | @here root resource address hmem hmanaged hlisted =>
    rw [collectManagedAddresses, List.mem_append]
    refine .inl (List.mem_filterMap.mpr ⟨resource, hmem, ?_⟩)
    rw [managedAddress, if_pos hmanaged, hlisted]
    rfl
  | @inChild root child address hmem _ ih =>
    rw [collectManagedAddresses, List.mem_append]
    exact .inr (List.mem_flatMap.mpr ⟨⟨child, hmem⟩, List.mem_attach _ _, ih⟩)

/-! ## Checks -/

/-- A plan over one runner, with what it says of changes and of the prior state. -/
def runnerPlan (resourceChanges priorState : Json) : Json :=
  .object [("applyable", .bool true), ("complete", .bool true), ("errored", .bool false),
    ("format_version", .string "1.2"), ("prior_state", priorState),
    ("resource_changes", resourceChanges)]

/-- The deletion of a runner, with what it says of its previous address. -/
def runnerDeletion (previousAddress : Json) : Json :=
  .object [("address", .string "vm.runner"), ("mode", .string "managed"),
    ("type", .string "proxmox_virtual_environment_vm"), ("previous_address", previousAddress),
    ("change", .object [("actions", .array [.string "delete"])])]

end Template

end Shaula
