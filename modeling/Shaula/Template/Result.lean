import Shaula.Template.Manifest
import Mathlib.Data.List.Nodup
import Mathlib.Data.List.Perm.Subperm

/-! # Result envelopes

The fixed, provider-neutral output of an apply, and its check against what was asked for.  An entry
names the role it fills; neither its platform type nor its identity is interpreted.
-/

namespace Shaula

open Library Library.Outcome

namespace Template

/-- One managed resource echo of a result. -/
structure ResultResource where
  role : String
  id : String
  incarnation : Option String
  deriving DecidableEq, Repr

structure ShaulaResultEnvelope where
  contractVersion : Nat
  generationId : String
  bindingsDigest : String
  resources : List ResultResource
  deriving DecidableEq, Repr

def resultContractVersion : Nat := 1
def maxOpaqueIdLen : Nat := 512

def executionFailed (message : String) : CoreError := ⟨.templateExecutionFailed, message⟩

/-- The checks of one entry. -/
def ResultResource.validate (expectedShape : List ManagedResourceRole)
    (resource : ResultResource) : CoreResult Unit := do
  ensure (resource.id ≠ "" ∧ resource.id.utf8ByteSize ≤ maxOpaqueIdLen)
    (executionFailed "shaula_result resource id out of bounds")
  ensure (∃ shape ∈ expectedShape, shape.role = resource.role)
    (executionFailed "shaula_result unexpected resource role")
  ensure (∀ incarnation ∈ resource.incarnation, incarnation.utf8ByteSize ≤ maxOpaqueIdLen)
    (executionFailed "shaula_result incarnation out of bounds")

namespace ShaulaResultEnvelope

/-- How many entries fill a role. -/
def countOf (envelope : ShaulaResultEnvelope) (role : String) : Nat :=
  (envelope.resources.filter fun resource => resource.role = role).length

/-- Verifies contract version, echoed generation id, exact bindings digest, declared roles and
bounded sizes. -/
def validateAgainst (envelope : ShaulaResultEnvelope) (expectedGenerationId expectedBindings : String)
    (expectedShape : List ManagedResourceRole) : CoreResult Unit := do
  ensure (envelope.contractVersion = resultContractVersion)
    (executionFailed "unsupported shaula_result contract version")
  ensure (envelope.generationId = expectedGenerationId)
    (executionFailed "shaula_result generation id mismatch")
  ensure (envelope.bindingsDigest = expectedBindings)
    (executionFailed "shaula_result bindings_digest mismatch")
  ensure (envelope.resources.length = expectedShape.length)
    (executionFailed "shaula_result resource cardinality mismatch")
  envelope.resources.forM (ResultResource.validate expectedShape)
  expectedShape.forM fun shape =>
    ensure (envelope.countOf shape.role = shape.exactCount)
      (executionFailed "shaula_result role cardinality mismatch")

/-! ## What is accepted -/

/-- The envelope answers the apply it was asked for. -/
structure Echoes (envelope : ShaulaResultEnvelope) (generationId bindings : String) : Prop where
  version : envelope.contractVersion = resultContractVersion
  generation : envelope.generationId = generationId
  digest : envelope.bindingsDigest = bindings

/-- Every identity is present and of bounded size. -/
def Bounded (envelope : ShaulaResultEnvelope) : Prop :=
  ∀ resource ∈ envelope.resources, resource.id ≠ "" ∧
    resource.id.utf8ByteSize ≤ maxOpaqueIdLen ∧
    ∀ incarnation ∈ resource.incarnation, incarnation.utf8ByteSize ≤ maxOpaqueIdLen

/-- Every role is filled exactly as often as it is declared, and there is nothing else. -/
structure FillsShape (envelope : ShaulaResultEnvelope) (shape : List ManagedResourceRole) :
    Prop where
  counts : ∀ role ∈ shape, envelope.countOf role.role = role.exactCount
  declared : ∀ resource ∈ envelope.resources, ∃ role ∈ shape, role.role = resource.role

variable {envelope : ShaulaResultEnvelope} {generationId bindings : String}
  {shape : List ManagedResourceRole}

theorem validateAgainst_eq_ok :
    envelope.validateAgainst generationId bindings shape = .ok () ↔
      envelope.Echoes generationId bindings ∧ envelope.Bounded ∧ envelope.FillsShape shape ∧
        envelope.resources.length = shape.length := by
  simp only [validateAgainst, ResultResource.validate, bind_eq_ok, ensure_eq_ok, forM_eq_ok,
    exists_and_left, exists_const]
  constructor
  · rintro ⟨hversion, hgeneration, hdigest, hlength, hresources, hcounts⟩
    refine ⟨⟨hversion, hgeneration, hdigest⟩, ?_, ⟨hcounts, ?_⟩, hlength⟩
    · intro resource hresource
      obtain ⟨⟨hid, hsize⟩, -, hincarnation⟩ := hresources resource hresource
      exact ⟨hid, hsize, hincarnation⟩
    · intro resource hresource
      exact (hresources resource hresource).2.1
  · rintro ⟨⟨hversion, hgeneration, hdigest⟩, hbounded, ⟨hcounts, hdeclared⟩, hlength⟩
    refine ⟨hversion, hgeneration, hdigest, hlength, ?_, hcounts⟩
    intro resource hresource
    obtain ⟨hid, hsize, hincarnation⟩ := hbounded resource hresource
    exact ⟨⟨hid, hsize⟩, hdeclared resource hresource, hincarnation⟩

/-- Entries that fill every role once are as many as the roles. -/
theorem length_eq_of_fills (hdistinct : (shape.map (·.role)).Nodup)
    (hfills : envelope.FillsShape shape) (hones : ∀ role ∈ shape, role.exactCount = 1) :
    envelope.resources.length = shape.length := by
  have hperm : (envelope.resources.map (·.role)).Perm (shape.map (·.role)) := by
    rw [List.perm_iff_count]
    intro name
    have hcount : (envelope.resources.map (·.role)).count name = envelope.countOf name := by
      rw [List.count, List.countP_map, countOf, List.countP_eq_length_filter]
      rfl
    rw [hcount]
    by_cases hname : name ∈ shape.map (·.role)
    · obtain ⟨role, hrole, rfl⟩ := List.mem_map.mp hname
      rw [hfills.counts role hrole, hones role hrole,
        List.count_eq_one_of_mem hdistinct (List.mem_map_of_mem hrole)]
    · rw [List.count_eq_zero.mpr hname, countOf, List.length_eq_zero_iff, List.filter_eq_nil_iff]
      intro resource hresource heq
      obtain ⟨role, hrole, hsame⟩ := hfills.declared resource hresource
      rw [decide_eq_true_eq] at heq
      exact hname (heq ▸ hsame ▸ List.mem_map_of_mem hrole)
  have hlength := hperm.length_eq
  rwa [List.length_map, List.length_map] at hlength

/-- No result is accepted for a shape with a role to be filled more than once: the number of entries
is compared with the number of roles. -/
theorem validateAgainst_repeated_role (hdistinct : (shape.map (·.role)).Nodup)
    (hpositive : ∀ role ∈ shape, role.exactCount ≠ 0) {role : ManagedResourceRole}
    (hrole : role ∈ shape) (hrepeated : 2 ≤ role.exactCount) :
    envelope.validateAgainst generationId bindings shape ≠ .ok () := by
  intro hok
  obtain ⟨-, -, hfills, hlength⟩ := validateAgainst_eq_ok.mp hok
  have hcount : ∀ name, (envelope.resources.map (·.role)).count name = envelope.countOf name := by
    intro name
    rw [List.count, List.countP_map, countOf, List.countP_eq_length_filter]
    rfl
  have hsubset : shape.map (·.role) ⊆ envelope.resources.map (·.role) := by
    intro name hname
    obtain ⟨other, hother, rfl⟩ := List.mem_map.mp hname
    rw [← List.count_pos_iff, hcount, hfills.counts other hother]
    exact Nat.pos_of_ne_zero (hpositive other hother)
  have hperm : (shape.map (·.role)).Perm (envelope.resources.map (·.role)) := by
    apply (hdistinct.subperm hsubset).perm_of_length_le
    rw [List.length_map, List.length_map]
    exact Nat.le_of_eq hlength
  have hone := hperm.count_eq role.role
  rw [List.count_eq_one_of_mem hdistinct (List.mem_map_of_mem hrole), hcount,
    hfills.counts role hrole] at hone
  omega

/-! ## The declared shape -/

/-- **Acceptance.**  What is accepted for a valid manifest answers the apply, has bounded identities
and fills the shape exactly; when every role is declared once, every such envelope is accepted. -/
theorem accepts_declared_shape (C : Crates) (manifest : ProfileManifest)
    (hvalid : manifest.validate C = .ok ()) (envelope : ShaulaResultEnvelope)
    (generationId bindings : String) :
    (envelope.validateAgainst generationId bindings manifest.managedResourceShape = .ok () →
      envelope.Echoes generationId bindings ∧ envelope.Bounded ∧
        envelope.FillsShape manifest.managedResourceShape) ∧
    ((∀ role ∈ manifest.managedResourceShape, role.exactCount = 1) →
      envelope.Echoes generationId bindings → envelope.Bounded →
      envelope.FillsShape manifest.managedResourceShape →
        envelope.validateAgainst generationId bindings manifest.managedResourceShape = .ok ()) := by
  have hshape := ProfileManifest.validShape_of_validate hvalid
  constructor
  · intro hok
    obtain ⟨hechoes, hbounded, hfills, -⟩ := validateAgainst_eq_ok.mp hok
    exact ⟨hechoes, hbounded, hfills⟩
  · intro hones hechoes hbounded hfills
    rw [validateAgainst_eq_ok]
    exact ⟨hechoes, hbounded, hfills, length_eq_of_fills hshape.distinct hfills hones⟩

end ShaulaResultEnvelope

/-- Readers that know no version and no URL. -/
def noCrates : Crates := ⟨fun _ => none, fun _ => none, Quoting.asciiTables⟩

/-- A template for virtual machines with the given shape. -/
def vmManifest (shape : List ManagedResourceRole) : ProfileManifest where
  apiVersion := manifestApiVersion
  kind := manifestKind
  platform := "proxmox"
  runnerBackend := "github"
  runnerBackends := []
  runtime := ⟨supportedProtocol, supportedEngine, ".", ">= 1.9, < 2.0"⟩
  bindingsContract := "shaula.bindings.proxmox/v1"
  managedResourceShape := shape
  runnerImageDigests := []
  runtimePolicyDigest := "sha256:policy"
  inputContractVersion := 1
  setupInfoContract := none
  containerBootstrapContract := none
  vmImageContract := some "shaula.proxmox-template/v1"
  forgejoVmBootstrapContract := none
  gitlabVmBootstrapContract := none

def vmRole (role : String) (count : Nat) : ManagedResourceRole :=
  ⟨⟨"proxmox_virtual_environment_vm", count⟩, role⟩

def resultOf (resources : List ResultResource) : ShaulaResultEnvelope :=
  ⟨resultContractVersion, "g", "bd1_00", resources⟩

/-- A runner's virtual machine, echoed. -/
theorem accepts_declared_shape_sample :
    (resultOf [⟨"runner", "100", none⟩]).validateAgainst "g" "bd1_00" [vmRole "runner" 1] =
      .ok () :=
  (ShaulaResultEnvelope.accepts_declared_shape noCrates (vmManifest [vmRole "runner" 1])
    (by decide +kernel) (resultOf [⟨"runner", "100", none⟩]) "g" "bd1_00").2
    (by decide) ⟨rfl, rfl, rfl⟩ (by unfold ShaulaResultEnvelope.Bounded; decide)
    ⟨by decide, by decide⟩

/-- Two roles that echo one identity, and so the same machine, are accepted; an entry without an
identity is refused. -/
theorem declared_counts_not_decisive :
    ((vmManifest [vmRole "runner" 1, vmRole "disk" 1]).validate noCrates = .ok () ∧
      (resultOf [⟨"runner", "100", none⟩, ⟨"disk", "100", none⟩]).validateAgainst "g" "bd1_00"
        [vmRole "runner" 1, vmRole "disk" 1] = .ok ()) ∧
    (resultOf [⟨"runner", "", none⟩]).validateAgainst "g" "bd1_00" [vmRole "runner" 1] ≠
      .ok () := by
  decide +kernel

end Template

end Shaula
