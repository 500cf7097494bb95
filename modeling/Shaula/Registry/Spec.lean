import Shaula.Library.Outcome
import Shaula.Registry.AuthContext

/-! # Fleet specifications

What an operator submits for a fleet, the template pools it may declare, and the capacity arithmetic
over it.
-/

namespace Shaula

open Library Library.Outcome

namespace Registry

/-! ## Rejections -/

/-- Reason codes of a rejected specification. -/
inductive RejectionCode where
  | specInvalid
  | targetHiddenOrNotFound
  | targetNotAllowed
  | ambiguousInstallation
  | templateNotFound
  | templateNotActive
  | templateInvalid
  | authProfileNotFound
  | accessVerificationFailed
  | internal
  deriving DecidableEq, Repr

inductive MutationError where
  | conflictingPreconditions
  | preconditionRequired
  | preconditionFailed (current : String × Int)
  | identityConflict
  | idempotencyConflict
  | legacyIdempotencyConflict
  | unprocessable (reason : RejectionCode) (summary : String)
  | notFound
  | gone (tombstone : String)
  | retirementBlocked (reason : String)
  | conflict (summary : String)
  | tooManyRequests (retryAfterSecs : Nat)
  deriving DecidableEq, Repr

/-! ## Strings -/

/-- Characters with the Unicode `White_Space` property. -/
def isWhiteSpace (c : Char) : Bool :=
  let n := c.toNat
  (0x9 ≤ n && n ≤ 0xD) || n = 0x20 || n = 0x85 || n = 0xA0 || n = 0x1680 ||
    (0x2000 ≤ n && n ≤ 0x200A) || n = 0x2028 || n = 0x2029 || n = 0x202F || n = 0x205F || n = 0x3000

/-- A string without the white space around it. -/
def trim (value : String) : String :=
  String.ofList ((value.toList.dropWhile isWhiteSpace).reverse.dropWhile isWhiteSpace).reverse

/-- The key charset shared by every request-key validator. -/
def isStableIdentifier (value : String) : Bool :=
  value ≠ "" && value.utf8ByteSize ≤ 128 &&
    value.toList.all fun c => c.isAlphanum || c = '-' || c = '_' || c = '.'

/-! ## Template pools -/

/-- A JSON object: its members in key order, each value as its text. -/
abbrev JsonMap := List (String × String)

inductive PoolFailurePolicy where
  | backpressure
  | redistribute
  deriving DecidableEq, Repr

/-- What a `template_pool` that says nothing does at a member's cap. -/
def PoolFailurePolicy.default : PoolFailurePolicy := .backpressure

structure TemplatePoolMember where
  key : String
  templateProfileRef : String
  weight : Nat
  templateInputs : JsonMap
  maxRunners : Option Int
  deriving DecidableEq, Repr

structure TemplatePoolSpec where
  members : List TemplatePoolMember
  failurePolicy : PoolFailurePolicy
  deriving DecidableEq, Repr

def specInvalid (summary : String) : MutationError := .unprocessable .specInvalid summary

/-- The checks of one member, after those of the members with keys `seen`. -/
def TemplatePoolMember.validate (seen : List String) (member : TemplatePoolMember) :
    Except MutationError Unit := do
  ensure (isStableIdentifier member.key ∧ member.key.utf8ByteSize ≤ 100 ∧ member.key ∉ seen)
    (specInvalid "template pool member keys must be unique stable identifiers")
  ensure (0 < member.weight ∧ member.weight ≤ 10000)
    (specInvalid "template pool member weight must be 1..=10000")
  ensure (¬ member.maxRunners.any (· < 0))
    (specInvalid "template pool member max_runners must be non-negative")
  ensure (member.templateProfileRef ≠ "")
    (specInvalid "template pool member template_profile_ref is required")

def validateMembers : List String → List TemplatePoolMember → Except MutationError Unit
  | _, [] => .ok ()
  | seen, member :: rest => do
    member.validate seen
    validateMembers (member.key :: seen) rest

def TemplatePoolSpec.validate (pool : TemplatePoolSpec) : Except MutationError Unit := do
  ensure (pool.members ≠ [] ∧ pool.members.length ≤ 32)
    (specInvalid "template pool must contain 1..=32 members")
  validateMembers [] pool.members

/-- A member whose template reference was resolved to an exact pin. -/
structure ResolvedTemplatePoolMember where
  key : String
  templateProfileKey : String
  templateRevision : Int
  templateArtifactDigest : String
  templateAttestationId : String
  templateInputs : JsonMap
  inputsDigest : String
  weight : Nat
  maxRunners : Option Int
  deriving DecidableEq, Repr

/-! ## Capacity -/

structure CapacityPolicy where
  minRunners : Int
  maxRunners : Int
  deriving DecidableEq, Repr

def maxCapacity : Int := 100000

def CapacityPolicy.validate (policy : CapacityPolicy) : Except MutationError Unit := do
  ensure (0 ≤ policy.minRunners ∧ 0 ≤ policy.maxRunners)
    (specInvalid "capacity values must be non-negative")
  ensure (policy.minRunners ≤ policy.maxRunners) (specInvalid "max_runners must be >= min_runners")
  ensure (policy.minRunners ≤ maxCapacity ∧ policy.maxRunners ≤ maxCapacity)
    (specInvalid "capacity values must be <= 100000")

/-! ## Fleets -/

inductive FleetProviderKind where
  | github
  | forgejo
  | gitlab
  deriving DecidableEq, Repr

/-- Pool backends pre-register runners: they have no scale-set session, auth handoff or installation
context. -/
def FleetProviderKind.isPool : FleetProviderKind → Bool
  | github => false
  | forgejo | gitlab => true

structure FleetGithubSection where
  target : GitHubTarget
  authProfileRef : String
  scaleSetName : String
  runnerGroup : String
  labels : List String
  deriving DecidableEq, Repr

/-- The section of a fleet that declares none. -/
def FleetGithubSection.placeholder : FleetGithubSection where
  target := .organization ""
  authProfileRef := ""
  scaleSetName := ""
  runnerGroup := ""
  labels := []

inductive ForgejoScope where
  | instance : ForgejoScope
  | organization (name : String)
  | user
  | repository (owner name : String)
  deriving DecidableEq, Repr

structure ForgejoTarget where
  instanceUrl : String
  scope : ForgejoScope
  deriving DecidableEq, Repr

structure FleetForgejoSection where
  target : ForgejoTarget
  authProfileRef : String
  runnerNamePrefix : String
  labels : List String
  deriving DecidableEq, Repr

inductive GitlabScope where
  | group (path : String)
  | project (path : String)
  deriving DecidableEq, Repr

structure GitlabTarget where
  instanceUrl : String
  scope : GitlabScope
  deriving DecidableEq, Repr

structure FleetGitlabSection where
  target : GitlabTarget
  authProfileRef : String
  runnerNamePrefix : String
  tags : List String
  runUntagged : Bool
  deriving DecidableEq, Repr

structure FleetSpec where
  kind : FleetProviderKind
  github : FleetGithubSection
  forgejo : Option FleetForgejoSection
  gitlab : Option FleetGitlabSection
  capacity : CapacityPolicy
  templateProfileRef : String
  /-- The inline pool. -/
  templatePool : Option TemplatePoolSpec
  /-- The key of a shared pool, as submitted. -/
  templatePoolRef : Option String
  templateInputs : JsonMap
  deriving DecidableEq, Repr

namespace FleetSpec

variable (spec : FleetSpec)

def authProfileRef : String :=
  match spec.kind with
  | .github => spec.github.authProfileRef
  | .forgejo => spec.forgejo.elim "" (·.authProfileRef)
  | .gitlab => spec.gitlab.elim "" (·.authProfileRef)

/-- The shared pool a specification names, if any. -/
def sharedPool : Option String :=
  (spec.templatePoolRef.map trim).filter (· ≠ "")

/-- Whether the fleet selects its template through a pool. -/
def usesTemplatePool : Bool :=
  spec.templatePool.isSome || spec.templatePoolRef.isSome

/-- How many of the three template sources a specification declares. -/
def templateSources : Nat :=
  [decide (spec.templateProfileRef ≠ ""), spec.sharedPool.isSome, spec.templatePool.isSome].count
    true

/-- Exactly one template source, and inputs only beside a template profile. -/
def validateTemplateSource : Except MutationError Unit := do
  ensure (spec.templateSources ≤ 1) (specInvalid
    "template_profile_ref, template_pool_ref and template_pool are mutually exclusive")
  ensure (spec.templateSources ≠ 0) (specInvalid
    "one of template_profile_ref, template_pool_ref or template_pool is required")
  spec.templatePool.elim (.ok ()) TemplatePoolSpec.validate
  ensure (¬ spec.sharedPool.any fun key => 128 < key.utf8ByteSize)
    (specInvalid "template_pool_ref must be a template pool key")
  ensure (¬ spec.usesTemplatePool ∨ spec.templateInputs = [])
    (specInvalid "template_inputs must be empty when template_pool is declared")

/-- The section of the fleet's provider is there, and no other. -/
def validateSections : Except MutationError Unit :=
  match spec.kind with
  | .github =>
    ensure (spec.forgejo.isNone ∧ spec.gitlab.isNone)
      (specInvalid "github fleets must not declare a forgejo or gitlab section")
  | .forgejo => do
    ensure (spec.github = .placeholder ∧ spec.gitlab.isNone)
      (specInvalid "forgejo fleets must not declare a github or gitlab section")
    ensure spec.forgejo.isSome (specInvalid "forgejo fleets must declare a forgejo section")
  | .gitlab => do
    ensure (spec.github = .placeholder ∧ spec.forgejo.isNone)
      (specInvalid "gitlab fleets must not declare a github or forgejo section")
    ensure spec.gitlab.isSome (specInvalid "gitlab fleets must declare a gitlab section")

/-- `validate_fleet_spec`, without the syntax checks of the provider's own fields. -/
def validate : Except MutationError Unit := do
  spec.validateTemplateSource
  spec.validateSections
  spec.capacity.validate

end FleetSpec

/-! ## What validation gives -/

theorem validateMembers_ok {seen : List String} {members : List TemplatePoolMember} {u : Unit}
    (h : validateMembers seen members = .ok u) :
    (members.map (·.key)).Nodup ∧ ∀ m ∈ members, m.key ∉ seen := by
  induction members generalizing seen with
  | nil => exact ⟨List.nodup_nil, nofun⟩
  | cons member rest ih =>
    obtain ⟨_, hmember, hrest⟩ := bind_eq_ok.mp h
    simp only [TemplatePoolMember.validate, bind_eq_ok, ensure_eq_ok] at hmember
    obtain ⟨_, ⟨-, -, hseen⟩, -⟩ := hmember
    obtain ⟨hnodup, hfresh⟩ := ih hrest
    have hhead : member.key ∉ rest.map (·.key) := by
      intro hmem
      obtain ⟨m, hm, hkey⟩ := List.mem_map.mp hmem
      exact hfresh m hm (hkey ▸ List.mem_cons_self)
    refine ⟨List.nodup_cons.mpr ⟨hhead, hnodup⟩, ?_⟩
    intro m hm
    rcases List.mem_cons.mp hm with rfl | hm
    · exact hseen
    · exact fun hmem => hfresh m hm (List.mem_cons_of_mem _ hmem)

/-- A valid pool has members, and no two of one key. -/
theorem TemplatePoolSpec.validate_ok {pool : TemplatePoolSpec} {u : Unit}
    (h : pool.validate = .ok u) : pool.members ≠ [] ∧ (pool.members.map (·.key)).Nodup := by
  simp only [TemplatePoolSpec.validate, bind_eq_ok, ensure_eq_ok] at h
  obtain ⟨_, ⟨hne, -⟩, hmembers⟩ := h
  exact ⟨hne, (validateMembers_ok hmembers).1⟩

namespace FleetSpec

variable {spec : FleetSpec} {pool : TemplatePoolSpec} {u : Unit}

/-- An inline pool of a valid specification is valid, and excludes a shared one. -/
theorem validate_templatePool (h : spec.validate = .ok u) (hpool : spec.templatePool = some pool) :
    spec.sharedPool = none ∧ pool.validate = .ok () := by
  simp only [validate, validateTemplateSource, hpool, Option.elim_some, bind_eq_ok,
    ensure_eq_ok] at h
  obtain ⟨_, ⟨_, hone, _, -, _, hvalid, -⟩, -⟩ := h
  refine ⟨?_, hvalid⟩
  cases hshared : spec.sharedPool with
  | none => rfl
  | some key =>
    rw [templateSources, hpool, hshared] at hone
    by_cases href : spec.templateProfileRef = "" <;> simp [href] at hone

/-- A valid specification has inputs of its own only without a pool. -/
theorem validate_templateInputs (h : spec.validate = .ok u) (hpool : spec.usesTemplatePool = true) :
    spec.templateInputs = [] := by
  simp only [validate, validateTemplateSource, bind_eq_ok, ensure_eq_ok] at h
  obtain ⟨_, ⟨_, -, _, -, _, -, _, -, hinputs⟩, -⟩ := h
  exact hinputs.resolve_left (not_not_intro hpool)

end FleetSpec

end Registry

end Shaula
