import Shaula.System.Run

/-! # Scripts

Serving a list of requests one after the other is a run of the system.  The platform of a script
knows the digests and serialized forms of the texts the script uses, and no others.
-/

namespace Shaula

open Core Library

/-! ## Playing a script -/

namespace System

variable (P : Platform)

/-- The state after serving the requests in order. -/
def play (σ : System) : List (Request P) → System
  | [] => σ
  | r :: rs => play (σ.serve P r) rs

/-- The steps of serving the requests in order. -/
def history (σ : System) : List (Request P) → List (System × Label P × System)
  | [] => []
  | r :: rs => (σ, .served r (σ.daemon.exec P r).2, σ.serve P r) :: (σ.serve P r).history rs

instance (σ : System) (r : Request P) : Decidable (σ.Permits P r) :=
  decidable_of_iff
    ((∀ k ∈ r.stateDraws, ∀ k' ∈ σ.stateDraws, k'.verifier P ≠ k.verifier P) ∧
      (∀ k ∈ r.controlDraws, ∀ k' ∈ σ.controlDraws, k'.verifier P ≠ k.verifier P) ∧
      ∀ access ∈ r.stateAccess, ∀ k ∈ σ.stateDraws,
        k.verifier P = access.capability.verifier P → k ∈ σ.handed)
    ⟨fun ⟨h₁, h₂, h₃⟩ => ⟨h₁, h₂, h₃⟩, fun ⟨h₁, h₂, h₃⟩ => ⟨h₁, h₂, h₃⟩⟩

/-- Every request of the script is permitted when its turn comes. -/
def Plays (σ : System) : List (Request P) → Prop
  | [] => True
  | r :: rs => σ.Permits P r ∧ (σ.serve P r).Plays rs

instance decidablePlays (σ : System) : (rs : List (Request P)) → Decidable (σ.Plays P rs)
  | [] => isTrue trivial
  | r :: rs => @instDecidableAnd _ _ _ (decidablePlays (σ.serve P r) rs)

variable {P}

theorem Plays.run {σ : System} {rs : List (Request P)} (h : σ.Plays P rs) :
    Run (Step P) σ (σ.history P rs) (σ.play P rs) := by
  induction rs generalizing σ with
  | nil => exact .nil σ
  | cons r rs ih => exact .cons (.served σ r h.1) (ih h.2)

theorem Plays.reached {createLimit : Nat} {rs : List (Request P)}
    (h : (initial createLimit).Plays P rs) : Reached P ((initial createLimit).play P rs) :=
  ⟨_, _, ⟨createLimit, rfl⟩, h.run⟩

end System

/-! ## A platform given by tables -/

/-- The texts a platform knows. -/
structure PlatformTable where
  digests : List (Bytes × Bytes)
  headers : List (Bytes × Header)
  locks : List (Bytes × WireLock)
  identities : List (String × Identity)

def PlatformTable.lookup {κ ρ : Type} [DecidableEq κ] (entries : List (κ × ρ)) (k : κ) :
    Option ρ :=
  (entries.find? fun e => e.1 = k).map Prod.snd

/-- Unknown texts have no reading and the digest zero. -/
def PlatformTable.platform (t : PlatformTable) : Platform where
  sha256 bytes := (lookup t.digests bytes).getD (List.replicate 32 0)
  readHeader := lookup t.headers
  readWireLock := lookup t.locks
  writeWireLock wire := ((t.locks.find? fun e => e.2 = wire).map Prod.fst).getD []
  readIdentity := lookup t.identities
  readManifest _ := none
  legacyJson _ := []
  contentJson _ _ _ := []

/-! ## One generation -/

namespace Script

/-- A big-endian 256-bit digest. -/
def digest (n : Nat) : Bytes := (List.range 32).map fun i => UInt8.ofNat (n / 256 ^ (31 - i))

def generation : Uuid := ⟨1⟩

def lineage : Uuid := ⟨7⟩

/-- Two admissions: the first worker's and its replacement's. -/
def firstDraw : Draw where
  workerAttempt := ⟨11⟩
  control := ⟨"sc1_1111111111111111111111111111111111111111111111111111111111111111", by decide⟩
  state := ⟨"ss1_1111111111111111111111111111111111111111111111111111111111111111", by decide⟩

def secondDraw : Draw where
  workerAttempt := ⟨12⟩
  control := ⟨"sc1_2222222222222222222222222222222222222222222222222222222222222222", by decide⟩
  state := ⟨"ss1_2222222222222222222222222222222222222222222222222222222222222222", by decide⟩

def createdText : Bytes :=
  utf8 ("\x7b\"version\":4,\"lineage\":\"00000000-0000-0000-0000-000000000007\"," ++
    "\"serial\":1,\"outputs\":\x7b\x7d,\"resources\":[\x7b\"mode\":\"managed\"," ++
    "\"type\":\"vm\",\"name\":\"runner\",\"provider\":\"p\",\"instances\":[\x7b\x7d]\x7d]\x7d")

def removedText : Bytes :=
  utf8 ("\x7b\"version\":4,\"lineage\":\"00000000-0000-0000-0000-000000000007\"," ++
    "\"serial\":2,\"outputs\":\x7b\x7d,\"resources\":[]\x7d")

def header (serial : Int) (resources : List Resource) : Header where
  version := 4
  lineage := "00000000-0000-0000-0000-000000000007"
  serial := serial
  resources := resources
  outputs := []

def runner : Resource where
  mode := "managed"
  resourceType := "vm"
  name := "runner"
  provider := "p"
  instances := 1

def wireLock : WireLock where
  id := "lock-1"
  operation := "OperationTypeApply"
  info := ""
  who := "worker"
  version := "1.9.0"
  created := ""
  path := ""

def wireLockText : Bytes :=
  utf8 ("\x7b\"ID\":\"lock-1\",\"Operation\":\"OperationTypeApply\",\"Info\":\"\"," ++
    "\"Who\":\"worker\",\"Version\":\"1.9.0\",\"Created\":\"\",\"Path\":\"\"\x7d")

def input : Bytes := utf8 "\x7b\x7d"

def platform : Platform := PlatformTable.platform
  { digests :=
      [(utf8 "shaula-control-capability-v1" ++ [0] ++ utf8 firstDraw.control.expose,
          digest 0x2fc8a5e45c5e6c2d926d8ce29997fb5b2158b8df56228636909226a5e2327588),
        (utf8 "shaula-control-capability-v1" ++ [0] ++ utf8 secondDraw.control.expose,
          digest 0xd23fbc6877c66dbe86b93bd5e6ec715c752acfcf9c4618307a5e56fbe83abc57),
        (utf8 "shaula-state-capability-v1" ++ [0] ++ utf8 firstDraw.state.expose,
          digest 0x83eefa758067943898d6ce5357d50382b9cb5e95751e1a8f6bd16d7c8941c1e4),
        (utf8 "shaula-state-capability-v1" ++ [0] ++ utf8 secondDraw.state.expose,
          digest 0x18029a8e819e4158bbbada571a8f6b22b1e133b763d91d716318fef210c11abd),
        (input, digest 0x44136fa355b3678a1146ad16f7e8649e94fb4fc21fe77e8310c060f61caaff8a)]
    headers :=
      [(freshDocument lineage, header 0 []), (createdText, header 1 [runner]),
        (removedText, header 2 [])]
    locks := [(wireLockText, wireLock)]
    identities := [] }

def created : StateDocument platform where
  bytes := createdText
  header := header 1 [runner]
  reads := by decide +kernel
  valid := by decide +kernel
  bounded := by decide +kernel

def removed : StateDocument platform where
  bytes := removedText
  header := header 2 []
  reads := by decide +kernel
  valid := by decide +kernel
  bounded := by decide +kernel

def lockInfo : LockInfo := ⟨wireLock, by decide⟩

def fleet : FleetRow where
  incarnation := "first"
  desiredRevision := 1
  mutationFence := 0
  deletionMarker := false
  tombstone := false

def record : GenerationRecord where
  id := generation
  fleetKey := "fleet"
  runnerName := "runner-1"
  generationName := "generation-1"
  fleetRevision := 1
  templateProfileKey := "profile"
  templateRevision := 1
  templateArtifactDigest := "artifact"
  attestationId := "attestation"
  inputsDigest := "inputs"
  state := .createPending
  githubRunnerId := none
  poolMemberKey := none
  workspacePath := "/workspaces/1"
  createdAt := 100
  updatedAt := 100

def stateAccess : StateAccess := ⟨generation, firstDraw.state⟩

def guard : FleetRuntimeGuard := ⟨"first", 1, 0⟩

/-- The generation is admitted with its first worker, which takes its credentials. -/
def admitted : List (Request platform) :=
  [.fleetChanged "fleet" fleet, .activate,
    .generationInsertGuarded record guard (some ⟨firstDraw, lineage⟩), .takeAdmission generation]

def firstClaim : StateClaim := ⟨generation, 1, firstDraw.workerAttempt⟩

def firstAccess : ControlAccess := ⟨firstClaim, firstDraw.control⟩

/-- The facts recovery lists about the first worker before its launch. -/
def firstRecord : RecoveryRecord where
  generationId := generation
  workerEpoch := 1
  workerAttempt := firstDraw.workerAttempt
  phase := .admitted
  processIdentity := none
  workspacePath := "/workspaces/1"
  createStarted := false
  hasInput := false

/-- The provenance of a Create apply of `attempt`. -/
def createProof (attempt : String) : PlanProvenance where
  intent := .create
  savedPlanDigest := "plan"
  engineKind := "terraform"
  engineVersion := "1.9.0"
  engineBinaryDigest := "engine"
  artifactDigest := "artifact"
  templateMaterialDigest := "material"
  protectedInputDigest := "sha256:44136fa355b3678a1146ad16f7e8649e94fb4fc21fe77e8310c060f61caaff8a"
  stateLineage := .empty
  generationId := generation
  attemptId := attempt

def process : ProcessIdentity := ⟨"boot", 42, "start", "scope", none⟩

/-- The first worker launches and registers. -/
def launched : List (Request platform) :=
  admitted ++ [.launchPending firstAccess, .register firstAccess process]

/-- The first worker keeps its input and starts the Create. -/
def createdOnce : List (Request platform) :=
  launched ++ [.retainInput firstAccess input,
    .recordApplyStarting (createProof "attempt-1") "plan" 200]

/-- A generation without a worker starts its Create, and starts it again. -/
def createdTwice : List (Request platform) :=
  [.fleetChanged "fleet" fleet, .generationInsert record,
    .recordApplyStarting (createProof "attempt-1") "plan" 200,
    .recordApplyStarting (createProof "attempt-2") "plan" 300]

/-- The first worker proves its untouched state clean. -/
def proved : List (Request platform) :=
  launched ++ [.verifyCleanup firstAccess]

/-- The generation is taken to its destruction. -/
def destroying : List (Request platform) :=
  [.generationAdvance generation .creating ⟨90⟩ 200,
    .generationAdvance generation .cleanupRequired ⟨91⟩ 210,
    .generationAdvance generation .retiring ⟨92⟩ 220,
    .generationAdvance generation .destroyPending ⟨93⟩ 230,
    .generationAdvance generation .destroying ⟨94⟩ 240]

/-- A starting Create is noted behind the proof, and the generation goes down. -/
def notedBehindProof : List (Request platform) :=
  proved ++ .noteCreateStarting firstClaim :: destroying

/-- The generation's runner is registered and waits to come online. -/
def waiting : List (Request platform) :=
  admitted ++ [.generationAdvance generation .creating ⟨90⟩ 200,
    .generationAdvance generation .waitingOnline ⟨91⟩ 210,
    .generationSetJit generation "Requested" (some 5) 220]

/-- The runner is seen to have started a job. -/
def busy : Request platform :=
  .listenerActivity "fleet" [⟨5, "runner-1"⟩] [] 300

def complete (kind : CompletionKind) : Request platform :=
  .completeWorker firstAccess ⟨99⟩ 1 kind 300

/-- A generation that never started anything is completed. -/
def completed : List (Request platform) :=
  admitted ++ destroying ++ [complete .neverStarted]

/-- The backend of a quarantined generation is sealed, and nothing more. -/
def sealedOnly : List (Request platform) :=
  admitted ++ [.noteCreateStarting firstClaim,
    .generationAdvance generation .quarantined ⟨90⟩ 200, .sealBackend firstClaim 1]

def replaceFirst : Request platform := .recoverWorker firstRecord .fenced false secondDraw

end Script

end Shaula
