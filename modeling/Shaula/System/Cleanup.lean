import Shaula.System.Terminal
import Shaula.System.Script

/-! # Cleanup proofs

A worker's cleanup proof is the revision at which its state held no managed resource.  Most writers
keep it exact or clear it.  Two do not: noting a starting Create behind a proof taken before it, and
replacing the Create result that a proof relied on.  Without those two a current proof is true.
-/

namespace Shaula

open Core Library

variable {P : Platform} {id : Uuid}

/-! ## What a proof says -/

/-- The stored document holds no managed resource and, after a Create, resources had been seen and
the retained Create identity matches. -/
def Proved (P : Platform) (g? : Option GenerationRow) (c : StateColumns) (w : WorkerColumns) :
    Prop :=
  ∃ document : StateDocument P, c.Stores document ∧ document.managedEmpty = true ∧
    (c.createStarted = true → w.resourceStateSeen = true ∧
      ∃ g, g? = some g ∧ CreateProof.Matched P g document)

/-- A proof at the current revision is true, and no proof is ahead of the revision. -/
structure CleanupSound (P : Platform) (g? : Option GenerationRow) (c : StateColumns)
    (w : WorkerColumns) : Prop where
  bound : ∀ n, w.cleanupRevision = some n → n ≤ c.revision
  current : w.cleanupRevision = some c.revision → Proved P g? c w

/-- The rows of a generation carry no stale proof; a worker always has its state row. -/
def View.CleanupSound (P : Platform) (v : View) : Prop :=
  ∀ w, v.worker = some w → ∃ c, v.state = some c ∧ Shaula.CleanupSound P v.generation c w

theorem CreateProof.Anchored.matched {state d : StateDocument P} {g g' : GenerationRow}
    (h : Anchored state g g') (hmatched : Matched P g d) : Matched P g' d := by
  cases h with
  | kept => exact hmatched
  | anchored hresult hfailed =>
    -- Without any retained identity nothing matched.
    rcases hmatched with h' | h'
    · simp [resultIdentity, hresult, matchesIdentity] at h'
    · simp [hfailed, matchesIdentity] at h'

namespace CleanupSound

variable {g? g?' : Option GenerationRow} {c c' : StateColumns} {w w' : WorkerColumns}

/-- Without a proof there is nothing to go stale. -/
theorem of_none (h : w.cleanupRevision = none) : CleanupSound P g? c w :=
  ⟨by simp [h], by simp [h]⟩

/-- A proof stays sound while the document and the facts about its Create stay. -/
theorem transfer (h : CleanupSound P g? c w) (hrevision : c'.revision = c.revision)
    (hstores : ∀ d : StateDocument P, c.Stores d → c'.Stores d)
    (hstarted : c'.createStarted = c.createStarted)
    (hproof : w'.cleanupRevision = w.cleanupRevision)
    (hseen : w'.resourceStateSeen = w.resourceStateSeen)
    (hmatched : ∀ g (d : StateDocument P), g? = some g → CreateProof.Matched P g d →
      ∃ g', g?' = some g' ∧ CreateProof.Matched P g' d) : CleanupSound P g?' c' w' := by
  refine ⟨fun n hn => ?_, fun hn => ?_⟩
  · rw [hrevision]
    exact h.bound n (hproof ▸ hn)
  · rw [hproof, hrevision] at hn
    obtain ⟨document, hdocument, hempty, hcreate⟩ := h.current hn
    refine ⟨document, hstores document hdocument, hempty, fun hbegun => ?_⟩
    obtain ⟨hwas, g, hg, hold⟩ := hcreate (hstarted ▸ hbegun)
    exact ⟨hseen.trans hwas, hmatched g document hg hold⟩

/-- A change of the worker alone that leaves the proof and what was seen. -/
theorem worker (h : CleanupSound P g? c w) (hproof : w'.cleanupRevision = w.cleanupRevision)
    (hseen : w'.resourceStateSeen = w.resourceStateSeen) : CleanupSound P g? c w' :=
  h.transfer rfl (fun _ hd => hd) rfl hproof hseen fun g _ hg hm => ⟨g, hg, hm⟩

/-- A change of the state row's flags or lock alone, with no Create started by it. -/
theorem state (h : CleanupSound P g? c w) (hrevision : c'.revision = c.revision)
    (hbytes : c'.stateBytes = c.stateBytes) (hlineage : c'.lineage = c.lineage)
    (hserial : c'.serial = c.serial) (hstarted : c'.createStarted = c.createStarted) :
    CleanupSound P g? c' w := by
  refine h.transfer hrevision (fun d hd => ?_) hstarted rfl rfl fun g _ hg hm => ⟨g, hg, hm⟩
  exact ⟨hbytes.trans hd.bytes, hrevision ▸ hd.revision_pos, hlineage.trans hd.lineage,
    hserial.trans hd.serial⟩

/-- A change of the ledger row that keeps both retained Create identities. -/
theorem generation {g g' : GenerationRow} (h : CleanupSound P (some g) c w)
    (hresult : g'.shaulaResultJson = g.shaulaResultJson)
    (hfailed : g'.failedCreateIdentity = g.failedCreateIdentity) :
    CleanupSound P (some g') c w := by
  refine h.transfer rfl (fun _ hd => hd) rfl rfl rfl fun g₀ d hg hm => ⟨g', rfl, ?_⟩
  cases hg
  simpa only [CreateProof.Matched, CreateProof.resultIdentity, hresult, hfailed] using hm

end CleanupSound

/-! ## Careful requests -/

/-- The request does not make a current proof of generation `id` stale: no starting Create is noted
behind a proof that does not account for it, and no Create result replaces one a proof relied on. -/
def Request.Careful (P : Platform) (id : Uuid) (v : View) : Request P → Prop
  | noteCreateStarting claim => claim.generationId = id →
    ∀ c w, v.state = some c → v.worker = some w → w.cleanupRevision = some c.revision →
      c.Owns claim → c.sealed = false → c.revoked = false → c.createStarted = false →
      w.resourceStateSeen = true ∧ ∃ g, v.generation = some g ∧
        ∀ document : StateDocument P, c.Stores document → CreateProof.Matched P g document
  | generationSetResult generation resultJson _ _ => generation = id →
    ∀ c w g, v.state = some c → v.worker = some w → v.generation = some g →
      w.cleanupRevision = some c.revision → c.createStarted = true →
      ∀ document : StateDocument P, c.Stores document →
        CreateProof.Matched P { g with shaulaResultJson := some resultJson } document
  | _ => True

/-- A careful change leaves no stale proof behind. -/
theorem Change.cleanupSound {r : Request P} {v v' : View} (h : Change P id r v v')
    (hv : v.CleanupSound P) (hcareful : r.Careful P id v) : v'.CleanupSound P := by
  intro w' hw'
  cases h with
  | same => exact hv w' hw'
  | locked _ hgranted | unlocked _ hgranted =>
    obtain ⟨c, hc, hsound⟩ := hv w' hw'
    cases Option.some.inj (hgranted.state.symm.trans hc)
    exact ⟨_, rfl, hsound.state rfl rfl rfl rfl rfl⟩
  | @written access lockId document _ c _ hgranted =>
    -- Every proof is behind the new revision.
    obtain ⟨w, hw, rfl⟩ := Option.map_eq_some_iff.mp hw'
    obtain ⟨c₀, hc₀, hsound⟩ := hv w hw
    cases Option.some.inj (hgranted.state.symm.trans hc₀)
    have hproof : (w.noteSeen document).cleanupRevision = w.cleanupRevision := by
      unfold WorkerColumns.noteSeen
      split <;> rfl
    have hrevision : (c.stored document).revision = c.revision + 1 := rfl
    refine ⟨_, rfl, fun n hn => ?_, fun hn => ?_⟩
    · have := hsound.bound n (hproof ▸ hn)
      omega
    · have := hsound.bound _ (hproof ▸ hn)
      omega
  | inserted _ _ hnone =>
    obtain ⟨c, hc, -⟩ := hv w' hw'
    cases hnone.symm.trans hc
  | revoked _ hstate | sealed _ hstate =>
    obtain ⟨c, hc, hsound⟩ := hv w' hw'
    cases Option.some.inj (hstate.symm.trans hc)
    exact ⟨_, rfl, hsound.state rfl rfl rfl rfl rfl⟩
  | @createNoted claim _ c document hid hstate howns hunsealed hunrevoked hfresh =>
    obtain ⟨c₀, hc₀, hsound⟩ := hv w' hw'
    cases Option.some.inj (hstate.symm.trans hc₀)
    refine ⟨_, rfl, hsound.bound, fun hn => ?_⟩
    obtain ⟨document', hdocument, hempty, -⟩ := hsound.current hn
    obtain ⟨hseen, g, hg, hmatched⟩ := hcareful hid c w' hstate hw' hn howns hunsealed
      hunrevoked hfresh
    exact ⟨document', ⟨hdocument.bytes, hdocument.revision_pos, hdocument.lineage,
      hdocument.serial⟩, hempty, fun _ => ⟨hseen, g, hg, hmatched document' hdocument⟩⟩
  | generationInserted _ _ hnone =>
    obtain ⟨c, hc, hsound⟩ := hv w' hw'
    refine ⟨c, hc, hsound.transfer rfl (fun _ hd => hd) rfl rfl rfl fun g _ hg _ => ?_⟩
    cases hnone.symm.trans hg
  | admitted =>
    cases hw'
    exact ⟨_, rfl, .of_none rfl⟩
  | launchPending _ hl | registered _ hl | inputRetained _ hl | spawnAcked _ hl
  | commandEnded _ hl | workerFenced _ hl =>
    cases hw'
    obtain ⟨c, hc, hsound⟩ := hv _ hl.worker
    exact ⟨c, hc, hsound.worker rfl rfl⟩
  | cleanupVerified _ hl _ _ _ hstores hempty hcreate =>
    cases hw'
    refine ⟨_, hl.state, fun n hn => ?_, fun _ => ⟨_, hstores, hempty, fun hbegun => ?_⟩⟩
    · exact Int.le_of_eq (Option.some.inj hn).symm
    · obtain ⟨hmatched, hseen⟩ := hcreate hbegun
      exact ⟨hseen, _, hl.generation, hmatched⟩
  | reaped _ hworker | bootstrapStarted _ hworker | released _ _ _ hworker =>
    cases hw'
    obtain ⟨c, hc, hsound⟩ := hv _ hworker
    exact ⟨c, hc, hsound.worker rfl rfl⟩
  | createStarting | destroyStarting _ _ _ hstate =>
    cases hw'
    exact ⟨_, by first | rfl | exact hstate, .of_none rfl⟩
  | completed _ hstate hworker hgeneration =>
    cases hw'
    obtain ⟨c, hc, hsound⟩ := hv _ hworker
    cases Option.some.inj (hstate.symm.trans hc)
    rw [hgeneration] at hsound
    exact ⟨_, rfl, .generation (.worker (.state hsound rfl rfl rfl rfl rfl) rfl rfl) rfl rfl⟩
  | finalized hstate hworker hgeneration =>
    cases hw'
    obtain ⟨c, hc, hsound⟩ := hv _ hworker
    cases Option.some.inj (hstate.symm.trans hc)
    rw [hgeneration] at hsound
    exact ⟨_, rfl, .generation (.worker (.state hsound rfl rfl rfl rfl rfl) rfl rfl) rfl rfl⟩
  | finalizedBare hnone => cases hnone.symm.trans hw'
  | quarantined _ _ hstate hworker hgeneration _ _ _ _ hw =>
    obtain ⟨c, hc, hsound⟩ := hv _ hworker
    cases Option.some.inj (hstate.symm.trans hc)
    rw [hgeneration] at hsound
    cases hw'
    refine ⟨_, rfl, ?_⟩
    rcases hw with rfl | rfl
    all_goals exact .generation (.worker (.state hsound rfl rfl rfl rfl rfl) rfl rfl) rfl rfl
  | @replaced _ record preserve draw _ c w g g' document _ _ hstate hworker hgeneration _ _ _ _ _
      hanchored =>
    cases hw'
    obtain ⟨c₀, hc₀, hsound⟩ := hv _ hworker
    cases Option.some.inj (hstate.symm.trans hc₀)
    rw [hgeneration] at hsound
    refine ⟨_, rfl, ?_⟩
    cases hkept : keptCleanupRevision c w with
    | none => exact .of_none rfl
    | some n =>
      obtain ⟨hproof, rfl⟩ := keptCleanupRevision_eq_some hkept
      refine .generation (g := g') (.transfer hsound rfl (fun d hd => ?_) rfl hproof.symm rfl
        fun g₀ d hg hm => ?_) rfl rfl
      · exact ⟨hd.bytes, hd.revision_pos, hd.lineage, hd.serial⟩
      · cases hg
        exact ⟨g', rfl, hanchored.matched hm⟩
  | anchored hgeneration _ _ hanchored =>
    obtain ⟨c, hc, hsound⟩ := hv w' hw'
    rw [hgeneration] at hsound
    refine ⟨c, hc, hsound.transfer rfl (fun _ hd => hd) rfl rfl rfl fun g d hg hm => ?_⟩
    cases hg
    exact ⟨_, rfl, hanchored.matched hm⟩
  | @imported args draw _ g document input workspace _ _ _ _ _ hmatch =>
    cases hw'
    refine ⟨_, rfl, ?_⟩
    split
    · next hproof =>
      simp only [Bool.and_eq_true] at hproof
      refine ⟨fun n hn => ?_, fun _ => ⟨document, ⟨rfl, Int.zero_lt_one, rfl, rfl⟩, hproof.1,
        fun _ => ⟨rfl, _, rfl, .inl hmatch⟩⟩⟩
      exact Int.le_of_eq (Option.some.inj hn).symm
    · exact .of_none rfl
  | importQuarantined _ hgeneration =>
    obtain ⟨c, hc, hsound⟩ := hv w' hw'
    rw [hgeneration] at hsound
    refine ⟨{ c with revoked := true }, by simp [hc], ?_⟩
    exact .generation (.state hsound rfl rfl rfl rfl rfl) rfl rfl
  | advanced hgeneration | jitSet hgeneration | expiryRequested hgeneration
  | resourcesDestroyed hgeneration =>
    obtain ⟨c, hc, hsound⟩ := hv w' hw'
    rw [hgeneration] at hsound
    exact ⟨c, hc, hsound.generation rfl rfl⟩
  | @activity fleet started completed now _ g hgeneration =>
    obtain ⟨c, hc, hsound⟩ := hv w' hw'
    rw [hgeneration] at hsound
    obtain ⟨hresult, hfailed⟩ := activityRow_identities fleet started completed now g
    exact ⟨c, hc, hsound.generation hresult hfailed⟩
  | @resultSet resultJson _ now _ g hgeneration =>
    obtain ⟨c, hc, hsound⟩ := hv w' hw'
    refine ⟨c, hc, hsound.bound, fun hn => ?_⟩
    obtain ⟨document, hdocument, hempty, hcreate⟩ := hsound.current hn
    refine ⟨document, hdocument, hempty, fun hbegun => ⟨(hcreate hbegun).1, _, rfl, ?_⟩⟩
    exact hcareful rfl c w' g hc hw' hgeneration hn hbegun document hdocument

/-! ## Completions on a proof -/

namespace System

variable {σ τ : System} {l : Label P}

/-- A proof at the current revision is true. -/
def ProofCurrent (P : Platform) (id : Uuid) (σ : System) : Prop :=
  ∀ c w, (σ.view id).state = some c → (σ.view id).worker = some w →
    w.cleanupRevision = some c.revision → Proved P (σ.view id).generation c w

/-- The step completed generation `id` on its cleanup proof. -/
def CleanupCompletes (id : Uuid) (σ τ : System) : Prop :=
  ∃ w w' receipt, (σ.view id).worker = some w ∧ w.completionReceipt = none ∧
    (τ.view id).worker = some w' ∧ w'.completionReceipt = some receipt ∧
    receipt.kind = .providerCleanup

/-- A step whose request makes no current proof stale. -/
def CarefulStep (P : Platform) (σ : System) (l : Label P) (τ : System) : Prop :=
  Step P σ l τ ∧ ∀ r, l.request = some r → ∀ id, r.Careful P id (σ.view id)

theorem CarefulStep.sound (h : CarefulStep P σ l τ) (hσ : (σ.view id).CleanupSound P) :
    (τ.view id).CleanupSound P := by
  rcases h.1.change id with hsame | ⟨r, hr, -, hchange⟩
  · rw [hsame]
    exact hσ
  · exact hchange.cleanupSound hσ (h.2 r hr id)

theorem CarefulStep.reached_sound (h : Reachable Initial (CarefulStep P) σ) :
    (σ.view id).CleanupSound P := by
  refine Reachable.invariant (I := fun σ => (σ.view id).CleanupSound P) ?_ ?_ h
  · rintro σ ⟨createLimit, rfl⟩ w hw
    cases hw
  · exact fun _ _ _ hσ hstep => hstep.sound hσ

/-- **Careful runs keep cleanup proofs current**, and a generation is completed on its cleanup
proof only while it is one. -/
theorem careful_proofs_current (h : Reachable Initial (CarefulStep P) σ) (id : Uuid) :
    ProofCurrent P id σ ∧ ∀ l τ, Step P σ l τ → CleanupCompletes id σ τ →
      ∃ c w, (σ.view id).state = some c ∧ (σ.view id).worker = some w ∧
        c.createStarted = true ∧ Proved P (σ.view id).generation c w := by
  have hcurrent : ProofCurrent P id σ := by
    intro c w hc hw hproof
    obtain ⟨c', hc', hsound⟩ := CarefulStep.reached_sound h w hw
    cases Option.some.inj (hc'.symm.trans hc)
    exact hsound.current hproof
  refine ⟨hcurrent, ?_⟩
  rintro l τ hstep ⟨w, w', receipt, hw, hnone, hw', hreceipt, hkind⟩
  rcases hstep.change id with hsame | ⟨r, -, -, hchange⟩
  · rw [hsame, hw] at hw'
    cases hw'
    cases hnone.symm.trans hreceipt
  · rcases hchange.receipt_appears hw' hreceipt with
      ⟨w₁, hw₁, hold⟩ | ⟨-, hother | ⟨c, w₁, hc, hw₁, hground⟩⟩
    · cases Option.some.inj (hw₁.symm.trans hw)
      cases hnone.symm.trans hold
    · cases hother.symm.trans hkind
    · cases Option.some.inj (hw₁.symm.trans hw)
      rw [hkind] at hground
      cases hground with
      | providerCleanup hstarted hproof =>
        exact ⟨c, w, hc, hw, hstarted, hcurrent c w hc hw hproof⟩

/-- A script of requests that are careful in every state is a careful run. -/
theorem Plays.careful {rs : List (Request P)} (h : σ.Plays P rs)
    (hcareful : ∀ r ∈ rs, ∀ id v, r.Careful P id v) :
    Run (CarefulStep P) σ (σ.history P rs) (σ.play P rs) := by
  induction rs generalizing σ with
  | nil => exact .nil σ
  | cons r rs ih =>
    refine .cons ⟨.served σ r h.1, fun r' hr' id => ?_⟩
      (ih h.2 fun r' hr' => hcareful r' (List.mem_cons_of_mem r hr'))
    cases hr'
    exact hcareful r List.mem_cons_self id _

open Script in
/-- A worker that proved its untouched state clean. -/
theorem careful_proofs_current_sample :
    ∃ σ, Reachable Initial (CarefulStep platform) σ ∧
      ((σ.view generation).worker.any fun w => w.cleanupRevision == some 1) = true ∧
      ProofCurrent platform generation σ ∧
      ∀ l τ, Step platform σ l τ → CleanupCompletes generation σ τ →
        ∃ c w, (σ.view generation).state = some c ∧ (σ.view generation).worker = some w ∧
          c.createStarted = true ∧ Proved platform (σ.view generation).generation c w := by
  have hplay : (initial 2).Plays platform proved := by decide +kernel
  have hreach : Reachable Initial (CarefulStep platform) ((initial 2).play platform proved) :=
    ⟨_, _, ⟨2, rfl⟩, hplay.careful (by simp [proved, launched, Script.admitted, Request.Careful])⟩
  exact ⟨_, hreach, by decide +kernel, careful_proofs_current hreach generation⟩

open Script in
/-- A Create noted behind a proof leaves the proof current, and the generation is completed on it
though none of its resources were ever seen. -/
theorem noted_create_makes_proof_stale :
    ∃ σ l τ, Reached platform σ ∧ Step platform σ l τ ∧ ¬ ProofCurrent platform generation σ ∧
      CleanupCompletes generation σ τ := by
  have hplay : (initial 2).Plays platform notedBehindProof := by decide +kernel
  have hpermits : ((initial 2).play platform notedBehindProof).Permits platform
      (complete .providerCleanup) := by
    decide +kernel
  refine ⟨_, _, _, hplay.reached, .served _ _ hpermits, fun hcurrent => ?_, ?_⟩
  · have hrows : (((initial 2).play platform notedBehindProof).view generation).state.any (fun c =>
        (((initial 2).play platform notedBehindProof).view generation).worker.any fun w =>
          c.createStarted && w.cleanupRevision == some c.revision && !w.resourceStateSeen) =
        true := by
      decide +kernel
    obtain ⟨c, hc, hrows⟩ := (Option.any_eq_true _ _).mp hrows
    obtain ⟨w, hw, hrows⟩ := (Option.any_eq_true _ _).mp hrows
    simp only [Bool.and_eq_true, beq_iff_eq, Bool.not_eq_true'] at hrows
    obtain ⟨⟨hstarted, hproof⟩, hunseen⟩ := hrows
    obtain ⟨_, -, -, hcreate⟩ := hcurrent c w hc hw hproof
    cases hunseen.symm.trans (hcreate hstarted).1
  · have hbefore : (((initial 2).play platform notedBehindProof).view generation).worker.any
        (fun w => w.completionReceipt.isNone) = true := by
      decide +kernel
    have hafter : ((((initial 2).play platform notedBehindProof).serve platform
        (complete .providerCleanup)).view generation).worker.any
          (fun w => w.completionReceipt.any fun receipt => receipt.kind == .providerCleanup) =
        true := by
      decide +kernel
    obtain ⟨w, hw, hnone⟩ := (Option.any_eq_true _ _).mp hbefore
    obtain ⟨w', hw', hsome⟩ := (Option.any_eq_true _ _).mp hafter
    obtain ⟨receipt, hreceipt, hkind⟩ := (Option.any_eq_true _ _).mp hsome
    exact ⟨w, w', receipt, hw, Option.isNone_iff_eq_none.mp hnone, hw', hreceipt,
      beq_iff_eq.mp hkind⟩

end System

end Shaula
