import Shaula.Template.Input
import Shaula.Template.Result

/-! # Reading the protected input back

What Create wrote is what Destroy and recovery read, within the reader's bounds.
-/

namespace Shaula

open Library Library.Outcome Library.Json

namespace Template

/-! ## Numbers and lists -/

theorem asU64_encoded (n : UInt64) : asU64 (.number (.integer n.toNat)) = some n := by
  have hlt := n.toNat_lt
  rw [asU64, if_pos ⟨by omega, by omega⟩, Int.toNat_natCast, UInt64.ofNat_toNat]

theorem asU32_encoded {n : Nat} (h : n < 2 ^ 32) : asU32 (.number (.integer n)) = some n := by
  rw [asU32, if_pos ⟨by omega, by omega⟩, Int.toNat_natCast]

theorem asI64_encoded (n : Int64) : asI64 (.number (.integer n.toInt)) = some n := by
  simp only [asI64, n.le_toInt, n.toInt_lt, and_self, if_true, Int64.ofInt_toInt]

theorem asStrings_encoded (values : List String) : asStrings (encodeStrings values) = some values := by
  simp only [asStrings, encodeStrings, asArray, Option.bind_some]
  induction values with
  | nil => rfl
  | cons value rest ih => simp [List.mapM_cons, asStr, ih]

/-! ## Each structure -/

theorem GenerationIdentity.decode_encode (identity : GenerationIdentity) :
    decode identity.encode = some identity := by
  have hscale : optional identity.encode "scale_set_id" asI64 = some identity.scaleSetId :=
    optional_encoded (by simp [encode]) (fun _ => by simp) (fun id _ => asI64_encoded id)
  rw [decode, hscale]
  simp [encode, required, asStr]

theorem ForgejoBootstrapIdentity.decode_encode (identity : ForgejoBootstrapIdentity) :
    decode identity.encode = some identity := by
  simp [decode, encode, onlyKeys, required, asStr, asStrings_encoded]

theorem ForgejoVmBootstrap.decode_encode (vm : ForgejoVmBootstrap) :
    decode vm.encode = some vm := by
  simp [decode, encode, onlyKeys, required, asStr, vm.valid]

theorem GitlabBootstrapIdentity.decode_encode (identity : GitlabBootstrapIdentity) :
    decode identity.encode = some identity := by
  have hkeys : onlyKeys ["instance_url", "runner_id", "runner_name"] identity.encode = true := by
    simp [onlyKeys, encode]
  have hid : required identity.encode "runner_id" asU64 = some identity.runnerId :=
    required_encoded (by simp [encode]) (asU64_encoded identity.runnerId)
  rw [decode, if_pos hkeys, hid]
  simp [required, encode, asStr]

/-- The one structure whose reader is stricter than its constructor. -/
theorem GitlabVmBootstrap.decode_encode {C : Crates} (vm : GitlabVmBootstrap C) :
    decode C vm.encode = if 8192 < vm.material.configToml.utf8ByteSize then none else some vm := by
  have hkeys : onlyKeys ["config_toml"] vm.encode = true := by simp [onlyKeys, encode]
  have hconfig : required vm.encode "config_toml" asStr = some vm.material.configToml := by
    simp [required, encode, asStr]
  rw [decode, if_pos hkeys, hconfig, Option.bind_eq_bind, Option.bind_some,
    GitlabBootstrapMaterial.parse_configToml]
  split
  · rfl
  · rfl

theorem SetupInfoDescriptor.decode_encode {descriptor : SetupInfoDescriptor}
    (h : ∀ url capability expiresAt waitSeconds,
      descriptor = .enabled url capability expiresAt waitSeconds → waitSeconds < 2 ^ 32) :
    decode descriptor.encode = some descriptor := by
  cases descriptor with
  | disabled => simp [decode, encode, required, asStr]
  | enabled url capability expiresAt waitSeconds =>
    have hkeys : onlyKeys ["status", "url", "capability", "expires_at", "wait_seconds"]
        (SetupInfoDescriptor.enabled url capability expiresAt waitSeconds).encode = true := by
      simp [onlyKeys, encode]
    have hexpires : required (SetupInfoDescriptor.enabled url capability expiresAt
        waitSeconds).encode "expires_at" asI64 = some expiresAt :=
      required_encoded (by simp [encode]) (asI64_encoded expiresAt)
    have hwait : required (SetupInfoDescriptor.enabled url capability expiresAt
        waitSeconds).encode "wait_seconds" asU32 = some waitSeconds :=
      required_encoded (by simp [encode]) (asU32_encoded (h _ _ _ _ rfl))
    rw [decode, hkeys, hexpires, hwait]
    simp [required, encode, asStr]

/-! ## The envelope -/

namespace ShaulaInputEnvelope

variable {C : Crates} {input : ShaulaInputEnvelope C} {manifest : ProfileManifest}

/-- Whether the configuration is within the bound of its reader. -/
def ConfigFits (input : ShaulaInputEnvelope C) : Prop :=
  ∀ vm, input.gitlabVm = some vm → vm.material.configToml.utf8ByteSize ≤ 8192

theorem encode_known : onlyKeys wireKeys input.encode = true := by
  simp only [encode, onlyKeys_object, known_append]
  refine ⟨⟨⟨⟨⟨⟨⟨?_, ?_⟩, ?_⟩, ?_⟩, ?_⟩, ?_⟩, ?_⟩, ?_⟩
  · simp [Known, wireKeys]
  · exact known_memberOf (by decide)
  · exact known_memberOf (by decide)
  · simp [Known, wireKeys]
  · exact known_memberOf (by decide)
  · exact known_memberOf (by decide)
  · simp [Known, wireKeys]
  · exact known_memberOf (by decide)

theorem get_contractVersion : input.encode.get "contract_version" =
    some (.number (.integer input.contractVersion)) := by simp [encode]

theorem get_generation : input.encode.get "generation" = some input.generation.encode := by
  simp [encode]

theorem get_jitConfig : input.encode.get "jit_config" = some (.string input.jitConfig) := by
  simp [encode]

theorem get_forgejo : input.encode.get "forgejo" =
    input.forgejo.map ForgejoBootstrapIdentity.encode := by simp [encode]

theorem get_forgejoVm : input.encode.get "forgejo_vm" =
    input.forgejoVm.map ForgejoVmBootstrap.encode := by simp [encode]

theorem get_gitlab : input.encode.get "gitlab" =
    input.gitlab.map GitlabBootstrapIdentity.encode := by simp [encode]

theorem get_gitlabVm : input.encode.get "gitlab_vm" =
    input.gitlabVm.map GitlabVmBootstrap.encode := by simp [encode]

theorem get_bindingsDigest : input.encode.get "bindings_digest" =
    some (.string input.bindingsDigest) := by simp [encode]

theorem get_bindings : input.encode.get "bindings" = some (.object input.bindings) := by
  simp [encode]

theorem get_parameters : input.encode.get "parameters" = some (.object input.parameters) := by
  simp [encode]

theorem get_setupInfo : input.encode.get "setup_info" =
    input.setupInfo.map SetupInfoDescriptor.encode := by simp [encode]

/-! ### Members that depend on validation -/

/-- What validation says of the numbers. -/
theorem validate_numbers (h : input.validate = .ok ()) :
    (input.contractVersion = 1 ∧ input.setupInfo = none) ∨
      (input.contractVersion = 2 ∧ ∃ descriptor, input.setupInfo = some descriptor ∧
        descriptor.validateForGeneration C input.generation.id = .ok ()) := by
  simp only [validate, bind_eq_ok, ensure_eq_ok, exists_and_left, exists_const] at h
  obtain ⟨-, -, -, h⟩ := h
  split at h
  · next hversion hnone => exact .inl ⟨hversion, hnone⟩
  · next descriptor hversion hsome => exact .inr ⟨hversion, descriptor, hsome, h⟩
  · cases h

theorem waitSeconds_lt {url capability generation : String} {expiresAt : Int64} {waitSeconds : Nat}
    (h : (SetupInfoDescriptor.enabled url capability expiresAt waitSeconds).validateForGeneration C
      generation = .ok ()) : waitSeconds < 2 ^ 32 := by
  simp only [SetupInfoDescriptor.validateForGeneration, SetupInfoDescriptor.validate, bind_eq_ok,
    okOr_eq_ok, ensure_eq_ok] at h
  obtain ⟨-, ⟨parsed, -, hchecks⟩, -⟩ := h
  obtain ⟨-, -, -, -, -, -, -, -, -, -, -, -, -, -, hwait⟩ := hchecks
  omega

/-- The VM member, as it is read back. -/
theorem gitlabVm_encoded (h : input.ConfigFits) :
    optional input.encode "gitlab_vm" (GitlabVmBootstrap.decode C) = some input.gitlabVm := by
  refine optional_encoded get_gitlabVm (fun vm => by simp [GitlabVmBootstrap.encode]) ?_
  intro vm hvm
  rw [GitlabVmBootstrap.decode_encode, if_neg (Nat.not_lt.mpr (h vm hvm))]

theorem setupInfo_encoded (h : input.validate = .ok ()) :
    defaulted input.encode "setup_info" none
      (fun member => (SetupInfoDescriptor.decode member).map some) = some input.setupInfo := by
  refine defaulted_encoded get_setupInfo ?_
  intro descriptor hdescriptor
  refine SetupInfoDescriptor.decode_encode ?_
  rintro url capability expiresAt waitSeconds rfl
  rcases validate_numbers h with ⟨-, hnone⟩ | ⟨-, stored, hstored, hvalid⟩
  · rw [hnone] at hdescriptor
    cases hdescriptor
  · rw [hstored] at hdescriptor
    cases hdescriptor
    exact waitSeconds_lt hvalid

theorem contractVersion_lt (h : input.validate = .ok ()) : input.contractVersion < 2 ^ 32 := by
  rcases validate_numbers h with ⟨hversion, -⟩ | ⟨hversion, -⟩
  · omega
  · omega

/-- A valid envelope is read back from its encoding. -/
theorem decode_encode (hvalid : input.validate = .ok ()) (hfits : input.ConfigFits) :
    decode C input.encode = some input := by
  have hversion : required input.encode "contract_version" asU32 = some input.contractVersion :=
    required_encoded get_contractVersion (asU32_encoded (contractVersion_lt hvalid))
  have hgeneration : required input.encode "generation" GenerationIdentity.decode =
      some input.generation :=
    required_encoded get_generation input.generation.decode_encode
  have hjit : required input.encode "jit_config" asStr = some input.jitConfig :=
    required_encoded get_jitConfig rfl
  have hforgejo : optional input.encode "forgejo" ForgejoBootstrapIdentity.decode =
      some input.forgejo :=
    optional_encoded get_forgejo (fun _ => by simp [ForgejoBootstrapIdentity.encode])
      fun identity _ => identity.decode_encode
  have hforgejoVm : optional input.encode "forgejo_vm" ForgejoVmBootstrap.decode =
      some input.forgejoVm :=
    optional_encoded get_forgejoVm (fun _ => by simp [ForgejoVmBootstrap.encode])
      fun vm _ => vm.decode_encode
  have hgitlab : optional input.encode "gitlab" GitlabBootstrapIdentity.decode =
      some input.gitlab :=
    optional_encoded get_gitlab (fun _ => by simp [GitlabBootstrapIdentity.encode])
      fun identity _ => identity.decode_encode
  have hdigest : required input.encode "bindings_digest" asStr = some input.bindingsDigest :=
    required_encoded get_bindingsDigest rfl
  have hbindings : defaulted input.encode "bindings" [] asObject = some input.bindings := by
    simp [defaulted, get_bindings, asObject]
  have hparameters : defaulted input.encode "parameters" [] asObject = some input.parameters := by
    simp [defaulted, get_parameters, asObject]
  rw [decode, decodeWire, if_pos encode_known, hversion, hgeneration, hjit, hforgejo, hforgejoVm,
    hgitlab, gitlabVm_encoded hfits, hdigest, hbindings, hparameters, setupInfo_encoded hvalid]
  simp [hvalid, Except.isOk, Except.toBool]

/-- A configuration beyond the bound of its reader is refused. -/
theorem decode_encode_of_long (hlong : ¬ input.ConfigFits) : decode C input.encode = none := by
  have hrefused : optional input.encode "gitlab_vm" (GitlabVmBootstrap.decode C) = none := by
    obtain ⟨vm, hlong⟩ := Classical.not_forall.mp hlong
    obtain ⟨hvm, hsize⟩ := Classical.not_imp.mp hlong
    have hget : input.encode.get "gitlab_vm" = some vm.encode := by rw [get_gitlabVm, hvm]; rfl
    have hdecode := vm.decode_encode
    rw [if_pos (Nat.lt_of_not_le hsize)] at hdecode
    unfold Json.optional
    rw [hget]
    simp only [GitlabVmBootstrap.encode] at hdecode ⊢
    rw [hdecode]
    rfl
  by_contra hread
  obtain ⟨other, hother⟩ := Option.ne_none_iff_exists'.mp hread
  simp only [decode, decodeWire, encode_known, if_true, Option.bind_eq_bind,
    Option.bind_eq_some_iff] at hother
  obtain ⟨wire, ⟨-, -, -, -, -, -, -, -, -, -, -, -, vm, hvm, -⟩, -⟩ := hother
  rw [hrefused] at hvm
  cases hvm

/-! ## Depth -/

/-- Bindings and parameters are two levels down in the document; everything else in it is shallow. -/
theorem document_depth : input.document.depth ≤ recursionLimit ↔
    (Json.object input.bindings).depth ≤ 125 ∧ (Json.object input.parameters).depth ≤ 125 := by
  have hgeneration : input.generation.encode.depth ≤ 2 := by
    cases hscale : input.generation.scaleSetId <;>
      simp [GenerationIdentity.encode, depth, depthMembers, memberOf, hscale]
  have hforgejo : depthMembers (memberOf "forgejo" (input.forgejo.map (·.encode))) ≤ 2 := by
    refine depthMembers_memberOf_le fun member hmember => ?_
    obtain ⟨identity, -, rfl⟩ := Option.map_eq_some_iff.mp hmember
    have hlabels : depthItems (identity.labels.map Json.string) ≤ 0 :=
      depthItems_le fun item hitem => by
        obtain ⟨label, -, rfl⟩ := List.mem_map.mp hitem
        exact Nat.le_refl 0
    simp only [ForgejoBootstrapIdentity.encode, encodeStrings, depth, depthMembers]
    omega
  have hforgejoVm : depthMembers (memberOf "forgejo_vm" (input.forgejoVm.map (·.encode))) ≤ 2 := by
    refine depthMembers_memberOf_le fun member hmember => ?_
    obtain ⟨vm, -, rfl⟩ := Option.map_eq_some_iff.mp hmember
    simp [ForgejoVmBootstrap.encode, depth, depthMembers]
  have hgitlab : depthMembers (memberOf "gitlab" (input.gitlab.map (·.encode))) ≤ 2 := by
    refine depthMembers_memberOf_le fun member hmember => ?_
    obtain ⟨identity, -, rfl⟩ := Option.map_eq_some_iff.mp hmember
    simp [GitlabBootstrapIdentity.encode, depth, depthMembers]
  have hgitlabVm : depthMembers (memberOf "gitlab_vm" (input.gitlabVm.map (·.encode))) ≤ 2 := by
    refine depthMembers_memberOf_le fun member hmember => ?_
    obtain ⟨vm, -, rfl⟩ := Option.map_eq_some_iff.mp hmember
    simp [GitlabVmBootstrap.encode, depth, depthMembers]
  have hsetup : depthMembers (memberOf "setup_info" (input.setupInfo.map (·.encode))) ≤ 2 := by
    refine depthMembers_memberOf_le fun member hmember => ?_
    obtain ⟨descriptor, -, rfl⟩ := Option.map_eq_some_iff.mp hmember
    cases descriptor <;> simp [SetupInfoDescriptor.encode, depth, depthMembers]
  simp only [document, encode, recursionLimit, depth, depthMembers, depthMembers_append]
  omega

/-! ## Reading back -/

variable {T : JsonText} {digest : String → String}

/-- Destroy reads the envelope that Create wrote, and recovery writes the same text again. -/
def ReadsBack (T : JsonText) (digest : String → String) (manifest : ProfileManifest)
    (input : ShaulaInputEnvelope C) : Prop :=
  ∃ text, input.toTfvars T = .ok text ∧ destroyInput C T manifest text = some input ∧
    recoverInput C T digest (digest text) text = some text

/-- Within the bounds of the readers. -/
structure Readable (input : ShaulaInputEnvelope C) : Prop where
  config : ∀ vm, input.gitlabVm = some vm →
    vm.material.instanceUrl.utf8ByteSize + vm.material.runnerName.utf8ByteSize +
      (toString vm.material.runnerId.toNat).utf8ByteSize + vm.material.token.utf8ByteSize ≤ 8080
  bindings : (Json.object input.bindings).depth ≤ 125
  parameters : (Json.object input.parameters).depth ≤ 125

theorem readable_iff : input.Readable ↔
    input.ConfigFits ∧ input.document.depth ≤ recursionLimit := by
  have hsize : ∀ material : GitlabBootstrapMaterial C, material.configToml.utf8ByteSize =
      112 + (material.instanceUrl.utf8ByteSize + material.runnerName.utf8ByteSize +
        (toString material.runnerId.toNat).utf8ByteSize + material.token.utf8ByteSize) := by
    intro material
    have hhead : GitlabBootstrapMaterial.configHead.utf8ByteSize = 47 := by decide
    have hname : "  name = \"".utf8ByteSize = 10 := by decide
    have hurl : "  url = \"".utf8ByteSize = 9 := by decide
    have hid : "  id = ".utf8ByteSize = 7 := by decide
    have htoken : "  token = \"".utf8ByteSize = 11 := by decide
    have hexecutor : "  executor = \"shell\"".utf8ByteSize = 20 := by decide
    have hquote : "\"".utf8ByteSize = 1 := by decide
    have hbreak : "\n".utf8ByteSize = 1 := by decide
    have hempty : "".utf8ByteSize = 0 := by decide
    simp only [GitlabBootstrapMaterial.configToml, GitlabBootstrapMaterial.configLines, unlines,
      String.utf8ByteSize_append, hhead, hname, hurl, hid, htoken, hexecutor, hquote, hbreak,
      hempty]
    omega
  rw [document_depth]
  constructor
  · rintro ⟨hconfig, hbindings, hparameters⟩
    refine ⟨fun vm hvm => ?_, hbindings, hparameters⟩
    have hbound := hconfig vm hvm
    rw [hsize]
    omega
  · rintro ⟨hfits, hbindings, hparameters⟩
    refine ⟨fun vm hvm => ?_, hbindings, hparameters⟩
    have hbound := hfits vm hvm
    rw [hsize] at hbound
    omega

/-- What a text that is read at all says. -/
theorem read_render (hreads : T.Reads input.document) :
    read C T (T.render input.document) =
      if input.document.depth ≤ recursionLimit then decode C input.encode else none := by
  rw [read, hreads]
  split
  · simp [document]
  · rfl

theorem validate_of_validateForManifest (h : input.validateForManifest manifest = .ok ()) :
    input.validate = .ok () := by
  simp only [validateForManifest, bind_eq_ok] at h
  obtain ⟨-, -, ⟨⟩, hself, -⟩ := h
  exact hself

theorem toTfvars_of_validate (h : input.validate = .ok ()) :
    input.toTfvars T = .ok (T.render input.document) := by
  rw [toTfvars, h]
  rfl

/-- What Destroy reads was within the bounds. -/
theorem ReadsBack.readable (h : input.ReadsBack T digest manifest)
    (hreads : T.Reads input.document) (hself : input.validate = .ok ()) : input.Readable := by
  obtain ⟨text, htext, hdestroy, -⟩ := h
  rw [toTfvars_of_validate hself] at htext
  cases htext
  rw [readable_iff]
  rw [destroyInput, read_render hreads] at hdestroy
  split at hdestroy
  · next hdepth =>
    refine ⟨?_, hdepth⟩
    by_contra hlong
    rw [decode_encode_of_long hlong] at hdestroy
    cases hdestroy
  · cases hdestroy

/-- What is within the bounds is read. -/
theorem Readable.readsBack (h : input.Readable) (hreads : T.Reads input.document)
    (hvalid : input.validateForManifest manifest = .ok ()) :
    input.ReadsBack T digest manifest := by
  have hself := validate_of_validateForManifest hvalid
  obtain ⟨hfits, hdepth⟩ := readable_iff.mp h
  have hread : read C T (T.render input.document) = some input := by
    rw [read_render hreads, if_pos hdepth, decode_encode hself hfits]
  refine ⟨T.render input.document, toTfvars_of_validate hself, ?_, ?_⟩
  · simp [destroyInput, hread, hvalid, Except.isOk, Except.toBool]
  · simp [recoverInput, hread, toTfvars_of_validate hself, Except.toOption]

/-- **Every accepted input can be read back**, exactly when it is within the readers' bounds. -/
theorem reads_back_iff (hreads : T.Reads input.document)
    (hvalid : input.validateForManifest manifest = .ok ()) :
    input.ReadsBack T digest manifest ↔ input.Readable := by
  constructor
  · intro hback
    exact hback.readable hreads (validate_of_validateForManifest hvalid)
  · intro hreadable
    exact hreadable.readsBack hreads hvalid

end ShaulaInputEnvelope

/-! ## A sample -/

/-- Reads the URLs of one instance. -/
def gitlabCrates : Crates where
  parseVersion _ := none
  parseUrl text := (stripPrefix "https://gitlab.example" text).map fun path =>
    ⟨"https", some "gitlab.example", "", none, none, none, none, path⟩
  tables := Quoting.asciiTables

/-- A template for virtual machines that delivers GitLab credentials. -/
def gitlabManifest : ProfileManifest := { vmManifest [vmRole "runner" 1] with
  runnerBackends := ["github", "forgejo", "gitlab"]
  forgejoVmBootstrapContract := some forgejoVmBootstrapContract
  gitlabVmBootstrapContract := some gitlabVmBootstrapContract }

theorem tomlSafe_append {a b : String} (ha : tomlSafe a = true) (hb : tomlSafe b = true) :
    tomlSafe (a ++ b) = true := by
  rw [tomlSafe, String.toList_append, List.all_append, Bool.and_eq_true]
  exact ⟨ha, hb⟩

/-- A registration at an instance under a path. -/
def gitlabMaterial (path : String) (h : tomlSafe path = true) :
    GitlabBootstrapMaterial gitlabCrates where
  instanceUrl := "https://gitlab.example" ++ path
  runnerId := 7
  runnerName := "runner"
  token := "glrt-0"
  valid := by
    have hurl : (gitlabCrates.parseUrl ("https://gitlab.example" ++ path)).any Url.isInstance =
        true := by
      simp only [gitlabCrates, stripPrefix_append]
      rfl
    have hsafe : tomlSafe ("https://gitlab.example" ++ path) = true :=
      tomlSafe_append (by decide) h
    rw [gitlabMaterialValid, hurl, hsafe]
    decide

/-- The input of a virtual machine that runs this registration. -/
def gitlabInput (material : GitlabBootstrapMaterial gitlabCrates) :
    ShaulaInputEnvelope gitlabCrates where
  contractVersion := 1
  generation := ⟨"fleet", none, "g", "runner", "runner-g"⟩
  jitConfig := ""
  forgejo := none
  forgejoVm := none
  gitlab := some material.identity
  gitlabVm := some ⟨material⟩
  bindingsDigest := "bd1_00"
  bindings := [("runner_backend", .string "gitlab")]
  parameters := []
  setupInfo := none

theorem gitlabInput_valid (material : GitlabBootstrapMaterial gitlabCrates) :
    (gitlabInput material).validateForManifest gitlabManifest = .ok () := by
  have hmanifest : gitlabManifest.validate gitlabCrates = .ok () := by decide +kernel
  have hbackend : gitlabManifest.runnerBackendForBindings [("runner_backend", .string "gitlab")] =
      .ok "gitlab" := by rfl
  have htarget : gitlabManifest.validateGitlabGenerationTarget gitlabCrates = .ok () := by
    decide +kernel
  have hself : (gitlabInput material).validate = .ok () := by
    simp [ShaulaInputEnvelope.validate, ShaulaInputEnvelope.validateGitlabVm, gitlabInput, ensure,
      bind, Except.bind, pure, Except.pure]
  have hselected : (gitlabInput material).validateBackend gitlabManifest "gitlab" = .ok () := by
    rw [← htarget]
    rfl
  simp only [ShaulaInputEnvelope.validateForManifest, bind_eq_ok, ensure_eq_ok]
  exact ⟨⟨⟩, hmanifest, ⟨⟩, hself, ⟨⟩, rfl, "gitlab", hbackend, hselected⟩

/-- A character of a rendered text. -/
def escaped (c : Char) : String :=
  match c with
  | '"' => "\\\""
  | '\\' => "\\\\"
  | '\n' => "\\n"
  | '\r' => "\\r"
  | '\t' => "\\t"
  | c => c.toString

def renderString (text : String) : String :=
  "\"" ++ String.join (text.toList.map escaped) ++ "\""

mutual

/-- The compact rendering. -/
def renderJson : Json → String
  | .null => "null"
  | .bool value => toString value
  | .number (.integer value) => toString value
  | .number (.float text) => text
  | .string value => renderString value
  | .array items => "[" ++ String.intercalate "," (renderItems items) ++ "]"
  | .object members => "\x7b" ++ String.intercalate "," (renderMembers members) ++ "\x7d"

def renderItems : List Json → List String
  | [] => []
  | item :: rest => renderJson item :: renderItems rest

def renderMembers : List (String × Json) → List String
  | [] => []
  | (name, value) :: rest => (renderString name ++ ":" ++ renderJson value) :: renderMembers rest

end

/-- A reader of one document. -/
def textOf (document : Json) : JsonText where
  render := renderJson
  parse text := if text = renderJson document then some document else none

theorem textOf_reads {document : Json} (h : document.depth ≤ recursionLimit) :
    (textOf document).Reads document := by
  rw [JsonText.Reads, if_pos h]
  exact if_pos rfl

theorem gitlabInput_depth (material : GitlabBootstrapMaterial gitlabCrates) :
    (gitlabInput material).document.depth ≤ recursionLimit := by
  rw [ShaulaInputEnvelope.document_depth]
  simp [gitlabInput, depth, depthMembers]

/-- The input of a registration at the root of an instance is read back. -/
theorem reads_back_iff_sample :
    (gitlabInput (gitlabMaterial "" (by decide))).ReadsBack
      (textOf (gitlabInput (gitlabMaterial "" (by decide))).document) id gitlabManifest := by
  refine (ShaulaInputEnvelope.reads_back_iff (textOf_reads (gitlabInput_depth _))
    (gitlabInput_valid _)).mpr ?_
  constructor
  · rintro vm hvm
    cases hvm
    decide
  · simp [gitlabInput, depth, depthMembers]
  · simp [gitlabInput, depth, depthMembers]

/-- A path of `2 ^ n` characters. -/
def longPath : Nat → String
  | 0 => "a"
  | n + 1 => longPath n ++ longPath n

theorem longPath_safe (n : Nat) : tomlSafe (longPath n) = true := by
  induction n with
  | zero => decide
  | succ n ih => exact tomlSafe_append ih ih

theorem longPath_size (n : Nat) : (longPath n).utf8ByteSize = 2 ^ n := by
  induction n with
  | zero => decide
  | succ n ih =>
    rw [longPath, String.utf8ByteSize_append, ih]
    omega

theorem gitlabMaterial_size (path : String) (h : tomlSafe path = true) :
    path.utf8ByteSize ≤ (gitlabMaterial path h).instanceUrl.utf8ByteSize := by
  have hurl : (gitlabMaterial path h).instanceUrl = "https://gitlab.example" ++ path := rfl
  rw [hurl, String.utf8ByteSize_append]
  exact Nat.le_add_left path.utf8ByteSize _

/-- The input of a long registration is not read back. -/
theorem gitlabInput_not_readable {material : GitlabBootstrapMaterial gitlabCrates}
    (h : 8080 < material.instanceUrl.utf8ByteSize) : ¬ (gitlabInput material).Readable := by
  intro hreadable
  have hsize := hreadable.config ⟨material⟩ rfl
  simp only at hsize
  omega

/-- An accepted input of a registration under a long path is not read back. -/
theorem long_instance_url_not_read_back :
    (gitlabInput (gitlabMaterial (longPath 13) (longPath_safe 13))).validateForManifest
        gitlabManifest = .ok () ∧
      ¬ (gitlabInput (gitlabMaterial (longPath 13) (longPath_safe 13))).ReadsBack
        (textOf (gitlabInput (gitlabMaterial (longPath 13) (longPath_safe 13))).document) id
        gitlabManifest := by
  have hvalid := gitlabInput_valid (gitlabMaterial (longPath 13) (longPath_safe 13))
  have hlong : 8080 < (gitlabMaterial (longPath 13) (longPath_safe 13)).instanceUrl.utf8ByteSize := by
    have hpath := gitlabMaterial_size (longPath 13) (longPath_safe 13)
    rw [longPath_size] at hpath
    exact Nat.lt_of_lt_of_le (by decide) hpath
  refine ⟨hvalid, ?_⟩
  intro hback
  exact gitlabInput_not_readable hlong (hback.readable (textOf_reads (gitlabInput_depth _))
    (ShaulaInputEnvelope.validate_of_validateForManifest hvalid))

end Template

end Shaula
