import Mathlib
import Shaula.Library.Json
import Shaula.Registry.AuthPolicy

/-! # Building a target policy

A policy is built from a list of selectors, or read from the JSON document of one.  Building checks
and orders the selectors; the derived reader takes them as they stand.
-/

namespace Shaula

open Library Library.Outcome

namespace Registry

/-! ## Names -/

/-- `NAME_PATTERN` -/
def isOwnerName (value : String) : Bool :=
  value.toList.length ≤ 40 && value.toList.all (fun c => c.isAlphanum || c = '-') &&
    value.toList.head?.any Char.isAlphanum && value.toList.getLast?.any Char.isAlphanum

/-- `REPO_PATTERN` -/
def isRepositoryName (value : String) : Bool :=
  0 < value.toList.length && value.toList.length ≤ 100 &&
    value.toList.all fun c => c.isAlphanum || c = '.' || c = '_' || c = '-'

def normalizeName (value : String) : Except MutationError String :=
  if isOwnerName (trim value) ∧ trim value ≠ "enterprises" then .ok (trim value)
  else .error (specInvalid "github owner name is not a normalized identifier")

def normalizeRepo (value : String) : Except MutationError String :=
  if isRepositoryName (trim value) ∧ (trim value).toList.head? ≠ some '.' then .ok (trim value)
  else .error (specInvalid "github repository name is not a normalized identifier")

theorem trim_eq_self {value : String} (h : ∀ c ∈ value.toList, isWhiteSpace c = false) :
    trim value = value := by
  have hfront : value.toList.dropWhile isWhiteSpace = value.toList := by
    rw [List.dropWhile_eq_self_iff]
    intro hlength
    simp [h _ (List.getElem_mem hlength)]
  have hback : value.toList.reverse.dropWhile isWhiteSpace = value.toList.reverse := by
    rw [List.dropWhile_eq_self_iff]
    intro hlength
    rw [h _ (List.mem_reverse.mp (List.getElem_mem hlength))]
    exact Bool.false_ne_true
  rw [trim, hfront, hback, List.reverse_reverse, String.ofList_toList]

theorem isWhiteSpace_of_isAlphanum {c : Char} (h : c.isAlphanum = true) :
    isWhiteSpace c = false := by
  simp only [Char.isAlphanum, Char.isAlpha, Char.isUpper, Char.isLower, Char.isDigit,
    Bool.or_eq_true, Bool.and_eq_true, decide_eq_true_eq, UInt32.le_iff_toNat_le, ge_iff_le] at h
  simp only [isWhiteSpace, Bool.or_eq_false_iff, Bool.and_eq_false_iff, decide_eq_false_iff_not]
  change ((65 ≤ c.toNat ∧ c.toNat ≤ 90) ∨ 97 ≤ c.toNat ∧ c.toNat ≤ 122) ∨
    48 ≤ c.toNat ∧ c.toNat ≤ 57 at h
  omega

/-- A name that was accepted is accepted again, unchanged. -/
theorem normalizeName_idem {value name : String} (h : normalizeName value = .ok name) :
    normalizeName name = .ok name := by
  unfold normalizeName at h
  split_ifs at h with hname
  cases h
  have hplain : trim (trim value) = trim value := by
    apply trim_eq_self
    intro c hc
    have hall := hname.1
    simp only [isOwnerName, Bool.and_eq_true, List.all_eq_true, Bool.or_eq_true,
      decide_eq_true_eq] at hall
    rcases hall.1.1.2 c hc with halnum | rfl
    · exact isWhiteSpace_of_isAlphanum halnum
    · decide
  rw [normalizeName, hplain, if_pos hname]

theorem normalizeRepo_idem {value name : String} (h : normalizeRepo value = .ok name) :
    normalizeRepo name = .ok name := by
  unfold normalizeRepo at h
  split_ifs at h with hname
  cases h
  have hplain : trim (trim value) = trim value := by
    apply trim_eq_self
    intro c hc
    have hall := hname.1
    simp only [isRepositoryName, Bool.and_eq_true, List.all_eq_true, Bool.or_eq_true,
      decide_eq_true_eq] at hall
    rcases hall.2 c hc with ((halnum | rfl) | rfl) | rfl
    · exact isWhiteSpace_of_isAlphanum halnum
    all_goals decide
  rw [normalizeRepo, hplain, if_pos hname]

/-! ## Selectors -/

namespace TargetSelector

def newOrganization (owner : String) : Except MutationError TargetSelector := do
  let owner ← normalizeName owner
  return organization owner

def newRepository (owner name : String) : Except MutationError TargetSelector := do
  let owner ← normalizeName owner
  let name ← normalizeRepo name
  return repository owner name

def newAccountRepositories (accountKind : AccountKind) (owner : String) :
    Except MutationError TargetSelector := do
  let owner ← normalizeName owner
  return accountRepositories accountKind owner

/-- Whether the names of a selector are as its constructor returns them. -/
def WellFormed : TargetSelector → Prop
  | organization owner | accountRepositories _ owner => normalizeName owner = .ok owner
  | repository owner name => normalizeName owner = .ok owner ∧ normalizeRepo name = .ok name

instance : DecidablePred WellFormed
  | organization owner => inferInstanceAs (Decidable (normalizeName owner = .ok owner))
  | accountRepositories _ owner => inferInstanceAs (Decidable (normalizeName owner = .ok owner))
  | repository owner name =>
    inferInstanceAs (Decidable (normalizeName owner = .ok owner ∧ normalizeRepo name = .ok name))

theorem wellFormed_of_newOrganization {owner : String} {selector : TargetSelector}
    (h : newOrganization owner = .ok selector) : selector.WellFormed := by
  simp only [newOrganization, bind_eq_ok, pure_eq_ok] at h
  obtain ⟨name, hname, rfl⟩ := h
  exact normalizeName_idem hname

theorem wellFormed_of_newRepository {owner name : String} {selector : TargetSelector}
    (h : newRepository owner name = .ok selector) : selector.WellFormed := by
  simp only [newRepository, bind_eq_ok, pure_eq_ok] at h
  obtain ⟨account, haccount, repo, hrepo, rfl⟩ := h
  exact ⟨normalizeName_idem haccount, normalizeRepo_idem hrepo⟩

theorem wellFormed_of_newAccountRepositories {accountKind : AccountKind} {owner : String}
    {selector : TargetSelector} (h : newAccountRepositories accountKind owner = .ok selector) :
    selector.WellFormed := by
  simp only [newAccountRepositories, bind_eq_ok, pure_eq_ok] at h
  obtain ⟨name, hname, rfl⟩ := h
  exact normalizeName_idem hname

/-- The text in the case that names are compared in. -/
def lower (value : String) : List Char := value.toList.map Char.toLower

/-- Canonical ordering key: kind, account kind, owner, repository. -/
def sortKey : TargetSelector → ℕ ×ₗ ℕ ×ₗ List Char ×ₗ List Char
  | organization owner => toLex (0, toLex (0, toLex (lower owner, [])))
  | repository owner name => toLex (1, toLex (0, toLex (lower owner, lower name)))
  | accountRepositories .user owner => toLex (2, toLex (0, toLex (lower owner, [])))
  | accountRepositories .organization owner => toLex (2, toLex (1, toLex (lower owner, [])))

/-- Whether two selectors are the same one up to the case of ASCII letters. -/
def sameUpToCase : TargetSelector → TargetSelector → Bool
  | organization a, organization b => eqIgnoreAsciiCase a b
  | repository a r, repository b s => eqIgnoreAsciiCase a b && eqIgnoreAsciiCase r s
  | accountRepositories k a, accountRepositories l b => decide (k = l) && eqIgnoreAsciiCase a b
  | _, _ => false

theorem sortKey_eq_iff (a b : TargetSelector) : a.sortKey = b.sortKey ↔ a.sameUpToCase b := by
  cases a with
  | organization owner =>
    cases b with
    | organization other => simp [sortKey, sameUpToCase, eqIgnoreAsciiCase, lower]
    | repository other name => simp [sortKey, sameUpToCase]
    | accountRepositories kind other => cases kind <;> simp [sortKey, sameUpToCase]
  | repository owner name =>
    cases b with
    | repository other name' => simp [sortKey, sameUpToCase, eqIgnoreAsciiCase, lower]
    | organization other => simp [sortKey, sameUpToCase]
    | accountRepositories kind other => cases kind <;> simp [sortKey, sameUpToCase]
  | accountRepositories kind owner =>
    cases b with
    | organization other => cases kind <;> simp [sortKey, sameUpToCase]
    | repository other name => cases kind <;> simp [sortKey, sameUpToCase]
    | accountRepositories kind' other =>
      cases kind <;> cases kind' <;>
        simp [sortKey, sameUpToCase, eqIgnoreAsciiCase, lower]

/-! ## JSON -/

def toJson : TargetSelector → Json
  | organization owner => .object [("kind", .string "organization"), ("owner", .string owner)]
  | repository owner name =>
    .object [("kind", .string "repository"), ("owner", .string owner), ("repository", .string name)]
  | accountRepositories .user owner =>
    .object [("kind", .string "account_repositories"), ("account_kind", .string "user"),
      ("owner", .string owner)]
  | accountRepositories .organization owner =>
    .object [("kind", .string "account_repositories"), ("account_kind", .string "organization"),
      ("owner", .string owner)]

def accountKindOf : String → Option AccountKind
  | "user" => some .user
  | "organization" => some .organization
  | _ => none

/-- The strict reader: the members of the selector's kind and no others, through its constructor. -/
def fromJson (value : Json) : Option TargetSelector := do
  match ← value.strAt "kind" with
  | "organization" =>
    guard (value.onlyKeys ["kind", "owner"])
    let owner ← value.strAt "owner"
    (newOrganization owner).toOption
  | "repository" =>
    guard (value.onlyKeys ["kind", "owner", "repository"])
    let owner ← value.strAt "owner"
    let name ← value.strAt "repository"
    (newRepository owner name).toOption
  | "account_repositories" =>
    guard (value.onlyKeys ["kind", "account_kind", "owner"])
    let accountKind ← (value.strAt "account_kind").bind accountKindOf
    let owner ← value.strAt "owner"
    (newAccountRepositories accountKind owner).toOption
  | _ => none

/-- A selector that a constructor returned is read back. -/
theorem fromJson_toJson {selector : TargetSelector} (h : selector.WellFormed) :
    fromJson selector.toJson = some selector := by
  cases selector with
  | organization owner =>
    simp only [WellFormed] at h
    simp [fromJson, toJson, Json.strAt, Json.asStr, Json.onlyKeys, newOrganization, h]
  | repository owner name =>
    simp only [WellFormed] at h
    simp [fromJson, toJson, Json.strAt, Json.asStr, Json.onlyKeys, newRepository, h]
  | accountRepositories accountKind owner =>
    simp only [WellFormed] at h
    cases accountKind <;>
      simp [fromJson, toJson, Json.strAt, Json.asStr, Json.onlyKeys, newAccountRepositories,
        accountKindOf, h]

end TargetSelector

/-! ## Policies -/

namespace TargetPolicy

open TargetSelector

/-- `MAX_SELECTORS` -/
def maxSelectors : Nat := 100

/-- `MAX_ACCOUNTS` -/
def maxAccounts : Nat := 50

/-- The selectors in canonical order. -/
def ordered (selectors : List TargetSelector) : List TargetSelector :=
  selectors.insertionSort fun a b => a.sortKey ≤ b.sortKey

/-- The number of accounts the selectors name, up to case. -/
def accountCount (selectors : List TargetSelector) : Nat :=
  (((selectors.map fun selector => lower selector.account).insertionSort (· ≤ ·)).destutter
    (· ≠ ·)).length

/-- Validates, rejects duplicate selectors and orders canonically. -/
def new (selectors : List TargetSelector) : Except MutationError TargetPolicy := do
  ensure (selectors ≠ []) (specInvalid "target policy must not be empty")
  ensure (selectors.length ≤ maxSelectors) (specInvalid "target policy exceeds 100 selectors")
  ensure ((ordered selectors).IsChain fun a b => a.sortKey ≠ b.sortKey)
    (specInvalid "target policy contains duplicate selectors")
  ensure (accountCount (ordered selectors) ≤ maxAccounts)
    (specInvalid "target policy exceeds 50 distinct accounts")
  return ⟨ordered selectors⟩

def toJson (policy : TargetPolicy) : Json :=
  .object [("selectors", .array (policy.selectors.map TargetSelector.toJson))]

/-- The derived reader: each selector is checked, the list is not. -/
def fromJson (value : Json) : Option TargetPolicy := do
  let items ← (value.get "selectors").bind Json.asArray
  let selectors ← items.mapM TargetSelector.fromJson
  return ⟨selectors⟩

/-- What `new` enforces. -/
structure Canonical (policy : TargetPolicy) : Prop where
  nonempty : policy.selectors ≠ []
  size : policy.selectors.length ≤ maxSelectors
  sorted : policy.selectors.Pairwise fun a b => a.sortKey ≤ b.sortKey
  distinct : policy.selectors.Pairwise fun a b => ¬ a.sameUpToCase b
  accounts : (policy.selectors.map fun selector => lower selector.account).dedup.length ≤ maxAccounts

variable {selectors other : List TargetSelector} {policy : TargetPolicy}

theorem ordered_perm (selectors : List TargetSelector) : (ordered selectors).Perm selectors :=
  List.perm_insertionSort _ _

theorem ordered_sorted (selectors : List TargetSelector) :
    (ordered selectors).Pairwise fun a b => a.sortKey ≤ b.sortKey :=
  List.pairwise_insertionSort _ _

/-- The keys in order are the ordered keys. -/
theorem ordered_keys (selectors : List TargetSelector) :
    (ordered selectors).map sortKey = (selectors.map sortKey).insertionSort (· ≤ ·) :=
  List.map_insertionSort _ _ sortKey selectors fun _ _ _ _ => Iff.rfl

/-- The accounts counted are the distinct ones. -/
theorem accountCount_eq (selectors : List TargetSelector) :
    accountCount selectors =
      (selectors.map fun selector => lower selector.account).dedup.length := by
  have hsorted := List.pairwise_insertionSort (· ≤ ·)
    (selectors.map fun selector => lower selector.account)
  rw [accountCount, hsorted.destutter_eq_dedup]
  exact ((List.perm_insertionSort _ _).dedup).length_eq

/-- Keys in order that differ from their neighbours all differ. -/
theorem ordered_distinct
    (h : (ordered selectors).IsChain fun a b => a.sortKey ≠ b.sortKey) :
    ((ordered selectors).map sortKey).Nodup := by
  have hchain : ((ordered selectors).map sortKey).IsChain (· ≠ ·) := by
    rw [List.isChain_map]
    exact h
  have hsorted : ((ordered selectors).map sortKey).Pairwise (· ≤ ·) := by
    rw [List.pairwise_map]
    exact ordered_sorted selectors
  rw [← List.dedup_eq_self, ← hsorted.destutter_eq_dedup, List.destutter_eq_self_iff]
  exact hchain

theorem new_eq_ok : new selectors = .ok policy ↔
    selectors ≠ [] ∧ selectors.length ≤ maxSelectors ∧
      ((ordered selectors).IsChain fun a b => a.sortKey ≠ b.sortKey) ∧
      accountCount (ordered selectors) ≤ maxAccounts ∧ ⟨ordered selectors⟩ = policy := by
  simp only [new, bind_eq_ok, ensure_eq_ok, pure_eq_ok, exists_and_left, exists_const]

/-- Whatever list it is built from, a policy is canonical. -/
theorem new_canonical (h : new selectors = .ok policy) : policy.Canonical := by
  obtain ⟨hnonempty, hsize, hchain, haccounts, rfl⟩ := new_eq_ok.mp h
  have hperm := ordered_perm selectors
  refine ⟨?_, ?_, ordered_sorted selectors, ?_, ?_⟩
  · intro hnil
    rw [show ordered selectors = [] from hnil] at hperm
    exact hnonempty hperm.symm.eq_nil
  · exact hperm.length_eq.trans_le hsize
  · have hdistinct := ordered_distinct hchain
    rw [List.Nodup, List.pairwise_map] at hdistinct
    apply hdistinct.imp
    intro a b hne hsame
    exact hne ((sortKey_eq_iff a b).mpr hsame)
  · rw [← accountCount_eq]
    exact haccounts

/-- Building goes by the set of selectors, not by their order. -/
theorem new_perm (hperm : other.Perm selectors) : new other = new selectors := by
  have hkeys : (ordered other).map sortKey = (ordered selectors).map sortKey := by
    rw [ordered_keys, ordered_keys]
    apply List.Perm.eq_of_pairwise' (List.pairwise_insertionSort (· ≤ ·) _)
      (List.pairwise_insertionSort (· ≤ ·) _)
    exact ((List.perm_insertionSort _ _).trans (hperm.map sortKey)).trans
      (List.perm_insertionSort _ _).symm
  have hchains : ((ordered other).IsChain fun a b => a.sortKey ≠ b.sortKey) ↔
      (ordered selectors).IsChain fun a b => a.sortKey ≠ b.sortKey := by
    rw [← List.isChain_map (R := (· ≠ ·)) sortKey, hkeys, List.isChain_map]
  have hnil : other ≠ [] ↔ selectors ≠ [] := by
    rw [not_iff_not]
    constructor
    · rintro rfl
      exact hperm.symm.eq_nil
    · rintro rfl
      exact hperm.eq_nil
  by_cases hchain : (ordered selectors).IsChain fun a b => a.sortKey ≠ b.sortKey
  · have hboth : (ordered other).Perm (ordered selectors) :=
      (ordered_perm other).trans (hperm.trans (ordered_perm selectors).symm)
    have hinjective := List.inj_on_of_nodup_map (ordered_distinct hchain)
    have hsame : ordered other = ordered selectors := by
      apply hboth.eq_of_pairwise _ (ordered_sorted other) (ordered_sorted selectors)
      intro a b ha hb hab hba
      exact hinjective (hboth.mem_iff.mp ha) hb (le_antisymm hab hba)
    simp only [new, hsame, hnil, hperm.length_eq]
  · simp only [new, hnil, hperm.length_eq, ensure, hchains, if_neg hchain]
    rfl

/-! ## Both routes -/

/-- A list of selectors that the constructors returned is read back as it stands. -/
theorem fromJson_toJson (hnames : ∀ selector ∈ selectors, selector.WellFormed) :
    fromJson (toJson ⟨selectors⟩) = some ⟨selectors⟩ := by
  have hread : (selectors.map TargetSelector.toJson).mapM TargetSelector.fromJson =
      some selectors := by
    induction selectors with
    | nil => rfl
    | cons selector rest ih =>
      have hselector := TargetSelector.fromJson_toJson (hnames selector List.mem_cons_self)
      have hrest := ih fun s hs => hnames s (List.mem_cons_of_mem _ hs)
      rw [List.map_cons, List.mapM_cons, hselector, hrest]
      rfl
  simp [fromJson, toJson, Json.asArray, hread]

/-- The policy of a list of selectors is the same one, in canonical form, by either route and
whatever the order of the list. -/
structure BuiltAlike (selectors : List TargetSelector) : Prop where
  built : ∀ other : List TargetSelector, other.Perm selectors → new other = new selectors
  read : ∀ other : List TargetSelector, other.Perm selectors →
    fromJson (toJson ⟨other⟩) = fromJson (toJson ⟨selectors⟩)
  routes : fromJson (toJson ⟨selectors⟩) = (new selectors).toOption
  canonical : ∀ policy, new selectors = .ok policy ∨ fromJson (toJson ⟨selectors⟩) = some policy →
    policy.Canonical

theorem new_singleton (selector : TargetSelector) : new [selector] = .ok ⟨[selector]⟩ := by
  have hordered : ordered [selector] = [selector] := rfl
  rw [new_eq_ok, hordered, accountCount_eq]
  simp [maxSelectors, maxAccounts]

/-- Lists of one selector are treated alike by both routes, and no others. -/
theorem built_alike_iff (selectors : List TargetSelector)
    (hnames : ∀ selector ∈ selectors, selector.WellFormed) :
    BuiltAlike selectors ↔ selectors.length = 1 := by
  have hread := fromJson_toJson hnames
  constructor
  · intro halike
    have hcanonical := halike.canonical ⟨selectors⟩ (.inr hread)
    match selectors, hcanonical with
    | [], hcanonical => exact absurd rfl hcanonical.nonempty
    | [_], _ => rfl
    | first :: second :: rest, hcanonical =>
      have hswap : (second :: first :: rest).Perm (first :: second :: rest) := .swap first second rest
      have hother := fromJson_toJson fun s hs => hnames s (hswap.mem_iff.mp hs)
      have hsame := halike.read _ hswap
      rw [hother, hread] at hsame
      have hequal : second = first := by
        simp only [Option.some.injEq, TargetPolicy.mk.injEq, List.cons.injEq] at hsame
        exact hsame.1
      have hdistinct := List.rel_of_pairwise_cons hcanonical.distinct List.mem_cons_self
      rw [hequal, ← sortKey_eq_iff] at hdistinct
      exact absurd rfl hdistinct
  · intro hlength
    obtain ⟨selector, rfl⟩ := List.length_eq_one_iff.mp hlength
    have hnew := new_singleton selector
    refine ⟨fun other hperm => new_perm hperm, ?_, ?_, ?_⟩
    · intro other hperm
      rw [hperm.eq_singleton]
    · rw [hread, hnew]
      rfl
    · rintro policy (hbuilt | hparsed)
      · exact new_canonical hbuilt
      · rw [hread] at hparsed
        cases hparsed
        exact new_canonical hnew

theorem built_alike_iff_sample :
    BuiltAlike [.organization "acme"] ↔ [TargetSelector.organization "acme"].length = 1 :=
  built_alike_iff [.organization "acme"] (by decide +kernel)

/-- Two selectors out of order are read as a policy that is out of order. -/
theorem unordered_policy_read :
    ¬ BuiltAlike [.organization "beta", .organization "acme"] := by
  intro halike
  have hread : fromJson (toJson ⟨[.organization "beta", .organization "acme"]⟩) =
      some ⟨[.organization "beta", .organization "acme"]⟩ :=
    fromJson_toJson (by decide +kernel)
  have hsorted := (halike.canonical _ (.inr hread)).sorted
  revert hsorted
  decide +kernel

end TargetPolicy

end Registry

end Shaula
