import Mathlib.Data.List.Nodup
import Shaula.Registry.AuthPolicy

/-! # Resolving a target to one installation

Several selectors of one policy may admit a target, and each is routed by the binding of its
account.  Every one of them addresses the owner of the target, so the order in which selectors and
bindings are listed cannot matter.
-/

namespace Shaula

namespace Registry

/-! ## Names up to case -/

/-- The text in the case that logins are compared in. -/
def foldedName (value : String) : List Char := value.toList.map Char.toLower

theorem eqIgnoreAsciiCase_iff {a b : String} :
    eqIgnoreAsciiCase a b = true ↔ foldedName a = foldedName b := by
  simp [eqIgnoreAsciiCase, foldedName]

/-- A selector that admits a target addresses the account that owns it. -/
theorem TargetSelector.account_of_allows {selector : TargetSelector} {target : GitHubTarget}
    (h : selector.allows target = true) :
    foldedName selector.account = foldedName target.owner := by
  rw [← eqIgnoreAsciiCase_iff]
  cases selector <;> cases target <;>
    simp_all [TargetSelector.allows, TargetSelector.account, GitHubTarget.owner]

/-! ## Bindings -/

/-- No two bindings are for one login. -/
def DistinctLogins (bindings : List AccountBinding) : Prop :=
  (bindings.map fun binding => foldedName binding.login).Nodup

instance (bindings : List AccountBinding) : Decidable (DistinctLogins bindings) :=
  inferInstanceAs (Decidable (List.Nodup _))

/-- Whether two bindings lead to one account through one installation. -/
def AccountBinding.SameRoute (a b : AccountBinding) : Prop :=
  a.accountId = b.accountId ∧ a.installationId = b.installationId

instance (a b : AccountBinding) : Decidable (a.SameRoute b) :=
  inferInstanceAs (Decidable (_ ∧ _))

/-- Whether the context names the account and the installation of a binding. -/
def ResolvedAuthContext.RoutedBy (context : ResolvedAuthContext) (binding : AccountBinding) :
    Prop :=
  context.accountId = binding.accountId ∧ context.accountKind = binding.accountKind ∧
    context.login = binding.login ∧ context.installationId = binding.installationId

/-- The binding that routes an account. -/
def bindingFor (bindings : List AccountBinding) (account : String) : Option AccountBinding :=
  bindings.find? (·.accountMatches account)

section

variable {bindings other : List AccountBinding} {account : String} {a b : AccountBinding}

theorem accountMatches_iff :
    b.accountMatches account = true ↔ foldedName b.login = foldedName account :=
  eqIgnoreAsciiCase_iff

theorem bindingFor_congr {account' : String} (h : foldedName account = foldedName account') :
    bindingFor bindings account = bindingFor bindings account' := by
  have hmatches : (fun b : AccountBinding => b.accountMatches account) =
      fun b => b.accountMatches account' := by
    funext b
    rw [Bool.eq_iff_iff, accountMatches_iff, accountMatches_iff, h]
  simp only [bindingFor, hmatches]

theorem mem_of_bindingFor (h : bindingFor bindings account = some b) :
    b ∈ bindings ∧ b.accountMatches account = true :=
  ⟨List.mem_of_find?_eq_some h, by simpa using List.find?_some h⟩

/-- An account has one binding. -/
theorem DistinctLogins.unique (h : DistinctLogins bindings) (ha : a ∈ bindings) (hb : b ∈ bindings)
    (hlogin : foldedName a.login = foldedName b.login) : a = b :=
  List.inj_on_of_nodup_map h ha hb hlogin

theorem DistinctLogins.bindingFor_eq_some_iff (h : DistinctLogins bindings) :
    bindingFor bindings account = some b ↔ b ∈ bindings ∧ b.accountMatches account = true := by
  constructor
  · exact mem_of_bindingFor
  · rintro ⟨hb, hmatches⟩
    cases hfound : bindingFor bindings account with
    | none =>
      have hnone := List.find?_eq_none.mp hfound b hb
      contradiction
    | some a =>
      obtain ⟨ha, hamatches⟩ := mem_of_bindingFor hfound
      rw [accountMatches_iff] at hmatches hamatches
      rw [h.unique ha hb (hamatches.trans hmatches.symm)]

/-- The order of the bindings does not matter where logins are distinct. -/
theorem DistinctLogins.bindingFor_perm (h : DistinctLogins bindings) (hperm : other.Perm bindings) :
    bindingFor other account = bindingFor bindings account := by
  have hother : DistinctLogins other := (hperm.map _).nodup_iff.mpr h
  apply Option.ext
  intro b
  rw [hother.bindingFor_eq_some_iff, h.bindingFor_eq_some_iff, hperm.mem_iff]

end

/-! ## Routes -/

section

variable {bindings : List AccountBinding} {selectors : List TargetSelector}
  {route : AccountBinding}

/-- Whether every selector has a binding. -/
def Bound (bindings : List AccountBinding) (selectors : List TargetSelector) : Prop :=
  ∀ selector ∈ selectors, ∃ binding, bindingFor bindings selector.account = some binding

/-- Once a route is found, one selector that leads elsewhere makes the target ambiguous. -/
theorem resolveRoute_some_of_disagree (hbound : Bound bindings selectors)
    (h : ∃ selector ∈ selectors, ∃ binding, bindingFor bindings selector.account = some binding ∧
      ¬ route.SameRoute binding) :
    resolveRoute bindings selectors (some route) = .error .ambiguousInstallation := by
  induction selectors with
  | nil =>
    obtain ⟨_, hmem, _⟩ := h
    exact absurd hmem List.not_mem_nil
  | cons selector rest ih =>
    obtain ⟨found, hfound⟩ := hbound selector List.mem_cons_self
    have hfind : bindings.find? (·.accountMatches selector.account) = some found := hfound
    simp only [resolveRoute, hfind]
    split_ifs with hroute
    · rfl
    · apply ih
      · intro other hother
        exact hbound other (List.mem_cons_of_mem _ hother)
      · obtain ⟨other, hother, binding, hbinding, hdiffers⟩ := h
        rcases List.mem_cons.mp hother with rfl | hother
        · rw [hfound] at hbinding
          cases hbinding
          simp only [AccountBinding.SameRoute] at hdiffers
          tauto
        · exact ⟨other, hother, binding, hbinding, hdiffers⟩

/-- Two selectors that lead to different installations make the target ambiguous, wherever in the
list they stand. -/
theorem resolveRoute_of_disagree (hbound : Bound bindings selectors)
    {s t : TargetSelector} (hs : s ∈ selectors) (ht : t ∈ selectors) {a b : AccountBinding}
    (ha : bindingFor bindings s.account = some a) (hb : bindingFor bindings t.account = some b)
    (hdiffers : ¬ a.SameRoute b) :
    resolveRoute bindings selectors none = .error .ambiguousInstallation := by
  cases selectors with
  | nil => exact absurd hs List.not_mem_nil
  | cons selector rest =>
    obtain ⟨found, hfound⟩ := hbound selector List.mem_cons_self
    have hfind : bindings.find? (·.accountMatches selector.account) = some found := hfound
    simp only [resolveRoute, hfind]
    apply resolveRoute_some_of_disagree
    · intro other hother
      exact hbound other (List.mem_cons_of_mem _ hother)
    · by_contra hagree
      push Not at hagree
      -- The first selector's route is the route of each of the two.
      have hsame {u : TargetSelector} (hu : u ∈ selector :: rest) {c : AccountBinding}
          (hc : bindingFor bindings u.account = some c) : found.SameRoute c := by
        rcases List.mem_cons.mp hu with rfl | hu
        · rw [hfound] at hc
          cases hc
          exact ⟨rfl, rfl⟩
        · exact hagree u hu c hc
      obtain ⟨hacc, hinst⟩ := hsame hs ha
      obtain ⟨hacc', hinst'⟩ := hsame ht hb
      exact hdiffers ⟨hacc.symm.trans hacc', hinst.symm.trans hinst'⟩

theorem resolveRoute_some_of_agree
    (h : ∀ selector ∈ selectors, bindingFor bindings selector.account = some route) :
    resolveRoute bindings selectors (some route) = .ok route := by
  induction selectors with
  | nil => rfl
  | cons selector rest ih =>
    have hfind : bindings.find? (·.accountMatches selector.account) = some route :=
      h selector List.mem_cons_self
    simp only [resolveRoute, hfind]
    rw [if_neg (by simp)]
    exact ih fun other hother => h other (List.mem_cons_of_mem _ hother)

end

/-! ## Targets -/

section

variable {profileKey appId : String} {revision : Int} {policy : TargetPolicy}
  {bindings : List AccountBinding} {target : GitHubTarget}

theorem bindingFor_of_mem_matching {selector : TargetSelector}
    (h : selector ∈ policy.matching target) :
    bindingFor bindings selector.account = bindingFor bindings target.owner := by
  apply bindingFor_congr
  simp only [TargetPolicy.matching, List.mem_filter] at h
  exact TargetSelector.account_of_allows h.2

/-- The route of a target is the binding of its owner, where a selector admits it at all. -/
theorem resolveRoute_matching :
    resolveRoute bindings (policy.matching target) none =
      if policy.allows target then
        match bindingFor bindings target.owner with
        | some binding => .ok binding
        | none => .error .noMatchingSelector
      else .error .noMatchingSelector := by
  have hall (selector : TargetSelector) (h : selector ∈ policy.matching target) :
      bindingFor bindings selector.account = bindingFor bindings target.owner :=
    bindingFor_of_mem_matching h
  cases hmatching : policy.matching target with
  | nil =>
    rw [TargetPolicy.matching_eq_nil] at hmatching
    simp [hmatching, resolveRoute]
  | cons selector rest =>
    have hallowed : policy.allows target = true := by
      by_contra hrefused
      rw [Bool.not_eq_true, ← TargetPolicy.matching_eq_nil, hmatching] at hrefused
      contradiction
    rw [hmatching] at hall
    have hfirst := hall selector List.mem_cons_self
    rw [if_pos hallowed]
    cases hbinding : bindingFor bindings target.owner with
    | none =>
      rw [hbinding] at hfirst
      have hfind : bindings.find? (·.accountMatches selector.account) = none := hfirst
      simp only [resolveRoute, hfind]
    | some binding =>
      rw [hbinding] at hfirst hall
      have hfind : bindings.find? (·.accountMatches selector.account) = some binding := hfirst
      simp only [resolveRoute, hfind]
      apply resolveRoute_some_of_agree
      intro other hother
      exact hall other (List.mem_cons_of_mem _ hother)

theorem allows_perm {other : TargetPolicy} (h : other.selectors.Perm policy.selectors) :
    other.allows target = policy.allows target := by
  rw [Bool.eq_iff_iff, TargetPolicy.allows, TargetPolicy.allows, List.any_eq_true, List.any_eq_true]
  constructor
  · rintro ⟨selector, hmem, hallows⟩
    exact ⟨selector, h.mem_iff.mp hmem, hallows⟩
  · rintro ⟨selector, hmem, hallows⟩
    exact ⟨selector, h.mem_iff.mpr hmem, hallows⟩

theorem resolveDesiredContext_perm (h : DistinctLogins bindings) {policy' : TargetPolicy}
    {bindings' : List AccountBinding} (hpolicy : policy'.selectors.Perm policy.selectors)
    (hbindings : bindings'.Perm bindings) :
    resolveDesiredContext profileKey revision appId policy' bindings' target =
      resolveDesiredContext profileKey revision appId policy bindings target := by
  simp only [resolveDesiredContext, resolveRoute_matching, allows_perm hpolicy,
    h.bindingFor_perm hbindings]

/-- A resolved target is routed by the binding of its owner. -/
theorem bindingFor_of_resolved {context : ResolvedAuthContext}
    (h : resolveDesiredContext profileKey revision appId policy bindings target =
      .resolved context) :
    policy.allows target = true ∧ ∃ binding, bindingFor bindings target.owner = some binding ∧
      context.RoutedBy binding := by
  rw [resolveDesiredContext, resolveRoute_matching] at h
  cases hallowed : policy.allows target with
  | false => simp [hallowed] at h
  | true =>
    rw [hallowed, if_pos rfl] at h
    cases hbinding : bindingFor bindings target.owner with
    | none => simp [hbinding] at h
    | some binding =>
      simp only [hbinding, DesiredContextResolution.resolved.injEq] at h
      subst h
      exact ⟨rfl, binding, rfl, rfl, rfl, rfl, rfl⟩

/-- Where no two bindings are for one login, the resolution of a target depends on the sets of
selectors and bindings alone, and it never picks one of several routes. -/
theorem resolution_never_guesses (h : DistinctLogins bindings) :
    (∀ policy' bindings', policy'.selectors.Perm policy.selectors → bindings'.Perm bindings →
      resolveDesiredContext profileKey revision appId policy' bindings' target =
        resolveDesiredContext profileKey revision appId policy bindings target) ∧
    (∀ context, resolveDesiredContext profileKey revision appId policy bindings target =
        .resolved context →
      policy.matching target ≠ [] ∧ ∀ selector ∈ policy.matching target,
        (∃ binding ∈ bindings, binding.accountMatches selector.account = true) ∧
        ∀ binding ∈ bindings, binding.accountMatches selector.account = true →
          context.RoutedBy binding) ∧
    (∀ s ∈ policy.matching target, ∀ t ∈ policy.matching target, ∀ a ∈ bindings, ∀ b ∈ bindings,
      a.accountMatches s.account = true → b.accountMatches t.account = true → ¬ a.SameRoute b →
      resolveDesiredContext profileKey revision appId policy bindings target =
        .ambiguousInstallation) ∧
    (policy.matching target = [] →
      resolveDesiredContext profileKey revision appId policy bindings target =
        .noMatchingSelector) := by
  refine ⟨fun _ _ => resolveDesiredContext_perm h, ?resolved, ?ambiguous, ?unmatched⟩
  case resolved =>
    intro context hresolved
    obtain ⟨hallowed, binding, hbinding, hrouted⟩ := bindingFor_of_resolved hresolved
    constructor
    · intro hnone
      rw [TargetPolicy.matching_eq_nil, hallowed] at hnone
      contradiction
    · intro selector hselector
      rw [← bindingFor_of_mem_matching hselector] at hbinding
      refine ⟨⟨binding, mem_of_bindingFor hbinding⟩, ?_⟩
      intro other hother hmatches
      rw [h.bindingFor_eq_some_iff.mpr ⟨hother, hmatches⟩] at hbinding
      cases hbinding
      exact hrouted
  case ambiguous =>
    intro s hs t ht a ha b hb hamatches hbmatches hdiffers
    have hsbound := h.bindingFor_eq_some_iff.mpr ⟨ha, hamatches⟩
    have htbound := h.bindingFor_eq_some_iff.mpr ⟨hb, hbmatches⟩
    have hbound : Bound bindings (policy.matching target) := by
      intro selector hselector
      rw [bindingFor_of_mem_matching hs] at hsbound
      exact ⟨a, (bindingFor_of_mem_matching hselector).trans hsbound⟩
    rw [resolveDesiredContext, resolveRoute_of_disagree hbound hs ht hsbound htbound hdiffers]
  case unmatched =>
    intro hnone
    rw [resolveDesiredContext, hnone, resolveRoute]

def samplePolicy : TargetPolicy :=
  ⟨[.accountRepositories .user "ACME", .repository "acme" "web", .organization "beta"]⟩

def sampleBindings : List AccountBinding :=
  [⟨9, .organization, "Beta", 90⟩, ⟨7, .user, "Acme", 42⟩]

/-- Two selectors of different kinds admit one repository, and the accounts of both policy and
bindings are written in different cases; another account's repository is admitted by none. -/
theorem resolution_never_guesses_sample :
    resolveDesiredContext "shared" 3 "12" samplePolicy sampleBindings (.repository "acMe" "Web") =
      resolveDesiredContext "shared" 3 "12"
        ⟨[.organization "beta", .accountRepositories .user "ACME", .repository "acme" "web"]⟩
        [⟨7, .user, "Acme", 42⟩, ⟨9, .organization, "Beta", 90⟩] (.repository "acMe" "Web") ∧
    (∃ context, resolveDesiredContext "shared" 3 "12" samplePolicy sampleBindings
        (.repository "acMe" "Web") = .resolved context ∧
      (samplePolicy.matching (.repository "acMe" "Web")).length = 2 ∧
      ∀ selector ∈ samplePolicy.matching (.repository "acMe" "Web"),
        (∃ binding ∈ sampleBindings, binding.accountMatches selector.account = true) ∧
        ∀ binding ∈ sampleBindings, binding.accountMatches selector.account = true →
          context.RoutedBy binding) ∧
    resolveDesiredContext "shared" 3 "12" samplePolicy sampleBindings (.repository "gamma" "web") =
      .noMatchingSelector := by
  have hdistinct : DistinctLogins sampleBindings := by decide
  have hpolicy : TargetPolicy.selectors ⟨[.organization "beta", .accountRepositories .user "ACME",
      .repository "acme" "web"]⟩ |>.Perm samplePolicy.selectors := by decide
  have hbindings : [⟨7, .user, "Acme", 42⟩, ⟨9, .organization, "Beta", 90⟩].Perm
      sampleBindings := by
    decide
  refine ⟨((resolution_never_guesses hdistinct).1 _ _ hpolicy hbindings).symm,
    ⟨_, rfl, by decide, ?_⟩, (resolution_never_guesses hdistinct).2.2.2 (by decide)⟩
  exact ((resolution_never_guesses hdistinct).2.1 _ rfl).2

end

end Registry

end Shaula
