import Shaula.AccessTokens.Store
import Shaula.Library.RateWindow

/-! # What transactions keep of the registry

The columns of a token mirror its record, every token was issued by exactly one request of its owner,
and the times of the issues are paced.  A token keeps its row, and a revoked one stays revoked.
-/

namespace Shaula.AccessTokens

open Core Library Library.Outcome

/-- The columns of a row are those of its record. -/
structure TokenRow.Mirrors (id : String) (row : TokenRow) : Prop where
  id : row.record.id = id
  owner : row.owner = row.record.ownerPrincipal
  createdAt : row.createdAt = row.record.createdAtMs
  expiresAt : row.expiresAt = row.record.expiresAtMs
  revokedAt : row.revokedAt = row.record.revokedAtMs

namespace TokenStore

variable {s s' : TokenStore} {r r' : TokenRecord} {key hash id owner : String} {created : Bool}
  {policy : TokenPolicy} {actor : Actor} {revision : Option Int} {now : Int}

structure Sound (s : TokenStore) : Prop where
  mirrors : ∀ id row, s.tokens.find id = some row → row.Mirrors id
  issued : ∀ issue ∈ s.issues, ∃ row, s.tokens.find issue.tokenId = some row ∧
    row.owner = issue.owner ∧ row.createdAt = issue.createdAt
  /-- A token has its request. -/
  requested : ∀ id row, s.tokens.find id = some row → ∃ issue ∈ s.issues, issue.tokenId = id
  keys : (s.issues.map fun issue => (issue.owner, issue.idempotencyKey)).Nodup
  ids : (s.issues.map IssueRow.tokenId).Nodup
  paced : Paced 100 60000 (s.issues.map IssueRow.createdAt)
  pacedOf : ∀ owner, Paced 5 60000
    ((s.issues.filter fun issue => issue.owner = owner).map IssueRow.createdAt)

/-- Later tables: no token and no issue is lost, and no revocation is taken back. -/
structure Grows (s s' : TokenStore) : Prop where
  tokens : ∀ id row, s.tokens.find id = some row → ∃ row', s'.tokens.find id = some row' ∧
    (row.revokedAt.isSome → row'.revokedAt.isSome)
  issues : s.issues <:+ s'.issues

namespace Grows

theorem refl (s : TokenStore) : s.Grows s := ⟨fun _ row h => ⟨row, h, id⟩, List.suffix_refl _⟩

theorem trans {s'' : TokenStore} (h : s.Grows s') (h' : s'.Grows s'') : s.Grows s'' where
  tokens id row hrow := by
    obtain ⟨row', hrow', hrevoked⟩ := h.tokens id row hrow
    obtain ⟨row'', hrow'', hrevoked'⟩ := h'.tokens id row' hrow'
    exact ⟨row'', hrow'', hrevoked' ∘ hrevoked⟩
  issues := h.issues.trans h'.issues

end Grows

/-! ## Issuing -/

/-- What an issuing transaction does: it answers the token of an earlier issue under the key, or it
commits a new token. -/
inductive Issued (s : TokenStore) (r : TokenRecord) (key hash : String) (policy : TokenPolicy) :
    TokenStore → TokenRecord → Bool → Prop
  | replayed {issued : IssueRow} {existing : TokenRecord} :
      s.findIssue r.ownerPrincipal key = some issued → issued.requestHash = hash →
      s.find issued.tokenId = some existing → Issued s r key hash policy s existing false
  | created : s.findIssue r.ownerPrincipal key = none →
      (s.recent r.createdAtMs).length < 100 →
      ((s.recent r.createdAtMs).filter fun issue => issue.owner = r.ownerPrincipal).length < 5 →
      s.live r.createdAtMs < policy.maxActiveTotal →
      s.liveOf r.ownerPrincipal r.createdAtMs < policy.maxActivePerPrincipal →
      s.tokens.find r.id = none →
      Issued s r key hash policy
        ⟨s.tokens.put r.id (.ofRecord r),
          ⟨r.ownerPrincipal, key, hash, r.id, r.createdAtMs⟩ :: s.issues⟩ r true

theorem issued_of_issue (h : s.issue r key hash policy = .ok (s', r', created)) :
    Issued s r key hash policy s' r' created := by
  unfold issue at h
  split at h
  · next issued hissued =>
    simp only [bind_eq_ok, ensure_eq_ok, okOr_eq_ok, pure_eq_ok, Prod.mk.injEq,
      exists_const] at h
    obtain ⟨hhash, existing, hexisting, rfl, rfl, rfl⟩ := h
    exact .replayed hissued hhash hexisting
  · next hnone =>
    simp only [bind_eq_ok, ensure_eq_ok, okOr_eq_ok, pure_eq_ok, Prod.mk.injEq,
      exists_const] at h
    obtain ⟨-, ⟨hglobal, hpersonal⟩, ⟨htotal, howned⟩, tokens, htokens, rfl, rfl, rfl⟩ := h
    obtain ⟨hfree, rfl⟩ := Table.create_eq_some.mp htokens
    exact .created hnone hglobal hpersonal htotal howned hfree

theorem find_eq_some : s.find id = some r ↔
    ∃ row, s.tokens.find id = some row ∧ row.toRecord = r := Option.map_eq_some_iff

theorem findIssue_eq_some {issued : IssueRow} (h : s.findIssue owner key = some issued) :
    issued ∈ s.issues ∧ issued.owner = owner ∧ issued.idempotencyKey = key := by
  have hfound := List.find?_some h
  simp only [Bool.and_eq_true, decide_eq_true_eq] at hfound
  exact ⟨List.mem_of_find?_eq_some h, hfound⟩

theorem findIssue_eq_none (h : s.findIssue owner key = none) :
    (owner, key) ∉ s.issues.map fun issue => (issue.owner, issue.idempotencyKey) := by
  intro hmem
  obtain ⟨issue, hissue, heq⟩ := List.mem_map.mp hmem
  obtain ⟨rfl, rfl⟩ := Prod.mk.inj heq
  have hfound := List.find?_eq_none.mp h issue hissue
  simp at hfound

/-- Under a key that was used, the recorded request decides. -/
theorem Sound.issue_of_used (h : s.Sound) {issued : IssueRow} (hissued : issued ∈ s.issues)
    (howner : issued.owner = r.ownerPrincipal) (hkey : issued.idempotencyKey = key) (hash : String)
    (policy : TokenPolicy) :
    ∃ existing, s.find issued.tokenId = some existing ∧ existing.id = issued.tokenId ∧
      s.issue r key hash policy =
        if issued.requestHash = hash then .ok (s, existing, false) else .error .conflict := by
  obtain ⟨row, hrow, -, -⟩ := h.issued issued hissued
  have hfind : s.findIssue r.ownerPrincipal key = some issued := by
    cases hfound : s.findIssue r.ownerPrincipal key with
    | none =>
      refine absurd (List.mem_map.mpr ⟨issued, hissued, ?_⟩) (findIssue_eq_none hfound)
      rw [howner, hkey]
    | some found =>
      obtain ⟨hmem, howner', hkey'⟩ := findIssue_eq_some hfound
      refine congrArg some (List.inj_on_of_nodup_map h.keys hmem hissued ?_)
      rw [howner', hkey', howner, hkey]
  have hexisting : s.find issued.tokenId = some row.toRecord := find_eq_some.mpr ⟨row, hrow, rfl⟩
  refine ⟨row.toRecord, hexisting, (h.mirrors _ row hrow).id, ?_⟩
  simp only [issue, hfind, hexisting, okOr]
  by_cases hhash : issued.requestHash = hash
  · rw [if_pos hhash, ensure, if_pos hhash]
    rfl
  · rw [if_neg hhash, ensure, if_neg hhash]
    rfl

theorem Issued.grows (h : Issued s r key hash policy s' r' created) : s.Grows s' := by
  cases h with
  | replayed => exact .refl s
  | created _ _ _ _ _ hfree =>
    refine ⟨fun id row hrow => ⟨row, ?_, fun hrevoked => hrevoked⟩, List.suffix_cons _ _⟩
    rw [Table.find_put, if_neg]
    · exact hrow
    · rintro rfl
      cases hfree.symm.trans hrow

theorem Issued.sound (h : Issued s r key hash policy s' r' created) (hs : s.Sound)
    (hnow : 0 ≤ r.createdAtMs ∧ r.createdAtMs ≤ i64Max) (hopen : r.revokedAtMs = none) :
    s'.Sound := by
  cases h with
  | replayed => exact hs
  | created hnone hglobal hpersonal _ _ hfree =>
    have hother : ∀ id row, s.tokens.find id = some row → id ≠ r.id := by
      rintro id row hrow rfl
      cases hfree.symm.trans hrow
    -- Readings of the clock are far from the smallest column value.
    have hsince : saturatingSub r.createdAtMs 60000 = r.createdAtMs - 60000 := by
      unfold saturatingSub i64Max at *
      omega
    have hrecent : ∀ issues : List IssueRow,
        (issues.filter fun issue => saturatingSub r.createdAtMs 60000 < issue.createdAt).length =
          (issues.map IssueRow.createdAt).countP (fun t => r.createdAtMs - 60000 < t) := by
      intro issues
      rw [hsince, ← List.countP_eq_length_filter, List.countP_map]
      rfl
    refine ⟨?_, ?_, ?_, ?_, ?_, ?_, fun owner => ?_⟩
    · intro id row hrow
      rw [Table.find_put] at hrow
      split at hrow
      · next hid =>
        cases hrow
        exact ⟨hid.symm, rfl, rfl, rfl, hopen.symm⟩
      · exact hs.mirrors id row hrow
    · intro issue hissue
      rcases List.mem_cons.mp hissue with rfl | hissue
      · exact ⟨_, by rw [Table.find_put, if_pos rfl], rfl, rfl⟩
      · obtain ⟨row, hrow, hrest⟩ := hs.issued issue hissue
        exact ⟨row, by rw [Table.find_put, if_neg (hother _ row hrow), hrow], hrest⟩
    · intro id row hrow
      rw [Table.find_put] at hrow
      split at hrow
      · next hid => exact ⟨_, List.mem_cons_self, hid.symm⟩
      · obtain ⟨issue, hissue, hid⟩ := hs.requested id row hrow
        exact ⟨issue, List.mem_cons_of_mem _ hissue, hid⟩
    · exact List.nodup_cons.mpr ⟨findIssue_eq_none hnone, hs.keys⟩
    · refine List.nodup_cons.mpr ⟨fun hmem => ?_, hs.ids⟩
      obtain ⟨issue, hissue, hid⟩ := List.mem_map.mp hmem
      obtain ⟨row, hrow, -⟩ := hs.issued issue hissue
      exact hother _ row hrow hid
    · refine .cons ?_ hs.paced
      rw [← hrecent]
      exact hglobal
    · by_cases howner : r.ownerPrincipal = owner
      · subst howner
        rw [List.filter_cons_of_pos (by simp)]
        refine .cons ?_ (hs.pacedOf _)
        rw [← hrecent, List.filter_comm]
        exact hpersonal
      · rw [List.filter_cons_of_neg (by simpa using howner)]
        exact hs.pacedOf owner

theorem Issued.mem (h : Issued s r key hash policy s' r' true) :
    ⟨r.ownerPrincipal, key, hash, r.id, r.createdAtMs⟩ ∈ s'.issues := by
  cases h with
  | created => exact List.mem_cons_self

/-- A new token is within the limits of its policy. -/
theorem Issued.within (h : Issued s r key hash policy s' r' true) :
    s'.live r.createdAtMs ≤ policy.maxActiveTotal ∧
      s'.liveOf r.ownerPrincipal r.createdAtMs ≤ policy.maxActivePerPrincipal := by
  cases h with
  | created _ _ _ htotal howned hfree =>
    constructor
    · refine (Table.count_put hfree).trans_le ?_
      split
      · exact htotal
      · exact htotal.le
    · refine (Table.count_put hfree).trans_le ?_
      split
      · exact howned
      · exact howned.le

end TokenStore

end Shaula.AccessTokens
