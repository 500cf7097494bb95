import Shaula.Listener.AtMostOnce
import Mathlib.Order.Bounds.Basic

/-! # Messages are delivered in order, and their facts once

The messages of an epoch are ingested in the order of their ids, and acknowledged in that order.
What a message said is fixed when its job facts are stored, and these are stored once.
-/

namespace Shaula

open Library Library.Outcome Core Jobs Registry

namespace Listener

namespace ListenerStore

variable {δ : Type} {E : Encoding δ} {s t : ListenerStore δ} {fleet : String}
  {context : SessionEffectContext} {messageId epoch now id id' : Int} {message : PollMessage}
  {key : MessageKey} {row row' : MessageRow δ} {session : SessionRow} {op : Op}

/-! ## What a step does to a message -/

theorem find_markAcked :
    (s.markAcked fleet epoch messageId).messages.find key =
      (s.messages.find key).map fun row =>
        if key = (fleet, epoch, messageId) then { row with acked := true } else row := by
  simp [markAcked]

theorem find_upgradeDigest {digest : δ} :
    (s.upgradeDigest fleet epoch messageId digest).messages.find key =
      (s.messages.find key).map fun row =>
        if key = (fleet, epoch, messageId) ∧ row.payloadDigestVersion = 1 then
          { row with payloadDigest := digest, payloadDigestVersion := 2 }
        else row := by
  simp [upgradeDigest]

/-- The same message: its authority stays, its contents too once they are frozen, and an
acknowledgement is never taken back. -/
structure Persists (row row' : MessageRow δ) : Prop where
  incarnation : row'.incarnation = row.incarnation
  fleetRevision : row'.fleetRevision = row.fleetRevision
  mutationFence : row'.mutationFence = row.mutationFence
  context : row'.context = row.context
  acked : row.acked = true → row'.acked = true
  frozen : row.payloadDigestVersion = 2 →
    row'.payloadDigestVersion = 2 ∧ row'.payloadDigest = row.payloadDigest

theorem Persists.refl (row : MessageRow δ) : Persists row row :=
  ⟨rfl, rfl, rfl, rfl, id, fun hversion => ⟨hversion, rfl⟩⟩

theorem Persists.trans {row'' : MessageRow δ} (h : Persists row row') (h' : Persists row' row'') :
    Persists row row'' where
  incarnation := h'.incarnation.trans h.incarnation
  fleetRevision := h'.fleetRevision.trans h.fleetRevision
  mutationFence := h'.mutationFence.trans h.mutationFence
  context := h'.context.trans h.context
  acked hacked := h'.acked (h.acked hacked)
  frozen hversion := by
    obtain ⟨hversion', hdigest'⟩ := h.frozen hversion
    obtain ⟨hversion'', hdigest''⟩ := h'.frozen hversion'
    exact ⟨hversion'', hdigest''.trans hdigest'⟩

theorem Persists.under (h : Persists row row') (hunder : MessageRow.Under row context) :
    MessageRow.Under row' context :=
  ⟨h.incarnation.trans hunder.1, h.fleetRevision.trans hunder.2.1, h.mutationFence.trans hunder.2.2.1,
    h.context.trans hunder.2.2.2⟩

/-- No step loses a message. -/
theorem Effect.persists (heffect : Effect E s op t) (h : s.messages.find key = some row) :
    ∃ row', t.messages.find key = some row' ∧ Persists row row' := by
  cases heffect with
  | unchanged => exact ⟨row, h, .refl row⟩
  | @ingested fleet context message now answer t hcurrent hlikely hnone hingested =>
    have hne : key ≠ (fleet, context.epoch, message.messageId) := by
      rintro rfl
      cases h.symm.trans hnone
    refine ⟨row, ?_, .refl row⟩
    rw [hingested.messages, Table.find_put, if_neg hne, h]
  | @upgraded fleet context message now row₁ jobs hlikely hrow hunder hone hdigest hfacts =>
    rw [find_upgradeDigest]
    show ∃ row', (s.messages.find key).map _ = some row' ∧ _
    rw [h, Option.map_some]
    refine ⟨_, rfl, ?_⟩
    by_cases hkey : key = (fleet, context.epoch, message.messageId) ∧ row.payloadDigestVersion = 1
    · rw [if_pos hkey]
      refine ⟨rfl, rfl, rfl, rfl, id, fun hversion => ?_⟩
      rw [hkey.2] at hversion
      cases hversion
    · rw [if_neg hkey]
      exact .refl row
  | @acknowledged fleet context messageId session row₁ hsession hepoch hrow hearlier =>
    rw [find_markAcked, h, Option.map_some]
    refine ⟨_, rfl, ?_⟩
    by_cases hkey : key = (fleet, context.epoch, messageId)
    · rw [if_pos hkey]
      exact ⟨rfl, rfl, rfl, rfl, fun _ => rfl, fun hversion => ⟨hversion, rfl⟩⟩
    · rw [if_neg hkey]
      exact .refl row
  | started => exact ⟨row, h, .refl row⟩
  | completed hfind => exact ⟨row, h, .refl row⟩
  | @installed fleet install epoch hepoch =>
    rw [install_messages]
    exact ⟨row, h, .refl row⟩
  | cleared hsession => exact ⟨row, h, .refl row⟩
  | others => exact ⟨row, h, .refl row⟩

/-! ## Order -/

/-- Zero, or an acknowledged message of the session's epoch. -/
def Acked (s : ListenerStore δ) (fleet : String) (epoch id : Int) : Prop :=
  ∃ row, s.messages.find (fleet, epoch, id) = some row ∧ row.acked = true

/-- Messages are acknowledged in order, and a session points to the last one. -/
structure Ordered (s : ListenerStore δ) : Prop where
  positive : ∀ fleet epoch id row, s.messages.find (fleet, epoch, id) = some row → 0 < id
  ackPrefix : ∀ fleet epoch id id' row, s.messages.find (fleet, epoch, id) = some row → id < id' →
    Acked s fleet epoch id' → row.acked = true
  last : ∀ fleet session, s.sessions.find fleet = some session →
    IsGreatest {id | id = 0 ∨ Acked s fleet session.epoch id} session.lastMessageId
  known : ∀ fleet epoch id row, s.messages.find (fleet, epoch, id) = some row →
    ∃ session, s.sessions.find fleet = some session ∧ epoch ≤ session.epoch

/-- A store in which nothing is acknowledged, and no session points to a message. -/
theorem ordered_of_unacked
    (hmessages : ∀ fleet epoch id row, s.messages.find (fleet, epoch, id) = some row →
      0 < id ∧ row.acked = false ∧
        ∃ session, s.sessions.find fleet = some session ∧ epoch ≤ session.epoch)
    (hsessions : ∀ fleet session, s.sessions.find fleet = some session →
      session.lastMessageId = 0) : Ordered s where
  positive fleet epoch id row hrow := (hmessages fleet epoch id row hrow).1
  ackPrefix := by
    rintro fleet epoch id id' - - - ⟨row, hrow, hacked⟩
    obtain ⟨-, hnot, -⟩ := hmessages fleet epoch id' row hrow
    rw [hnot] at hacked
    cases hacked
  last fleet session hsession := by
    constructor
    · exact .inl (hsessions fleet session hsession)
    · rintro id (rfl | ⟨row, hrow, hacked⟩)
      · exact (hsessions fleet session hsession).ge
      · obtain ⟨-, hnot, -⟩ := hmessages fleet session.epoch id row hrow
        rw [hnot] at hacked
        cases hacked
  known fleet epoch id row hrow := (hmessages fleet epoch id row hrow).2.2

/-- An epoch that no session had yet has no messages. -/
theorem Ordered.fresh (h : Ordered s)
    (hsession : ∀ session, s.sessions.find fleet = some session → session.epoch < epoch) :
    s.messages.find (fleet, epoch, id) = none := by
  cases hfind : s.messages.find (fleet, epoch, id) with
  | none => rfl
  | some row =>
    obtain ⟨session, hfound, hle⟩ := h.known fleet epoch id row hfind
    have hlt := hsession session hfound
    omega

/-- A session that takes the place of the one before starts without acknowledged messages. -/
theorem Ordered.replaced (h : Ordered s) (hmessages : t.messages = s.messages)
    (hsessions : t.sessions = s.sessions.put fleet session) (hlast : session.lastMessageId = 0)
    (hepoch : ∀ previous, s.sessions.find fleet = some previous → previous.epoch < session.epoch) :
    Ordered t where
  positive := by
    rw [hmessages]
    exact h.positive
  ackPrefix := by
    unfold Acked
    rw [hmessages]
    exact h.ackPrefix
  last other found hfound := by
    rw [hsessions, Table.find_put] at hfound
    unfold Acked
    rw [hmessages]
    by_cases hfleet : other = fleet
    · rw [if_pos hfleet] at hfound
      cases hfound
      subst hfleet
      constructor
      · exact .inl hlast
      · rintro id (rfl | ⟨row, hrow, -⟩)
        · exact hlast.ge
        · cases (h.fresh hepoch).symm.trans hrow
    · rw [if_neg hfleet] at hfound
      exact h.last other found hfound
  known other epoch id row hrow := by
    rw [hmessages] at hrow
    rw [hsessions, Table.find_put]
    obtain ⟨previous, hfound, hle⟩ := h.known other epoch id row hrow
    by_cases hfleet : other = fleet
    · subst hfleet
      rw [if_pos rfl]
      exact ⟨session, rfl, hle.trans (hepoch previous hfound).le⟩
    · rw [if_neg hfleet]
      exact ⟨previous, hfound, hle⟩

/-- Acknowledgements and sessions are all the order depends on. -/
theorem Ordered.congr (h : Ordered s)
    (hmessages : ∀ key, (t.messages.find key).map (·.acked) = (s.messages.find key).map (·.acked))
    (hsessions : t.sessions = s.sessions) : Ordered t := by
  have hfind : ∀ key row', t.messages.find key = some row' →
      ∃ row, s.messages.find key = some row ∧ row.acked = row'.acked := by
    intro key row' hrow'
    have hkey := hmessages key
    rw [hrow', Option.map_some] at hkey
    exact Option.map_eq_some_iff.mp hkey.symm
  have hacked : ∀ fleet epoch id, Acked t fleet epoch id ↔ Acked s fleet epoch id := by
    intro fleet epoch id
    have hsame : ∀ u : ListenerStore δ, Acked u fleet epoch id ↔
        (u.messages.find (fleet, epoch, id)).map (·.acked) = some true :=
      fun u => Option.map_eq_some_iff.symm
    rw [hsame, hsame, hmessages]
  constructor
  · intro fleet epoch id row' hrow'
    obtain ⟨row, hrow, -⟩ := hfind _ row' hrow'
    exact h.positive fleet epoch id row hrow
  · intro fleet epoch id id' row' hrow' hlt hlater
    obtain ⟨row, hrow, heq⟩ := hfind _ row' hrow'
    rw [← heq]
    exact h.ackPrefix fleet epoch id id' row hrow hlt ((hacked _ _ _).mp hlater)
  · intro fleet session hsession
    rw [hsessions] at hsession
    simp only [hacked]
    exact h.last fleet session hsession
  · intro fleet epoch id row' hrow'
    obtain ⟨row, hrow, -⟩ := hfind _ row' hrow'
    rw [hsessions]
    exact h.known fleet epoch id row hrow

/-- A new message comes after those of its epoch, unacknowledged. -/
theorem Ordered.ingested {answer : Option IngestedMessage} (h : Ordered s)
    (hcurrent : s.listenerContextCurrent fleet context = .ok true) (hpositive : 0 < message.messageId)
    (hingested : Ingested E s fleet context message now answer t) : Ordered t := by
  obtain ⟨session, hsession, hepoch, -⟩ := listenerContextCurrent_true hcurrent
  have hfind : ∀ key row, t.messages.find key = some row →
      (key = (fleet, context.epoch, message.messageId) ∧ row.acked = false) ∨
        s.messages.find key = some row := by
    intro key row hrow
    rw [hingested.messages, Table.find_put] at hrow
    by_cases hkey : key = (fleet, context.epoch, message.messageId)
    · rw [if_pos hkey] at hrow
      cases hrow
      exact .inl ⟨hkey, rfl⟩
    · rw [if_neg hkey] at hrow
      exact .inr hrow
  have hacked : ∀ fleet epoch id, Acked t fleet epoch id → Acked s fleet epoch id := by
    rintro fleet epoch id ⟨row, hrow, hacked⟩
    rcases hfind _ row hrow with ⟨-, hunacked⟩ | hold
    · rw [hunacked] at hacked
      cases hacked
    · exact ⟨row, hold, hacked⟩
  constructor
  · intro other epoch id row hrow
    rcases hfind _ row hrow with ⟨hkey, -⟩ | hold
    · cases hkey
      exact hpositive
    · exact h.positive other epoch id row hold
  · intro other epoch id id' row hrow hlt hlater
    have hlater := hacked other epoch id' hlater
    rcases hfind _ row hrow with ⟨hkey, -⟩ | hold
    · cases hkey
      obtain ⟨row', hrow', -⟩ := hlater
      have hbefore := hingested.later _ (Table.mem_rows.mpr hrow') rfl rfl
      simp only at hbefore
      omega
    · exact h.ackPrefix other epoch id id' row hold hlt hlater
  · intro other found hfound
    rw [hingested.sessions] at hfound
    obtain ⟨hin, hupper⟩ := h.last other found hfound
    constructor
    · rcases hin with hzero | ⟨row, hrow, hrowAcked⟩
      · exact .inl hzero
      · refine .inr ⟨row, ?_, hrowAcked⟩
        have hne : (other, found.epoch, found.lastMessageId) ≠
            (fleet, context.epoch, message.messageId) := by
          intro heq
          simp only [Prod.mk.injEq] at heq
          have hlater := hingested.later _ (Table.mem_rows.mpr hrow) heq.1 heq.2.1
          simp only at hlater
          omega
        rw [hingested.messages, Table.find_put, if_neg hne]
        exact hrow
    · rintro id (rfl | hid)
      · exact hupper (.inl rfl)
      · exact hupper (.inr (hacked _ _ _ hid))
  · intro other epoch id row hrow
    rw [hingested.sessions]
    rcases hfind _ row hrow with ⟨hkey, -⟩ | hold
    · cases hkey
      exact ⟨session, hsession, hepoch.ge⟩
    · exact h.known other epoch id row hold

/-- An acknowledgement extends the acknowledged prefix, and the session follows it. -/
theorem Ordered.acknowledged (h : Ordered s) (hsession : s.sessions.find fleet = some session)
    (hepoch : session.epoch = epoch) (hrow : s.messages.find (fleet, epoch, messageId) = some row)
    (hearlier : ∀ entry ∈ s.messages.rows, entry.1.1 = fleet → entry.1.2.1 = epoch →
      entry.1.2.2 < messageId → entry.2.acked = true) : Ordered (s.markAcked fleet epoch messageId) := by
  have hfind : ∀ key row', (s.markAcked fleet epoch messageId).messages.find key = some row' →
      ∃ row, s.messages.find key = some row ∧
        row'.acked = if key = (fleet, epoch, messageId) then true else row.acked := by
    intro key row' hrow'
    rw [find_markAcked] at hrow'
    obtain ⟨row, hfound, rfl⟩ := Option.map_eq_some_iff.mp hrow'
    refine ⟨row, hfound, ?_⟩
    split <;> rfl
  have hacked : ∀ other e id, Acked (s.markAcked fleet epoch messageId) other e id ↔
      Acked s other e id ∨ (other, e, id) = (fleet, epoch, messageId) := by
    intro other e id
    constructor
    · rintro ⟨row', hrow', hacked⟩
      obtain ⟨row, hfound, heq⟩ := hfind _ row' hrow'
      by_cases hkey : (other, e, id) = (fleet, epoch, messageId)
      · exact .inr hkey
      · rw [if_neg hkey] at heq
        exact .inl ⟨row, hfound, heq.symm.trans hacked⟩
    · rintro (⟨row', hfound, hrowAcked⟩ | hkey)
      · refine ⟨if (other, e, id) = (fleet, epoch, messageId) then { row' with acked := true }
          else row', by rw [find_markAcked, hfound, Option.map_some], ?_⟩
        split
        · rfl
        · exact hrowAcked
      · cases hkey
        exact ⟨{ row with acked := true }, by rw [find_markAcked, hrow, Option.map_some, if_pos rfl],
          rfl⟩
  constructor
  · intro other e id row' hrow'
    obtain ⟨row, hfound, -⟩ := hfind _ row' hrow'
    exact h.positive other e id row hfound
  · intro other e id id' row' hrow' hlt hlater
    obtain ⟨row, hfound, heq⟩ := hfind _ row' hrow'
    rw [heq]
    by_cases hkey : (other, e, id) = (fleet, epoch, messageId)
    · rw [if_pos hkey]
    · rw [if_neg hkey]
      rcases (hacked other e id').mp hlater with hold | hnew
      · exact h.ackPrefix other e id id' row hfound hlt hold
      · cases hnew
        exact hearlier _ (Table.mem_rows.mpr hfound) rfl rfl hlt
  · intro other found hfound
    have hfound : (s.sessions.find other).map _ = some found :=
      (Table.find_update _ _ _ _).symm.trans hfound
    obtain ⟨previous, hprevious, heq⟩ := Option.map_eq_some_iff.mp hfound
    obtain ⟨hin, hupper⟩ := h.last other previous hprevious
    by_cases hsame : other = fleet ∧ previous.epoch = epoch
    · obtain ⟨rfl, hsameEpoch⟩ := hsame
      rw [if_pos (decide_eq_true ⟨rfl, hsameEpoch⟩)] at heq
      subst heq
      rw [hsameEpoch] at hin hupper
      constructor
      · rcases max_choice previous.lastMessageId messageId with hmax | hmax
        · show max previous.lastMessageId messageId = 0 ∨ Acked _ _ previous.epoch
            (max previous.lastMessageId messageId)
          rw [hmax, hsameEpoch]
          exact hin.imp id fun hold => (hacked _ _ _).mpr (.inl hold)
        · show max previous.lastMessageId messageId = 0 ∨ Acked _ _ previous.epoch
            (max previous.lastMessageId messageId)
          rw [hmax, hsameEpoch]
          exact .inr ((hacked _ _ _).mpr (.inr rfl))
      · show ∀ id ∈ {id | id = 0 ∨ Acked _ _ previous.epoch id},
          id ≤ max previous.lastMessageId messageId
        rw [hsameEpoch]
        rintro id (rfl | hid)
        · exact (hupper (.inl rfl)).trans (le_max_left _ _)
        · rcases (hacked _ _ _).mp hid with hold | hnew
          · exact (hupper (.inr hold)).trans (le_max_left _ _)
          · cases hnew
            exact le_max_right _ _
    · rw [if_neg (by simpa using hsame)] at heq
      subst heq
      constructor
      · exact hin.imp id fun hold => (hacked _ _ _).mpr (.inl hold)
      · rintro id (rfl | hid)
        · exact hupper (.inl rfl)
        · rcases (hacked _ _ _).mp hid with hold | hnew
          · exact hupper (.inr hold)
          · cases hnew
            exact absurd ⟨rfl, rfl⟩ hsame
  · intro other e id row' hrow'
    obtain ⟨row, hfound, -⟩ := hfind _ row' hrow'
    obtain ⟨found, hfoundSession, hle⟩ := h.known other e id row hfound
    refine ⟨_, (Table.find_update _ _ _ _).trans (by rw [hfoundSession, Option.map_some]), ?_⟩
    split <;> exact hle

/-- Every step keeps the order. -/
theorem Ordered.effect (h : Ordered s) (heffect : Effect E s op t) : Ordered t := by
  cases heffect with
  | unchanged => exact h
  | ingested hcurrent hlikely hnone hingested =>
    exact h.ingested hcurrent hlikely.1 hingested
  | upgraded hlikely hrow hunder hone hdigest hfacts =>
    refine h.congr (fun key => ?_) rfl
    rw [find_upgradeDigest, Option.map_map]
    congr 1
    funext row
    rw [Function.comp_apply]
    split <;> rfl
  | acknowledged hsession hepoch hrow hearlier =>
    exact h.acknowledged hsession hepoch hrow hearlier
  | started => exact h.congr (fun _ => rfl) rfl
  | completed hfind => exact h.congr (fun _ => rfl) rfl
  | @installed fleet install epoch hepoch =>
    refine h.replaced install_messages install_sessions rfl ?_
    intro previous hprevious
    simp only [hprevious, Option.map_some, Option.getD_some] at hepoch
    show previous.epoch < epoch
    omega
  | @cleared fleet session hsession =>
    refine h.replaced rfl rfl rfl ?_
    intro previous hprevious
    cases hsession.symm.trans hprevious
    show session.epoch < session.epoch + 1
    omega
  | others => exact h.congr (fun _ => rfl) rfl

/-! ## New messages -/

/-- The message a step stores for a fleet and an epoch. -/
def ingestedIds (fleet : String) (epoch : Int) (e : ListenerStore δ × Op × ListenerStore δ) :
    List Int :=
  match e.2.1 with
  | .ingest other context message _ =>
    if other = fleet ∧ context.epoch = epoch ∧
        (e.1.messages.find (fleet, epoch, message.messageId)).isNone ∧
        (e.2.2.messages.find (fleet, epoch, message.messageId)).isSome then
      [message.messageId]
    else []
  | _ => []

/-- A new message is later than every message of its epoch before it. -/
theorem Effect.ingestedIds (heffect : Effect E s op t) (h : id ∈ ingestedIds fleet epoch (s, op, t)) :
    ListenerStore.ingestedIds fleet epoch (s, op, t) = [id] ∧
      (∃ row, t.messages.find (fleet, epoch, id) = some row) ∧
      ∀ id' row, s.messages.find (fleet, epoch, id') = some row → id' < id := by
  cases op with
  | ingest other context message now =>
    simp only [ListenerStore.ingestedIds] at h ⊢
    split at h
    · next hnew =>
      obtain ⟨rfl, rfl, hnone, hsome⟩ := hnew
      cases List.mem_singleton.mp h
      obtain ⟨row, hrow⟩ := Option.isSome_iff_exists.mp hsome
      refine ⟨if_pos ⟨rfl, rfl, hnone, hsome⟩, ⟨row, hrow⟩, ?_⟩
      rw [Option.isNone_iff_eq_none] at hnone
      cases heffect with
      | unchanged => cases hnone.symm.trans hrow
      | upgraded hlikely hfound hunder hone hdigest hfacts => cases hnone.symm.trans hfound
      | ingested hcurrent hlikely hfresh hingested =>
        intro id' row' hrow'
        exact hingested.later _ (Table.mem_rows.mpr hrow') rfl rfl
    · cases h
  | acknowledge | acquireStart | acquireComplete | install | clear | others => cases h

/-- The messages of an epoch are ingested in the order of their ids. -/
theorem pairwise_ingestedIds [DecidableEq δ] {trace : List (ListenerStore δ × Op × ListenerStore δ)}
    (h : Run (Step E) s trace t) :
    (trace.flatMap (ListenerStore.ingestedIds fleet epoch)).Pairwise (· < ·) ∧
      ∀ id ∈ trace.flatMap (ListenerStore.ingestedIds fleet epoch), ∀ id' row,
        s.messages.find (fleet, epoch, id') = some row → id' < id := by
  induction h with
  | nil => exact ⟨.nil, fun id hid => by cases hid⟩
  | @cons s u t op trace hstep hrun ih =>
    cases hstep
    have heffect := perform_effect E s op
    obtain ⟨hlater, hbefore⟩ := ih
    have hrest : ∀ id ∈ trace.flatMap (ListenerStore.ingestedIds fleet epoch), ∀ id' row,
        s.messages.find (fleet, epoch, id') = some row → id' < id := by
      intro id hid id' row hrow
      obtain ⟨row', hrow', -⟩ := heffect.persists hrow
      exact hbefore id hid id' row' hrow'
    rw [List.flatMap_cons]
    constructor
    · rw [List.pairwise_append]
      refine ⟨?_, hlater, ?_⟩
      · cases hitems : ListenerStore.ingestedIds fleet epoch (s, op, s.perform E op) with
        | nil => exact .nil
        | cons id rest =>
          have hmem : id ∈ ListenerStore.ingestedIds fleet epoch (s, op, s.perform E op) :=
            hitems ▸ List.mem_cons_self
          obtain ⟨hsingle, -⟩ := heffect.ingestedIds hmem
          cases hitems.symm.trans hsingle
          exact List.pairwise_singleton _ _
      · intro id hid id' hid'
        obtain ⟨-, ⟨row, hrow⟩, -⟩ := heffect.ingestedIds hid
        exact hbefore id' hid' id row hrow
    · intro id hid
      rcases List.mem_append.mp hid with hid | hid
      · exact (heffect.ingestedIds hid).2.2
      · exact hrest id hid

/-! ## Job facts -/

/-- The job facts of the message are stored; its contents are frozen. -/
def hasFacts (s : ListenerStore δ) (key : MessageKey) : Bool :=
  (s.messages.find key).any fun row => row.payloadDigestVersion = 2

/-- The step stores the job facts of a message. -/
def takesFacts (key : MessageKey) (e : ListenerStore δ × Op × ListenerStore δ) : Bool :=
  match e.2.1 with
  | .ingest fleet context message _ =>
    decide ((fleet, context.epoch, message.messageId) = key) && (!e.1.hasFacts key && e.2.2.hasFacts key)
  | _ => false

theorem hasFacts_iff : s.hasFacts key = true ↔
    ∃ row, s.messages.find key = some row ∧ row.payloadDigestVersion = 2 := by
  unfold hasFacts
  rw [Option.any_eq_true]
  simp only [decide_eq_true_eq]

theorem Effect.hasFacts (heffect : Effect E s op t) (h : s.hasFacts key = true) :
    t.hasFacts key = true := by
  obtain ⟨row, hrow, hversion⟩ := hasFacts_iff.mp h
  obtain ⟨row', hrow', hpersists⟩ := heffect.persists hrow
  exact hasFacts_iff.mpr ⟨row', hrow', (hpersists.frozen hversion).1⟩

/-- The message whose facts are stored, as the row keeps it. -/
def Frozen (E : Encoding δ) (s : ListenerStore δ) (fleet : String) (context : SessionEffectContext)
    (message : PollMessage) : Prop :=
  ∃ row, s.messages.find (fleet, context.epoch, message.messageId) = some row ∧
    row.payloadDigestVersion = 2 ∧ row.payloadDigest = E.digest message ∧
    MessageRow.Under row context

theorem Effect.frozen (heffect : Effect E s op t) (h : Frozen E s fleet context message) :
    Frozen E t fleet context message := by
  obtain ⟨row, hrow, hversion, hdigest, hunder⟩ := h
  obtain ⟨row', hrow', hpersists⟩ := heffect.persists hrow
  obtain ⟨hversion', hdigest'⟩ := hpersists.frozen hversion
  exact ⟨row', hrow', hversion', hdigest'.trans hdigest, hpersists.under hunder⟩

/-- The facts of a message are missing before a step and there after it exactly when the step is an
ingest of this message that stores them. -/
theorem Effect.takesFacts (heffect : Effect E s op t) :
    ListenerStore.takesFacts key (s, op, t) = (!s.hasFacts key && t.hasFacts key) := by
  have hsame (hmessages : t.messages = s.messages) : (!s.hasFacts key && t.hasFacts key) = false := by
    unfold ListenerStore.hasFacts
    rw [hmessages]
    exact Bool.not_and_self _
  have hversions (hfind : ∀ row, t.messages.find key = some row → ∃ row',
      s.messages.find key = some row' ∧ row'.payloadDigestVersion = row.payloadDigestVersion) :
      (!s.hasFacts key && t.hasFacts key) = false := by
    cases ht : t.hasFacts key with
    | false => exact Bool.and_false _
    | true =>
      obtain ⟨row, hrow, hversion⟩ := hasFacts_iff.mp ht
      obtain ⟨row', hrow', heq⟩ := hfind row hrow
      rw [hasFacts_iff.mpr ⟨row', hrow', heq.trans hversion⟩]
      rfl
  cases heffect with
  | unchanged =>
    rw [hsame rfl]
    unfold ListenerStore.takesFacts
    split
    · rw [Bool.not_and_self, Bool.and_false]
    · rfl
  | @ingested fleet context message now answer t hcurrent hlikely hnone hingested =>
    unfold ListenerStore.takesFacts
    by_cases hkey : (fleet, context.epoch, message.messageId) = key
    · simp only [hkey, decide_true, Bool.true_and]
    · simp only [hkey, decide_false, Bool.false_and]
      refine (hversions ?_).symm
      intro row hrow
      rw [hingested.messages, Table.find_put, if_neg fun heq => hkey heq.symm] at hrow
      exact ⟨row, hrow, rfl⟩
  | @upgraded fleet context message now row jobs hlikely hrow hunder hone hdigest hfacts =>
    unfold ListenerStore.takesFacts
    by_cases hkey : (fleet, context.epoch, message.messageId) = key
    · simp only [hkey, decide_true, Bool.true_and]
    · simp only [hkey, decide_false, Bool.false_and]
      refine (hversions ?_).symm
      intro row' hrow'
      rw [find_upgradeDigest] at hrow'
      obtain ⟨row₀, hrow₀, rfl⟩ := Option.map_eq_some_iff.mp hrow'
      refine ⟨row₀, hrow₀, ?_⟩
      rw [if_neg fun heq => hkey heq.1.symm]
  | acknowledged hsession hepoch hrow hearlier =>
    refine (hversions ?_).symm
    intro row' hrow'
    rw [find_markAcked] at hrow'
    obtain ⟨row₀, hrow₀, rfl⟩ := Option.map_eq_some_iff.mp hrow'
    refine ⟨row₀, hrow₀, ?_⟩
    split <;> rfl
  | started => exact (hsame rfl).symm
  | completed hfind => exact (hsame rfl).symm
  | installed hepoch => exact (hsame install_messages).symm
  | cleared hsession => exact (hsame rfl).symm
  | others => exact (hsame rfl).symm

/-- What an ingest does to the job facts: it stores those of its message, or none. -/
theorem Effect.jobs (heffect : Effect E s (.ingest fleet context message now) t) :
    (ListenerStore.takesFacts (fleet, context.epoch, message.messageId)
        (s, .ingest fleet context message now, t) = true ∧ Plausible message ∧
      StoresFacts E s fleet context message now t.jobs ∧ Frozen E t fleet context message) ∨
    (ListenerStore.takesFacts (fleet, context.epoch, message.messageId)
        (s, .ingest fleet context message now, t) = false ∧ t.jobs = s.jobs) := by
  cases heffect with
  | unchanged =>
    refine .inr ⟨?_, rfl⟩
    simp only [ListenerStore.takesFacts, decide_true, Bool.true_and, Bool.not_and_self]
  | ingested hcurrent hlikely hnone hingested =>
    refine .inl ⟨?_, hlikely, hingested.facts, ?_⟩
    · have hs : s.hasFacts (fleet, context.epoch, message.messageId) = false := by
        unfold ListenerStore.hasFacts
        rw [hnone]
        rfl
      have ht : t.hasFacts (fleet, context.epoch, message.messageId) = true := by
        unfold ListenerStore.hasFacts
        rw [hingested.messages, Table.find_put, if_pos rfl]
        rfl
      simp only [ListenerStore.takesFacts, hs, ht, decide_true, Bool.not_false, Bool.and_self]
    · refine ⟨newMessage E context message, ?_, rfl, rfl, rfl, rfl, rfl, rfl⟩
      rw [hingested.messages, Table.find_put, if_pos rfl]
  | @upgraded _ _ _ _ row jobs hlikely hrow hunder hone hdigest hfacts =>
    have hrow' : ((({ s with jobs } : ListenerStore δ).upgradeDigest fleet context.epoch
        message.messageId (E.digest message)).messages.find
          (fleet, context.epoch, message.messageId)) =
        some { row with payloadDigest := E.digest message, payloadDigestVersion := 2 } := by
      rw [find_upgradeDigest]
      show (s.messages.find _).map _ = _
      rw [hrow, Option.map_some, if_pos ⟨rfl, hone⟩]
    refine .inl ⟨?_, hlikely, hfacts, ⟨_, hrow', rfl, rfl, hunder⟩⟩
    have hs : s.hasFacts (fleet, context.epoch, message.messageId) = false := by
      unfold ListenerStore.hasFacts
      rw [hrow, Option.any_some, hone]
      rfl
    have ht := hasFacts_iff.mpr ⟨_, hrow', rfl⟩
    simp only [ListenerStore.takesFacts, hs, ht, decide_true, Bool.not_false, Bool.and_self]

/-! ## Redelivery -/

/-- The store does not accept the message, and is left as it was. -/
structure Rejects [DecidableEq δ] (E : Encoding δ) (s : ListenerStore δ) (fleet : String)
    (context : SessionEffectContext) (message : PollMessage) (now : Int) : Prop where
  unchanged : s.perform E (.ingest fleet context message now) = s
  refused : ∀ answer t, s.listenerIngest E fleet context message now ≠ .ok (some answer, t)
  error : s.listenerContextCurrent fleet context = .ok true →
    ∃ error, s.listenerIngest E fleet context message now = .error error

/-- A stored message is delivered with a digest that is not its own. -/
theorem rejects_of_digest [DecidableEq δ]
    (hrow : s.messages.find (fleet, context.epoch, message.messageId) = some row)
    (hlegacy : row.payloadDigestVersion = 1 → row.payloadDigest ≠ E.legacy message)
    (hdigest : row.payloadDigestVersion = 2 → row.payloadDigest ≠ E.digest message) :
    Rejects E s fleet context message now := by
  have hrefused : ∀ answer t, s.listenerIngest E fleet context message now ≠ .ok (some answer, t) := by
    intro answer t hok
    rcases listenerIngest_ok hok with ⟨hnone, -⟩ |
      ⟨-, -, ⟨found, hfound, -, -, hredelivered⟩ | ⟨hnone, -⟩⟩
    · cases hnone
    · cases hrow.symm.trans hfound
      cases hredelivered with
      | known htwo hsame => exact hdigest htwo hsame
      | upgraded hone hsame _ => exact hlegacy hone hsame
    · cases hrow.symm.trans hnone
  refine ⟨?_, hrefused, ?_⟩
  · show s.committed (s.listenerIngest E fleet context message now) = s
    cases hresult : s.listenerIngest E fleet context message now with
    | error e => rfl
    | ok result =>
      obtain ⟨answer, t⟩ := result
      cases answer with
      | some answer => exact absurd hresult (hrefused answer t)
      | none =>
        rcases listenerIngest_ok hresult with ⟨-, rfl, -⟩ | ⟨-, -, ⟨_, _, _, hsome, -⟩ | ⟨-, hingested⟩⟩
        · rfl
        · cases hsome
        · cases hingested.answer
  · intro hcurrent
    cases hresult : s.listenerIngest E fleet context message now with
    | error e => exact ⟨e, rfl⟩
    | ok result =>
      obtain ⟨answer, t⟩ := result
      cases answer with
      | some answer => exact absurd hresult (hrefused answer t)
      | none =>
        rcases listenerIngest_ok hresult with ⟨-, -, hstale⟩ | ⟨-, -, ⟨_, _, _, hsome, -⟩ | ⟨-, hingested⟩⟩
        · cases hcurrent.symm.trans hstale
        · cases hsome
        · cases hingested.answer

/-- A message whose facts are stored is delivered again, unchanged. -/
theorem listenerIngest_frozen [DecidableEq δ] (hfrozen : Frozen E s fleet context message)
    (hcurrent : s.listenerContextCurrent fleet context = .ok true) (hlikely : Plausible message) :
    ∃ row, s.messages.find (fleet, context.epoch, message.messageId) = some row ∧
      s.listenerIngest E fleet context message now =
        .ok (some (s.listenerMessageView fleet context.epoch message.messageId row), s) := by
  obtain ⟨row, hrow, hversion, hdigest, hunder⟩ := hfrozen
  refine ⟨row, hrow, ?_⟩
  have hmessage := listenerMessage_some.mpr ⟨hrow, hunder⟩
  have hvalid : ¬ (message.messageId ≤ 0 ∨ message.statistics.totalAssignedJobs < 0) := by
    unfold Plausible at hlikely
    omega
  have hexpected : expectedDigest E row message = .ok (E.digest message) := by
    unfold expectedDigest
    rw [if_neg (by rw [hversion]; decide), if_pos hversion]
  unfold listenerIngest
  simp only [hcurrent, ensure, if_pos hvalid, hmessage]
  show s.redeliver E fleet context message now row = _
  unfold redeliver
  rw [hexpected]
  show (do
    ensure (row.payloadDigest = E.digest message) _
    if row.payloadDigestVersion = 1 then _ else _) = _
  rw [ensure, if_pos hdigest, if_neg (by rw [hversion]; decide)]
  rfl

/-- A stored message changes at most its job facts. -/
theorem Effect.redelivered (heffect : Effect E s (.ingest fleet context message now) t)
    (hrow : s.messages.find (fleet, context.epoch, message.messageId) = some row) :
    t.acquisitions = s.acquisitions ∧ t.demand = s.demand ∧ t.observations = s.observations ∧
      t.activity = s.activity := by
  cases heffect with
  | unchanged => exact ⟨rfl, rfl, rfl, rfl⟩
  | ingested hcurrent hlikely hnone hingested => cases hrow.symm.trans hnone
  | upgraded hlikely hfound hunder hone hdigest hfacts => exact ⟨rfl, rfl, rfl, rfl⟩

/-- A message whose facts are stored is never ingested again. -/
theorem Effect.of_frozen (heffect : Effect E s (.ingest fleet context message now) t)
    (hrow : s.messages.find (fleet, context.epoch, message.messageId) = some row)
    (hversion : row.payloadDigestVersion = 2) : t = s := by
  cases heffect with
  | unchanged => rfl
  | ingested hcurrent hlikely hnone hingested => cases hrow.symm.trans hnone
  | upgraded hlikely hfound hunder hone hdigest hfacts =>
    cases hrow.symm.trans hfound
    rw [hone] at hversion
    cases hversion

/-- Every accepted delivery answers with what the store then shows of the message. -/
theorem listenerIngest_view [DecidableEq δ] {answer : IngestedMessage}
    (h : s.listenerIngest E fleet context message now = .ok (some answer, t)) :
    ∃ row, t.messages.find (fleet, context.epoch, message.messageId) = some row ∧
      answer = t.listenerMessageView fleet context.epoch message.messageId row := by
  rcases listenerIngest_ok h with ⟨hnone, -⟩ |
    ⟨-, -, ⟨row, hrow, -, hanswer, hredelivered⟩ | ⟨-, hingested⟩⟩
  · cases hnone
  · cases hredelivered with
    | known => exact ⟨row, hrow, Option.some.inj hanswer⟩
    | @upgraded jobs hone hdigest hfacts =>
      refine ⟨{ row with payloadDigest := E.digest message, payloadDigestVersion := 2 }, ?_,
        Option.some.inj hanswer⟩
      rw [find_upgradeDigest]
      show (s.messages.find _).map _ = _
      rw [hrow, Option.map_some, if_pos ⟨rfl, hone⟩]
  · refine ⟨newMessage E context message, ?_, Option.some.inj hingested.answer⟩
    rw [hingested.messages, Table.find_put, if_pos rfl]

/-! ## Runs -/

/-- What a run of listeners does to the messages of every fleet and epoch. -/
structure Delivered [DecidableEq δ] (E : Encoding δ) (s : ListenerStore δ)
    (trace : List (ListenerStore δ × Op × ListenerStore δ)) (t : ListenerStore δ) : Prop where
  increasing : ∀ fleet epoch, (trace.flatMap (ingestedIds fleet epoch)).Pairwise (· < ·)
  ackPrefix : ∀ fleet epoch id id' row, t.messages.find (fleet, epoch, id) = some row → id < id' →
    Acked t fleet epoch id' → row.acked = true
  last : ∀ fleet session, t.sessions.find fleet = some session →
    IsGreatest {id | id = 0 ∨ Acked t fleet session.epoch id} session.lastMessageId
  /-- A delivery is answered with the current view of its message. -/
  answered : ∀ e ∈ trace, ∀ fleet context message now answer u,
    e.2.1 = .ingest fleet context message now →
    e.1.listenerIngest E fleet context message now = .ok (some answer, u) →
    ∃ row, e.2.2.messages.find (fleet, context.epoch, message.messageId) = some row ∧
      answer = e.2.2.listenerMessageView fleet context.epoch message.messageId row
  /-- A delivery of a stored message changes no acquisition, demand, observation or runner. -/
  stored : ∀ e ∈ trace, ∀ fleet context message now row,
    e.2.1 = .ingest fleet context message now →
    e.1.messages.find (fleet, context.epoch, message.messageId) = some row →
    e.2.2.acquisitions = e.1.acquisitions ∧ e.2.2.demand = e.1.demand ∧
      e.2.2.observations = e.1.observations ∧ e.2.2.activity = e.1.activity
  /-- A delivery stores the job facts of its message, or none at all. -/
  facts : ∀ e ∈ trace, ∀ fleet context message now, e.2.1 = .ingest fleet context message now →
    (takesFacts (fleet, context.epoch, message.messageId) e = true ∧
      StoresFacts E e.1 fleet context message now e.2.2.jobs) ∨
    (takesFacts (fleet, context.epoch, message.messageId) e = false ∧ e.2.2.jobs = e.1.jobs)
  /-- The facts of a message are stored once if they were missing and are there in the end. -/
  once : ∀ key, trace.countP (takesFacts key) + (s.hasFacts key).toNat = (t.hasFacts key).toNat
  /-- Once they are, the same message changes nothing and another one of its id is rejected. -/
  redelivered : ∀ e ∈ trace, ∀ fleet context message now,
    e.2.1 = .ingest fleet context message now →
    takesFacts (fleet, context.epoch, message.messageId) e = true → ∀ now',
      (∀ context', context'.epoch = context.epoch →
        t.perform E (.ingest fleet context' message now') = t) ∧
      (t.listenerContextCurrent fleet context = .ok true →
        ∃ row, t.messages.find (fleet, context.epoch, message.messageId) = some row ∧
          t.listenerIngest E fleet context message now' =
            .ok (some (t.listenerMessageView fleet context.epoch message.messageId row), t)) ∧
      ∀ context' message', context'.epoch = context.epoch →
        message'.messageId = message.messageId → message' ≠ message →
        Rejects E t fleet context' message' now'
  /-- So is one that differs in what the first digest format protects. -/
  altered : ∀ fleet context message now message₀ row,
    t.messages.find (fleet, context.epoch, message.messageId) = some row →
    row.payloadDigestVersion = 1 → row.payloadDigest = E.legacy message₀ →
    legacyContents message ≠ legacyContents message₀ → Rejects E t fleet context message now

/-- **Messages are acknowledged in order and their facts are stored once.** -/
theorem delivered_once [DecidableEq δ] (E : Encoding δ) (s t : ListenerStore δ)
    (trace : List (ListenerStore δ × Op × ListenerStore δ)) (hdigest : Function.Injective E.digest)
    (hs : Ordered s) (h : Run (Step E) s trace t) : Delivered E s trace t := by
  have heffect : ∀ e ∈ trace, Effect E e.1 e.2.1 e.2.2 := by
    intro e he
    have hstep : e.2.2 = e.1.perform E e.2.1 := h.mem_step he
    rw [hstep]
    exact perform_effect E e.1 e.2.1
  have ht : Ordered t := by
    refine h.invariant ?_ hs
    rintro u op v hu rfl
    exact hu.effect (perform_effect E u op)
  constructor
  · intro fleet epoch
    exact (pairwise_ingestedIds h).1
  · exact ht.ackPrefix
  · exact ht.last
  · intro e he fleet context message now answer u hop hanswer
    have hstep : e.2.2 = e.1.perform E e.2.1 := h.mem_step he
    have hresult : e.2.2 = u := by
      rw [hstep, hop]
      show e.1.committed (e.1.listenerIngest E fleet context message now) = u
      rw [hanswer]
      rfl
    rw [hresult]
    exact listenerIngest_view hanswer
  · intro e he fleet context message now row hop hrow
    have hingest := heffect e he
    rw [hop] at hingest
    exact hingest.redelivered hrow
  · intro e he fleet context message now hop
    obtain ⟨u, op, v⟩ := e
    have hingest := heffect (u, op, v) he
    cases hop
    exact hingest.jobs.imp (fun ⟨htakes, _, hfacts, _⟩ => ⟨htakes, hfacts⟩) id
  · intro key
    refine h.countP_add_flag (f := fun u => u.hasFacts key) ?_ ?_
    · rintro u op v rfl hfacts
      exact (perform_effect E u op).hasFacts hfacts
    · rintro u op v rfl
      exact (perform_effect E u op).takesFacts
  · intro e he fleet context message now hop htakes now'
    obtain ⟨before, after, rfl⟩ := List.append_of_mem he
    obtain ⟨u, -, hrest⟩ := h.of_append
    obtain ⟨u', op, v⟩ := e
    cases hop
    have hingest := heffect _ he
    obtain ⟨hlikely, hfrozen⟩ : Plausible message ∧ Frozen E v fleet context message := by
      rcases hingest.jobs with ⟨-, hlikely, -, hfrozen⟩ | ⟨hnot, -⟩
      · exact ⟨hlikely, hfrozen⟩
      · rw [hnot] at htakes
        cases htakes
    have hfrozen : Frozen E t fleet context message := by
      cases hrest with
      | cons hstep hafter =>
        refine hafter.invariant (I := fun w => Frozen E w fleet context message) ?_ hfrozen
        rintro w op w' hw rfl
        exact (perform_effect E w op).frozen hw
    refine ⟨?_, fun hcurrent => listenerIngest_frozen hfrozen hcurrent hlikely, ?_⟩
    · intro context' hepoch
      obtain ⟨row, hrow, hversion, -, -⟩ := hfrozen
      rw [← hepoch] at hrow
      exact (perform_effect E t _).of_frozen hrow hversion
    · intro context' message' hepoch hid hne
      obtain ⟨row, hrow, hversion, hrowDigest, -⟩ := hfrozen
      rw [← hepoch, ← hid] at hrow
      refine rejects_of_digest hrow ?_ ?_
      · intro hone
        rw [hone] at hversion
        cases hversion
      · intro _ heq
        exact hne (hdigest (heq.symm.trans hrowDigest))
  · intro fleet context message now message₀ row hrow hone hlegacy hne
    refine rejects_of_digest hrow ?_ ?_
    · intro _ heq
      exact hne (hdigest (heq.symm.trans hlegacy))
    · intro htwo
      rw [htwo] at hone
      cases hone

end ListenerStore

/-! ## A message of the first format -/

namespace Sample

/-- The row an earlier version stored the message as. -/
def earlierMessage : MessageRow PollMessage :=
  { ListenerStore.newMessage encoding (context 1) offer with
    payloadDigest := encoding.legacy offer
    payloadDigestVersion := 1 }

/-- A session whose message is stored without its facts. -/
def earlier : ListenerStore PollMessage :=
  { store.perform encoding (.install "fleet" (install none)) with
    messages := (∅ : Table _ _).put ("fleet", 1, 1) earlierMessage }

/-- The message is delivered with its facts and acknowledged; a new one is delivered, and the first
one again. -/
def upgradeOps : List Op :=
  [.ingest "fleet" (context 1) offer 10, .acknowledge "fleet" (context 1) 1,
    .ingest "fleet" (context 1) { offer with messageId := 2 } 20,
    .ingest "fleet" (context 1) offer 30]

def upgraded : ListenerStore PollMessage :=
  upgradeOps.foldl (ListenerStore.perform encoding) earlier

theorem earlier_sessions : earlier.sessions.rows = [("fleet", ⟨"session", 1, 9,
    some "https://queue", some "token", 0⟩)] := by
  decide +kernel

theorem upgraded_facts : earlier.hasFacts ("fleet", 1, 1) = false ∧
    upgraded.hasFacts ("fleet", 1, 1) = true ∧ upgraded.hasFacts ("fleet", 1, 2) = true := by
  decide +kernel

theorem earlier_ordered : ListenerStore.Ordered earlier := by
  refine ListenerStore.ordered_of_unacked ?_ ?_
  · intro fleet epoch id row hrow
    have hfind : earlier.messages.find (fleet, epoch, id) =
        if (fleet, epoch, id) = ("fleet", 1, 1) then some earlierMessage else none :=
      Table.find_put ..
    rw [hfind] at hrow
    split at hrow
    · rename_i hkey
      cases hkey
      cases hrow
      have hsession : earlier.sessions.find "fleet" = some ⟨"session", 1, 9,
          some "https://queue", some "token", 0⟩ := by
        rw [← Table.mem_rows, earlier_sessions]
        exact List.mem_singleton.mpr rfl
      exact ⟨by decide, rfl, _, hsession, le_rfl⟩
    · cases hrow
  · intro fleet session hsession
    have hrow := Table.mem_rows.mpr hsession
    rw [earlier_sessions] at hrow
    cases List.mem_singleton.mp hrow
    rfl

end Sample

namespace ListenerStore

/-- The facts of a message of the first format are stored with its first delivery, once. -/
theorem delivered_once_sample :
    (Sample.earlier.hasFacts ("fleet", 1, 1) = false ∧
      Sample.upgraded.hasFacts ("fleet", 1, 1) = true ∧
      Sample.upgraded.hasFacts ("fleet", 1, 2) = true) ∧
    Delivered Sample.encoding Sample.earlier
      (play (perform Sample.encoding) Sample.earlier Sample.upgradeOps) Sample.upgraded :=
  ⟨Sample.upgraded_facts, delivered_once Sample.encoding _ _ _ Function.injective_id
    Sample.earlier_ordered (run_play _ _)⟩

end ListenerStore

end Listener

end Shaula
