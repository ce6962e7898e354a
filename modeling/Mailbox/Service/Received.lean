import Mailbox.Service.SendContract

/-!
# What a send delivers

`received before after ownerID` are the messages that a user has got between two states of the
store.  For a send they are the sender's copy and the recipients' copies of the draft *as the hooks
leave it* (`received_of_delivers`), or nothing at all.

A send gets as far as the transmission when the draft is `Ready` and its times are in range.  Hooks
may rewrite the content of a draft, but have no way to change its ID; those that leave the
recipients alone as well are `Tame`.
-/

namespace Mailbox.Service

open Memory UserMailbox List

/-- A hook that leaves the ID and the recipients of a draft alone. -/
def Tame (h : SendHook) : Prop :=
  ∀ userID draft, (h.beforeSend userID draft).2.id = draft.id
    ∧ (h.beforeSend userID draft).2.recipientIDs = draft.recipientIDs

namespace UserMailbox

variable {hooks : List SendHook} {draft : Message}

section Ready

variable {σ : Type} (m : UserMailbox σ)

lemma beforeSend_induction {p : Message → Prop}
    (hh : ∀ h ∈ hooks, ∀ userID draft, p draft → p (h.beforeSend userID draft).2)
    (hdr : p draft) : p (m.beforeSend hooks draft).2 := by
  induction hooks generalizing draft with
  | nil => exact hdr
  | cons h hooks ih =>
    rw [forall_mem_cons] at hh
    have hfst := hh.1 m.userID draft hdr
    rw [beforeSend]
    rcases hhook : h.beforeSend m.userID draft with ⟨e | _, draft'⟩
    · rw [hhook] at hfst
      exact hfst
    · rw [hhook] at hfst
      exact ih hh.2 hfst

lemma beforeSend_frame (htame : ∀ h ∈ hooks, Tame h) (draft : Message) :
    (m.beforeSend hooks draft).2.id = draft.id
      ∧ (m.beforeSend hooks draft).2.recipientIDs = draft.recipientIDs := by
  refine m.beforeSend_induction (p := fun draft' => draft'.id = draft.id
    ∧ draft'.recipientIDs = draft.recipientIDs) (fun h hh userID draft' hdr => ?_) ⟨rfl, rfl⟩
  obtain ⟨hid, hrcp⟩ := htame h hh userID draft'
  exact ⟨hid.trans hdr.1, hrcp.trans hdr.2⟩

variable {m}

lemma Ready.nodup_targets (htame : ∀ h ∈ m.service.plugins, Tame h) {hooked : Message}
    {deliverTo targets : List String} (h : m.Ready draft deliverTo targets hooked) :
    (deliveryTargets hooked targets).Nodup := by
  have hrcp := (m.beforeSend_frame htame (m.prepareDraft draft deliverTo).2).2
  rw [h.hooks] at hrcp
  have htargets := (m.prepareDraft_frame draft deliverTo).2 targets h.prepared
  have hnd := nodup_deliveryTargets_prepareDraft (m := m) draft deliverTo
  rw [deliveryTargets] at hnd ⊢
  rw [htargets, hrcp]
  exact hnd

end Ready

section Expiry

variable {σ : Type} {m : UserMailbox σ} {ttl : ℤ} {scheduleAt : Option Time}

/-- The TTL a message is sent with. -/
def effectiveTTL (m : UserMailbox σ) (ttl : ℤ) : ℤ :=
  if ttl ≤ 0 then m.service.cfg.defaultTTL else ttl

/-- When a message with the given TTL runs out. -/
def expiry (m : UserMailbox σ) (scheduleAt : Option Time) (effective : ℤ) : Option Time :=
  if effective > 0 then some ((scheduleAt.filter (· ≠ 0)).getD m.service.now + effective) else none

lemma computeTTLFields_congr {ttl' : ℤ} (h : m.effectiveTTL ttl = m.effectiveTTL ttl') :
    m.computeTTLFields ttl scheduleAt = m.computeTTLFields ttl' scheduleAt := by
  rw [effectiveTTL, effectiveTTL] at h
  simp only [computeTTLFields, h]

lemma computeTTLFields_ok {expiresAt availableAt : Option Time}
    (h : m.computeTTLFields ttl scheduleAt = .ok (expiresAt, availableAt)) :
    expiresAt = m.expiry scheduleAt (m.effectiveTTL ttl)
      ∧ availableAt = scheduleAt.filter (· ≠ 0) := by
  -- Whatever is checked on the way, the pair returned is always this one.
  generalize hflds : (m.expiry scheduleAt (m.effectiveTTL ttl), scheduleAt.filter (· ≠ 0))
    = fields
  have hpair : m.computeTTLFields ttl scheduleAt = .ok (expiresAt, availableAt) →
      fields = (expiresAt, availableAt) := by
    rw [expiry, effectiveTTL] at hflds
    simp only [computeTTLFields, invalid, bind, Except.bind, pure, Except.pure, hflds]
    split_ifs <;> (try split) <;> (try split_ifs) <;> simp
  rw [hpair h] at hflds
  exact ⟨(Prod.mk.inj hflds).1.symm, (Prod.mk.inj hflds).2.symm⟩

lemma computeTTLFields_range {fields : Option Time × Option Time}
    (h : m.computeTTLFields ttl scheduleAt = .ok fields) (hpos : 0 < m.effectiveTTL ttl) :
    m.service.cfg.minTTL ≤ m.effectiveTTL ttl
      ∧ (0 < m.service.cfg.maxTTL → m.effectiveTTL ttl ≤ m.service.cfg.maxTTL) := by
  have heffective : (if ttl ≤ 0 then m.service.cfg.defaultTTL else ttl) = m.effectiveTTL ttl := rfl
  simp only [computeTTLFields, heffective, invalid, gt_iff_lt, hpos, if_true] at h
  by_cases hlow : m.effectiveTTL ttl < m.service.cfg.minTTL
  · rw [if_pos hlow] at h
    cases h
  rw [if_neg hlow] at h
  by_cases hhigh : 0 < m.service.cfg.maxTTL ∧ m.service.cfg.maxTTL < m.effectiveTTL ttl
  · rw [if_pos hhigh] at h
    cases h
  · exact ⟨Int.not_lt.mp hlow, fun hmax => Int.not_lt.mp fun hlt => hhigh ⟨hmax, hlt⟩⟩

variable (m) in
/-- The expiry is at least `MinTTL` after now and after the time of delivery, and at most `MaxTTL`
after the later one. -/
def ExpiresInTime (expiresAt availableAt : Option Time) : Prop :=
  ∀ e ∈ expiresAt, m.service.now + m.service.cfg.minTTL ≤ e
    ∧ (∀ a ∈ availableAt, a + m.service.cfg.minTTL ≤ e)
    ∧ (0 < m.service.cfg.maxTTL →
      e ≤ max m.service.now (availableAt.getD m.service.now) + m.service.cfg.maxTTL)

/-- **When a message is not born expired**: a schedule in the past must leave `MinTTL` from now. -/
theorem expiresInTime_iff (m : UserMailbox σ) (ttl : ℤ)
    (scheduleAt expiresAt availableAt : Option Time)
    (h : m.computeTTLFields ttl scheduleAt = .ok (expiresAt, availableAt)) :
    m.ExpiresInTime expiresAt availableAt
      ↔ (0 < m.effectiveTTL ttl → ∀ scheduled ∈ scheduleAt, scheduled ≠ 0 →
        m.service.now + m.service.cfg.minTTL ≤ scheduled + m.effectiveTTL ttl) := by
  obtain ⟨rfl, rfl⟩ := computeTTLFields_ok h
  by_cases hpos : 0 < m.effectiveTTL ttl
  · obtain ⟨hmin, hmax⟩ := computeTTLFields_range h hpos
    have hexpiry : m.expiry scheduleAt (m.effectiveTTL ttl) = some
        ((scheduleAt.filter (· ≠ 0)).getD m.service.now + m.effectiveTTL ttl) := if_pos hpos
    have hscheduled : (∀ scheduled ∈ scheduleAt, scheduled ≠ 0 →
        m.service.now + m.service.cfg.minTTL ≤ scheduled + m.effectiveTTL ttl)
        ↔ ∀ a ∈ scheduleAt.filter (· ≠ 0),
          m.service.now + m.service.cfg.minTTL ≤ a + m.effectiveTTL ttl := by
      simp [Option.filter_eq_some_iff, and_imp]
    rw [hexpiry, hscheduled, forall_prop_of_true hpos]
    cases scheduleAt.filter (· ≠ 0) with
    | none =>
      simp only [ExpiresInTime, Option.mem_def, Option.some.injEq, forall_eq', Option.getD_none]
      refine iff_of_true ⟨Int.add_le_add_left hmin _, ?_, fun h => ?_⟩ ?_
      · simp
      · exact Int.add_le_add (Int.le_max_left _ _) (hmax h)
      · simp
    | some a =>
      simp only [ExpiresInTime, Option.mem_def, Option.some.injEq, forall_eq', Option.getD_some]
      refine ⟨And.left, fun hnow => ⟨hnow, Int.add_le_add_left hmin _, fun h => ?_⟩⟩
      exact Int.add_le_add (Int.le_max_right _ _) (hmax h)
  · have hno : m.expiry scheduleAt (m.effectiveTTL ttl) = none := if_neg hpos
    simp [ExpiresInTime, hno, hpos]

/-- A mailbox with a minimal TTL of one minute, at a time of 1000. -/
def minuteMailbox : UserMailbox World :=
  let m := plainMailbox (memoryBackend (fun _ => "") 1000 Faults.none false) "u"
  { m with service := { m.service with
      cfg := { m.service.cfg with minTTL := 60, maxTTL := 600 }, now := 1000 } }

/-- Scheduled for later, a message expires a minute after that. -/
theorem expiresInTime_later : minuteMailbox.ExpiresInTime (some 2060) (some 2000) :=
  (expiresInTime_iff minuteMailbox 60 (some 2000) _ _ rfl).mpr (by
    intro _ scheduled hscheduled _
    cases hscheduled
    decide)

/-- Scheduled for a time that is past, it has expired when it is sent. -/
theorem born_expired : minuteMailbox.computeTTLFields 60 (some 900) = .ok (some 960, some 900)
    ∧ ¬minuteMailbox.ExpiresInTime (some 960) (some 900) := by
  refine ⟨rfl, fun h => ?_⟩
  have hnow := (h 960 rfl).1
  exact absurd hnow (by decide)

end Expiry

end UserMailbox

/-! ## New messages -/

/-- What a send looks at in a draft. -/
structure SameContent (a b : Message) : Prop where
  recipientIDs : a.recipientIDs = b.recipientIDs
  subject : a.subject = b.subject
  body : a.body = b.body
  headers : a.headers = b.headers
  metadata : a.metadata = b.metadata
  attachments : a.attachments = b.attachments

/-- The messages of a user that are in the second store and were not in the first. -/
def received (before after : Store) (ownerID : String) : List Message :=
  after.messages.all.filter fun msg =>
    decide (msg.ownerID = ownerID ∧ msg.isDraft = false ∧ before.messages.load msg.id = none)

variable {before after : Store}

lemma received_of_all (h : after.messages.all = before.messages.all)
    (ownerID : String) : received before after ownerID = [] := by
  rw [received, h, filter_eq_nil_iff]
  intro msg hmsg
  simp [Table.load_of_mem hmsg]

lemma received_of_append {new old : List Message} (hall : after.messages.all = new ++ old)
    (hw : ∀ msg ∈ new, msg.isDraft = false ∧ before.messages.load msg.id = none)
    (hold : ∀ msg ∈ old, msg ∈ before.messages.all) (ownerID : String) :
    received before after ownerID = new.filter fun msg => decide (msg.ownerID = ownerID) := by
  have hold' : old.filter (fun msg => decide (msg.ownerID = ownerID ∧ msg.isDraft = false
      ∧ before.messages.load msg.id = none)) = [] := by
    rw [filter_eq_nil_iff]
    intro msg hmsg
    simp [Table.load_of_mem (hold msg hmsg)]
  rw [received, hall, filter_append, hold', append_nil]
  refine filter_congr fun msg hmsg => ?_
  simp [hw msg hmsg]

namespace UserMailbox

variable {uuid : ℕ → String} {now : Time} {faults : Faults} {managed : Bool} {m : UserMailbox World}
  (hm : m.service.backend = memoryBackend uuid now faults managed) (huuid : IDSource uuid)
  {draft : Message} (env : Envelope) {deliverTo : List String} {w : World}
  (hw : Fresh uuid w.store) (htargets : (deliveryTargets draft deliverTo).Nodup)

variable (uuid now faults m draft deliverTo w) in
/-- The messages a transmission makes. -/
def newMessages : List Message :=
  sentCopy now (senderCopy uuid now m draft env w)
    :: ((delivered uuid now faults m draft env deliverTo w).map
      (copyAt uuid now (recipientData m draft env))).reverse

lemma sameContent_of_mem_newMessages {msg : Message}
    (h : msg ∈ newMessages uuid now faults m draft env deliverTo w) : SameContent msg draft := by
  rcases mem_cons.mp h with rfl | h
  · exact ⟨rfl, rfl, rfl, rfl, rfl, rfl⟩
  · obtain ⟨p, _, rfl⟩ := mem_map.mp (mem_reverse.mp h)
    exact ⟨rfl, rfl, rfl, rfl, rfl, rfl⟩

include hm huuid hw htargets

/-- **What a transmission delivers.** -/
theorem received_of_delivers (h : Delivers uuid now faults m draft env deliverTo w)
    (ownerID : String) : received w.store (m.transmit draft env deliverTo w).state.store ownerID
      = (newMessages uuid now faults m draft env deliverTo w).filter fun msg =>
          decide (msg.ownerID = ownerID) := by
  obtain ⟨_, hall, _⟩ := transmit_delivers hm huuid env hw htargets h
  refine received_of_append hall (fun msg hmsg => ?_) (fun msg hmsg => ?_) ownerID
  · rcases mem_cons.mp hmsg with rfl | hmsg
    · exact ⟨rfl, hw.unused _ (Nat.le_refl _)⟩
    · obtain ⟨p, hp, rfl⟩ := mem_map.mp (mem_reverse.mp hmsg)
      refine ⟨rfl, hw.unused p.2 ?_⟩
      exact Nat.le_of_succ_le (le_of_mem_keptCopies hp)
  · exact mem_of_mem_filter hmsg

section

variable (h : (m.transmit draft env deliverTo w).message ≠ none)

include h

/-- A transmission returns a message when it delivers, and only then. -/
lemma delivers_of_message : Delivers uuid now faults m draft env deliverTo w := by
  by_contra hn
  exact h (transmit_fails hm huuid env hw htargets hn).1

lemma received_sender_ne_nil :
    received w.store (m.transmit draft env deliverTo w).state.store m.userID ≠ [] := by
  rw [received_of_delivers hm huuid env hw htargets
    (delivers_of_message hm huuid env hw htargets h)]
  refine ne_nil_of_mem (mem_filter.mpr ⟨mem_cons_self, ?_⟩)
  simp [sentCopy, senderCopy, senderData]

end

end UserMailbox

end Mailbox.Service
