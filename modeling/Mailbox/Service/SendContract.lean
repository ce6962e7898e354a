import Mailbox.Service.Transmission

/-!
# The send contract

**`send_contract`** is about the in-memory store as it is, without quotas, plugins and attachments.

What a send refuses to send, it refuses before it touches the store; `Accepts` collects those
checks, and `sendDraft_of_accepts` says that what is left is the transmission of the prepared
draft.
-/

namespace Mailbox.Service

open Memory UserMailbox List

/-! ## Distinct recipients -/

/-- `unique` are the members of `l`, each once, in the order in which they first occur. -/
def FirstOccurrences (l unique : List String) : Prop :=
  unique.Pairwise (fun a b => l.idxOf a < l.idxOf b) ∧ ∀ a, a ∈ unique ↔ a ∈ l

variable {l : List String}

lemma FirstOccurrences.nodup {unique : List String} (h : FirstOccurrences l unique) :
    unique.Nodup :=
  h.1.imp fun hlt heq => absurd (heq ▸ hlt) (Nat.lt_irrefl _)

lemma deduplicateRecipients_append (l : List String) (a : String) : deduplicateRecipients (l ++ [a])
      = if a ∈ deduplicateRecipients l then deduplicateRecipients l
        else deduplicateRecipients l ++ [a] := by
  rw [deduplicateRecipients, foldl_append]
  rfl

theorem firstOccurrences_deduplicateRecipients (l : List String) :
    FirstOccurrences l (deduplicateRecipients l) := by
  induction l using reverseRecOn with
  | nil => exact ⟨List.Pairwise.nil, fun _ => .rfl⟩
  | append_singleton l a ih =>
    obtain ⟨hordered, hmem⟩ := ih
    have hordered' : (deduplicateRecipients l).Pairwise
        (fun b c => (l ++ [a]).idxOf b < (l ++ [a]).idxOf c) := by
      refine hordered.imp_of_mem fun hb hc hlt => ?_
      rwa [idxOf_append_of_mem ((hmem _).mp hb), idxOf_append_of_mem ((hmem _).mp hc)]
    rw [deduplicateRecipients_append]
    by_cases ha : a ∈ deduplicateRecipients l
    · rw [if_pos ha]
      refine ⟨hordered', fun b => ?_⟩
      rw [hmem, mem_append, mem_singleton]
      exact ⟨.inl, fun h => h.elim id fun heq => heq ▸ (hmem a).mp ha⟩
    · rw [if_neg ha]
      refine ⟨pairwise_append.mpr ⟨hordered', pairwise_singleton _ _, ?_⟩, fun b => ?_⟩
      · intro b hb c hc
        rw [mem_singleton.mp hc, idxOf_append_of_mem ((hmem b).mp hb),
          idxOf_append_of_notMem (fun h => ha ((hmem a).mpr h))]
        exact Nat.lt_of_lt_of_le (idxOf_lt_length_of_mem ((hmem b).mp hb)) (Nat.le_add_right _ _)
      · rw [mem_append, mem_append, hmem]

/-! ## What is sent -/

namespace UserMailbox

variable {σ : Type} (m : UserMailbox σ)

/-- The checks of a send that has no plugins. -/
structure Accepts (draft : Message) (ttl : ℤ) (scheduleAt : Option Time) (deliverTo : List String) :
    Prop where
  access : m.checkAccess = .ok ()
  draft : ∃ targets, (m.prepareDraft draft deliverTo).1 = .ok targets
  semaphore : m.service.acquire = .ok ()
  times : ∃ fields, m.computeTTLFields ttl scheduleAt = .ok fields

/-- The steps of `sendDraft` before the times are computed: all of them succeed, and leave the
given targets and draft. -/
structure Ready (draft : Message) (deliverTo targets : List String) (hooked : Message) : Prop where
  access : m.checkAccess = .ok ()
  prepared : (m.prepareDraft draft deliverTo).1 = .ok targets
  semaphore : m.service.acquire = .ok ()
  hooks : m.beforeSend m.service.plugins (m.prepareDraft draft deliverTo).2 = (.ok (), hooked)

lemma resolveAndInjectUserMetadata_frame (draft : Message) :
    let draft' := (m.resolveAndInjectUserMetadata draft).2
    draft'.id = draft.id ∧ draft'.recipientIDs = draft.recipientIDs
      ∧ draft'.attachments = draft.attachments ∧ draft'.body = draft.body
      ∧ draft'.headers = draft.headers := by
  rw [resolveAndInjectUserMetadata]
  cases m.service.userResolver with
  | none => simp
  | some resolveUser =>
    cases hresolve : resolveUser m.userID with
    | error => simp [hresolve]
    | ok =>
      simp only [hresolve, injectMetadata]
      split_ifs <;> exact ⟨rfl, rfl, rfl, rfl, rfl⟩

lemma withLength_frame (draft : Message) :
    (m.withLength draft).id = draft.id ∧ (m.withLength draft).recipientIDs = draft.recipientIDs
      ∧ (m.withLength draft).attachments = draft.attachments
      ∧ (m.withLength draft).body = draft.body := by
  rw [withLength]
  split_ifs
  · exact ⟨rfl, rfl, rfl, rfl⟩
  · exact ⟨rfl, rfl, rfl, rfl⟩

lemma checkPrepared_frame (targets : List String) (draft : Message) :
    (m.checkPrepared targets draft).2 = (m.resolveAndInjectUserMetadata draft).2
      ∧ ∀ checked, (m.checkPrepared targets draft).1 = .ok checked → checked = targets := by
  rw [checkPrepared]
  rcases m.resolveAndInjectUserMetadata draft with ⟨e | _, draft'⟩
  · exact ⟨rfl, fun _ h => by cases h⟩
  · simp only
    cases validateDraft m.service.lib m.service.cfg.limits draft' with
    | error => exact ⟨rfl, fun _ h => by cases h⟩
    | ok =>
      split_ifs
      · exact ⟨rfl, fun _ h => by cases h⟩
      · exact ⟨rfl, fun _ h => (Except.ok.inj h).symm⟩

/-- Preparation deduplicates the recipients, and leaves ID and attachments alone.  The targets are
the given ones, deduplicated. -/
lemma prepareDraft_frame (draft : Message) (deliverTo : List String) :
    let r := m.prepareDraft draft deliverTo
    (r.2.id = draft.id ∧ r.2.recipientIDs = deduplicateRecipients draft.recipientIDs
        ∧ r.2.attachments = draft.attachments)
      ∧ ∀ targets, r.1 = .ok targets → targets = deduplicateRecipients deliverTo := by
  rw [prepareDraft]
  split
  · exact ⟨⟨rfl, rfl, rfl⟩, fun _ h => by cases h⟩
  · obtain ⟨hid, hrcp, hatt, _⟩ := m.withLength_frame (m.withRecipients draft)
    obtain ⟨hid', hrcp', hatt', _⟩ :=
      m.resolveAndInjectUserMetadata_frame (m.withLength (m.withRecipients draft))
    obtain ⟨hdr, htgts⟩ := m.checkPrepared_frame (deduplicateRecipients deliverTo)
      (m.withLength (m.withRecipients draft))
    simp only [hdr]
    exact ⟨⟨hid'.trans hid, hrcp'.trans hrcp, hatt'.trans hatt⟩, htgts⟩

variable {m}

lemma sendDraft_of_ready {draft hooked : Message} {deliverTo targets : List String}
    (h : m.Ready draft deliverTo targets hooked) (threadID replyToID externalID : String) (ttl : ℤ)
    (scheduleAt : Option Time) (s : σ) :
    m.sendDraft draft threadID replyToID externalID ttl scheduleAt deliverTo s
      = match m.computeTTLFields ttl scheduleAt with
        | .error e => ⟨none, some e, hooked, s⟩
        | .ok (expiresAt, availableAt) =>
          m.transmit hooked
            ⟨m.resolveThreadID threadID replyToID s, replyToID, externalID, expiresAt,
              availableAt⟩ targets s := by
  obtain ⟨hacc, hprepared, hsemaphore, hh⟩ := h
  rw [sendDraft, hacc]
  rcases hprep : m.prepareDraft draft deliverTo with ⟨e | checked, draft'⟩
  · rw [hprep] at hprepared
    cases hprepared
  · rw [hprep] at hprepared hh
    cases hprepared
    rcases m.computeTTLFields ttl scheduleAt with e | ⟨expiresAt, availableAt⟩
    · simp only [hsemaphore, hh]
    · simp only [hsemaphore, hh]

lemma sendDraft_of_not_ready {draft : Message} {deliverTo : List String}
    (h : ¬ ∃ targets hooked, m.Ready draft deliverTo targets hooked) :
    ∃ err draft', ∀ threadID replyToID externalID ttl scheduleAt (s : σ),
      m.sendDraft draft threadID replyToID externalID ttl scheduleAt deliverTo s
        = ⟨none, err, draft', s⟩ := by
  simp only [sendDraft]
  cases hacc : m.checkAccess with
  | error => exact ⟨_, _, fun _ _ _ _ _ _ => rfl⟩
  | ok =>
    rcases hprep : m.prepareDraft draft deliverTo with ⟨e | checked, draft'⟩
    · exact ⟨_, _, fun _ _ _ _ _ _ => rfl⟩
    · cases hacq : m.service.acquire with
      | error => exact ⟨_, _, fun _ _ _ _ _ _ => rfl⟩
      | ok =>
        rcases hh : m.beforeSend m.service.plugins draft' with ⟨e | _, hooked⟩
        · simp only [hh]
          exact ⟨_, _, fun _ _ _ _ _ _ => rfl⟩
        · refine absurd ⟨checked, hooked, hacc, ?_, hacq, ?_⟩ h
          · rw [hprep]
          · rw [hprep]
            exact hh

variable {draft : Message} {ttl : ℤ} {scheduleAt : Option Time} {deliverTo : List String}

/-- A draft that is accepted is transmitted as the preparation leaves it. -/
theorem sendDraft_of_accepts (hplug : m.service.plugins = [])
    (h : m.Accepts draft ttl scheduleAt deliverTo) (threadID replyToID externalID : String)
    (s : σ) : ∃ expiresAt availableAt,
      m.sendDraft draft threadID replyToID externalID ttl scheduleAt deliverTo s
      = m.transmit (m.prepareDraft draft deliverTo).2
        ⟨m.resolveThreadID threadID replyToID s, replyToID, externalID, expiresAt, availableAt⟩
        (deduplicateRecipients deliverTo) s := by
  obtain ⟨hacc, ⟨targets, htgts⟩, hacq, ⟨⟨expiresAt, availableAt⟩, htm⟩⟩ := h
  have hrdy : m.Ready draft deliverTo targets (m.prepareDraft draft deliverTo).2 :=
    ⟨hacc, htgts, hacq, by rw [hplug, beforeSend]⟩
  refine ⟨expiresAt, availableAt, ?_⟩
  rw [sendDraft_of_ready hrdy, htm, ← (m.prepareDraft_frame draft deliverTo).2 targets htgts]

theorem sendDraft_of_not_accepts (h : ¬ m.Accepts draft ttl scheduleAt deliverTo)
    (threadID replyToID externalID : String) (s : σ) :
    (m.sendDraft draft threadID replyToID externalID ttl scheduleAt deliverTo s).message = none
      ∧ (m.sendDraft draft threadID replyToID externalID ttl scheduleAt deliverTo s).state = s := by
  by_cases hrdy : ∃ targets hooked, m.Ready draft deliverTo targets hooked
  · obtain ⟨targets, hooked, hrdy⟩ := hrdy
    rw [sendDraft_of_ready hrdy]
    cases htm : m.computeTTLFields ttl scheduleAt with
    | error => exact ⟨rfl, rfl⟩
    | ok fields =>
      exact absurd ⟨hrdy.access, ⟨targets, hrdy.prepared⟩, hrdy.semaphore, fields, htm⟩ h
  · obtain ⟨_, _, hn⟩ := sendDraft_of_not_ready hrdy
    rw [hn]
    exact ⟨rfl, rfl⟩

lemma transmit_draft (draft : Message) (env : Envelope) (deliverTo : List String) (s : σ) :
    (m.transmit draft env deliverTo s).draft = draft := by
  rw [transmit]
  rcases m.createSenderMessage draft env s with ⟨e | copy, s₁⟩
  · rfl
  · simp only
    split_ifs <;> rfl

/-- The targets of a prepared draft are the distinct ones of the draft. -/
lemma deliveryTargets_prepareDraft (draft : Message) (deliverTo : List String) :
    deliveryTargets (m.prepareDraft draft deliverTo).2 (deduplicateRecipients deliverTo)
      = deduplicateRecipients (deliveryTargets draft deliverTo) := by
  obtain ⟨_, hrcp, _⟩ := (m.prepareDraft_frame draft deliverTo).1
  have hemp : (deduplicateRecipients deliverTo).length = 0 ↔ deliverTo.length = 0 := by
    have hmem := (firstOccurrences_deduplicateRecipients deliverTo).2
    simp only [length_eq_zero_iff, eq_nil_iff_forall_not_mem, hmem]
  simp only [deliveryTargets, hemp, hrcp]
  split_ifs <;> rfl

lemma nodup_deliveryTargets_prepareDraft (draft : Message) (deliverTo : List String) :
    (deliveryTargets (m.prepareDraft draft deliverTo).2
      (deduplicateRecipients deliverTo)).Nodup := by
  rw [deliveryTargets_prepareDraft]
  exact (firstOccurrences_deduplicateRecipients _).nodup

/-! ## Drafts without attachments -/

section NoAttachments

variable {msg : Message} (h : msg.attachments = [])

include h

lemma addAttachmentRefs_of_nil (s : σ) : m.addAttachmentRefs msg s = (.ok (), s) := by
  rw [addAttachmentRefs, h]
  cases m.service.backend.attachments <;> rfl

lemma claimRefs_of_nil {m : UserMailbox World} (w : World) : m.claimRefs msg w = (true, w) := by
  rw [claimRefs, addAttachmentRefs_of_nil h]

lemma claimAll_of_nil {m : UserMailbox World} {α : Type} (as : List α) (w : World) :
    m.claimAll msg as w = (as, w) := by
  induction as with
  | nil => rfl
  | cons a as ih => simp only [claimAll, claimRefs_of_nil h, ih]

end NoAttachments

end UserMailbox

/-! ## The contract -/

section Contract

variable {uuid : ℕ → String} {now : Time} {faults : Faults} {managed : Bool} {m : UserMailbox World}

/-- Without faults, quotas and attachments everybody is served. -/
lemma delivered_of_nil (hquota : m.service.quotaProvider = none) {draft : Message}
    (hatt : draft.attachments = []) (env : Envelope) (deliverTo : List String) (w : World) :
    delivered uuid now Faults.none m draft env deliverTo w
      = (deliveryTargets draft deliverTo).zipIdx (w.store.drawn + 1) := by
  have hserves : ∀ r ∈ deliveryTargets draft deliverTo, serves Faults.none
      (fun r => m.checkQuota r (deliveryStart uuid now m draft env w)) r = true := by
    intro r _
    rw [serves, checkQuota, hquota]
    rfl
  rw [delivered, keptCopies, claimAll_of_nil hatt, filter_eq_self.mpr hserves]
  rfl

/-- A send over the in-memory store that returns a message is a transmission that delivers. -/
lemma sendDraft_effect (huuid : IDSource uuid)
    (hm : m.service.backend = memoryBackend uuid now faults managed)
    (hplugins : m.service.plugins = []) {threadID replyToID externalID : String} {w : World}
    (hw : Fresh uuid w.store)
    (hsent : (m.sendDraft draft threadID replyToID externalID ttl scheduleAt deliverTo w).message
      ≠ none) : ∃ env : Envelope, env.replyToID = replyToID ∧ env.externalID = externalID
      ∧ m.sendDraft draft threadID replyToID externalID ttl scheduleAt deliverTo w
        = m.transmit (m.prepareDraft draft deliverTo).2 env (deduplicateRecipients deliverTo) w
      ∧ Delivers uuid now faults m (m.prepareDraft draft deliverTo).2 env
        (deduplicateRecipients deliverTo) w := by
  by_cases haccepts : m.Accepts draft ttl scheduleAt deliverTo
  · obtain ⟨expiresAt, availableAt, heq⟩ :=
      sendDraft_of_accepts hplugins haccepts threadID replyToID externalID w
    refine ⟨_, rfl, rfl, heq, ?_⟩
    rw [heq] at hsent
    by_contra hdelivers
    exact hsent (transmit_fails hm huuid _ hw (nodup_deliveryTargets_prepareDraft draft deliverTo)
      hdelivers).1
  · exact absurd (sendDraft_of_not_accepts haccepts threadID replyToID externalID w).1 hsent

/-- What the copies of a message share besides its content. -/
def envelopeOf (msg : Message) : Envelope :=
  ⟨msg.threadID, msg.replyToID, msg.externalID, msg.expiresAt, msg.availableAt⟩

/-- **The send contract.**  The messages after a send that returns `msg` are `msg` itself, one copy
per distinct delivery target, and what was there before without the saved draft. -/
theorem send_contract (huuid : IDSource uuid) (m : UserMailbox World)
    (hm : m.service.backend = memoryBackend uuid now Faults.none managed)
    (hquota : m.service.quotaProvider = none) (hplugins : m.service.plugins = [])
    (draft : Message) (hatt : draft.attachments = []) (threadID replyToID externalID : String)
    (ttl : ℤ) (scheduleAt : Option Time) (deliverTo : List String) (w : World)
    (hw : Fresh uuid w.store) (msg : Message)
    (hsent : (m.sendDraft draft threadID replyToID externalID ttl scheduleAt deliverTo w).message
      = some msg) : ∃ (received : List Message) (recipients : List String),
      (m.sendDraft draft threadID replyToID externalID ttl scheduleAt deliverTo
          w).state.store.messages.all.Perm
        (msg :: received ++ w.store.messages.all.filter (notDraft draft.id))
      ∧ (msg.ownerID = m.userID ∧ msg.folderID = folderSent)
      ∧ FirstOccurrences (if deliverTo = [] then draft.recipientIDs else deliverTo)
          (received.map Message.ownerID)
      ∧ (∀ copy ∈ received, copy.folderID = folderInbox)
      ∧ FirstOccurrences draft.recipientIDs recipients
      ∧ ∀ copy ∈ msg :: received, w.store.messages.load copy.id = none ∧ copy.isDraft = false
          ∧ copy.recipientIDs = recipients ∧ envelopeOf copy = envelopeOf msg
          ∧ copy.replyToID = replyToID ∧ copy.externalID = externalID := by
  obtain ⟨env, hreply, hexternal, heq, hdelivers⟩ := sendDraft_effect huuid hm hplugins hw
    (ne_of_eq_of_ne hsent (Option.some_ne_none msg))
  obtain ⟨hid, hrcp, hatt'⟩ := (m.prepareDraft_frame draft deliverTo).1
  obtain ⟨hms, hall, _⟩ := transmit_delivers hm huuid env hw
    (nodup_deliveryTargets_prepareDraft draft deliverTo) hdelivers
  rw [delivered_of_nil hquota (hatt'.trans hatt), ← copies_eq_map, deliveryTargets_prepareDraft,
    hid] at hall
  rw [heq, hms] at hsent
  obtain rfl := Option.some.inj hsent
  refine ⟨copies uuid now (recipientData m (m.prepareDraft draft deliverTo).2 env)
      (w.store.drawn + 1) (deduplicateRecipients (deliveryTargets draft deliverTo)),
    deduplicateRecipients draft.recipientIDs, ?_, ⟨rfl, rfl⟩, ?_, ?_,
    firstOccurrences_deduplicateRecipients _, ?_⟩
  · rw [heq, hall]
    exact ((reverse_perm _).append_right _).cons _
  · rw [map_ownerID_copies]
    simp only [recipientData, map_id', deliveryTargets, length_eq_zero_iff]
    exact firstOccurrences_deduplicateRecipients _
  · intro copy hcp
    obtain ⟨r, _, k, _, _, rfl⟩ := exists_of_mem_copies hcp
    rfl
  · intro copy hcp
    rcases mem_cons.mp hcp with rfl | hcp
    · exact ⟨hw.unused _ (le_rfl), rfl, hrcp, rfl, hreply, hexternal⟩
    · obtain ⟨r, _, k, hk, _, rfl⟩ := exists_of_mem_copies hcp
      exact ⟨hw.unused k (by omega), rfl, hrcp, rfl, hreply, hexternal⟩

/-- A draft with a duplicate recipient, sent from an empty store. -/
theorem send_contract_duplicate_recipient : ∃ (msg : Message) (received : List Message),
      ((plainMailbox (memoryBackend unaryID 1 Faults.none false) "u").sendDraft
          { plainDraft with recipientIDs := ["v", "w", "v"] } "" "" "" 0 none []
          World.new).state.store.messages.all.Perm (msg :: received ++ [])
      ∧ FirstOccurrences ["v", "w", "v"] (received.map Message.ownerID) := by
  obtain ⟨received, _, hall, _, howners, _⟩ := send_contract idSource_unaryID
    (plainMailbox (memoryBackend unaryID 1 Faults.none false) "u") rfl rfl rfl
    { plainDraft with recipientIDs := ["v", "w", "v"] } rfl "" "" "" 0 none []
    World.new (fresh_new unaryID) (Option.get _ rfl) (Option.some_get _).symm
  exact ⟨_, received, hall, howners⟩

end Contract

end Mailbox.Service
