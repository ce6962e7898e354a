import Mailbox.Service.SendInvariant

/-!
# Failed sends leave no trace

A send that returns no message has failed before it created anything, or has failed to create the
sender's copy, or has delivered to nobody and rolled the sender's copy back.  In each case the
stored messages are what they were: **`failed_send_no_trace`**.

This holds over any backend whose failed creations have no effect and whose `HardDelete` removes
what it is asked to remove.  `Lawful` states that in terms of `view`, the non-draft messages by
their ID; `memoryBackend_lawful` shows it of the in-memory store with any faults.
-/

namespace Mailbox.Service

open List Function Table

/-- The non-draft messages of a state, by their ID. -/
abbrev View := String → Option Message

/-- Messages with new and different IDs are added to a view. -/
inductive Adds : List Message → View → View → Prop where
  | nil (v : View) : Adds [] v v
  | cons {msg : Message} {msgs : List Message} {v v' : View} (h : Adds msgs v v')
      (hnew : v' msg.id = none) : Adds (msg :: msgs) v (Function.update v' msg.id (some msg))

variable {msg : Message} {v : View}

lemma Adds.of_first {msgs : List Message} {v' : View} (hw : v msg.id = none)
    (h : Adds msgs (update v msg.id (some msg)) v') : Adds (msg :: msgs) v v' := by
  generalize hv : update v msg.id (some msg) = first at h
  suffices hr : ∃ v₁, Adds msgs v v₁ ∧ v₁ msg.id = none ∧ v' = update v₁ msg.id (some msg) by
    obtain ⟨v₁, hadds, hno, rfl⟩ := hr
    exact .cons hadds hno
  induction h with
  | nil => exact ⟨v, .nil v, hw, hv.symm⟩
  | @cons other msgs _ v' _ hoth ih =>
    obtain ⟨v₁, hadds, hno, rfl⟩ := ih hv
    have hne : other.id ≠ msg.id := by
      intro heq
      rw [heq, update_self] at hoth
      cases hoth
    refine ⟨update v₁ other.id (some other), .cons hadds ?_, ?_, ?_⟩
    · rwa [update_of_ne hne] at hoth
    · rw [update_of_ne hne.symm, hno]
    · rw [update_comm hne]

/-- The message a result reports as created. -/
def createdMessage : IdempotentCreateResult → Option Message
  | .ok msg true => some msg
  | _ => none

/-- What the send relies on.  `ok` is an invariant of the states. -/
structure Lawful {σ : Type} (B : Backend σ) (view : σ → View) (ok : σ → Prop) : Prop where
  create_error : ∀ {data s e s'}, ok s → B.createMessage data s = (.error e, s') →
    ok s' ∧ view s' = view s
  create_ok : ∀ {data s msg s'}, ok s → B.createMessage data s = (.ok msg, s') →
    ok s' ∧ Adds [msg] (view s) (view s')
  batch_error : ∀ {entries s e s'}, ok s → B.createMessagesIdempotent entries s = (.error e, s') →
    ok s' ∧ view s' = view s
  batch_ok : ∀ {entries s results s'}, ok s →
    B.createMessagesIdempotent entries s = (.ok results, s') →
    ok s' ∧ results.length = entries.length
      ∧ Adds (results.filterMap createdMessage) (view s) (view s')
  hardDelete : ∀ id {s}, ok s → view s id ≠ none →
    ∃ s', B.hardDelete id s = (.ok (), s') ∧ ok s' ∧ view s' = Function.update (view s) id none
  refs : ∀ manager ∈ B.attachments, ∀ id s, ok s →
    (ok (manager.addRef id s).2 ∧ view (manager.addRef id s).2 = view s)
      ∧ ok (manager.removeRef id s).2 ∧ view (manager.removeRef id s).2 = view s

variable {σ : Type} {m : UserMailbox σ} {view : σ → View} {ok : σ → Prop}

namespace UserMailbox

/-! ## References -/

section

variable {s : σ} (h : Lawful m.service.backend view ok)

include h

lemma refs_keep_view (v : View) : ∀ manager ∈ m.service.backend.attachments,
    manager.Relates fun s s' => s = s' ∧ ok s ∧ view s = v := by
  intro manager hmgr
  constructor <;> rintro id s _ ⟨rfl, hs, rfl⟩
  · exact ⟨rfl, rfl, (h.refs manager hmgr id s hs).1⟩
  · exact ⟨rfl, rfl, (h.refs manager hmgr id s hs).2⟩

lemma addAttachmentRefs_view (msg : Message) (hs : ok s) :
    ok (m.addAttachmentRefs msg s).2 ∧ view (m.addAttachmentRefs msg s).2 = view s :=
  (addAttachmentRefs_related (refs_keep_view h (view s)) ⟨rfl, hs, rfl⟩ msg).2.2

lemma releaseAttachmentRefs_view (msg : Message) (hs : ok s) :
    ok (m.releaseAttachmentRefs msg s).2 ∧ view (m.releaseAttachmentRefs msg s).2 = view s :=
  (releaseAttachmentRefs_related (refs_keep_view h (view s)) ⟨rfl, hs, rfl⟩ msg).2.2

/-! ## Copies -/

lemma hardDelete_added
    (hs : ok s) (hadded : view s = update v msg.id (some msg)) (hw : v msg.id = none) :
    ∃ s', m.service.backend.hardDelete msg.id s = (.ok (), s') ∧ ok s' ∧ view s' = v := by
  obtain ⟨s', hdel, hok, hvw⟩ := h.hardDelete msg.id hs (by simp [hadded])
  refine ⟨s', hdel, hok, ?_⟩
  rw [hvw, hadded, update_idem, ← hw, update_eq_self]

end

lemma length_deliveredTo_le (draft : Message) (results : List (String × IdempotentCreateResult))
    (d : Delivery) (s : σ) :
    d.deliveredTo.length ≤ (m.processResults draft results d s).1.deliveredTo.length := by
  induction results generalizing d s with
  | nil => exact le_rfl
  | cons entry results ih =>
    obtain ⟨recipientID, result⟩ := entry
    rw [processResults]
    refine Nat.le_trans ?_ (ih _ _)
    rcases result with ⟨msg, _ | _⟩ | e
    · simp
    · rcases hrf : m.addAttachmentRefs msg s with ⟨_ | _, s'⟩ <;>
        simp [hrf, Delivery.fail]
    · exact le_rfl

variable {draft : Message} {env : Envelope}

section

variable (h : Lawful m.service.backend view ok)

include h

lemma createSenderMessage_error {s s' : σ} {e : Error} (hs : ok s)
    (hmk : m.createSenderMessage draft env s = (.error e, s')) : view s' = view s := by
  rw [createSenderMessage] at hmk
  rcases hsto : m.service.backend.createMessage (m.senderData draft env) s with ⟨err | copy, s₁⟩
  · rw [hsto] at hmk
    cases hmk
    exact (h.create_error hs hsto).2
  · obtain ⟨hok₁, hadds⟩ := h.create_ok hs hsto
    rw [hsto] at hmk
    obtain ⟨hok₂, hvw₂⟩ := addAttachmentRefs_view h copy hok₁
    rcases hrf : m.addAttachmentRefs copy s₁ with ⟨err | _, s₂⟩
    · rw [hrf] at hok₂ hvw₂
      obtain ⟨hok₃, hvw₃⟩ := releaseAttachmentRefs_view h copy hok₂
      generalize hv₁ : view s₁ = v₁ at *
      cases hadds with
      | cons hnil hw =>
        cases hnil
        obtain ⟨s₄, hdel, _, hvw₄⟩ := hardDelete_added h hok₃ (hvw₃.trans hvw₂) hw
        simp only [hrf, hdel, Prod.mk.injEq] at hmk
        rw [← hmk.2, hvw₄]
    · simp [hrf] at hmk

lemma createSenderMessage_ok {s s' : σ} {copy : Message}
    (hs : ok s) (hmk : m.createSenderMessage draft env s = (.ok copy, s')) :
    ok s' ∧ Adds [copy] (view s) (view s') := by
  rw [createSenderMessage] at hmk
  rcases hsto : m.service.backend.createMessage (m.senderData draft env) s with ⟨err | copy', s₁⟩
  · rw [hsto] at hmk
    cases hmk
  · obtain ⟨hok₁, hadds⟩ := h.create_ok hs hsto
    obtain ⟨hok₂, hvw₂⟩ := addAttachmentRefs_view h copy' hok₁
    rw [hsto] at hmk
    rcases hrf : m.addAttachmentRefs copy' s₁ with ⟨err | _, s₂⟩
    · simp only [hrf] at hmk
      split at hmk <;> cases hmk
    · rw [hrf] at hok₂ hvw₂
      simp only [hrf, Prod.mk.injEq, Except.ok.injEq] at hmk
      obtain ⟨rfl, rfl⟩ := hmk
      exact ⟨hok₂, by rw [hvw₂]; exact hadds⟩

/-! ## Delivery to nobody -/

/-- When nobody has been served in the end, every copy that was created has been deleted. -/
lemma processResults_view (draft : Message)
    (results : List (String × IdempotentCreateResult)) (d : Delivery) {s : σ} (hs : ok s)
    (hadds : Adds ((results.map Prod.snd).filterMap createdMessage) v (view s))
    (hnb : (m.processResults draft results d s).1.deliveredTo.length = 0) :
    ok (m.processResults draft results d s).2
      ∧ view (m.processResults draft results d s).2 = v := by
  induction results generalizing d s with
  | nil =>
    generalize hv : view s = v' at hadds
    cases hadds
    exact ⟨hs, hv⟩
  | cons entry results ih =>
    obtain ⟨recipientID, result⟩ := entry
    have hlen := length_deliveredTo_le (m := m) draft results
    rw [processResults] at hnb ⊢
    rcases result with ⟨msg, _ | _⟩ | e
    · -- The copy was there already: the recipient counts as served.
      have := hlen (m.processResult draft recipientID (.ok msg false) d s).1
        (m.processResult draft recipientID (.ok msg false) d s).2
      simp only [processResult, length_append, length_singleton] at this
      simp only [processResult] at hnb
      omega
    · obtain ⟨hok₁, hvw₁⟩ := addAttachmentRefs_view h msg hs
      rcases hrf : m.addAttachmentRefs msg s with ⟨err | _, s₁⟩
      · rw [hrf] at hok₁ hvw₁
        obtain ⟨hok₂, hvw₂⟩ := releaseAttachmentRefs_view h msg hok₁
        have hvw : view (m.releaseAttachmentRefs msg s₁).2 = view s := hvw₂.trans hvw₁
        simp only [map_cons, filterMap_cons, createdMessage] at hadds
        generalize hv₁ : view s = v₁ at hadds hvw
        cases hadds with
        | cons hr hw =>
          obtain ⟨s₃, hdel, hok₃, hvw₃⟩ := hardDelete_added h hok₂ hvw hw
          simp only [processResult, hrf, hdel] at hnb ⊢
          exact ih _ hok₃ (by rw [hvw₃]; exact hr) hnb
      · simp only [processResult, hrf] at hnb
        have := hlen
          { d with
            deliveredTo := d.deliveredTo ++ [recipientID]
            newlyDelivered := d.newlyDelivered ++ [recipientID] }
          (m.publishOnly
            (.messageReceived msg.id recipientID m.userID draft.subject m.service.now) s₁).2
        simp only [length_append, length_singleton] at this
        omega
    · exact ih _ hs hadds hnb

lemma deliverToRecipients_view (draft : Message)
    (env : Envelope) (senderMsgID : String) (deliverTo : List String) {s : σ} (hs : ok s)
    (hnb : (m.deliverToRecipients draft env senderMsgID deliverTo s).1.deliveredTo.length = 0) :
    ok (m.deliverToRecipients draft env senderMsgID deliverTo s).2
      ∧ view (m.deliverToRecipients draft env senderMsgID deliverTo s).2 = view s := by
  simp only [deliverToRecipients] at hnb ⊢
  generalize m.eligible s (if deliverTo.length = 0 then draft.recipientIDs else deliverTo)
    ⟨[], [], ∅⟩ = phase1 at hnb ⊢
  obtain ⟨recipients, d⟩ := phase1
  by_cases hno : recipients.length = 0
  · rw [if_pos hno]
    exact ⟨hs, rfl⟩
  · rw [if_neg hno] at hnb ⊢
    rcases hbat : m.service.backend.createMessagesIdempotent
      (recipients.map (m.recipientEntry draft env senderMsgID)) s with ⟨e | results, s'⟩
    · exact h.batch_error hs hbat
    · obtain ⟨hok, hlen, hadds⟩ := h.batch_ok hs hbat
      simp only [hbat] at hnb ⊢
      refine processResults_view h draft _ d hok ?_ hnb
      rw [map_snd_zip (Nat.le_of_eq (by simpa using hlen))]
      exact hadds

end

end UserMailbox

open UserMailbox MemoryBackend

lemma transmit_view (h : Lawful m.service.backend view ok) (draft : Message) (env : Envelope)
    (deliverTo : List String) {s : σ} (hs : ok s)
    (hno : (m.transmit draft env deliverTo s).message = none) :
    view (m.transmit draft env deliverTo s).state = view s := by
  rw [transmit] at hno ⊢
  rcases hmk : m.createSenderMessage draft env s with ⟨e | copy, s₁⟩
  · exact createSenderMessage_error h hs hmk
  · obtain ⟨hok₁, hadds⟩ := createSenderMessage_ok h hs hmk
    simp only [hmk] at hno ⊢
    by_cases hnb : (m.deliverToRecipients draft env copy.id deliverTo s₁).1.deliveredTo.length = 0
    · obtain ⟨hok₂, hvw₂⟩ := deliverToRecipients_view h draft env copy.id deliverTo hok₁ hnb
      obtain ⟨hok₃, hvw₃⟩ := releaseAttachmentRefs_view h copy hok₂
      have hvw := hvw₃.trans hvw₂
      rw [if_pos hnb, rollbackSenderMessage]
      generalize view s₁ = v₁ at hadds hvw
      cases hadds with
      | cons hnil hw =>
        cases hnil
        obtain ⟨s₄, hdel, _, hvw₄⟩ := hardDelete_added h hok₃ hvw hw
        simp only [hdel]
        exact hvw₄
    · rw [if_neg hnb] at hno
      simp [completeSend] at hno

/-- **Failed sends leave no trace.**  Whatever the draft, the quota verdicts, the plugins and the
failures: when a send returns no message, the stored non-draft messages are what they were. -/
theorem failed_send_no_trace (m : UserMailbox σ) (view : σ → View) (ok : σ → Prop)
    (hlawful : Lawful m.service.backend view ok) (draft : Message)
    (threadID replyToID externalID : String) (ttl : ℤ) (scheduleAt : Option Time)
    (deliverTo : List String) (s : σ) (hs : ok s)
    (hnone : (m.sendDraft draft threadID replyToID externalID ttl scheduleAt deliverTo s).message
      = none) :
    view (m.sendDraft draft threadID replyToID externalID ttl scheduleAt deliverTo s).state
      = view s := by
  rw [sendDraft] at hnone ⊢
  split at hnone
  · rfl
  split at hnone
  · rfl
  split at hnone
  · rfl
  split at hnone
  · rfl
  split at hnone
  · rfl
  exact transmit_view hlawful _ _ _ hs hnone

/-! ## The in-memory store -/

variable {messages : Messages} {s s' : Store}

section Memory

open Memory

variable {uuid : ℕ → String} {now : Time} {faults : Faults} {managed : Bool}

def nonDrafts (messages : Messages) : View :=
  fun id => (messages.load id).filter fun msg => !msg.isDraft

/-- The IDs still to be drawn are new, and all messages have one. -/
structure FreshIDs (uuid : ℕ → String) (s : Store) : Prop where
  unused : ∀ n ≥ s.drawn, s.messages.load (uuid n) = none
  named : ∀ id, s.messages.load id ≠ none → id ≠ ""

lemma nonDrafts_put (hdr : msg.isDraft = false) :
    nonDrafts (messages.put msg) = update (nonDrafts messages) msg.id (some msg) := by
  funext id
  by_cases hid : id = msg.id
  · subst hid
    simp [nonDrafts, hdr]
  · simp [nonDrafts, hid, load_put_of_ne hid]

lemma nonDrafts_delete (messages : Messages) (id : String) :
    nonDrafts (messages.delete id) = update (nonDrafts messages) id none := by
  funext id'
  by_cases hid : id' = id
  · subst hid
    simp [nonDrafts]
  · simp [nonDrafts, hid, load_delete_of_ne hid]

lemma nonDrafts_eq_none {id : String} (h : messages.load id = none) :
    nonDrafts messages id = none := by
  simp [nonDrafts, h]

lemma FreshIDs.put (hinj : Function.Injective uuid) (hne : ∀ n, uuid n ≠ "")
    (h : FreshIDs uuid s) {n : ℕ} (hn : s.drawn ≤ n) (hn' : n < s'.drawn)
    (hid : msg.id = uuid n) (hms : s'.messages = s.messages.put msg) : FreshIDs uuid s' := by
  refine ⟨fun k hk => ?_, fun id hld => ?_⟩
  · have hk' : uuid k ≠ msg.id := by
      rw [hid]
      exact fun heq => absurd (hinj heq) (by omega)
    rw [hms, load_put_of_ne hk']
    exact h.unused k (by omega)
  · by_cases heq : id = msg.id
    · rw [heq, hid]
      exact hne n
    · rw [hms, load_put_of_ne heq] at hld
      exact h.named id hld

lemma FreshIDs.of_messages_eq (h : FreshIDs uuid s)
    (hms : s'.messages = s.messages) (hdrw : s.drawn ≤ s'.drawn) : FreshIDs uuid s' :=
  ⟨fun n hn => by rw [hms]; exact h.unused n (Nat.le_trans hdrw hn),
    fun id hid => h.named id (by rwa [hms] at hid)⟩

lemma FreshIDs.delete (h : FreshIDs uuid s) {id : String}
    (hms : s'.messages = s.messages.delete id) (hdrw : s'.drawn = s.drawn) : FreshIDs uuid s' := by
  have hld : ∀ k, s'.messages.load k ≠ none → s.messages.load k ≠ none := by
    intro k hk
    by_cases heq : k = id
    · rw [hms, heq, load_delete] at hk
      exact absurd rfl hk
    · rwa [hms, load_delete_of_ne heq] at hk
  refine ⟨fun n hn => ?_, fun k hk => h.named k (hld k hk)⟩
  by_contra hne
  exact hld _ hne (h.unused n (by omega))

lemma createEntries_adds (hinj : Function.Injective uuid) (hne : ∀ n, uuid n ≠ "")
    (entries : List IdempotentCreateEntry) (hs : FreshIDs uuid s) :
    let r := createEntries uuid now faults entries s
    let created := r.1.filterMap createdMessage
    (FreshIDs uuid r.2 ∧ r.1.length = entries.length
        ∧ Adds created (nonDrafts s.messages) (nonDrafts r.2.messages))
      ∧ r.2.messages.all = created.reverse ++ s.messages.all
      ∧ ∀ msg ∈ created, msg.isDraft = false
        ∧ ∃ entry ∈ entries, msg.attachments = entry.data.attachments := by
  induction entries generalizing s with
  | nil => exact ⟨⟨hs, rfl, .nil _⟩, rfl, fun msg hmsg => by cases hmsg⟩
  | cons entry entries ih =>
    have hlat : ∀ {msg : Message}, (msg.isDraft = false
        ∧ ∃ entry ∈ entries, msg.attachments = entry.data.attachments) → msg.isDraft = false
        ∧ ∃ entry' ∈ entry :: entries, msg.attachments = entry'.data.attachments := by
      rintro msg ⟨hdr, entry', hent, hatt⟩
      exact ⟨hdr, entry', mem_cons_of_mem _ hent, hatt⟩
    rw [createEntries]
    cases hflt : faults.entry entry.data.ownerID with
    | some =>
      obtain ⟨⟨hfr, hlen, hadds⟩, hall, hmade⟩ := ih hs
      exact ⟨⟨hfr, by simp [hlen], hadds⟩, hall, fun msg hmsg => hlat (hmade msg hmsg)⟩
    | none =>
      obtain ⟨hdrw, hcases⟩ := Store.createMessageIdempotent_cases uuid now entry.data
        entry.idempotencyKey s
      simp only
      generalize Store.createMessageIdempotent uuid now entry.data entry.idempotencyKey s = r
        at hdrw hcases
      obtain ⟨result, s₁⟩ := r
      rcases hcases with ⟨⟨e, rfl⟩, hms⟩ | ⟨⟨m, rfl⟩, hms⟩
        | ⟨n, hn, hn', rfl, hms⟩
      iterate 2
        · obtain ⟨⟨hfr, hlen, hadds⟩, hall, hmade⟩ :=
            ih (hs.of_messages_eq hms hdrw)
          rw [hms] at hadds hall
          exact ⟨⟨hfr, by simp [hlen], hadds⟩, hall,
            fun msg hmsg => hlat (hmade msg hmsg)⟩
      · obtain ⟨⟨hfr, hlen, hadds⟩, hall, hmade⟩ :=
          ih (hs.put hinj hne hn hn' rfl hms)
        rw [hms, nonDrafts_put rfl] at hadds
        rw [hms, all_put_of_fresh (hs.unused n hn)] at hall
        refine ⟨⟨hfr, by simp [hlen], .of_first (nonDrafts_eq_none (hs.unused n hn)) hadds⟩,
          ?_, fun msg hmsg => ?_⟩
        · rw [hall]
          simp [createdMessage]
        · rcases mem_cons.mp hmsg with rfl | hmsg
          · exact ⟨rfl, entry, mem_cons_self, rfl⟩
          · exact hlat (hmade msg hmsg)

/-- The in-memory store does what the send relies on, whatever fails. -/
theorem memoryBackend_lawful (hinj : Function.Injective uuid) (hne : ∀ n, uuid n ≠ "") :
    Lawful (memoryBackend uuid now faults managed) (fun w => nonDrafts w.store.messages)
      (fun w => FreshIDs uuid w.store) where
  create_error := by
    intro data w e w' hw h
    simp only [memoryBackend, createMessage] at h
    split at h <;> cases h
    exact ⟨hw, rfl⟩
  create_ok := by
    intro data w msg w' hw h
    simp only [memoryBackend, createMessage] at h
    split at h <;> cases h
    have hunused := hw.unused w.store.drawn (le_rfl)
    refine ⟨hw.put hinj hne (le_rfl) (Nat.lt_succ_self _) rfl rfl, ?_⟩
    show Adds _ _ (nonDrafts (w.store.messages.put _))
    rw [nonDrafts_put rfl]
    exact .cons (.nil _) (nonDrafts_eq_none hunused)
  batch_error := by
    intro entries w e w' hw h
    simp only [memoryBackend, createMessagesIdempotent] at h
    split at h <;> cases h
    exact ⟨hw, rfl⟩
  batch_ok := by
    intro entries w results w' hw h
    simp only [memoryBackend, createMessagesIdempotent] at h
    split at h <;> cases h
    exact (createEntries_adds hinj hne entries hw).1
  hardDelete := by
    intro id w hw hvw
    obtain ⟨msg, hld, hdr⟩ : ∃ msg, w.store.messages.load id = some msg
        ∧ msg.isDraft = false := by
      simp only [nonDrafts, ne_eq, Option.filter_eq_none_iff, not_forall] at hvw
      obtain ⟨msg, hld, hdr⟩ := hvw
      exact ⟨msg, hld, by simpa using hdr⟩
    have hid : id ≠ "" := hw.named id (by simp [hld])
    exact ⟨_, memoryBackend_hardDelete hid hld hdr, hw.delete rfl rfl, nonDrafts_delete _ _⟩
  refs := by
    intro manager hmgr id w hw
    obtain rfl := eq_refManager hmgr
    refine ⟨?_, ?_⟩
    · simp only [refManager, addRef]
      split
      · exact ⟨hw, rfl⟩
      · split <;> exact ⟨hw, rfl⟩
    · simp only [refManager, removeRef]
      split <;> exact ⟨hw, rfl⟩

def allEntriesFail : Faults := { Faults.none with entry := fun _ => some (.text "unavailable") }

def plainDraft : Message :=
  { Store.newDraft 0 "u" with recipientIDs := ["v", "w"], subject := "hi" }

theorem failed_send_no_trace_two_recipients :
    nonDrafts ((plainMailbox (memoryBackend unaryID 1 allEntriesFail false) "u").sendDraft
      plainDraft "" "" "" 0 none [] World.new).state.store.messages
      = nonDrafts Store.new.messages :=
  failed_send_no_trace (plainMailbox (memoryBackend unaryID 1 allEntriesFail false) "u") _ _
    (memoryBackend_lawful unaryID_injective unaryID_ne_empty) plainDraft "" "" "" 0 none []
    World.new ⟨fun _ _ => rfl, fun _ h => absurd rfl h⟩ rfl

end Memory

end Mailbox.Service
