import Mailbox.Memory.Every
import Mailbox.Service.MemoryBackend

/-!
# What a send keeps

A send reaches the state only through the operations of its backend, and it creates messages from
two kinds of data only: the sender's copy for the outbox, and the recipients' copies for the inbox.

**Two runs.**  If the operations give the same results in related states, and leave related states,
so does a send: `transmit_related`.  Operations on a message need to do so only for the messages
that are `known`, which are those the send has created.

**One run.**  With the states related to themselves that have an invariant, a send keeps whatever
its operations keep: `sendDraft_keeps`.
-/

namespace Mailbox.Service

/-- The operations that a send makes use of keep `inv`, creations if what is created is `fit`. -/
structure Backend.Keeps {σ : Type} (B : Backend σ) (inv : σ → Prop) (fit : MessageData → Prop) :
    Prop where
  create : ∀ data s, fit data → inv s → inv (B.createMessage data s).2
  batch : ∀ entries s, (∀ entry ∈ entries, fit entry.data) → inv s →
    inv (B.createMessagesIdempotent entries s).2
  hardDelete : ∀ id s, inv s → inv (B.hardDelete id s).2
  moveToSent : ∀ id s, inv s → inv (B.moveToFolder id folderSent s).2
  deleteDraft : ∀ id s, inv s → inv (B.deleteDraft id s).2
  addRef : ∀ manager ∈ B.attachments, ∀ id s, inv s → inv (manager.addRef id s).2
  removeRef : ∀ manager ∈ B.attachments, ∀ id s, inv s → inv (manager.removeRef id s).2
  publish : ∀ event s, inv s → inv (B.publish event s).2

/-! ## Related states -/

/-- The same result, and related states. -/
def SameStep {σ β : Type} (rel : σ → σ → Prop) (r r' : β × σ) : Prop := r.1 = r'.1 ∧ rel r.2 r'.2

lemma SameStep.exists {σ β : Type} {rel : σ → σ → Prop} {r r' : β × σ} (h : SameStep rel r r') :
    ∃ b s s', r = (b, s) ∧ r' = (b, s') ∧ rel s s' := by
  obtain ⟨b, s⟩ := r
  obtain ⟨b', s'⟩ := r'
  obtain ⟨rfl, hrel⟩ := h
  exact ⟨b, s, s', rfl, rfl, hrel⟩

/-- Adding and removing references does the same in related states. -/
structure AttachmentManager.Relates {σ : Type} (manager : AttachmentManager σ)
    (rel : σ → σ → Prop) : Prop where
  addRef : ∀ id s s', rel s s' → SameStep rel (manager.addRef id s) (manager.addRef id s')
  removeRef : ∀ id s s', rel s s' → SameStep rel (manager.removeRef id s) (manager.removeRef id s')

/-- The operations do the same in related states: creations if what is created is `fit`, and
operations on a message if it is `known`, as new ones are. -/
structure Backend.Relates {σ : Type} (B : Backend σ) (rel : σ → σ → Prop)
    (fit : MessageData → Prop) (fitEntry : IdempotentCreateEntry → Prop) (known : String → Prop) :
    Prop where
  create : ∀ data s s', fit data → rel s s' →
    SameStep rel (B.createMessage data s) (B.createMessage data s')
      ∧ ∀ msg, (B.createMessage data s).1 = .ok msg → known msg.id
  batch : ∀ entries s s', (∀ entry ∈ entries, fitEntry entry) → rel s s' →
    SameStep rel (B.createMessagesIdempotent entries s) (B.createMessagesIdempotent entries s')
      ∧ ∀ results, (B.createMessagesIdempotent entries s).1 = .ok results →
        ∀ msg, .ok msg true ∈ results → known msg.id
  hardDelete : ∀ id s s', known id → rel s s' →
    SameStep rel (B.hardDelete id s) (B.hardDelete id s')
  moveToSent : ∀ id s s', known id → rel s s' →
    SameStep rel (B.moveToFolder id folderSent s) (B.moveToFolder id folderSent s')
  get : ∀ id s s', known id → rel s s' → B.get id s = B.get id s'
  deleteDraft : ∀ id s s', known id → rel s s' →
    SameStep rel (B.deleteDraft id s) (B.deleteDraft id s')
  addRef : ∀ manager ∈ B.attachments, ∀ id s s', rel s s' →
    SameStep rel (manager.addRef id s) (manager.addRef id s')
  removeRef : ∀ manager ∈ B.attachments, ∀ id s s', rel s s' →
    SameStep rel (manager.removeRef id s) (manager.removeRef id s')
  publish : ∀ event s s', rel s s' → SameStep rel (B.publish event s) (B.publish event s')

variable {fit : MessageData → Prop}

/-- What the operations keep, they do the same about in one state. -/
lemma Backend.Keeps.relates {σ : Type} {B : Backend σ} {inv : σ → Prop} (h : B.Keeps inv fit) :
    B.Relates (fun s s' => s = s' ∧ inv s) fit (fun entry => fit entry.data) fun _ => True where
  create data s s' hfit := by
    rintro ⟨rfl, hs⟩
    exact ⟨⟨rfl, rfl, h.create data s hfit hs⟩, fun _ _ => trivial⟩
  batch entries s s' hfit := by
    rintro ⟨rfl, hs⟩
    exact ⟨⟨rfl, rfl, h.batch entries s hfit hs⟩, fun _ _ _ _ => trivial⟩
  hardDelete id s s' _ := by
    rintro ⟨rfl, hs⟩
    exact ⟨rfl, rfl, h.hardDelete id s hs⟩
  moveToSent id s s' _ := by
    rintro ⟨rfl, hs⟩
    exact ⟨rfl, rfl, h.moveToSent id s hs⟩
  get id s s' _ := by
    rintro ⟨rfl, _⟩
    rfl
  deleteDraft id s s' _ := by
    rintro ⟨rfl, hs⟩
    exact ⟨rfl, rfl, h.deleteDraft id s hs⟩
  addRef manager hmgr id s s' := by
    rintro ⟨rfl, hs⟩
    exact ⟨rfl, rfl, h.addRef manager hmgr id s hs⟩
  removeRef manager hmgr id s s' := by
    rintro ⟨rfl, hs⟩
    exact ⟨rfl, rfl, h.removeRef manager hmgr id s hs⟩
  publish event s s' := by
    rintro ⟨rfl, hs⟩
    exact ⟨rfl, rfl, h.publish event s hs⟩

lemma Backend.Relates.refs {σ : Type} {B : Backend σ} {rel : σ → σ → Prop}
    {fitEntry : IdempotentCreateEntry → Prop} {known : String → Prop}
    (h : B.Relates rel fit fitEntry known) : ∀ manager ∈ B.attachments, manager.Relates rel :=
  fun manager hmgr => ⟨h.addRef manager hmgr, h.removeRef manager hmgr⟩

namespace UserMailbox

variable {σ : Type} {m : UserMailbox σ} {fit : MessageData → Prop} {senderCopy : Message}

/-! ## References -/

variable {rel : σ → σ → Prop} {s s' : σ}

section References

section

variable {manager : AttachmentManager σ} (h : manager.Relates rel) (hs : rel s s')

include h hs

lemma removeRefs_related (ids : List String) (failed : ErrorMap) :
    SameStep rel (removeRefs manager ids failed s) (removeRefs manager ids failed s') := by
  induction ids generalizing failed s s' with
  | nil => exact ⟨rfl, hs⟩
  | cons id ids ih =>
    obtain ⟨r, t, t', ht, ht', hrel⟩ := (h.removeRef id s s' hs).exists
    rw [removeRefs, removeRefs, ht, ht']
    cases r with
    | ok => exact ih hrel failed
    | error => exact ih hrel _

lemma addRefs_related (ids added : List String) :
    SameStep rel (addRefs manager ids added s) (addRefs manager ids added s') := by
  induction ids generalizing added s s' with
  | nil => exact ⟨rfl, hs⟩
  | cons id ids ih =>
    obtain ⟨r, t, t', ht, ht', hrel⟩ := (h.addRef id s s' hs).exists
    rw [addRefs, addRefs, ht, ht']
    cases r with
    | ok => exact ih hrel _
    | error =>
      obtain ⟨failed, u, u', hu, hu', hrel'⟩ := (removeRefs_related h hrel added ∅).exists
      simp only [hu, hu']
      exact ⟨rfl, hrel'⟩

end

variable (h : ∀ manager ∈ m.service.backend.attachments, manager.Relates rel) (hs : rel s s')

include h hs

lemma addAttachmentRefs_related (msg : Message) :
    SameStep rel (m.addAttachmentRefs msg s) (m.addAttachmentRefs msg s') := by
  rw [addAttachmentRefs, addAttachmentRefs]
  cases hmgr : m.service.backend.attachments with
  | none => exact ⟨rfl, hs⟩
  | some manager => exact addRefs_related (h manager hmgr) hs _ _

lemma releaseAttachmentRefs_related (msg : Message) :
    SameStep rel (m.releaseAttachmentRefs msg s) (m.releaseAttachmentRefs msg s') := by
  rw [releaseAttachmentRefs, releaseAttachmentRefs]
  cases hmgr : m.service.backend.attachments with
  | none => exact ⟨rfl, hs⟩
  | some manager =>
    obtain ⟨failed, t, t', ht, ht', hrel⟩ :=
      (removeRefs_related (h manager hmgr) hs (msg.attachments.map Attachment.id) ∅).exists
    simp only [ht, ht']
    split_ifs
    · exact ⟨rfl, hrel⟩
    · exact ⟨rfl, hrel⟩

end References

lemma eligible_congr {targets : List String}
    (hquo : ∀ r ∈ targets, m.checkQuota r s = m.checkQuota r s') (d : Delivery) :
    m.eligible s targets d = m.eligible s' targets d := by
  induction targets generalizing d with
  | nil => rfl
  | cons r targets ih =>
    rw [List.forall_mem_cons] at hquo
    rw [eligible, eligible, hquo.1]
    cases m.checkQuota r s' with
    | error => exact ih hquo.2 _
    | ok => simp only [ih hquo.2]

section Related

variable {fitEntry : IdempotentCreateEntry → Prop}
  {known : String → Prop} (h : m.service.backend.Relates rel fit fitEntry known)
  (hs : rel s s')

/-! ## Events -/

include h hs

lemma publishOnly_related (event : Event) :
    SameStep rel (m.publishOnly event s) (m.publishOnly event s') := by
  obtain ⟨r, t, t', ht, ht', hrel⟩ := (h.publish event s s' hs).exists
  rw [publishOnly, publishOnly, ht, ht']
  cases r with
  | ok => exact ⟨rfl, hrel⟩
  | error =>
    split_ifs
    · exact ⟨rfl, hrel⟩
    · exact ⟨rfl, hrel⟩

/-! ## Copies -/

lemma createSenderMessage_related (draft : Message) (env : Envelope)
    (hfit : fit (m.senderData draft env)) :
    SameStep rel (m.createSenderMessage draft env s) (m.createSenderMessage draft env s')
      ∧ ∀ copy, (m.createSenderMessage draft env s).1 = .ok copy → known copy.id := by
  obtain ⟨hsm, hkn⟩ := h.create _ s s' hfit hs
  obtain ⟨r, t, t', ht, ht', hrel⟩ := hsm.exists
  rw [ht] at hkn
  rw [createSenderMessage, createSenderMessage, ht, ht']
  cases r with
  | error => exact ⟨⟨rfl, hrel⟩, fun copy hcp => by cases hcp⟩
  | ok copy =>
    replace hkn := hkn copy rfl
    obtain ⟨r, u, u', hu, hu', hrel⟩ := (addAttachmentRefs_related h.refs hrel copy).exists
    simp only [hu, hu']
    cases r with
    | ok => exact ⟨⟨rfl, hrel⟩, fun copy' hcp => by cases hcp; exact hkn⟩
    | error =>
      -- The references are rolled back, and the copy is.
      obtain ⟨_, v, v', hv, hv', hrel⟩ := (releaseAttachmentRefs_related h.refs hrel copy).exists
      obtain ⟨r, x, x', hx, hx', hrel⟩ := (h.hardDelete copy.id v v' hkn hrel).exists
      simp only [hv, hv', hx, hx']
      cases r with
      | ok | error => exact ⟨⟨rfl, hrel⟩, fun copy hcp => by cases hcp⟩

lemma processResult_related (draft : Message) (recipientID : String)
    (result : IdempotentCreateResult) (hres : ∀ msg, result = .ok msg true → known msg.id)
    (d : Delivery) : SameStep rel (m.processResult draft recipientID result d s)
      (m.processResult draft recipientID result d s') := by
  cases result with
  | err => exact ⟨rfl, hs⟩
  | ok msg created =>
    cases created with
    | false => exact ⟨rfl, hs⟩
    | true =>
      obtain ⟨r, t, t', ht, ht', hrel⟩ := (addAttachmentRefs_related h.refs hs msg).exists
      rw [processResult, processResult, ht, ht']
      cases r with
      | error =>
        obtain ⟨_, u, u', hu, hu', hrel⟩ := (releaseAttachmentRefs_related h.refs hrel msg).exists
        obtain ⟨_, v, v', hv, hv', hrel⟩ := (h.hardDelete msg.id u u' (hres msg rfl) hrel).exists
        simp only [hu, hu', hv, hv']
        exact ⟨rfl, hrel⟩
      | ok =>
        obtain ⟨_, u, u', hu, hu', hrel⟩ := (publishOnly_related h hrel
          (.messageReceived msg.id recipientID m.userID draft.subject m.service.now)).exists
        simp only [hu, hu']
        exact ⟨rfl, hrel⟩

lemma processResults_related (draft : Message) (results : List (String × IdempotentCreateResult))
    (hresults : ∀ entry ∈ results, ∀ msg, entry.2 = .ok msg true → known msg.id) (d : Delivery) :
    SameStep rel (m.processResults draft results d s) (m.processResults draft results d s') := by
  induction results generalizing d s s' with
  | nil => exact ⟨rfl, hs⟩
  | cons entry results ih =>
    rw [List.forall_mem_cons] at hresults
    obtain ⟨d', t, t', ht, ht', hrel⟩ :=
      (processResult_related h hs draft entry.1 entry.2 hresults.1 d).exists
    rw [processResults, processResults, ht, ht']
    exact ih hrel hresults.2 d'

lemma deliverToRecipients_related (draft : Message) (env : Envelope) (senderMsgID : String)
    (deliverTo : List String)
    (hfit : ∀ recipientID, fitEntry (m.recipientEntry draft env senderMsgID recipientID))
    (hquo : ∀ r ∈ if deliverTo.length = 0 then draft.recipientIDs else deliverTo,
      m.checkQuota r s = m.checkQuota r s') :
    SameStep rel (m.deliverToRecipients draft env senderMsgID deliverTo s)
      (m.deliverToRecipients draft env senderMsgID deliverTo s') := by
  simp only [deliverToRecipients, eligible_congr hquo]
  generalize m.eligible s' (if deliverTo.length = 0 then draft.recipientIDs else deliverTo)
    ⟨[], [], ∅⟩ = phase1
  obtain ⟨recipients, d⟩ := phase1
  by_cases hno : recipients.length = 0
  · simp only [if_pos hno]
    exact ⟨rfl, hs⟩
  · simp only [if_neg hno]
    have hents : ∀ entry ∈ recipients.map (m.recipientEntry draft env senderMsgID),
        fitEntry entry := by
      intro entry hent
      obtain ⟨recipientID, _, rfl⟩ := List.mem_map.mp hent
      exact hfit recipientID
    obtain ⟨hsm, hkn⟩ := h.batch _ s s' hents hs
    obtain ⟨r, t, t', ht, ht', hrel⟩ := hsm.exists
    rw [ht] at hkn
    rw [ht, ht']
    cases r with
    | error => exact ⟨rfl, hrel⟩
    | ok results =>
      refine processResults_related h hrel draft _ (fun entry hent msg hmsg => ?_) d
      exact hkn results rfl msg (hmsg ▸ (List.of_mem_zip hent).2)

/-! ## The end of a send -/

lemma finalizeDelivery_related (hcp : known senderCopy.id)
    (deliveredTo : List String) (draft : Message) (hdr : draft.id ≠ "" → known draft.id) :
    let r := m.finalizeDelivery senderCopy deliveredTo draft s
    let r' := m.finalizeDelivery senderCopy deliveredTo draft s'
    r.1 = r'.1 ∧ SameStep rel r.2 r'.2 := by
  obtain ⟨r, t, t', ht, ht', hrel⟩ := (h.moveToSent senderCopy.id s s' hcp hs).exists
  simp only [finalizeDelivery, ht, ht']
  cases r with
  | error => exact ⟨rfl, rfl, hrel⟩
  | ok =>
    have hrem : rel (if draft.id = "" then t else (m.service.backend.deleteDraft draft.id t).2)
        (if draft.id = "" then t' else (m.service.backend.deleteDraft draft.id t').2) := by
      split_ifs with hid
      · exact hrel
      · exact (h.deleteDraft draft.id t t' (hdr hid) hrel).2
    simp only
    generalize (if draft.id = "" then t else (m.service.backend.deleteDraft draft.id t).2) = u
      at hrem
    generalize (if draft.id = "" then t' else (m.service.backend.deleteDraft draft.id t').2) = u'
      at hrem
    rw [h.get senderCopy.id u u' hcp hrem]
    cases m.service.backend.get senderCopy.id u' with
    | error => exact ⟨rfl, rfl, hrem⟩
    | ok => exact ⟨rfl, publishOnly_related h hrem _⟩

lemma rollbackSenderMessage_related (hcp : known senderCopy.id) :
    SameStep rel (m.rollbackSenderMessage senderCopy s)
      (m.rollbackSenderMessage senderCopy s') := by
  obtain ⟨r, t, t', ht, ht', hrel⟩ := (releaseAttachmentRefs_related h.refs hs senderCopy).exists
  obtain ⟨r', u, u', hu, hu', hrel⟩ := (h.hardDelete senderCopy.id t t' hcp hrel).exists
  simp only [rollbackSenderMessage, ht, ht', hu, hu']
  exact ⟨rfl, hrel⟩

/-- Two sends that end alike. -/
structure SentAlike (rel : σ → σ → Prop) (sent sent' : Sent σ) : Prop where
  message : sent.message = sent'.message
  err : sent.err = sent'.err
  draft : sent.draft = sent'.draft
  state : rel sent.state sent'.state

/-- **A transmission does the same in related states**, if the quota verdicts are the same when the
sender's copy has been made. -/
theorem transmit_related (draft : Message) (env : Envelope) (deliverTo : List String)
    (hsender : fit (m.senderData draft env))
    (hrcpt : ∀ id recipientID, known id → fitEntry (m.recipientEntry draft env id recipientID))
    (hdr : draft.id ≠ "" → known draft.id)
    (hquo : ∀ r ∈ if deliverTo.length = 0 then draft.recipientIDs else deliverTo,
      ∀ t t', rel t t' → m.checkQuota r t = m.checkQuota r t') :
    SentAlike rel (m.transmit draft env deliverTo s) (m.transmit draft env deliverTo s') := by
  obtain ⟨hsm, hkn⟩ := createSenderMessage_related h hs draft env hsender
  obtain ⟨r, t, t', ht, ht', hrel⟩ := hsm.exists
  rw [ht] at hkn
  rw [transmit, transmit, ht, ht']
  cases r with
  | error => exact ⟨rfl, rfl, rfl, hrel⟩
  | ok copy =>
    have hcp := hkn copy rfl
    obtain ⟨d, u, u', hu, hu', hrel'⟩ := (deliverToRecipients_related h hrel draft env copy.id
      deliverTo (fun r => hrcpt copy.id r hcp) fun r hr => hquo r hr t t' hrel).exists
    simp only [hu, hu']
    split_ifs
    · obtain ⟨e, v, v', hv, hv', hrolled⟩ := (rollbackSenderMessage_related h hrel' hcp).exists
      simp only [hv, hv']
      exact ⟨rfl, rfl, rfl, hrolled⟩
    · obtain ⟨hupdated, hfinal⟩ :=
        finalizeDelivery_related h hrel' hcp d.newlyDelivered draft hdr
      rw [completeSend, completeSend]
      generalize m.finalizeDelivery copy d.newlyDelivered draft u = final at *
      generalize m.finalizeDelivery copy d.newlyDelivered draft u' = final' at *
      obtain ⟨updated, v, w⟩ := final
      obtain ⟨rfl, hw⟩ := hfinal
      subst hupdated
      exact ⟨rfl, rfl, rfl, hw⟩

end Related

/-! ## One run -/

section Keeps

variable {inv : σ → Prop} (h : m.service.backend.Keeps inv fit)

include h in
lemma transmit_keeps (draft : Message) (env : Envelope) (deliverTo : List String)
    (hsender : fit (m.senderData draft env))
    (hrcpt : ∀ id recipientID, fit (m.recipientEntry draft env id recipientID).data)
    {s : σ} (hs : inv s) : inv (m.transmit draft env deliverTo s).state := by
  have halike := transmit_related h.relates ⟨rfl, hs⟩ draft env deliverTo hsender
    (fun id r _ => hrcpt id r) (fun _ => trivial) fun r _ t t' hrel => by rw [hrel.1]
  exact halike.state.2

/-- **A send keeps what its operations keep**, whatever the draft and however it ends. -/
theorem sendDraft_keeps (h : m.service.backend.Keeps inv fit)
    (hsender : ∀ draft env, fit (m.senderData draft env))
    (hrcpt : ∀ draft env id recipientID, fit (m.recipientEntry draft env id recipientID).data)
    (draft : Message) (threadID replyToID externalID : String) (ttl : ℤ) (scheduleAt : Option Time)
    (deliverTo : List String) {s : σ} (hs : inv s) :
    inv (m.sendDraft draft threadID replyToID externalID ttl scheduleAt deliverTo s).state := by
  rw [sendDraft]
  split
  · exact hs
  split
  · exact hs
  split
  · exact hs
  split
  · exact hs
  split
  · exact hs
  exact transmit_keeps h _ _ _ (hsender _ _) (hrcpt _ _) hs

end Keeps

end UserMailbox

/-! ## The in-memory store -/

section Memory

open Memory MemoryBackend

variable {uuid : ℕ → String} {now : Time} {faults : Faults} {p : Message → Prop}

/-- Over the in-memory store, a send keeps what the operations of the store keep. -/
lemma memoryBackend_keepsStore {inv : Store → Prop} (managed : Bool)
    (hmk : ∀ data s, fit data → inv s → inv (Store.createMessage uuid now data s).2)
    (hidempotent : ∀ data key s, fit data → inv s →
      inv (Store.createMessageIdempotent uuid now data key s).2)
    (hdel : ∀ id s, inv s → inv (Store.hardDelete id s).2)
    (hmv : ∀ id s, inv s → inv (Store.moveToFolder now id folderSent {} s).2)
    (hdr : ∀ id s, inv s → inv (Store.deleteDraft id s).2) :
    (memoryBackend uuid now faults managed).Keeps (fun w => inv w.store) fit where
  create data w hdata h := by
    show inv (createMessage uuid now faults data w).2.store
    rw [createMessage]
    cases faults.create with
    | some => exact h
    | none => exact hmk data w.store hdata h
  batch entries w hents h := by
    have hmade : ∀ s, inv s → inv (createEntries uuid now faults entries s).2 := by
      induction entries with
      | nil => exact fun s hs => hs
      | cons entry entries ih =>
        rw [List.forall_mem_cons] at hents
        intro s hs
        refine ih hents.2 _ ?_
        cases faults.entry entry.data.ownerID with
        | some => exact hs
        | none => exact hidempotent _ _ s hents.1 hs
    show inv (createMessagesIdempotent uuid now faults entries w).2.store
    rw [createMessagesIdempotent]
    cases faults.batch with
    | some => exact h
    | none => exact hmade w.store h
  hardDelete id w h := hdel id w.store h
  moveToSent id w h := hmv id w.store h
  deleteDraft id w h := hdr id w.store h
  addRef manager hmgr id w h := by
    obtain rfl := eq_refManager hmgr
    show inv (addRef faults id w).2.store
    rw [addRef]
    split
    · exact h
    · split <;> exact h
  removeRef manager hmgr id w h := by
    obtain rfl := eq_refManager hmgr
    show inv (removeRef id w).2.store
    rw [removeRef]
    split <;> exact h
  publish event w h := by
    show inv (publish faults event w).2.store
    rw [publish]
    split <;> exact h

/-- What holds of every message stays so, if it holds of the new ones and of those that are moved to
the sent folder. -/
lemma memoryBackend_keeps (managed : Bool)
    (hfit : ∀ data id, fit data → p (newMessageFromData data id now))
    (hsn : (Update.moveToFolder now folderSent {}).Keeps p) :
    (memoryBackend uuid now faults managed).Keeps (fun w => w.store.Every p) fit :=
  memoryBackend_keepsStore managed
    (fun data _ hdata h => h.createMessage fun id => hfit data id hdata)
    (fun data key _ hdata h => h.createMessageIdempotent (fun id => hfit data id hdata) key)
    (fun id _ h => h.hardDelete id) (fun id _ h => h.moveToFolder hsn id)
    (fun id _ h => h.deleteDraft id)

end Memory

end Mailbox.Service
