import Mailbox.Lib.RefBooks
import Mailbox.Service.StatsRuns

/-!
# What the messages refer to, and what a send adds to it

An attachment *occurs* in the stored messages as often as those that are no drafts list it.  The
occurrences and the reference counts of a world are its books (`World.books`), and everything here
says of a part of the code which move of the books it makes.

**Sends.**  Without faults, and with attachments that exist, a transmission makes three moves: the
sender's copy claims its references, the recipients' copies claim theirs, and then the sender's copy
either stays or — if nobody has got a copy — is struck off again.  `sendMoments` are the states
between these moves, in which every copy that is stored has its references; `sendDraft_moves` is the
result.  Nothing is assumed about the recipients, the hooks or the quotas.
-/

namespace Mailbox.Service

open Memory UserMailbox RefCount MemoryBackend List Table

/-! ## Occurrences -/

/-- How often a message counts for an attachment. -/
def listedBy (msg : Message) (a : String) : ℕ :=
  if msg.isDraft then 0 else (attachmentIDs msg).count a

/-- How often an attachment is listed by the messages that are no drafts. -/
def occurrences (t : Messages) (a : String) : ℕ :=
  ((t.all.filter fun msg => !msg.isDraft).flatMap attachmentIDs).count a

def World.books (w : World) : Books String := ⟨w.refs, occurrences w.store.messages⟩

variable {msg : Message}

section Occurrences

variable {t t' : Messages} {id a : String}

lemma listedBy_of_not_draft (h : msg.isDraft = false) (a : String) :
    listedBy msg a = (attachmentIDs msg).count a := by
  simp [listedBy, h]

lemma occurrences_of_perm_cons (h : t.all.Perm (msg :: t'.all)) (a : String) :
    occurrences t a = occurrences t' a + listedBy msg a := by
  rw [occurrences, ((h.filter _).flatMap_right _).count_eq a, occurrences, listedBy]
  cases hdr : msg.isDraft with
  | true => simp [hdr]
  | false => simp [hdr, Nat.add_comm]

lemma occurrences_delete (h : t.load id = some msg) (a : String) :
    occurrences t a = occurrences (t.delete id) a + listedBy msg a :=
  occurrences_of_perm_cons (perm_delete h) a

lemma occurrences_put (a : String) :
    occurrences (t.put msg) a = occurrences (t.delete msg.id) a + listedBy msg a :=
  occurrences_of_perm_cons (.refl _) a

lemma occurrences_put_of_fresh (h : t.load msg.id = none) (a : String) :
    occurrences (t.put msg) a = occurrences t a + listedBy msg a := by
  refine occurrences_of_perm_cons ?_ a
  rw [all_put_of_fresh h]

lemma count_filter_notDraft (l : List Message) (draftID a : String) :
    (((l.filter (notDraft draftID)).filter fun msg => !msg.isDraft).flatMap attachmentIDs).count a
      = ((l.filter fun msg => !msg.isDraft).flatMap attachmentIDs).count a := by
  rw [filter_filter]
  congr 2
  refine filter_congr fun msg _ => ?_
  cases hdr : msg.isDraft with
  | true => simp
  | false => simp [notDraft, hdr]

end Occurrences

/-! ## References -/

variable {w w' : World} {uuid : ℕ → String} {now : Time} {m : UserMailbox World}

section References

variable {ids : List String}

lemma addRefs_of_known (added : List String) (hi : ∀ a ∈ ids, w.refs.lookup a ≠ none) :
    ∃ w' : World, addRefs (refManager Faults.none) ids added w = (.ok (), w') ∧ w'.store = w.store
      ∧ ∀ k, w'.refs.lookup k = (w.refs.lookup k).map (· + ids.count k) := by
  induction ids generalizing w added with
  | nil => exact ⟨w, rfl, rfl, fun k => by simp⟩
  | cons id ids ih =>
    rw [forall_mem_cons] at hi
    obtain ⟨c, hc⟩ := Option.ne_none_iff_exists'.mp hi.1
    have hadd : (refManager Faults.none).addRef id w = (.ok (), { w with
            addRefCalls := w.addRefCalls + 1
            refs := w.refs.insert id (c + 1) }) := by
      simp [refManager, addRef, Faults.none, increment, hc]
    have hone : ∀ k, (w.refs.insert id (c + 1)).lookup k
        = (w.refs.lookup k).map (· + [id].count k) :=
      lookup_increment (by rw [increment, hc, Option.map_some])
    obtain ⟨w', heq, hsto, hrf⟩ := ih (added ++ [id])
      (w := { w with addRefCalls := w.addRefCalls + 1, refs := w.refs.insert id (c + 1) })
      fun a ha => by simpa [hone] using hi.2 a ha
    refine ⟨w', by simp only [addRefs, hadd, heq], hsto, fun k => ?_⟩
    have hcnt : (id :: ids).count k = [id].count k + ids.count k := by
      rw [← count_append, singleton_append]
    rw [hrf, hone, Option.map_map, hcnt]
    congr 1
    funext c'
    simp only [Function.comp_apply]
    omega

variable (hm : m.service.backend = memoryBackend uuid now Faults.none true)

include hm in
lemma addAttachmentRefs_of_known (hkn : ∀ a ∈ attachmentIDs msg, w.refs.lookup a ≠ none) :
    ∃ w' : World, m.addAttachmentRefs msg w = (.ok (), w') ∧ w'.store = w.store
      ∧ ∀ k, w'.refs.lookup k = (w.refs.lookup k).map (· + (attachmentIDs msg).count k) := by
  obtain ⟨w', heq, hw'⟩ := addRefs_of_known [] hkn
  refine ⟨w', ?_, hw'⟩
  rw [addAttachmentRefs, hm]
  exact heq

lemma releaseAttachmentRefs_managed {faults : Faults}
    (hm : m.service.backend = memoryBackend uuid now faults true) (msg : Message) (w : World) :
    (m.releaseAttachmentRefs msg w).2
      = { w with refs := releaseAll (attachmentIDs msg) w.refs } := by
  have hremove : (removeRefs (refManager faults) (attachmentIDs msg) ∅ w).2 = _ :=
    removeRefs_refManager _ _ w
  rw [releaseAttachmentRefs, hm]
  simp only [memoryBackend, if_true]
  rw [attachmentIDs] at hremove
  rw [hremove]
  split_ifs <;> rfl

end References

/-! ## The moves of a transmission -/

/-- The messages that a batch has created. -/
def createdMessages (results : List IdempotentCreateResult) : List Message :=
  results.filterMap createdMessage

/-- What a batch does to the store: the new messages come on top of those that are there. -/
structure Batched (entries : List IdempotentCreateEntry) (s : Store)
    (r : List IdempotentCreateResult × Store) : Prop where
  listed : ∀ a, occurrences r.2.messages a
    = occurrences s.messages a + ((createdMessages r.1).flatMap attachmentIDs).count a
  kept : ∀ id msg, s.messages.load id = some msg → r.2.messages.load id = some msg
  created : ∀ msg ∈ createdMessages r.1, ∃ entry ∈ entries, msg.attachments = entry.data.attachments

lemma createEntries_batched (hinj : Function.Injective uuid) (hne : ∀ n, uuid n ≠ "")
    (entries : List IdempotentCreateEntry) {s : Store} (hs : FreshIDs uuid s) :
    Batched entries s (createEntries uuid now Faults.none entries s) := by
  obtain ⟨-, hall, hmade⟩ := createEntries_adds hinj hne entries hs
  refine ⟨fun a => ?_, fun id msg hmsg => ?_, fun msg hmsg => (hmade msg hmsg).2⟩
  · rw [occurrences, hall, filter_append, filter_eq_self.mpr fun msg hmsg => by
      simp [(hmade msg (mem_reverse.mp hmsg)).1], flatMap_append, count_append,
      ((reverse_perm _).flatMap_right _).count_eq, Nat.add_comm]
    rfl
  · obtain ⟨hmem, rfl⟩ := load_eq_some_iff.mp hmsg
    exact load_of_mem (by rw [hall]; exact mem_append_right _ hmem)

/-- A message that is removed, and its references. -/
lemma releases_delete (hld : w.store.messages.load msg.id = some msg)
    (hdr : msg.isDraft = false) (hsto : w'.store.messages = w.store.messages.delete msg.id)
    (hrf : w'.refs = releaseAll (attachmentIDs msg) w.refs) :
    Books.Releases (attachmentIDs msg) w.books w'.books where
  counts k := by
    show w'.refs.lookup k = _
    rw [hrf, lookup_releaseAll]
    rfl
  listed k := by
    show occurrences w.store.messages k = occurrences w'.store.messages k + _
    rw [hsto, occurrences_delete hld, listedBy_of_not_draft hdr]

variable {copy : Message}

section Moves

variable {draft : Message} (hm : m.service.backend = memoryBackend uuid now Faults.none true)
  (hinj : Function.Injective uuid) (hne : ∀ n, uuid n ≠ "")

include hm

variable (draft) in
/-- Phase 3: every new copy gets its references. -/
lemma processResults_of_known (results : List (String × IdempotentCreateResult))
    (hkn : ∀ msg ∈ createdMessages (results.map Prod.snd), ∀ a ∈ attachmentIDs msg,
      w.refs.lookup a ≠ none) (d : Delivery) :
    (m.processResults draft results d w).2.store = w.store
      ∧ ∀ k, (m.processResults draft results d w).2.refs.lookup k = (w.refs.lookup k).map
        (· + ((createdMessages (results.map Prod.snd)).flatMap attachmentIDs).count k) := by
  induction results generalizing w d with
  | nil => exact ⟨rfl, fun k => by simp [processResults, createdMessages]⟩
  | cons entry results ih =>
    obtain ⟨recipientID, result⟩ := entry
    rw [processResults]
    rcases result with ⟨msg, _ | _⟩ | e
    · exact ih hkn _
    · have hmade : createdMessages (((recipientID, .ok msg true) :: results).map Prod.snd)
          = msg :: createdMessages (results.map Prod.snd) := rfl
      rw [hmade, forall_mem_cons] at hkn
      rw [hmade]
      obtain ⟨w₁, hadd, hsto, hrf⟩ := addAttachmentRefs_of_known hm hkn.1
      have hone : (m.processResult draft recipientID (.ok msg true) d w).2.store = w.store
          ∧ (m.processResult draft recipientID (.ok msg true) d w).2.refs = w₁.refs := by
        simp only [processResult, hadd, publishOnly_state hm]
        exact ⟨hsto, rfl⟩
      generalize m.processResult draft recipientID (.ok msg true) d w = r at hone
      obtain ⟨d', w₂⟩ := r
      obtain ⟨hsto', hrf'⟩ := ih (w := w₂) (fun msg' hmsg' a ha => by
          rw [hone.2, hrf]
          simpa using hkn.2 msg' hmsg' a ha) d'
      refine ⟨hsto'.trans hone.1, fun k => ?_⟩
      rw [hrf', hone.2, hrf, Option.map_map, flatMap_cons, count_append]
      congr 1
      funext c
      simp only [Function.comp_apply]
      omega
    · exact ih hkn _

section

variable (hw : FreshIDs uuid w.store)

include hw

/-- The first move: the sender's copy. -/
lemma createSenderMessage_claims (env : Envelope)
    (hkn : ∀ a ∈ attachmentIDs draft, w.refs.lookup a ≠ none) :
    ∃ w₁ : World, m.createSenderMessage draft env w = (.ok (senderCopy uuid now m draft env w), w₁)
      ∧ w₁.store = (withSenderCopy uuid now m draft env w).store
      ∧ Books.Claims (attachmentIDs draft) w.books w₁.books := by
  obtain ⟨w', hadd, hsto, hrf⟩ := addAttachmentRefs_of_known hm hkn
  have hclm : m.claimRefs draft w = (true, w') := by
    rw [claimRefs, hadd]
  refine ⟨_, createSenderMessage_eq hm env rfl (by rw [hclm]), rfl, ?_, fun a => ?_, hkn⟩
  · rw [deliveryStart, hclm]
    exact hrf
  · exact occurrences_put_of_fresh (hw.unused _ (le_rfl)) a

include hinj hne in
/-- The second move: the recipients' copies. -/
lemma deliverToRecipients_claims (env : Envelope) (senderMsgID : String) (deliverTo : List String)
    (hkn : ∀ a ∈ attachmentIDs draft, w.refs.lookup a ≠ none) :
    let w' := (m.deliverToRecipients draft env senderMsgID deliverTo w).2
    FreshIDs uuid w'.store
      ∧ (∀ id msg, w.store.messages.load id = some msg → w'.store.messages.load id = some msg)
      ∧ ∃ ids, Books.Claims ids w.books w'.books := by
  rw [deliverToRecipients]
  generalize (if deliverTo.length = 0 then draft.recipientIDs else deliverTo) = targets
  rcases m.eligible w targets ⟨[], [], ∅⟩ with ⟨recipients, d⟩
  simp only
  split_ifs
  · exact ⟨hw, fun id msg h => h, [], fun k => by simp, fun k => rfl, by simp⟩
  · generalize hents : recipients.map (m.recipientEntry draft env senderMsgID) = entries
    have hbat : m.service.backend.createMessagesIdempotent entries w
        = (.ok (createEntries uuid now Faults.none entries w.store).1,
          { w with store := (createEntries uuid now Faults.none entries w.store).2 }) := by
      rw [hm]
      rfl
    have hbatched : Batched _ w.store (createEntries uuid now Faults.none entries w.store) :=
      createEntries_batched hinj hne _ hw
    have hadds : FreshIDs uuid (createEntries uuid now Faults.none entries w.store).2 ∧ _ ∧ _ :=
      (createEntries_adds hinj hne _ hw).1
    generalize createEntries uuid now Faults.none entries w.store = batch at *
    obtain ⟨results, store⟩ := batch
    obtain ⟨hlst, hld, hmade⟩ := hbatched
    obtain ⟨hfr, hlen, _⟩ := hadds
    simp only [hbat] at hlst hld hmade hfr hlen ⊢
    have hzip : (recipients.zip results).map Prod.snd = results :=
      map_snd_zip (by rw [hlen, ← hents, length_map])
    have hi : ∀ msg ∈ createdMessages results, attachmentIDs msg = attachmentIDs draft := by
      intro msg hmsg
      obtain ⟨entry, hent, hatt⟩ := hmade msg hmsg
      rw [← hents] at hent
      obtain ⟨recipientID, _, rfl⟩ := mem_map.mp hent
      rw [attachmentIDs, hatt]
      rfl
    obtain ⟨hsto, hrf⟩ := processResults_of_known (w := { w with store := store })
      draft hm (recipients.zip results) (fun msg hmsg a ha => by
        rw [hzip] at hmsg
        rw [hi msg hmsg] at ha
        exact hkn a ha) d
    rw [hzip] at hrf
    rw [hsto]
    refine ⟨hfr, hld, (createdMessages results).flatMap attachmentIDs, hrf, fun a => ?_,
      fun a ha => ?_⟩
    · show occurrences (m.processResults draft (recipients.zip results) d _).2.store.messages a = _
      rw [hsto]
      exact hlst a
    · obtain ⟨msg, hmsg, ha⟩ := mem_flatMap.mp ha
      exact hkn a (hi msg hmsg ▸ ha)

/-- The third move, if nobody has got a copy: the sender's copy is struck off. -/
lemma rollbackSenderMessage_releases
    (hld : w.store.messages.load copy.id = some copy) (hdr : copy.isDraft = false) :
    FreshIDs uuid (m.rollbackSenderMessage copy w).2.store
      ∧ Books.Releases (attachmentIDs copy) w.books (m.rollbackSenderMessage copy w).2.books := by
  have hid : copy.id ≠ "" := hw.named copy.id (by simp [hld])
  have hst : (m.rollbackSenderMessage copy w).2 = { w with
      store := w.store.remove copy.id
      refs := releaseAll (attachmentIDs copy) w.refs } := by
    show (m.service.backend.hardDelete copy.id (m.releaseAttachmentRefs copy w).2).2 = _
    rw [releaseAttachmentRefs_managed hm, hm]
    exact congrArg Prod.snd (memoryBackend_hardDelete hid
      (w := { w with refs := releaseAll (attachmentIDs copy) w.refs }) hld hdr)
  rw [hst]
  exact ⟨hw.delete rfl rfl, releases_delete hld hdr rfl rfl⟩

variable (draft) in
/-- The third move otherwise: none. -/
lemma completeSend_releases
    (hld : w.store.messages.load copy.id = some copy) (hdr : copy.isDraft = false)
    (d : Delivery) : FreshIDs uuid (m.completeSend draft copy d w).state.store
      ∧ Books.Releases [] w.books (m.completeSend draft copy d w).state.books := by
  have hnamed : w.store.messages.Named := fun msg hmsg =>
    hw.named msg.id (by simp [load_of_mem hmsg])
  obtain ⟨w', heq, hall, hdrw, _, _, hrf⟩ :=
    finalizeDelivery_eq hm hld hdr hnamed d.newlyDelivered draft
  have hst : (m.completeSend draft copy d w).state.store = w'.store
      ∧ (m.completeSend draft copy d w).state.refs = w'.refs := by
    rw [completeSend, heq]
    simp only [publishOnly_state hm]
    exact ⟨rfl, rfl⟩
  rw [hst.1]
  refine ⟨hw.of_ids hdrw fun msg hmsg => ?_, fun k => ?_, fun a => ?_⟩
  · rw [hall] at hmsg
    rcases mem_cons.mp hmsg with rfl | hmsg
    · exact ⟨copy, (load_eq_some_iff.mp hld).1, rfl⟩
    · exact ⟨msg, (Table.mem_delete.mp (List.mem_filter.mp hmsg).1).1, rfl⟩
  · show (m.completeSend draft copy d w).state.refs.lookup k = _
    rw [hst.2, hrf]
    rfl
  · show occurrences w.store.messages a
      = occurrences (m.completeSend draft copy d w).state.store.messages a + 0
    rw [hst.1, occurrences_delete hld, occurrences, occurrences, hall,
      filter_cons_of_pos (by simp [sentCopy, hdr]), flatMap_cons, count_append,
      count_filter_notDraft, listedBy_of_not_draft hdr]
    show _ = (attachmentIDs copy).count a + _
    omega

end

end Moves

/-! ## A whole send -/

namespace UserMailbox

section Generic

variable {σ : Type} (m : UserMailbox σ)

/-- The states that a transmission passes through: with the sender's copy, and with the recipients'
copies. -/
def moments (draft : Message) (env : Envelope) (deliverTo : List String) (s : σ) : List σ :=
  match m.createSenderMessage draft env s with
  | (.error _, _) => []
  | (.ok senderCopy, s) => [s, (m.deliverToRecipients draft env senderCopy.id deliverTo s).2]

/-- Those of a send, which may not get so far. -/
def sendMoments (draft : Message) (threadID replyToID externalID : String) (ttl : ℤ)
    (scheduleAt : Option Time) (deliverTo : List String) (s : σ) : List σ :=
  match m.checkAccess with
  | .error _ => []
  | .ok _ =>
  match m.prepareDraft draft deliverTo with
  | (.error _, _) => []
  | (.ok deliverTo, draft) =>
  match m.service.acquire with
  | .error _ => []
  | .ok _ =>
  match m.beforeSend m.service.plugins draft with
  | (.error _, _) => []
  | (.ok _, draft) =>
  match m.computeTTLFields ttl scheduleAt with
  | .error _ => []
  | .ok (expiresAt, availableAt) =>
    m.moments draft
      ⟨m.resolveThreadID threadID replyToID s, replyToID, externalID, expiresAt, availableAt⟩
      deliverTo s

end Generic

section Sends

variable {draft : Message} (hm : m.service.backend = memoryBackend uuid now Faults.none true)
  (hinj : Function.Injective uuid) (hne : ∀ n, uuid n ≠ "")

include hm hinj hne

lemma transmit_moves (hw : FreshIDs uuid w.store) (env : Envelope) (deliverTo : List String)
    (hkn : ∀ a ∈ attachmentIDs draft, w.refs.lookup a ≠ none) :
    FreshIDs uuid (m.transmit draft env deliverTo w).state.store
      ∧ List.IsChain (fun w w' : World => Books.Move w.books w'.books)
          (w :: (m.moments draft env deliverTo w ++
            [(m.transmit draft env deliverTo w).state])) := by
  obtain ⟨w₁, hmk, hsto, hclaims⟩ := createSenderMessage_claims hm hw env hkn
  have hcp : w₁.store.messages.load (senderCopy uuid now m draft env w).id
      = some (senderCopy uuid now m draft env w) := by
    rw [hsto]
    exact load_put_self
  have hfr : FreshIDs uuid w₁.store := by
    rw [hsto]
    exact hw.put hinj hne (le_rfl) (Nat.lt_succ_self _) rfl rfl
  have hkn₁ : ∀ a ∈ attachmentIDs draft, w₁.refs.lookup a ≠ none := by
    intro a ha
    have hcnt : w₁.refs.lookup a = (w.refs.lookup a).map _ := hclaims.counts a
    rw [hcnt]
    simpa using hkn a ha
  obtain ⟨hfr₂, hld, ids, hclaims₂⟩ := deliverToRecipients_claims hm hinj hne hfr env
    (senderCopy uuid now m draft env w).id deliverTo hkn₁
  rw [moments, transmit, hmk]
  simp only
  generalize m.deliverToRecipients draft env (senderCopy uuid now m draft env w).id deliverTo w₁
    = delivery at *
  obtain ⟨d, w₂⟩ := delivery
  have hcp₂ := hld _ _ hcp
  have hchain : ∀ {w₃ : World} {ids' : List String}, Books.Releases ids' w₂.books w₃.books →
      List.IsChain (fun w w' : World => Books.Move w.books w'.books) [w, w₁, w₂, w₃] := by
    intro w₃ ids' hrels
    simp only [isChain_cons_cons]
    exact ⟨.claim hclaims, .claim hclaims₂, .release hrels, .singleton _⟩
  split_ifs
  · obtain ⟨hfr₃, hrels⟩ := rollbackSenderMessage_releases hm hfr₂ hcp₂ rfl
    exact ⟨hfr₃, hchain hrels⟩
  · obtain ⟨hfr₃, hrels⟩ := completeSend_releases draft hm hfr₂ hcp₂ rfl d
    exact ⟨hfr₃, hchain hrels⟩

/-- **A send moves the books**, however it ends, if what it sends exists. -/
theorem sendDraft_moves (hw : FreshIDs uuid w.store) (threadID replyToID externalID : String)
    (ttl : ℤ) (scheduleAt : Option Time) (deliverTo : List String)
    (hkn : ∀ targets hooked, m.Ready draft deliverTo targets hooked →
      ∀ a ∈ attachmentIDs hooked, w.refs.lookup a ≠ none) :
    let sent := m.sendDraft draft threadID replyToID externalID ttl scheduleAt deliverTo w
    FreshIDs uuid sent.state.store ∧ List.IsChain (fun w w' : World => Books.Move w.books w'.books)
        (w :: (m.sendMoments draft threadID replyToID externalID ttl scheduleAt deliverTo w
          ++ [sent.state])) := by
  have hnothing : FreshIDs uuid w.store
      ∧ List.IsChain (fun w w' : World => Books.Move w.books w'.books) (w :: ([] ++ [w])) :=
    ⟨hw, by simpa using Books.Move.release (.refl w.books)⟩
  rw [sendDraft, sendMoments]
  cases hacc : m.checkAccess with
  | error => exact hnothing
  | ok =>
    rcases hprep : m.prepareDraft draft deliverTo with ⟨e | targets, draft'⟩
    · exact hnothing
    · cases hacq : m.service.acquire with
      | error => exact hnothing
      | ok =>
        rcases hh : m.beforeSend m.service.plugins draft' with ⟨e | _, hooked⟩
        · simp only [hh]
          exact hnothing
        · have hrdy : m.Ready draft deliverTo targets hooked :=
            ⟨hacc, by rw [hprep], hacq, by rw [hprep]; exact hh⟩
          simp only [hh]
          rcases m.computeTTLFields ttl scheduleAt with e | ⟨expiresAt, availableAt⟩
          · exact hnothing
          · exact transmit_moves hm hinj hne hw _ targets (hkn targets hooked hrdy)

end Sends

end UserMailbox

end Mailbox.Service
