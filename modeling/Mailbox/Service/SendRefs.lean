import Mailbox.Service.MemoryBackend

/-!
# Attachment references of a copy that fails

When the references of a copy cannot be added, `addAttachmentRefs` takes back those it has added.
Its callers, `createSenderMessage` and phase 3 of `deliverToRecipients`, then release the references
of *all* attachments of the copy once more, and delete it.  So the copy does not contribute nothing:
every attachment loses as many references as the copy has occurrences of it
(`lookup_of_failed_copy`).

**`failed_copy_neutral_iff`** says when that makes no difference.
-/

namespace Mailbox.Service

open Memory UserMailbox RefCount MemoryBackend

variable {faults : Faults} {w : World}

/-! ## Releasing and adding references -/

variable (ids : List String)

lemma removeRefs_refManager (failed : ErrorMap) (w : World) :
    (removeRefs (refManager faults) ids failed w).2 = { w with refs := releaseAll ids w.refs } := by
  induction ids generalizing failed w with
  | nil => rfl
  | cons id ids ih =>
    rw [removeRefs]
    have hstep : (refManager faults).removeRef id w = removeRef id w := rfl
    rw [hstep, removeRef]
    cases hdec : decrement id w.refs with
    | none | some => simp [ih, releaseAll, hdec]

/-- What a failed `addAttachmentRefs` leaves behind: the references of some first attachments were
added, and released again with those added before. -/
lemma addRefs_error {ids added : List String} {e : Error} {w' : World}
    (h : addRefs (refManager faults) ids added w = (.error e, w')) :
    w'.store = w.store ∧ w'.events = w.events ∧ ∃ p, p <+: ids ∧ ∀ k, w'.refs.lookup k
        = released ((added ++ p).count k) ((w.refs.lookup k).map (· + p.count k)) := by
  induction ids generalizing added w with
  | nil => simp [addRefs] at h
  | cons id ids ih =>
    rw [addRefs] at h
    have hstep : (refManager faults).addRef id w = addRef faults id w := rfl
    rw [hstep, addRef] at h
    have hrollback : (removeRefs (refManager faults) added ∅
          { w with addRefCalls := w.addRefCalls + 1 }).2 = w' →
        w'.store = w.store ∧ w'.events = w.events ∧ ∃ p, p <+: id :: ids ∧ ∀ k, w'.refs.lookup k
            = released ((added ++ p).count k) ((w.refs.lookup k).map (· + p.count k)) := by
      rintro rfl
      rw [removeRefs_refManager]
      refine ⟨rfl, rfl, [], List.nil_prefix, fun k => ?_⟩
      simp [lookup_releaseAll]
    cases hflt : faults.addRef w.addRefCalls with
    | some =>
      simp only [hflt, Prod.mk.injEq] at h
      exact hrollback h.2
    | none =>
      cases hinc : increment id w.refs with
      | none =>
        simp only [hflt, hinc, Prod.mk.injEq] at h
        exact hrollback h.2
      | some =>
        simp only [hflt, hinc] at h
        obtain ⟨hsto, hevs, p, hp, hlk⟩ := ih h
        refine ⟨hsto, hevs, id :: p, List.cons_prefix_cons.mpr ⟨rfl, hp⟩, fun k => ?_⟩
        rw [hlk k, lookup_increment hinc k, Option.map_map]
        have hcnt : (id :: p).count k = [id].count k + p.count k := by
          rw [← List.count_append]
          rfl
        simp only [List.append_assoc, List.singleton_append, hcnt]
        congr 2
        funext c
        simp [Nat.add_assoc]

/-! ## The failed copy -/

section Copy

variable {uuid : ℕ → String} {now : Time} {m : UserMailbox World} {msg : Message} {e : Error}
  {w' : World}

/-- After the failure, and the release that the callers add to it, every attachment has lost one
reference for each time it occurs in the copy. -/
theorem lookup_of_failed_copy (hm : m.service.backend = memoryBackend uuid now faults true)
    (h : m.addAttachmentRefs msg w = (.error e, w')) :
    (m.releaseAttachmentRefs msg w').2.store = w.store ∧ ∀ k,
      (m.releaseAttachmentRefs msg w').2.refs.lookup k
        = released ((attachmentIDs msg).count k) (w.refs.lookup k) := by
  have hmgr : m.service.backend.attachments = some (refManager faults) := by
    rw [hm]
    rfl
  rw [addAttachmentRefs, hmgr] at h
  obtain ⟨hsto, _, p, hp, hlk⟩ := addRefs_error h
  have hrel : (m.releaseAttachmentRefs msg w').2
      = { w' with refs := releaseAll (attachmentIDs msg) w'.refs } := by
    simp only [releaseAttachmentRefs, hmgr]
    split_ifs <;> exact removeRefs_refManager _ _ _
  rw [hrel]
  refine ⟨hsto, fun k => ?_⟩
  have hle : p.count k ≤ (attachmentIDs msg).count k := hp.sublist.count_le k
  rw [lookup_releaseAll, hlk k, List.nil_append, released_add _ hle]

/-- Some message of the store refers to the attachment. -/
def Referenced (s : Store) (id : String) : Prop :=
  ∃ msg ∈ s.messages.all, msg.isDraft = false ∧ id ∈ attachmentIDs msg

/-- The copy has left no trace in the reference counts, and has not made an attachment disappear
that a message still refers to. -/
def NoContribution (before after : World) : Prop :=
  (∀ id, count after.refs id = count before.refs id)
    ∧ ∀ id, Referenced after.store id → before.refs.lookup id ≠ none → after.refs.lookup id ≠ none

/-- The attachments have no references, and those that are stored are not in use. -/
def Unreferenced (refs : RefCount.Counts String) (others : Store) : Prop :=
  ∀ id ∈ ids, count refs id = 0 ∧ (refs.lookup id ≠ none → ¬ Referenced others id)

/-- Releasing each attachment once too often is harmless only to attachments that nobody uses. -/
lemma noContribution_iff {before after : World}
    (hlk : ∀ k, after.refs.lookup k = released (ids.count k) (before.refs.lookup k)) :
    NoContribution before after ↔ Unreferenced ids before.refs after.store := by
  refine ⟨fun ⟨hcnt, hkp⟩ id hid => ?_, fun h => ⟨fun id => ?_, fun id href hbef => ?_⟩⟩
  · have hpos : ids.count id ≠ 0 := by simpa [List.count_eq_zero] using hid
    have hzr : count before.refs id = 0 := by
      have := hcnt id
      rw [count, count, hlk id] at this
      exact (released_getD_eq_iff hpos _).mp this
    refine ⟨hzr, fun hbef href => hkp id href hbef ?_⟩
    rw [hlk id, released_of_getD_eq_zero hpos hzr]
  · by_cases hid : id ∈ ids
    · have hpos : ids.count id ≠ 0 := by simpa [List.count_eq_zero] using hid
      rw [count, count, hlk id]
      exact (released_getD_eq_iff hpos _).mpr (h id hid).1
    · rw [count, count, hlk id, List.count_eq_zero.mpr hid, released_zero]
  · by_cases hid : id ∈ ids
    · exact absurd href ((h id hid).2 hbef)
    · rw [hlk id, List.count_eq_zero.mpr hid, released_zero]
      exact hbef

section

variable (hm : m.service.backend = memoryBackend uuid now faults true) (draft : Message)

include hm

lemma sender_copy_neutral_iff (env : Envelope) (hmk : faults.create = none)
    (hfr : w.store.messages.load (uuid w.store.drawn) = none) (hid : uuid w.store.drawn ≠ "")
    (h : m.createSenderMessage draft env w = (.error e, w')) :
    NoContribution w w' ↔ Unreferenced (attachmentIDs draft) w.refs w.store := by
  set copy := newMessageFromData (m.senderData draft env) (uuid w.store.drawn) now with hcp
  have hmade : m.service.backend.createMessage (m.senderData draft env) w = (.ok copy, { w with
          store := (Store.createMessage uuid now (m.senderData draft env) w.store).2 }) := by
    rw [hm]
    show createMessage uuid now faults _ w = _
    rw [createMessage, hmk]
    rfl
  set w₁ : World := { w with
    store := (Store.createMessage uuid now (m.senderData draft env) w.store).2 } with hw₁
  have hld : w₁.store.messages.load copy.id = some copy := Table.load_put_self
  rw [createSenderMessage, hmade] at h
  cases hrf : m.addAttachmentRefs copy w₁ with
  | mk result =>
    cases result with
    | ok => simp [hrf] at h
    | error =>
      obtain ⟨hsto, hlk⟩ := lookup_of_failed_copy hm hrf
      simp only [hrf] at h
      have hid' : copy.id ≠ "" := hid
      rw [hm, memoryBackend_hardDelete hid' (by rw [hsto]; exact hld) rfl] at h
      simp only [Prod.mk.injEq] at h
      rw [← h.2, hsto]
      refine Iff.trans (noContribution_iff (attachmentIDs draft) ?_) ?_
      · exact hlk
      have hall : ∀ id, Referenced (w₁.store.remove copy.id) id ↔ Referenced w.store id := by
        intro id
        rw [Referenced, Referenced]
        show (∃ msg ∈ ((w.store.messages.put copy).delete copy.id).all, _) ↔ _
        rw [Table.all_delete_put_of_fresh (a := copy) hfr]
      simp only [Unreferenced, hall]

lemma recipient_copy_neutral_iff (recipientID : String) (d : Delivery)
    (hld : w.store.messages.load msg.id = some msg) (hdr : msg.isDraft = false)
    (hid : msg.id ≠ "") (h : m.addAttachmentRefs msg w = (.error e, w')) :
    NoContribution w (m.processResult draft recipientID (.ok msg true) d w).2
      ↔ Unreferenced (attachmentIDs msg) w.refs (w.store.remove msg.id) := by
  obtain ⟨hsto, hlk⟩ := lookup_of_failed_copy hm h
  have hprocess : (m.processResult draft recipientID (.ok msg true) d w).2
      = { (m.releaseAttachmentRefs msg w').2 with store := w.store.remove msg.id } := by
    have hld' : (m.releaseAttachmentRefs msg w').2.store.messages.load msg.id = some msg := by
      rw [hsto]
      exact hld
    simp only [processResult, h, hm, memoryBackend_hardDelete hid hld' hdr, hsto]
  rw [hprocess]
  exact noContribution_iff _ hlk

end

end Copy

/-- **References of a failed copy.**  A copy whose references cannot be added is rolled back, and
has contributed nothing — all reference counts are what they were, and no attachment that another
message refers to is deleted — if and only if none of its attachments had any references, and none
of those that are stored was in use. -/
theorem failed_copy_neutral_iff (uuid : ℕ → String) (now : Time) (faults : Faults)
    (m : UserMailbox World) (hm : m.service.backend = memoryBackend uuid now faults true)
    (draft : Message) :
    (∀ (env : Envelope) (w : World) (e : Error) (w' : World), faults.create = none →
        w.store.messages.load (uuid w.store.drawn) = none → uuid w.store.drawn ≠ "" →
        m.createSenderMessage draft env w = (.error e, w') →
        (NoContribution w w' ↔ Unreferenced (attachmentIDs draft) w.refs w.store))
      ∧ ∀ (recipientID : String) (msg : Message) (d : Delivery) (w : World) (e : Error)
        (w₁ : World),
        w.store.messages.load msg.id = some msg → msg.isDraft = false → msg.id ≠ "" →
        m.addAttachmentRefs msg w = (.error e, w₁) →
        (NoContribution w (m.processResult draft recipientID (.ok msg true) d w).2
          ↔ Unreferenced (attachmentIDs msg) w.refs (w.store.remove msg.id)) :=
  ⟨fun env _ _ _ hcreate hfresh hid h => sender_copy_neutral_iff hm draft env hcreate hfresh hid h,
    fun recipientID _ d _ _ _ hload hdraft hid h =>
      recipient_copy_neutral_iff hm draft recipientID d hload hdraft hid h⟩

def firstAddRefFails : Faults :=
  { Faults.none with addRef := fun n => if n = 0 then some (.text "unavailable") else none }

def refMailbox : UserMailbox World :=
  plainMailbox (memoryBackend (fun _ => "new") 1 firstAddRefFails true) "u"

def draftWithAttachment : Message :=
  { Store.newDraft 0 "u" with
    recipientIDs := ["v"], subject := "hi", attachments := [⟨"a", "f", "text/plain", 1, "uri", 0⟩] }

/-- An attachment that has been uploaded, and nothing else. -/
def uploaded : World := ⟨Store.new, (∅ : RefCount.Counts String).insert "a" 0, 0, []⟩

/-- An attachment that a message refers to. -/
def shared : World :=
  { uploaded with
    store := .of (Table.empty.put { draftWithAttachment with
        id := "old", isDraft := false, status := .delivered, folderID := folderInbox })
    refs := (∅ : RefCount.Counts String).insert "a" 1 }

/-- The failed send of a fresh upload changes no count. -/
theorem failed_copy_neutral_of_upload : NoContribution uploaded
      (refMailbox.createSenderMessage draftWithAttachment ⟨"", "", "", none, none⟩ uploaded).2 := by
  refine ((failed_copy_neutral_iff (fun _ => "new") 1 firstAddRefFails refMailbox rfl
    draftWithAttachment).1 _ uploaded _ _ rfl rfl (by decide) rfl).mpr ?_
  intro id hid
  obtain rfl : id = "a" := by simpa [attachmentIDs, draftWithAttachment] using hid
  refine ⟨rfl, fun _ => ?_⟩
  rintro ⟨msg, hmsg, _⟩
  cases hmsg

/-- The failed send of an attachment that another message refers to deletes it. -/
theorem failed_copy_deletes_shared :
    let after :=
      (refMailbox.createSenderMessage draftWithAttachment ⟨"", "", "", none, none⟩ shared).2
    RefCount.count shared.refs "a" = 1 ∧ RefCount.count after.refs "a" = 0
      ∧ after.refs.lookup "a" = none ∧ Referenced after.store "a" := by
  refine ⟨rfl, rfl, rfl, _, List.mem_cons_self, rfl, List.mem_cons_self⟩

end Mailbox.Service
