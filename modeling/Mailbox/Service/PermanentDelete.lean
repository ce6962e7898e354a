import Mailbox.Service.Calls

/-!
# Deleting for good, and the attachments

`PermanentlyDelete` over any store without an outbox and any attachment manager.  The message is
deleted, the deletion is announced, and then the references of the message are released — unless
an error comes before.  That error may mean that nothing was deleted, or that the deletion could not
be announced; in the second case the message is gone, and its references are not released.

What is counted is the calls of `RemoveRef`, whether they succeed or not.  To see them, the
mailbox is *watched*: its attachment manager keeps a record of them beside the state.  Watching
changes nothing (`watched_permanentlyDelete`), and the calls over the in-memory store are the ones
of `Calls` (`MemoryMailbox.permanentlyDelete_eq`).
-/

namespace Mailbox.Service

open Memory MemoryMailbox MemoryBackend

/-! ## The call over any store -/

namespace UserMailbox

variable {σ : Type} (m : UserMailbox σ) (fault : MutationEvent → Option Error)

/-- `getAndVerify` retrieves a message and verifies ownership. -/
def getAndVerify (messageID : String) (s : σ) : Except Error Message :=
  match m.service.backend.get messageID s with
  | .error e => .error (.wrap "get message" e)
  | .ok msg => if msg.ownerID = m.userID then .ok msg else .error (.sentinel .unauthorized)

/-- `opAndPublish` on a store without an outbox.  `fault` says how publishing an event fares. -/
def opAndPublish (event : MutationEvent) (op : σ → Result × σ) (s : σ) : Result × σ :=
  Service.opAndPublish ⟨fault event, m.service.eventErrorsFatal⟩ event.name event.messageID op s

def messageDeleted (messageID : String) (msg : Message) : MutationEvent :=
  .messageDeleted messageID m.userID msg.folderID (!msg.isRead) m.service.now

/-- `PermanentlyDelete` permanently deletes a message from trash. -/
def permanentlyDelete (messageID : String) (s : σ) : Result × σ :=
  match m.checkAccess with
  | .error e => (.error e, s)
  | .ok _ =>
    match m.getAndVerify messageID s with
    | .error e => (.error e, s)
    | .ok msg =>
      if msg.folderID ≠ folderTrash then (.error (.sentinel .notInTrash), s)
      else
        match m.opAndPublish fault (m.messageDeleted messageID msg)
            (m.service.backend.hardDelete messageID) s with
        | (.error e, s) => (.error (.wrap "hard delete message" e), s)
        -- A failure to release is only logged.
        | (.ok _, s) => (.ok (), (m.releaseAttachmentRefs msg s).2)

end UserMailbox

section InMemory

variable (m : MemoryMailbox) (messageID : String) (i : Instance)

lemma MemoryMailbox.getAndVerify_eq : m.toUserMailbox.getAndVerify messageID i.world
      = Service.getAndVerify m.userID messageID i.store := by
  rw [UserMailbox.getAndVerify, m.backend_eq]
  rfl

lemma MemoryMailbox.opAndPublish_eq (event : MutationEvent) (op : StoreOp) :
    m.toUserMailbox.opAndPublish m.publishFault event (lift op) i.world
      = ((m.opAndPublish event op i).result, (m.opAndPublish event op i).state.world) := by
  simp only [UserMailbox.opAndPublish, opAndPublish, Service.opAndPublish,
    lift, Instance.setStore, Instance.store]
  rcases op i.world.store with ⟨e | _, s⟩
  · rfl
  · cases m.publishFault event with
    | none => rfl
    | some => cases m.service.eventErrorsFatal <;> rfl

/-- Over the in-memory store this is the call of `Calls`. -/
theorem MemoryMailbox.permanentlyDelete_eq : (m.permanentlyDelete messageID i).result
        = (m.toUserMailbox.permanentlyDelete m.publishFault messageID i.world).1
      ∧ (m.permanentlyDelete messageID i).state = { i with
          world := (m.toUserMailbox.permanentlyDelete m.publishFault messageID i.world).2 } := by
  have hdel : m.service.backend.hardDelete messageID
      = lift (Store.hardDelete messageID) := by
    rw [m.backend_eq]
    rfl
  rw [permanentlyDelete, guarded, UserMailbox.permanentlyDelete]
  cases m.checkAccess with
  | error => exact ⟨rfl, rfl⟩
  | ok =>
    simp only [verified, getAndVerify_eq]
    cases Service.getAndVerify m.userID messageID i.store with
    | error => exact ⟨rfl, rfl⟩
    | ok msg =>
      simp only
      split_ifs
      · exact ⟨rfl, rfl⟩
      · rw [hdel, opAndPublish_eq, UserMailbox.messageDeleted]
        have hca : (m.opAndPublish (.messageDeleted messageID m.userID msg.folderID
            (!msg.isRead) m.service.now) (Store.hardDelete messageID) i).state.cache
              = i.cache := rfl
        generalize m.opAndPublish _ _ i = r at hca ⊢
        obtain ⟨result, ⟨w, cache⟩, published⟩ := r
        subst hca
        cases result <;> exact ⟨rfl, rfl⟩

end InMemory

/-! ## Watching the attachment manager -/

section Watched

variable {σ ρ : Type}

/-- An operation beside the record, which it leaves alone. -/
def beside (op : σ → ρ × σ) (s : σ × List String) : ρ × σ × List String :=
  ((op s.1).1, (op s.1).2, s.2)

/-- The manager with a record of the calls of `RemoveRef`. -/
def AttachmentManager.watched (manager : AttachmentManager σ) :
    AttachmentManager (σ × List String) where
  addRef id := beside (manager.addRef id)
  removeRef id s := ((manager.removeRef id s.1).1, (manager.removeRef id s.1).2, s.2 ++ [id])

def Backend.watched (backend : Backend σ) : Backend (σ × List String) where
  get id s := backend.get id s.1
  count filters s := backend.count filters s.1
  createMessage data := beside (backend.createMessage data)
  createMessagesIdempotent entries := beside (backend.createMessagesIdempotent entries)
  hardDelete id := beside (backend.hardDelete id)
  moveToFolder id folderID := beside (backend.moveToFolder id folderID)
  deleteDraft id := beside (backend.deleteDraft id)
  attachments := backend.attachments.map AttachmentManager.watched
  publish event := beside (backend.publish event)

namespace UserMailbox

def watched (m : UserMailbox σ) : UserMailbox (σ × List String) where
  service :=
    { m.service with
      backend := m.service.backend.watched
      statsTotal := m.service.statsTotal.map fun total userID s => total userID s.1 }
  userID := m.userID
  validUserID := m.validUserID

/-- The calls of `RemoveRef` that a call of `PermanentlyDelete` makes. -/
def releases (m : UserMailbox σ) (fault : MutationEvent → Option Error) (messageID : String)
    (s : σ) : List String :=
  (m.watched.permanentlyDelete fault messageID (s, [])).2.2

lemma removeRefs_watched (manager : AttachmentManager σ) (ids : List String) (failed : ErrorMap)
    (s : σ) (log : List String) : removeRefs manager.watched ids failed (s, log)
      = ((removeRefs manager ids failed s).1, (removeRefs manager ids failed s).2, log ++ ids) := by
  induction ids generalizing failed s log with
  | nil => simp [removeRefs]
  | cons id ids ih =>
    simp only [removeRefs, AttachmentManager.watched]
    rcases manager.removeRef id s with ⟨e | _, s'⟩
    · exact (ih _ _ _).trans (by rw [List.append_assoc, List.singleton_append])
    · exact (ih _ _ _).trans (by rw [List.append_assoc, List.singleton_append])

variable {m : UserMailbox σ} {manager : AttachmentManager σ}

lemma releaseAttachmentRefs_watched (hmgr : m.service.backend.attachments = some manager)
    (msg : Message) (s : σ) (log : List String) : (m.watched.releaseAttachmentRefs msg (s, log)).2
      = ((m.releaseAttachmentRefs msg s).2, log ++ attachmentIDs msg) := by
  have hwatched : m.watched.service.backend.attachments = some manager.watched := by
    show m.service.backend.attachments.map _ = _
    rw [hmgr]
    rfl
  simp only [releaseAttachmentRefs, hmgr, hwatched, removeRefs_watched]
  split_ifs <;> rfl

/-! ## When the references are released -/

variable (m) in
/-- The call gets as far as `HardDelete`. -/
structure Reaches (messageID : String) (s : σ) (msg : Message) : Prop where
  access : m.checkAccess = .ok ()
  verified : m.getAndVerify messageID s = .ok msg
  trashed : msg.folderID = folderTrash

variable (m) in
/-- `HardDelete` succeeds, and if the event cannot be published, that is not an error. -/
def Succeeds (fault : MutationEvent → Option Error) (messageID : String) (s : σ) (msg : Message) :
    Prop :=
  (m.service.backend.hardDelete messageID s).1 = .ok ()
    ∧ (m.service.eventErrorsFatal = false ∨ fault (m.messageDeleted messageID msg) = none)

variable {fault : MutationEvent → Option Error} {messageID : String} {s : σ} {msg : Message}

lemma get_of_verified (h : m.getAndVerify messageID s = .ok msg) :
    m.service.backend.get messageID s = .ok msg := by
  rw [getAndVerify] at h
  split at h
  · cases h
  · split_ifs at h
    cases h
    assumption

lemma permanentlyDelete_of_not_reaches (h : ∀ msg, ¬ m.Reaches messageID s msg) :
    (m.permanentlyDelete fault messageID s).2 = s := by
  rw [permanentlyDelete]
  split
  · rfl
  · rename_i hacc
    split
    · rfl
    · rename_i msg hmsg
      split_ifs with htrash
      · rfl
      · exact absurd ⟨hacc, hmsg, not_not.mp htrash⟩ (h msg)

variable (fault) in
/-- A call that is not refused, and one that fails later on. -/
lemma permanentlyDelete_of_reaches (h : m.Reaches messageID s msg) :
    (m.Succeeds fault messageID s msg → (m.permanentlyDelete fault messageID s).2
        = (m.releaseAttachmentRefs msg (m.service.backend.hardDelete messageID s).2).2)
      ∧ (¬ m.Succeeds fault messageID s msg → (m.permanentlyDelete fault messageID s).2
          = (m.service.backend.hardDelete messageID s).2) := by
  simp only [permanentlyDelete, h.access, h.verified, h.trashed, opAndPublish, Service.opAndPublish,
    Succeeds]
  rcases m.service.backend.hardDelete messageID s with ⟨e | _, s'⟩
  · simp
  · cases hflt : fault (m.messageDeleted messageID msg) with
    | none => simp
    | some => cases m.service.eventErrorsFatal <;> simp

lemma releases_of_reaches (hmgr : m.service.backend.attachments = some manager)
    (h : m.Reaches messageID s msg) :
    (m.Succeeds fault messageID s msg → m.releases fault messageID s = attachmentIDs msg)
      ∧ (¬ m.Succeeds fault messageID s msg → m.releases fault messageID s = []) := by
  have hwatched : m.watched.Reaches messageID (s, []) msg := ⟨h.access, h.verified, h.trashed⟩
  obtain ⟨hdn, hfail⟩ := permanentlyDelete_of_reaches fault hwatched
  refine ⟨fun hsucc => ?_, fun hn => ?_⟩
  · rw [releases, hdn hsucc]
    rw [releaseAttachmentRefs_watched hmgr]
    exact List.nil_append _
  · rw [releases, hfail hn]
    rfl

/-- Watching a call does not change it. -/
theorem watched_permanentlyDelete (hmgr : m.service.backend.attachments = some manager)
    (log : List String) : (m.watched.permanentlyDelete fault messageID (s, log)).2.1
      = (m.permanentlyDelete fault messageID s).2 := by
  by_cases hreach : ∃ msg, m.Reaches messageID s msg
  · obtain ⟨msg, h⟩ := hreach
    have hwatched : m.watched.Reaches messageID (s, log) msg := ⟨h.access, h.verified, h.trashed⟩
    obtain ⟨hdn, hfail⟩ := permanentlyDelete_of_reaches fault hwatched
    by_cases hsucc : m.Succeeds fault messageID s msg
    · rw [hdn hsucc, (permanentlyDelete_of_reaches fault h).1 hsucc]
      show (m.watched.releaseAttachmentRefs msg (_, log)).2.1 = _
      rw [releaseAttachmentRefs_watched hmgr]
    · rw [hfail hsucc, (permanentlyDelete_of_reaches fault h).2 hsucc]
      rfl
  · rw [not_exists] at hreach
    rw [permanentlyDelete_of_not_reaches hreach, permanentlyDelete_of_not_reaches]
    exact fun msg h => hreach msg ⟨h.access, h.verified, h.trashed⟩

/-! ## The statement -/

variable (m) in
/-- The message is not in the store. -/
def Gone (messageID : String) (s : σ) : Prop :=
  ∀ msg, m.service.backend.get messageID s ≠ .ok msg

variable (m fault messageID s) in
/-- If the call has removed the message, each attachment has been released as often as the message
lists it. -/
def ReleasedWithMessage : Prop :=
  ∀ msg, m.service.backend.get messageID s = .ok msg →
    m.Gone messageID (m.permanentlyDelete fault messageID s).2 →
    ∀ id, (m.releases fault messageID s).count id = (attachmentIDs msg).count id

/-- **Deleting for good releases the references**, for any store without an outbox, any message and
any way of publishing, if and only if the message that `HardDelete` has removed lists no
attachments, or `HardDelete` says so and the event is published — or need not be. -/
theorem releasedWithMessage_iff (m : UserMailbox σ) (manager : AttachmentManager σ)
    (hmanager : m.service.backend.attachments = some manager)
    (fault : MutationEvent → Option Error) (messageID : String) (s : σ) :
    m.ReleasedWithMessage fault messageID s ↔ ∀ msg, m.Reaches messageID s msg →
        m.Gone messageID (m.service.backend.hardDelete messageID s).2 →
        msg.attachments = [] ∨ m.Succeeds fault messageID s msg := by
  constructor
  · intro hreleased msg h hgn
    by_contra hn
    rw [not_or] at hn
    obtain ⟨hattached, hfails⟩ := hn
    have hst := (permanentlyDelete_of_reaches fault h).2 hfails
    have hcnt := hreleased msg (get_of_verified h.verified) (by rw [hst]; exact hgn)
    rw [(releases_of_reaches hmanager h).2 hfails] at hcnt
    obtain ⟨a, rest, hls⟩ := List.exists_cons_of_ne_nil hattached
    have hfst := hcnt a.id
    rw [attachmentIDs, hls, List.map_cons, List.count_cons_self, List.count_nil] at hfst
    omega
  · intro hc msg hg hgn id
    by_cases hreach : ∃ msg', m.Reaches messageID s msg'
    · obtain ⟨msg', h⟩ := hreach
      have hsm := (get_of_verified h.verified).symm.trans hg
      rw [Except.ok.injEq] at hsm
      subst hsm
      by_cases hsucc : m.Succeeds fault messageID s msg'
      · rw [(releases_of_reaches hmanager h).1 hsucc]
      · rw [(permanentlyDelete_of_reaches fault h).2 hsucc] at hgn
        rcases hc msg' h hgn with hno | hyes
        · rw [(releases_of_reaches hmanager h).2 hsucc, attachmentIDs, hno, List.map_nil]
        · exact absurd hyes hsucc
    · rw [not_exists] at hreach
      rw [permanentlyDelete_of_not_reaches hreach] at hgn
      exact absurd hg (hgn msg)

end UserMailbox

end Watched

/-! ## One attachment -/

/-- A message in trash with an attachment, which nothing else refers to. -/
def trashedWithAttachment : Instance :=
  let letter : Message :=
    { letterTo "m" "u" with
      folderID := folderTrash, attachments := [⟨"a", "f", "text/plain", 1, "uri", 0⟩] }
  ⟨⟨.of (Table.empty.put letter),
    (∅ : RefCount.Counts String).insert "a" 1, 0, []⟩, ∅⟩

/-- A mailbox whose events cannot be published. -/
def unheardMailbox (fatal : Bool) : MemoryMailbox :=
  { plainMemoryMailbox "u" with
    service :=
      { (plainMemoryMailbox "u").service with
        backend := memoryBackend unaryID 1 .none true
        eventErrorsFatal := fatal }
    managed := true
    publishFault := fun _ => some (.text "no transport")
    backend_eq := rfl }

/-- If that is not an error, the attachment is released with the message. -/
theorem releasedWithMessage_unannounced :
    ((unheardMailbox false).permanentlyDelete "m" trashedWithAttachment).state.world.refs.lookup "a"
        = none
      ∧ (unheardMailbox false).toUserMailbox.ReleasedWithMessage (unheardMailbox false).publishFault
        "m" trashedWithAttachment.world := by
  refine ⟨by decide, (UserMailbox.releasedWithMessage_iff (unheardMailbox false).toUserMailbox
    (MemoryBackend.refManager .none) rfl (unheardMailbox false).publishFault "m"
    trashedWithAttachment.world).mpr fun msg h _ => .inr ⟨rfl, .inl rfl⟩⟩

/-- If it is one, the message is gone, and the attachment is not released. -/
theorem gone_without_release :
    ((unheardMailbox true).permanentlyDelete "m" trashedWithAttachment).result
        = .error (.wrap "hard delete message"
          (.eventPublish "mailbox.message.deleted" "m" (.text "no transport")))
      ∧ ((unheardMailbox true).permanentlyDelete "m" trashedWithAttachment).state.store.messages.all
        = []
      ∧ ((unheardMailbox true).permanentlyDelete "m" trashedWithAttachment).state.world.refs.lookup
          "a" = some 1
      ∧ (unheardMailbox true).toUserMailbox.releases (unheardMailbox true).publishFault "m"
          trashedWithAttachment.world = [] :=
  ⟨rfl, rfl, rfl, rfl⟩

end Mailbox.Service
