import Mailbox.Service.Calls
import Mailbox.Service.Received
import Mailbox.Service.Resend

/-!
# Composing and saving drafts

`draft.go` with `saveDraft` of `send.go` and `GetDraft` of `query.go`.  A draft is a message of the
store and the settings the mailbox keeps beside it.  The settings take different ways to the store
and back:

* `SetTTL` and `SetScheduleAt` write both at once, the TTL as the time at which it would run out;
* thread, reply and external IDs are written to the message when the draft is saved;
* `newSavedDraft` reads the IDs and the schedule back, and nothing else.

`composed_spec` says how setting and message hang together after any sequence of setters, and
`reload_spec` what a saved draft is when it is loaded again: **the TTL is not among what comes
back.**
-/

namespace Mailbox.Service

open Memory UserMailbox

namespace Draft

/-! ## Setters -/

/-- `newDraft` creates a new draft for the given mailbox. -/
def new (now : Time) (userID : String) : Draft :=
  ⟨Store.newDraft now userID, false, "", "", "", 0, none, []⟩

section Setters

variable (now : Time)

def setRecipients (recipientIDs : List String) (d : Draft) : Draft :=
  { d with message := { d.message with recipientIDs := recipientIDs, updatedAt := now } }

def setSubject (subject : String) (d : Draft) : Draft :=
  { d with message := { d.message with subject := subject, updatedAt := now } }

def setBody (body : String) (d : Draft) : Draft :=
  { d with message := { d.message with body := body, updatedAt := now } }

def setHeader (key value : String) (d : Draft) : Draft :=
  { d with message :=
    { d.message with headers := d.message.headers.insert key value, updatedAt := now } }

def setMetadata (key : String) (value : Value) (d : Draft) : Draft :=
  { d with message :=
    { d.message with metadata := d.message.metadata.insert key value, updatedAt := now } }

def setTTL (dur : ℤ) (d : Draft) : Draft :=
  { d with
    ttl := dur
    message := { d.message with
      expiresAt := if dur ≤ 0 then none else some (now + dur), updatedAt := now } }

/-- `SetScheduleAt` sets the scheduled delivery time; the zero time is none. -/
def setScheduleAt (t : Time) (d : Draft) : Draft :=
  { d with
    scheduleAt := if t = 0 then none else some t
    message := { d.message with
      availableAt := if t = 0 then none else some t, updatedAt := now } }

/-- `SetExternalID` sets a caller-defined external identifier. -/
def setExternalID (id : String) (d : Draft) : Draft := { d with externalID := id }

/-- `AddAttachment` of the store's draft. -/
def appendAttachment (a : Attachment) (d : Draft) : Draft :=
  { d with message :=
    { d.message with attachments := d.message.attachments ++ [a], updatedAt := now } }

end Setters

section Failable

variable {σ : Type} (m : UserMailbox σ)

/-- `AddAttachment` adds an attachment after validating it; `none` is `nil`. -/
def addAttachment (attachment : Option Attachment) (d : Draft) : Result × Draft :=
  let limits := m.service.cfg.limits
  match attachment with
  | none => (.error (.sentinel .invalidAttachment), d)
  | some a =>
    if a.filename = "" then
      (.error (.validation "attachment.filename" "filename is required"), d)
    else if a.contentType = "" then
      (.error (.validation "attachment.content_type" "content type is required"), d)
    else if a.size > limits.maxAttachmentSize then
      (.error (.validation "attachment.size"
        s!"attachment size {a.size} exceeds limit {limits.maxAttachmentSize}"), d)
    else if d.message.attachments.length ≥ limits.maxAttachmentCount then
      (.error (.validation "attachments"
        s!"attachment count would exceed limit {limits.maxAttachmentCount}"), d)
    else (.ok (), d.appendAttachment m.service.now a)

/-- `ReplyTo` sets this draft as a reply to another message, and inherits its thread. -/
def replyTo (messageID : String) (s : σ) (d : Draft) : Result × Draft :=
  if messageID = "" then
    (.error (.validation "message_id" "message ID is required for reply"), d)
  else
    match m.service.backend.get messageID s with
    | .error e => (.error (.wrap "get parent message" e), d)
    | .ok parent =>
      if parent.ownerID ≠ m.userID then (.error (.sentinel .unauthorized), d)
      else
        (.ok (), { d with
          replyToID := messageID
          threadID := if parent.threadID ≠ "" then parent.threadID else messageID })

/-- The subject of a forwarded message. -/
def forwardSubject (subject : String) : String :=
  if "Fwd:".toList.isPrefixOf subject.toList then subject else "Fwd: " ++ subject

/-- `Forward` copies subject, body and attachments of another message. -/
def forward (messageID : String) (s : σ) (d : Draft) : Result × Draft :=
  if messageID = "" then
    (.error (.validation "message_id" "message ID is required for forward"), d)
  else
    match m.service.backend.get messageID s with
    | .error e => (.error (.wrap "get original message" e), d)
    | .ok original =>
      if original.ownerID ≠ m.userID then (.error (.sentinel .unauthorized), d)
      else
        let d := d.setSubject m.service.now (forwardSubject original.subject)
        let d := d.setBody m.service.now original.body
        (.ok (), original.attachments.foldl (fun d a => d.appendAttachment m.service.now a) d)

end Failable

/-- The calls that shape a draft, `SetDeliverTo` apart. -/
inductive Setter where
  | recipients (recipientIDs : List String)
  | subject (subject : String)
  | body (body : String)
  | header (key value : String)
  | metadata (key : String) (value : Value)
  | ttl (dur : ℤ)
  | scheduleAt (t : Time)
  | externalID (id : String)
  | attachment (attachment : Option Attachment)
  | replyTo (messageID : String)
  | forward (messageID : String)

/-- The draft after a call; one that returns an error has left it alone. -/
def Setter.apply {σ : Type} (m : UserMailbox σ) (s : σ) (d : Draft) : Setter → Draft
  | .recipients recipientIDs => d.setRecipients m.service.now recipientIDs
  | .subject text => d.setSubject m.service.now text
  | .body text => d.setBody m.service.now text
  | .header key value => d.setHeader m.service.now key value
  | .metadata key value => d.setMetadata m.service.now key value
  | .ttl dur => d.setTTL m.service.now dur
  | .scheduleAt t => d.setScheduleAt m.service.now t
  | .externalID id => d.setExternalID id
  | .attachment a => (d.addAttachment m a).2
  | .replyTo messageID => (d.replyTo m messageID s).2
  | .forward messageID => (d.forward m messageID s).2

/-- The drafts of a user that any sequence of setters makes, each called at its own time and in its
own state of the service. -/
inductive Composed (userID : String) : Draft → Prop where
  | new (now : Time) : Composed userID (Draft.new now userID)
  | set {σ : Type} {d : Draft} (m : UserMailbox σ) (s : σ) (setter : Setter) :
      Composed userID d → Composed userID (setter.apply m s d)

/-- The message of a draft that has not been saved, and the settings that are part of it. -/
structure Unsaved (userID : String) (d : Draft) : Prop where
  id : d.message.id = ""
  owner : d.message.ownerID = userID
  schedule : d.message.availableAt = d.scheduleAt
  deliverTo : d.deliverTo = []

variable {userID : String} {d : Draft}

lemma unsaved_appendAttachments (now : Time) (attachments : List Attachment)
    (h : Unsaved userID d) :
    Unsaved userID (attachments.foldl (fun d a => d.appendAttachment now a) d) := by
  induction attachments generalizing d with
  | nil => exact h
  | cons a attachments ih => exact ih ⟨h.id, h.owner, h.schedule, h.deliverTo⟩

/-- A setter keeps ID and owner, and changes the schedule on both sides. -/
lemma unsaved_apply {σ : Type} (m : UserMailbox σ) (s : σ) (h : Unsaved userID d) (setter : Setter)
    : Unsaved userID (setter.apply m s d) := by
  obtain ⟨hid, hown, hsched, hdeliverTo⟩ := h
  cases setter with
  | recipients | subject | body | header | metadata | ttl | externalID =>
    exact ⟨hid, hown, hsched, hdeliverTo⟩
  | scheduleAt => exact ⟨hid, hown, rfl, hdeliverTo⟩
  | attachment =>
    simp only [Setter.apply, addAttachment]
    split
    · exact ⟨hid, hown, hsched, hdeliverTo⟩
    · split_ifs <;> exact ⟨hid, hown, hsched, hdeliverTo⟩
  | replyTo =>
    simp only [Setter.apply, replyTo]
    split
    · exact ⟨hid, hown, hsched, hdeliverTo⟩
    · split
      · exact ⟨hid, hown, hsched, hdeliverTo⟩
      · split <;> exact ⟨hid, hown, hsched, hdeliverTo⟩
  | forward =>
    simp only [Setter.apply, forward]
    split
    · exact ⟨hid, hown, hsched, hdeliverTo⟩
    · split
      · exact ⟨hid, hown, hsched, hdeliverTo⟩
      · split
        · exact ⟨hid, hown, hsched, hdeliverTo⟩
        · exact unsaved_appendAttachments _ _ ⟨hid, hown, hsched, hdeliverTo⟩

/-- **Every sequence of setters** makes such a draft. -/
theorem composed_spec (h : Composed userID d) : Unsaved userID d := by
  induction h with
  | new => exact ⟨rfl, rfl, rfl, rfl⟩
  | set m s setter _ ih => exact unsaved_apply m s ih setter

end Draft

/-! ## Saving and loading -/

namespace MemoryMailbox

variable (m : MemoryMailbox)

/-- The checks of `saveDraft`; drafts can have an empty subject and an empty body. -/
def checkDraft (draft : Message) : Result := do
  let limits := m.service.cfg.limits
  m.checkAccess
  if draft.subject ≠ "" then validateSubject limits draft.subject
  if draft.body ≠ "" then validateBody limits draft.body
  validateHeaders m.service.lib limits draft.headers
  validateMetadata m.service.lib limits draft.metadata
  validateAttachments m.service.lib limits draft.attachments

def saveDraft (draft : Message) (w : World) : Except Error Message × World :=
  match m.checkDraft draft with
  | .error e => (.error e, w)
  | .ok _ =>
    let (saved, store) := Store.saveDraft m.uuid m.service.now draft w.store
    (.ok saved, { w with store := store })

def newSavedDraft (msg : Message) : Draft where
  message := msg
  saved := true
  threadID := msg.threadID
  replyToID := msg.replyToID
  externalID := msg.externalID
  ttl := 0
  scheduleAt := msg.availableAt
  deliverTo := []

def getDraft (id : String) (w : World) : Except Error Draft :=
  match m.checkAccess with
  | .error e => .error e
  | .ok _ =>
    match w.store.getDraft id with
    | .error e => if e.is .notFound then .error (mailboxError .notFound)
        else .error (.wrap "get draft" e)
    | .ok msg =>
      if msg.ownerID ≠ m.userID then .error (mailboxError .notFound)
      else .ok (newSavedDraft msg)

end MemoryMailbox

/-- The message with the settings that `Save` mirrors onto it. -/
def Draft.mirrored (now : Time) (d : Draft) : Message :=
  { d.message with
    threadID := d.threadID, replyToID := d.replyToID, externalID := d.externalID, updatedAt := now }

def Draft.save (d : Draft) (m : MemoryMailbox) (w : World) : Result × Draft × World :=
  match m.saveDraft (d.mirrored m.service.now) w with
  | (.error e, w) => (.error e, { d with message := d.mirrored m.service.now }, w)
  | (.ok savedMsg, w) => (.ok (), { d with message := savedMsg, saved := true }, w)

/-- `Delete` deletes the draft; one that was never saved is not there to be deleted. -/
def Draft.delete (d : Draft) (w : World) : Result × World :=
  if d.saved = false ∨ d.message.id = "" then (.ok (), w)
  else MemoryBackend.lift (Store.deleteDraft d.message.id) w

/-- The message a new draft is saved as. -/
def Draft.stored (d : Draft) (m : MemoryMailbox) (w : World) : Message :=
  { d.mirrored m.service.now with id := m.uuid w.store.drawn, isDraft := true }

variable {d saved : Draft} {m : MemoryMailbox} {w w' : World}

lemma Draft.save_spec {userID : String} (hd : Draft.Unsaved userID d)
    (h : d.save m w = (.ok (), saved, w')) :
    saved.message = d.stored m w ∧ w' = { w with store := { w.store with
          messages := w.store.messages.put (d.stored m w), drawn := w.store.drawn + 1 } } := by
  have hid : (d.mirrored m.service.now).id = "" := hd.id
  rw [Draft.save, MemoryMailbox.saveDraft] at h
  cases hchk : m.checkDraft (d.mirrored m.service.now) with
  | error =>
    rw [hchk] at h
    cases h
  | ok =>
    rw [hchk] at h
    simp only [Store.saveDraft, hid, if_true, Prod.mk.injEq, true_and] at h
    obtain ⟨rfl, rfl⟩ := h
    exact ⟨rfl, rfl⟩

/-- **What a saved draft is when it is loaded again**: content, IDs and schedule as they were, and
no TTL. -/
theorem Draft.reload_spec {m₀ : MemoryMailbox} (hd : Draft.Unsaved m.userID d)
    {reloaded : Draft} (hsave : d.save m₀ w = (.ok (), saved, w'))
    (hld : m.getDraft saved.message.id w' = .ok reloaded) :
    reloaded = ⟨d.stored m₀ w, true, d.threadID, d.replyToID, d.externalID, 0, d.scheduleAt,
      []⟩ := by
  obtain ⟨hsaved, rfl⟩ := save_spec hd hsave
  rw [MemoryMailbox.getDraft, hsaved] at hld
  cases hacc : m.checkAccess with
  | error =>
    rw [hacc] at hld
    cases hld
  | ok =>
    rw [hacc] at hld
    simp only [Store.getDraft] at hld
    have hput : (w.store.messages.put (d.stored m₀ w)).load (d.stored m₀ w).id
        = some (d.stored m₀ w) := Table.load_put_self
    by_cases hemp : (d.stored m₀ w).id = ""
    · rw [if_pos hemp] at hld
      simp only at hld
      split_ifs at hld
    · have hown : (d.stored m₀ w).ownerID = m.userID := hd.owner
      simp only [if_neg hemp, hput] at hld
      rw [if_pos (show (d.stored m₀ w).isDraft = true from rfl)] at hld
      simp only [hown, ne_eq, not_true_eq_false, if_false] at hld
      rw [← Except.ok.inj hld, ← hd.schedule]
      rfl

end Mailbox.Service
