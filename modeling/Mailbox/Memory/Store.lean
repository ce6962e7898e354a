import Mailbox.Lib.Table
import Mailbox.Store.Message

/-!
# The in-memory store

`store/memory/store.go`: the state of a connected store, and the operations on drafts.

The message map is keyed by the message's own ID, which makes it a `Table`.  The order of its
records means nothing: whatever the code reads off by `Range` is taken up to a permutation.

IDs are drawn from `uuid : ℕ → String`, the sequence of values `uuid.New` returns; `drawn` counts
how many the store has used.
-/

namespace Mailbox.Memory

/-- The map from IDs to messages, drafts included. -/
abbrev Messages := Table Message.id

/-- No message has the empty ID. -/
abbrev Messages.Named (t : Messages) : Prop := ∀ msg ∈ t.all, msg.id ≠ ""

/-- The state of a connected store. -/
structure Store where
  messages : Messages
  /-- `ownerID:idempotencyKey` to message ID. -/
  idempotencyIdx : AList fun _ : String => String
  /-- External ID to message ID. -/
  externalIdx : AList fun _ : String => String
  drawn : ℕ

/-- A call that returns an `error`. -/
abbrev StoreOp := Store → Result × Store

def Store.new : Store := ⟨.empty, ∅, ∅, 0⟩

/-- A message is stored under its ID. -/
abbrev Store.put (s : Store) (m : Message) : Store := { s with messages := s.messages.put m }

abbrev Store.remove (s : Store) (id : String) : Store :=
  { s with messages := s.messages.delete id }

/-- A new store with some messages. -/
abbrev Store.of (messages : Messages) : Store := { Store.new with messages := messages }

namespace Store

variable (uuid : ℕ → String) (now : Time)

def get (id : String) (s : Store) : Except Error Message :=
  if id = "" then .error (.sentinel .invalidID)
  else
    match s.messages.load id with
    | none => .error (.sentinel .notFound)
    | some m => if m.isDraft then .error (.sentinel .notFound) else .ok m

lemma get_eq_ok {id : String} {s : Store} {m : Message} :
    s.get id = .ok m ↔ id ≠ "" ∧ s.messages.load id = some m ∧ m.isDraft = false := by
  unfold get
  split_ifs with hid
  · simp [hid]
  · cases s.messages.load id with
    | none => simp
    | some m' => grind

/-- `NewDraft` creates a new empty draft for the given owner. -/
def newDraft (ownerID : String) : Message where
  id := ""
  ownerID := ownerID
  senderID := ownerID
  recipientIDs := []
  subject := ""
  body := ""
  headers := ∅
  metadata := ∅
  status := .draft
  isRead := false
  readAt := none
  folderID := ""
  tags := []
  attachments := []
  createdAt := now
  updatedAt := now
  isDraft := true
  threadID := ""
  replyToID := ""
  externalID := ""
  expiresAt := none
  availableAt := none

def getDraft (id : String) (s : Store) : Except Error Message :=
  if id = "" then .error (.sentinel .invalidID)
  else
    match s.messages.load id with
    | none => .error (.sentinel .notFound)
    | some m => if m.isDraft then .ok m else .error (.sentinel .notFound)

/-- `SaveDraft` persists a draft, with a new ID unless it has one. -/
def saveDraft (draft : Message) (s : Store) : Message × Store :=
  let id := if draft.id = "" then uuid s.drawn else draft.id
  let drawn := if draft.id = "" then s.drawn + 1 else s.drawn
  let m := { draft with id := id, updatedAt := now, isDraft := true }
  (m, { s with messages := s.messages.put m, drawn := drawn })

def deleteDraft (id : String) (s : Store) : Result × Store :=
  if id = "" then (.error (.sentinel .invalidID), s)
  else
    match s.messages.load id with
    | none => (.error (.sentinel .notFound), s)
    | some m =>
      if m.isDraft then (.ok (), s.remove id)
      else (.error (.sentinel .notFound), s)

end Store

end Mailbox.Memory
