import Mathlib.Data.List.AList
import Mailbox.Store.Filter

/-!
# Messages

`store/message.go` and the `message` struct of `store/memory/message.go`.  One record serves
drafts and delivered messages alike, told apart by `isDraft`; `MessageData` is what a new message
is created from.  `clone` copies every field, so on values it is the identity and does not
appear.
-/

namespace Mailbox

/-! ## Folders -/

def folderInbox : String := "__inbox"
def folderSent : String := "__sent"
def folderArchived : String := "__archived"
def folderTrash : String := "__trash"
def folderSpam : String := "__spam"
def folderOutbox : String := "__outbox"
def folderDrafts : String := "__drafts"

def folderPrefix : String := "__"

/-- `reservedFolders`: the set of valid reserved folder IDs. -/
def reservedFolders : List String :=
  [folderInbox, folderSent, folderArchived, folderTrash, folderSpam, folderOutbox, folderDrafts]

variable (folderID : String)

def isReservedFolder : Bool := reservedFolders.contains folderID

/-- `IsValidFolderID`: a known reserved folder, or a non-empty name outside the reserved
namespace. -/
def isValidFolderID : Bool :=
  if folderID = "" then false
  else if folderPrefix.toList.isPrefixOf folderID.toList then isReservedFolder folderID
  else true

/-- `IsSentByOwner`: owner and sender agree exactly on the sender's own copy. -/
def isSentByOwner (ownerID senderID : String) : Bool := ownerID == senderID

/-- `NotDeleted` returns a filter that excludes messages in the trash folder. -/
def notDeleted : Filter := notInFolder folderTrash

/-! ## Records -/

structure Attachment where
  id : String
  filename : String
  contentType : String
  size : ℤ
  uri : String
  createdAt : Time
  deriving DecidableEq, Repr

abbrev Headers := AList fun _ : String => String

abbrev Metadata := AList fun _ : String => Value

structure Message where
  id : String
  ownerID : String
  senderID : String
  recipientIDs : List String
  subject : String
  body : String
  headers : Headers
  metadata : Metadata
  status : MessageStatus
  isRead : Bool
  readAt : Option Time
  folderID : String
  tags : List String
  attachments : List Attachment
  createdAt : Time
  updatedAt : Time
  isDraft : Bool
  threadID : String
  replyToID : String
  externalID : String
  expiresAt : Option Time
  expiresZone : Zone := {}
  availableAt : Option Time
  availableZone : Zone := {}

/-- `store.MessageData`: what a new message is created from. -/
structure MessageData where
  ownerID : String
  senderID : String
  recipientIDs : List String
  subject : String
  body : String
  headers : Headers
  metadata : Metadata
  status : MessageStatus
  folderID : String
  attachments : List Attachment
  tags : List String := []
  threadID : String
  replyToID : String
  externalID : String
  expiresAt : Option Time
  expiresZone : Zone := {}
  availableAt : Option Time
  availableZone : Zone := {}

def newMessageFromData (data : MessageData) (id : String) (now : Time) : Message where
  id := id
  ownerID := data.ownerID
  senderID := data.senderID
  recipientIDs := data.recipientIDs
  subject := data.subject
  body := data.body
  headers := data.headers
  metadata := data.metadata
  status := data.status
  isRead := false
  readAt := none
  folderID := data.folderID
  tags := data.tags
  attachments := data.attachments
  createdAt := now
  updatedAt := now
  isDraft := false
  threadID := data.threadID
  replyToID := data.replyToID
  externalID := data.externalID
  expiresAt := data.expiresAt
  expiresZone := data.expiresZone
  availableAt := data.availableAt
  availableZone := data.availableZone

section

variable (data : MessageData) (id : String) (now : Time)

@[simp] lemma newMessageFromData_id : (newMessageFromData data id now).id = id := rfl

@[simp] lemma newMessageFromData_isDraft : (newMessageFromData data id now).isDraft = false := rfl

@[simp] lemma newMessageFromData_ownerID :
    (newMessageFromData data id now).ownerID = data.ownerID := rfl

@[simp] lemma newMessageFromData_folderID :
    (newMessageFromData data id now).folderID = data.folderID := rfl

end

structure IdempotentCreateEntry where
  data : MessageData
  idempotencyKey : String

/-- `store.IdempotentCreateResult`: a message that is new or was there already, or an error. -/
inductive IdempotentCreateResult where
  | ok (message : Message) (created : Bool)
  | err (e : Error)

/-- `MoveOption`, resolved: `FromFolder f` sets `fromFolderID`, no option leaves it empty. -/
structure MoveOptions where
  fromFolderID : String := ""

/-- `FromFolder` constrains a move to messages currently in `folderID`. -/
def fromFolder : MoveOptions := ⟨folderID⟩

/-! ## The filter lists of a mailbox -/

/-- The filters `Stream` iterates over. -/
def streamFilters (userID : String) (filters : List Filter) : List Filter :=
  [ownerIs userID, notDeleted] ++ filters

/-- `scopedFilters` prepends owner and non-draft filters to the caller's filters. -/
def scopedFilters (userID : String) (filters : List Filter) : List Filter :=
  [ownerIs userID, isDraftFilter false] ++ filters

end Mailbox
