import Mathlib.Data.Int.Notation
import Mathlib.Data.Nat.Notation
import Mailbox.Store.Errors

/-!
# Filters

`store/filter.go`: a filter is a field key, a comparison operator and a value of any Go type.
The only ways to make one are builders, so the key of a filter is one of the storage
keys that `MessageFieldKey` knows and the operator one of the ten operator names.  A builder
that fails returns the zero `Filter{}` beside its error; a caller that drops the error can still
pass that on, so it is part of the type.
-/

namespace Mailbox

/-- Instants. -/
abbrev Time := ℤ

/-- What a `time.Time` holds besides its instant: the pointer to its location and the reading of the
monotonic clock.  `UTC()` leaves neither. -/
structure Zone where
  loc : Option ℕ := none
  mono : Option ℤ := none
  deriving DecidableEq, Repr

/-- `MessageStatus` is a type of strings. -/
structure MessageStatus where
  name : String
  deriving DecidableEq, Repr

namespace MessageStatus

def draft : MessageStatus := ⟨"draft"⟩
def queued : MessageStatus := ⟨"queued"⟩
def sent : MessageStatus := ⟨"sent"⟩
def delivered : MessageStatus := ⟨"delivered"⟩
def failed : MessageStatus := ⟨"failed"⟩

end MessageStatus

/-- A MongoDB object ID: twelve bytes. -/
structure ObjectID where
  bytes : BitVec 96
  deriving DecidableEq, Repr

/-- The Go values that reach a filter, or a field of a stored message.  `strs` is `[]string` and
`list` is `[]any`, `strMap` is `map[string]string` and `doc` is `map[string]any` or `bson.M`: the
code tells the first of each pair from the second. -/
inductive Value where
  | nil
  | str (s : String)
  | status (s : MessageStatus)
  | bool (b : Bool)
  | int (i : ℤ)
  | int64 (i : ℤ)
  | time (t : Time) (zone : Zone)
  | oid (o : ObjectID)
  | strs (l : List String)
  | list (l : List Value)
  | strMap (m : List (String × String))
  | doc (d : List (String × Value))
  deriving Repr

/-- A time in UTC. -/
abbrev Value.utc (t : Time) : Value := .time t {}

/-- The storage keys of the message fields. -/
inductive FieldKey where
  | id
  | ownerID
  | senderID
  | recipientIDs
  | subject
  | body
  | status
  | isRead
  | folderID
  | tags
  | createdAt
  | updatedAt
  | threadID
  | replyToID
  | externalID
  | isDraft
  | expiresAt
  | availableAt
  deriving DecidableEq, Repr

/-- The storage key as the code spells it. -/
def FieldKey.name : FieldKey → String
  | .id => "id"
  | .ownerID => "owner_id"
  | .senderID => "sender_id"
  | .recipientIDs => "recipient_ids"
  | .subject => "subject"
  | .body => "body"
  | .status => "status"
  | .isRead => "is_read"
  | .folderID => "folder_id"
  | .tags => "tags"
  | .createdAt => "created_at"
  | .updatedAt => "updated_at"
  | .threadID => "thread_id"
  | .replyToID => "reply_to_id"
  | .externalID => "external_id"
  | .isDraft => "is_draft"
  | .expiresAt => "expires_at"
  | .availableAt => "available_at"

/-- The filter operators. -/
inductive Operator where
  | eq
  | ne
  | gt
  | gte
  | lt
  | lte
  | isIn
  | nin
  | exists
  | contains
  deriving DecidableEq, Repr

/-- The operator as the code spells it. -/
def Operator.name : Operator → String
  | .eq => "eq"
  | .ne => "ne"
  | .gt => "gt"
  | .gte => "gte"
  | .lt => "lt"
  | .lte => "lte"
  | .isIn => "in"
  | .nin => "nin"
  | .exists => "exists"
  | .contains => "contains"

/-- A filter, or the zero `Filter{}` that a failed builder returns. -/
inductive Filter where
  | zero
  | mk (key : FieldKey) (op : Operator) (value : Value)
  deriving Repr

/-- `MessageFieldKey` maps field names to storage keys. -/
def messageFieldKey : String → Option FieldKey
  | "ID" | "id" => some .id
  | "OwnerID" | "owner_id" => some .ownerID
  | "SenderID" | "sender_id" => some .senderID
  | "RecipientIDs" | "recipient_ids" => some .recipientIDs
  | "Subject" | "subject" => some .subject
  | "Body" | "body" => some .body
  | "Status" | "status" => some .status
  | "IsRead" | "is_read" => some .isRead
  | "FolderID" | "folder_id" => some .folderID
  | "Tags" | "tags" => some .tags
  | "CreatedAt" | "created_at" => some .createdAt
  | "UpdatedAt" | "updated_at" => some .updatedAt
  | "ThreadID" | "thread_id" => some .threadID
  | "ReplyToID" | "reply_to_id" => some .replyToID
  | "ExternalID" | "external_id" => some .externalID
  | "IsDraft" | "is_draft" => some .isDraft
  | "ExpiresAt" | "expires_at" => some .expiresAt
  | "AvailableAt" | "available_at" => some .availableAt
  | _ => none

/-! ## The builders -/

/-- `FilterBuilder`: the field asked for, and its storage key when there is one. -/
structure FilterBuilder where
  field : String
  key : Option FieldKey

/-- `MessageFilter` returns a filter builder for message fields. -/
def messageFilter (field : String) : FilterBuilder :=
  ⟨field, messageFieldKey field⟩

variable (b : FilterBuilder)

def FilterBuilder.build (op : Operator) (v : Value) : Filter × Option Error :=
  match b.key with
  | none => (.zero, some (.wrap ("filter " ++ b.field) (.text ("unsupported field: " ++ b.field))))
  | some key => (.mk key op v, none)

def FilterBuilder.equal (v : Value) : Filter × Option Error := b.build .eq v

def FilterBuilder.notEqual (v : Value) : Filter × Option Error := b.build .ne v

def FilterBuilder.contains (v : Value) : Filter × Option Error :=
  b.build .contains v

def FilterBuilder.greaterThan (v : Value) : Filter × Option Error :=
  b.build .gt v

def FilterBuilder.greaterThanEqual (v : Value) : Filter × Option Error :=
  b.build .gte v

def FilterBuilder.lessThan (v : Value) : Filter × Option Error := b.build .lt v

def FilterBuilder.lessThanEqual (v : Value) : Filter × Option Error :=
  b.build .lte v

/-- `In`, whose values arrive as `[]any`. -/
def FilterBuilder.isIn (v : List Value) : Filter × Option Error :=
  b.build .isIn (.list v)

def FilterBuilder.notIn (v : List Value) : Filter × Option Error :=
  b.build .nin (.list v)

def FilterBuilder.exists (v : Bool) : Filter × Option Error :=
  b.build .exists (.bool v)

/-- `OwnerIs` returns a filter for messages owned by a specific user. -/
def ownerIs (ownerID : String) : Filter := ((messageFilter "OwnerID").equal (.str ownerID)).1

/-- `StatusIs` returns a filter for messages with a specific status.  The value is the string
behind the status. -/
def statusIs (status : MessageStatus) : Filter :=
  ((messageFilter "Status").equal (.str status.name)).1

/-- `IsReadFilter` returns a filter for read/unread messages. -/
def isReadFilter (isRead : Bool) : Filter := ((messageFilter "IsRead").equal (.bool isRead)).1

variable (folderID : String)

/-- `InFolder` returns a filter for messages in a specific folder. -/
def inFolder : Filter := ((messageFilter "FolderID").equal (.str folderID)).1

/-- `NotInFolder` returns a filter for messages not in a specific folder. -/
def notInFolder : Filter :=
  ((messageFilter "FolderID").notEqual (.str folderID)).1

/-- `HasTag` returns a filter for messages with a specific tag. -/
def hasTag (tagID : String) : Filter := ((messageFilter "Tags").contains (.str tagID)).1

/-- `HasTags` returns filters for messages that have all specified tags. -/
def hasTags (tags : List String) : List Filter := tags.map hasTag

/-- `ThreadIs` returns a filter for messages in a specific thread. -/
def threadIs (threadID : String) : Filter := ((messageFilter "ThreadID").equal (.str threadID)).1

/-- `IsDraftFilter` returns a filter for draft/non-draft messages. -/
def isDraftFilter (isDraft : Bool) : Filter := ((messageFilter "IsDraft").equal (.bool isDraft)).1

@[simp] lemma ownerIs_eq (ownerID : String) : ownerIs ownerID = .mk .ownerID .eq (.str ownerID) :=
  rfl

@[simp] lemma isReadFilter_eq (b : Bool) : isReadFilter b = .mk .isRead .eq (.bool b) := rfl

@[simp] lemma inFolder_eq : inFolder folderID = .mk .folderID .eq (.str folderID) := rfl

@[simp] lemma notInFolder_eq : notInFolder folderID = .mk .folderID .ne (.str folderID) := rfl

@[simp] lemma hasTag_eq (tagID : String) : hasTag tagID = .mk .tags .contains (.str tagID) := rfl

@[simp] lemma isDraftFilter_eq (b : Bool) : isDraftFilter b = .mk .isDraft .eq (.bool b) := rfl

end Mailbox
