import Mailbox.Memory.Query

/-!
# Mutations of the in-memory store

`store/memory/write.go`.  The single-message mutators share one shape: take the message's lock, load
it, look at it, and store a changed copy.  What they do with the message they loaded is an `Update`;
`Store.mutate` is the shape, run without interference.  `Memory.Tasks` takes the same updates apart
into atomic steps.

The bulk operations share `iterateFiltered`, which does so to every message that the owner and the
filters select.
-/

namespace Mailbox.Memory

/-! ## Updates -/

/-- What a mutator makes of the message it loaded: an error, no change, or a changed copy. -/
abbrev Update := Message → Except Error (Option Message)

namespace Update

variable (now : Time)

def markRead (read : Bool) : Update := fun orig =>
  .ok (some { orig with
    isRead := read, updatedAt := now, readAt := if read then some now else none })

/-- A conditional move checks the source folder within the lock. -/
def moveToFolder (folderID : String) (opts : MoveOptions) : Update := fun orig =>
  if opts.fromFolderID ≠ "" ∧ orig.folderID ≠ opts.fromFolderID then
    .error (.sentinel .folderMismatch)
  else .ok (some { orig with folderID := folderID, updatedAt := now })

def addTag (tagID : String) : Update := fun orig =>
  if tagID ∈ orig.tags then .ok none
  else .ok (some { orig with tags := orig.tags ++ [tagID], updatedAt := now })

/-- The first occurrence of the tag is cut out. -/
def removeTag (tagID : String) : Update := fun orig =>
  if tagID ∈ orig.tags then
    .ok (some { orig with tags := orig.tags.erase tagID, updatedAt := now })
  else .ok none

def delete : Update := fun orig =>
  .ok (some { orig with folderID := folderTrash, updatedAt := now })

/-- Only messages in trash are restored, to the folder they would have been delivered to. -/
def restore : Update := fun orig =>
  if orig.folderID ≠ folderTrash then .error (.sentinel .notFound)
  else
    let folderID :=
      if isSentByOwner orig.ownerID orig.senderID then folderSent else folderInbox
    .ok (some { orig with folderID := folderID, updatedAt := now })

/-- An update that stays with its message. -/
def KeepsID (u : Update) : Prop := ∀ orig m, u orig = .ok (some m) → m.id = orig.id

lemma keepsID_markRead (read : Bool) : KeepsID (markRead now read) := by
  rintro orig m ⟨⟩
  rfl

lemma keepsID_moveToFolder (folderID : String) (opts : MoveOptions) :
    KeepsID (moveToFolder now folderID opts) := by
  intro orig m h
  unfold moveToFolder at h
  split_ifs at h
  cases h
  rfl

lemma keepsID_addTag (tagID : String) : KeepsID (addTag now tagID) := by
  intro orig m h
  unfold addTag at h
  split_ifs at h <;> cases h
  rfl

lemma keepsID_removeTag (tagID : String) : KeepsID (removeTag now tagID) := by
  intro orig m h
  unfold removeTag at h
  split_ifs at h <;> cases h
  rfl

lemma keepsID_delete : KeepsID (delete now) := by
  rintro orig m ⟨⟩
  rfl

lemma keepsID_restore : KeepsID (restore now) := by
  intro orig m h
  unfold restore at h
  split_ifs at h <;> cases h <;> rfl

end Update

/-! ## Single messages -/

namespace Store

variable (now : Time)

/-- The common shape of the mutators. -/
def mutate (update : Update) (id : String) (s : Store) : Result × Store :=
  if id = "" then (.error (.sentinel .invalidID), s)
  else
    match s.messages.load id with
    | none => (.error (.sentinel .notFound), s)
    | some orig =>
      if orig.isDraft then (.error (.sentinel .notFound), s)
      else
        match update orig with
        | .error e => (.error e, s)
        | .ok none => (.ok (), s)
        | .ok (some m) => (.ok (), s.put m)

def markRead (id : String) (read : Bool) : StoreOp :=
  mutate (.markRead now read) id

/-- `MoveToFolder` moves a message to a different folder, only from `opts.fromFolderID` when that
is set. -/
def moveToFolder (id folderID : String) (opts : MoveOptions) (s : Store) : Result × Store :=
  if id = "" then (.error (.sentinel .invalidID), s)
  else if opts.fromFolderID ≠ "" ∧ isValidFolderID opts.fromFolderID = false then
    (.error (.sentinel .invalidFolderID), s)
  else mutate (.moveToFolder now folderID opts) id s

def addTag (id tagID : String) : StoreOp := mutate (.addTag now tagID) id

/-- `RemoveTag` removes a tag from a message. -/
def removeTag (id tagID : String) : StoreOp :=
  mutate (.removeTag now tagID) id

def delete (id : String) : StoreOp := mutate (.delete now) id

/-- `Restore` restores a soft-deleted message from trash. -/
def restore (id : String) : StoreOp := mutate (.restore now) id

def hardDelete (id : String) (s : Store) : Result × Store :=
  if id = "" then (.error (.sentinel .invalidID), s)
  else
    match s.messages.load id with
    | none => (.error (.sentinel .notFound), s)
    | some m =>
      if m.isDraft then (.error (.sentinel .notFound), s)
      else (.ok (), s.remove id)

lemma mutate_of_load {update : Update} {id : String} {s : Store} {orig : Message} (hid : id ≠ "")
    (hld : s.messages.load id = some orig) (hdr : orig.isDraft = false) : mutate update id s =
      match update orig with
      | .error e => (.error e, s)
      | .ok none => (.ok (), s)
      | .ok (some m) => (.ok (), s.put m) := by
  simp [mutate, hid, hld, hdr]

lemma hardDelete_of_load {id : String} {s : Store} {m : Message} (hid : id ≠ "")
    (hld : s.messages.load id = some m) (hdr : m.isDraft = false) :
    hardDelete id s = (.ok (), s.remove id) := by
  simp [hardDelete, hid, hld, hdr]

/-! ## Bulk operations -/

variable (ownerID : String) (filters : List Filter)

/-- What `iterateFiltered` does when `Range` hands it a message: the authoritative checks are made
on what it loads under the lock. -/
def visit (fn : Message → Message) (acc : ℕ × Messages) (value : Message) : ℕ × Messages :=
  if value.isDraft ∨ value.ownerID ≠ ownerID then acc
  else
    match acc.2.load value.id with
    | none => acc
    | some orig =>
      if orig.isDraft ∨ orig.ownerID ≠ ownerID then acc
      else if isAvailableNow now orig = false then acc
      else if matchesFilters orig filters = false then acc
      else (acc.1 + 1, acc.2.put { fn orig with updatedAt := now })

/-- `iterateFiltered` applies `fn` to the owner's messages that match the filters. -/
def iterateFiltered (fn : Message → Message) (s : Store) : ℕ × Store :=
  let acc := s.messages.all.foldl (visit now ownerID filters fn) (0, s.messages)
  (acc.1, { s with messages := acc.2 })

def markReadByFilter (read : Bool) : Store → ℕ × Store :=
  iterateFiltered now ownerID filters fun m =>
    { m with isRead := read, readAt := if read then some now else none }

def moveByFilter (folderID : String) : Store → ℕ × Store :=
  iterateFiltered now ownerID filters fun m => { m with folderID := folderID }

def deleteByFilter : Store → ℕ × Store :=
  iterateFiltered now ownerID filters fun m => { m with folderID := folderTrash }

def addTagByFilter (tagID : String) : Store → ℕ × Store :=
  iterateFiltered now ownerID filters fun m =>
    if tagID ∈ m.tags then m else { m with tags := m.tags ++ [tagID] }

def removeTagByFilter (tagID : String) : Store → ℕ × Store :=
  iterateFiltered now ownerID filters fun m => { m with tags := m.tags.erase tagID }

/-- What `MarkAllRead` does when `Range` hands it a message. -/
def visitUnread (folderID : String) (acc : ℕ × Messages) (value : Message) : ℕ × Messages :=
  if value.isDraft ∨ value.ownerID ≠ ownerID ∨ value.folderID ≠ folderID ∨ value.isRead then acc
  else
    match acc.2.load value.id with
    | none => acc
    | some orig =>
      if orig.isDraft = false ∧ orig.isRead = false ∧ orig.ownerID = ownerID
          ∧ orig.folderID = folderID then
        (acc.1 + 1, acc.2.put { orig with isRead := true, readAt := some now, updatedAt := now })
      else acc

/-- `MarkAllRead` marks all unread non-draft messages in a folder as read. -/
def markAllRead (folderID : String) (s : Store) : ℕ × Store :=
  let acc := s.messages.all.foldl (visitUnread now ownerID folderID) (0, s.messages)
  (acc.1, { s with messages := acc.2 })

end Store

end Mailbox.Memory
