import Mailbox.Service.Bulk
import Mailbox.Service.Claim
import Mailbox.Service.MemoryBackend
import Mailbox.Service.StatsCache

/-!
# The calls of a mailbox over the in-memory store

`mutate.go`, `query.go` and `iterator.go`: what a user does with the messages that are there.
Sending is in `Send`.

A call works on an `Instance`: the world behind the service and the instance's cache of statistics.
What it publishes is part of its reply.  `Find` and `Search` visit the message map in an
unspecified order; the orders of the successive visits of one call are an argument of the call.

The in-memory store has native bulk operations, so the paginated loops of the bulk calls do not
run — except for `UpdateByFilter` without a read flag, which goes through the pages and marks every
message unread.
-/

namespace Mailbox.Service

open Memory

/-! ## Mailboxes and instances -/

/-- A mailbox of a service whose store is the in-memory one. -/
structure MemoryMailbox extends UserMailbox World where
  uuid : ℕ → String
  faults : Faults
  managed : Bool
  backend_eq : service.backend = memoryBackend uuid service.now faults managed
  /-- How publishing an event fares. -/
  publishFault : MutationEvent → Option Error
  defaultQueryLimit : ℤ
  maxQueryLimit : ℤ
  /-- `strings.ToLower`. -/
  toLower : String → String

/-- A service instance between calls. -/
structure Instance where
  world : World
  cache : StatsCache

namespace Instance

def store (i : Instance) : Store := i.world.store

def setStore (s : Store) (i : Instance) : Instance :=
  { i with world := { i.world with store := s } }

end Instance

/-- What a call returns, the state it leaves, and the events it has published. -/
structure Reply (ρ : Type) where
  result : ρ
  state : Instance
  published : List MutationEvent

/-- `fmt.Errorf("context: %w", err)`, for an error that may be `nil`. -/
def wrapError (context : String) : Result → Result
  | .ok _ => .ok ()
  | .error e => .error (.wrap context e)

namespace Reply

def refuse (e : Error) (i : Instance) : Reply Result := ⟨.error e, i, []⟩

def done (i : Instance) : Reply Result := ⟨.ok (), i, []⟩

def wrap (context : String) (r : Reply Result) : Reply Result :=
  { r with result := wrapError context r.result }

/-- The rest of a call, when what came first has not failed. -/
def andThen (r : Reply Result) (k : Instance → Reply Result) : Reply Result :=
  match r.result with
  | .error _ => r
  | .ok _ => { k r.state with published := r.published ++ (k r.state).published }

end Reply

/-- `Flags`: `none` is no change. -/
structure Flags where
  read : Option Bool := none
  archived : Option Bool := none

/-- `defaultFolderForMessage` returns the default folder for a message based on ownership. -/
def defaultFolderForMessage (msg : Message) : String :=
  if isSentByOwner msg.ownerID msg.senderID then folderSent else folderInbox

/-- The folder a message is in once the archived flag is as asked for. -/
def flaggedFolder (msg : Message) : Option Bool → String
  | none => msg.folderID
  | some true => folderArchived
  | some false => defaultFolderForMessage msg

/-- `isValidTagID` rejects control characters, slashes, and colons. -/
def isValidTagID (tagID : String) : Bool :=
  tagID.toList.all fun c =>
    !(decide (c.toNat < 32) || c == Char.ofNat 127 || c == '/' || c == '\\' || c == ':')

def maxTagIDLength : ℕ := 256

/-- The checks of `AddTag` and `RemoveTag`. -/
def checkTagID (tagID : String) : Result :=
  let invalidID (text : String) : Result :=
    .error (.detail (mailboxError .invalidID) text)
  if tagID = "" then invalidID "empty tag ID"
  else if isValidTagID tagID = false then invalidID "tag ID contains invalid characters"
  else if tagID.utf8ByteSize > maxTagIDLength then
    invalidID s!"tag ID exceeds maximum length of {maxTagIDLength}"
  else .ok ()

/-! ## Single messages -/

namespace MemoryMailbox

variable (m : MemoryMailbox) (messageID : String)

/-- The access check that every call makes first. -/
def guarded (i : Instance) (k : Reply Result) : Reply Result :=
  match m.checkAccess with
  | .error e => .refuse e i
  | .ok _ => k

/-- The calls that work on one message go on with it once it is known to be the user's. -/
def verified (i : Instance) (k : Message → Reply Result) : Reply Result :=
  match getAndVerify m.userID messageID i.store with
  | .error e => .refuse e i
  | .ok msg => k msg

/-- `opAndPublish`, with the event it publishes. -/
def opAndPublish (event : MutationEvent) (op : StoreOp) (i : Instance) : Reply Result :=
  let publish : Publish := ⟨m.publishFault event, m.service.eventErrorsFatal⟩
  let (result, s) := Service.opAndPublish publish event.name event.messageID op i.store
  { result := result
    state := i.setStore s
    published :=
      match (op i.store).1, publish.err with
      | .ok _, none => [event]
      | _, _ => [] }

/-- `moveAndPublish`, with the event it publishes. -/
def moveAndPublish (messageID fromFolderID toFolderID : String) (wasUnread : Bool)
    (opts : MoveOptions) (i : Instance) : Reply Result :=
  let event :=
    .messageMoved messageID m.userID fromFolderID toFolderID wasUnread m.service.now
  Service.moveAndPublish (.done i) (fun op => m.opAndPublish event op i) m.service.now messageID
    fromFolderID toFolderID opts

/-- The first half of `UpdateFlags`: the archived flag moves the message. -/
def applyArchived (msg : Message) (archived : Option Bool) (i : Instance) : Reply Result :=
  match archived with
  | none => .done i
  | some _ =>
    (m.moveAndPublish messageID msg.folderID (flaggedFolder msg archived) (!msg.isRead) {} i).wrap
      "move to folder"

/-- The second half of `UpdateFlags`: the event only fires on mark-as-read. -/
def applyRead (messageID currentFolderID : String) (read : Option Bool) (i : Instance) :
    Reply Result :=
  match read with
  | none => .done i
  | some true =>
    (m.opAndPublish (.messageRead messageID m.userID currentFolderID m.service.now)
      (Store.markRead m.service.now messageID true) i).wrap "mark read"
  | some false =>
    let (result, s) := Store.markRead m.service.now messageID false i.store
    ⟨wrapError "mark unread" result, i.setStore s, []⟩

def updateFlags (flags : Flags) (i : Instance) : Reply Result :=
  m.guarded i <|
    if flags.read = none ∧ flags.archived = none then .done i
    else
      m.verified messageID i fun msg =>
        (m.applyArchived messageID msg flags.archived i).andThen
          (m.applyRead messageID (flaggedFolder msg flags.archived) flags.read)

def delete (i : Instance) : Reply Result :=
  m.guarded i <| m.verified messageID i fun msg =>
    if msg.folderID = folderTrash then .refuse (.sentinel .alreadyInTrash) i
    else
      (m.moveAndPublish messageID msg.folderID folderTrash (!msg.isRead) {} i).wrap "move to trash"

def restore (i : Instance) : Reply Result :=
  m.guarded i <| m.verified messageID i fun msg =>
    if msg.folderID ≠ folderTrash then .refuse (.sentinel .notInTrash) i
    else
      (m.moveAndPublish messageID folderTrash (defaultFolderForMessage msg) (!msg.isRead) {} i).wrap
        "restore message"

/-- `PermanentlyDelete` permanently deletes a message from trash.  References are released once the
message is gone; a failure there is only logged. -/
def permanentlyDelete (i : Instance) : Reply Result :=
  m.guarded i <| m.verified messageID i fun msg =>
    if msg.folderID ≠ folderTrash then .refuse (.sentinel .notInTrash) i
    else
      let r := m.opAndPublish
        (.messageDeleted messageID m.userID msg.folderID (!msg.isRead) m.service.now)
        (Store.hardDelete messageID) i
      match r.result with
      | .error _ => r.wrap "hard delete message"
      | .ok _ =>
        let (_, w) := m.releaseAttachmentRefs msg r.state.world
        { r with state := { r.state with world := w } }

def moveToFolder (messageID folderID : String) (opts : MoveOptions) (i : Instance) : Reply Result :=
  m.guarded i <|
    if isValidFolderID folderID = false then
      .refuse (.detail (mailboxError .invalidFolderID) folderID) i
    else if opts.fromFolderID ≠ "" ∧ isValidFolderID opts.fromFolderID = false then
      .refuse (.detail (mailboxError .invalidFolderID) opts.fromFolderID) i
    else
      m.verified messageID i fun msg =>
        m.moveAndPublish messageID msg.folderID folderID (!msg.isRead) opts i

/-- The shape of `AddTag` and `RemoveTag`. -/
def changeTag (context messageID tagID : String) (op : StoreOp) (i : Instance) : Reply Result :=
  m.guarded i <|
    match checkTagID tagID with
    | .error e => .refuse e i
    | .ok _ =>
      m.verified messageID i fun _ =>
        let (result, s) := op i.store
        ⟨wrapError context result, i.setStore s, []⟩

def addTag (messageID tagID : String) (i : Instance) : Reply Result :=
  m.changeTag "add tag" messageID tagID (Store.addTag m.service.now messageID tagID) i

def removeTag (messageID tagID : String) (i : Instance) : Reply Result :=
  m.changeTag "remove tag" messageID tagID (Store.removeTag m.service.now messageID tagID) i

/-! ## Bulk operations -/

/-- `publishOnly` publishes an event without wrapping a store operation. -/
def publishMutation (event : MutationEvent) (i : Instance) : Reply Result :=
  match m.publishFault event with
  | none => ⟨.ok (), i, [event]⟩
  | some e =>
    if m.service.eventErrorsFatal then
      .refuse (.eventPublish event.name event.messageID e) i
    else .done i

/-- `MarkAllRead` marks all unread messages in a folder as read, and changes the cache itself. -/
def markAllRead (folderID : String) (i : Instance) : Reply (ℕ × Option Error) :=
  match m.checkAccess with
  | .error e => ⟨(0, some e), i, []⟩
  | .ok _ =>
    let (count, s) := Store.markAllRead m.service.now m.userID folderID i.store
    let i := i.setStore s
    if count = 0 then ⟨(0, none), i, []⟩
    else
      let i := { i with
        cache := i.cache.updateCachedStats m.userID (StatsCache.countAllRead folderID count) }
      let r := m.publishMutation (.markAllRead m.userID folderID count m.service.now) i
      ⟨(count, match r.result with | .ok _ => none | .error e => some e), r.state, r.published⟩

/-- The bulk calls that hand the filters to the store. -/
def bulk (op : BulkOp) (filters : List Filter) (i : Instance) : Reply (ℕ × Option Error) :=
  match m.checkAccess with
  | .error e => ⟨(0, some e), i, []⟩
  | .ok _ =>
    let (count, s) := op.native m.service.now m.userID filters i.store
    ⟨(count, none), i.setStore s, []⟩

end MemoryMailbox

section Pages

variable {inv : Store → Prop} {eligible : String → Prop}
  {single : String → StoreOp}

section

variable (hsingle : ∀ s id, inv s → eligible id → inv (single id s).2)

include hsingle

lemma applyPage_induction
    {page : List Message} (hpg : ∀ msg ∈ page, eligible msg.id) (count : ℕ) {s : Store}
    (h : inv s) : inv (applyPage single page count s).2 := by
  induction page generalizing count s with
  | nil => exact h
  | cons msg page ih =>
    rw [List.forall_mem_cons] at hpg
    have hnx := hsingle s msg.id h hpg.1
    rw [applyPage]
    cases hres : single msg.id s with
    | mk result =>
      rw [hres] at hnx
      cases result with
      | ok | error => exact ih hpg.2 _ hnx

/-- What the single calls keep, the loop keeps, if every page holds what they are made for. -/
theorem pageLoop_induction {now : Time} {filters : List Filter} {limit : ℤ} {ranges : Ranges}
    (hfd : ∀ (s : Store) n cursor list, inv s →
      s.find now (ranges n) filters { limit := limit, startAfter := cursor } = some list →
        ∀ msg ∈ list.messages, eligible msg.id)
    (fuel : ℕ) (cursor : String) (count : ℕ) {s : Store} (h : inv s) :
    inv (pageLoop now filters limit single fuel ranges cursor count s).2 := by
  induction fuel generalizing ranges cursor count s with
  | zero => exact h
  | succ fuel ih =>
    rw [pageLoop]
    cases hls : s.find now (ranges 0) filters { limit := limit, startAfter := cursor } with
    | none => exact h
    | some list =>
      have hnx := applyPage_induction hsingle (hfd s 0 _ list h hls) count h
      simp only
      cases list.hasMore with
      | false => exact hnx
      | true =>
        cases list.messages.getLast? with
        | none => exact hnx
        | some last => exact ih (fun s n => hfd s (n + 1)) last.id _ hnx

end

end Pages

namespace MemoryMailbox

variable (m : MemoryMailbox) (messageID : String) (order : Ranges)

/-- `UpdateByFilter`, on a store with or without the native bulk update.  Without a read flag it
takes the slow path, where the missing flag counts as `false`. -/
def updateByFilterOn (bulkUpdater : Bool) (order : Ranges) (fuel : ℕ) (filters : List Filter)
    (flags : Flags) (i : Instance) : Reply (Option (ℕ × Option Error)) :=
  match bulkUpdater, flags.read with
  | true, some read =>
    let r := m.bulk (.updateRead read) filters i
    ⟨some r.result, r.state, r.published⟩
  | _, read =>
    match m.checkAccess with
    | .error e => ⟨some (0, some e), i, []⟩
    | .ok _ =>
      let (count, s) := pageLoop m.service.now (scopedFilters m.userID filters) m.maxQueryLimit
        ((BulkOp.updateRead (read.getD false)).single m.service.now) fuel order "" 0 i.store
      ⟨count.map (·, none), i.setStore s, []⟩

/-- The in-memory store has the native bulk update. -/
def updateByFilter (fuel : ℕ) (filters : List Filter) (flags : Flags) (i : Instance) :
    Reply (Option (ℕ × Option Error)) :=
  m.updateByFilterOn true order fuel filters flags i

/-! ## Queries -/

/-- The limit of a query: the default one when none is given, and never more than the maximum. -/
def queryLimit (limit : ℤ) : ℤ :=
  let limit := if limit = 0 then m.defaultQueryLimit else limit
  if limit > m.maxQueryLimit then m.maxQueryLimit else limit

def get (i : Instance) : Except Error Message :=
  match m.checkAccess with
  | .error e => .error e
  | .ok _ =>
    match i.store.get messageID with
    | .error e =>
      if e.is .notFound then .error (mailboxError .notFound) else .error (.wrap "get message" e)
    | .ok msg => if msg.ownerID = m.userID then .ok msg else .error (.sentinel .unauthorized)

/-- `MessageList` of the service. -/
structure Listing where
  messages : List Message
  total : ℕ
  hasMore : Bool
  nextCursor : String

/-- `listMessages` is the shared helper for listing messages with query limit enforcement.  The
field name it sorts by when none is given is not one that the store knows. -/
def listMessages (filters : List Filter) (opts : ListOptions) (i : Instance) : Option Listing :=
  let opts := { opts with limit := m.queryLimit opts.limit }
  let opts :=
    if opts.sortBy = "" then { opts with sortBy := "CreatedAt", sortOrder := .desc } else opts
  (i.store.findWithCount m.service.now (order 0) filters opts).map fun (list, total) =>
    { messages := list.messages
      total := total
      hasMore := list.hasMore
      nextCursor :=
        match list.hasMore, list.messages.getLast? with
        | true, some last => last.id
        | _, _ => "" }

/-- `Folder` returns messages in a specific folder for the current user. -/
def folder (folderID : String) (opts : ListOptions) (i : Instance) :
    Except Error (Option Listing) :=
  match m.checkAccess with
  | .error e => .error e
  | .ok _ => .ok (m.listMessages order [ownerIs m.userID, inFolder folderID] opts i)

/-- `Search` searches messages accessible to the current user.  The store leaves the next cursor
empty. -/
def search (query : SearchQuery) (i : Instance) : Except Error (Option Listing) :=
  match m.checkAccess with
  | .error e => .error e
  | .ok _ =>
    let query := { query with
      options := { query.options with limit := m.queryLimit query.options.limit }
      ownerID := m.userID
      filters := query.filters ++ [ownerIs m.userID, notDeleted] ++ hasTags query.tags }
    .ok ((i.store.search m.service.now m.toLower (order 0) query).map fun list =>
      ⟨list.messages, list.total, list.hasMore, ""⟩)

end MemoryMailbox

/-! ## Iterators -/

/-- What an iterator asks the store for. -/
inductive Fetch where
  | find (filters : List Filter) (opts : ListOptions)
  | search (query : SearchQuery)

def Fetch.setCursor (lastID : String) : Fetch → Fetch
  | .find filters opts => .find filters { opts with startAfter := lastID }
  | .search query => .search { query with options := { query.options with startAfter := lastID } }

/-- `batchIterator`. -/
structure BatchIterator where
  fetch : Fetch
  batchSize : ℤ
  batch : List Message := []
  batchIdx : ℕ := 0
  done : Bool := false
  fetched : Bool := false

def BatchIterator.current (it : BatchIterator) : Except Error Message :=
  match it.batchIdx with
  | 0 => .error (.text "mailbox: iterator out of bounds - call Next() first")
  | n + 1 =>
    match it.batch[n]? with
    | some msg => .ok msg
    | none => .error (.text "mailbox: iterator out of bounds - call Next() first")

/-- `Next` advances to the next message.  A fetch may change `σ`; it is `none` when it panics. -/
def BatchIterator.next {σ : Type} (access : Result)
    (fetch : Fetch → σ → Option (Except Error (List Message)) × σ) (it : BatchIterator) (s : σ) :
    Option (Except Error Bool) × BatchIterator × σ :=
  if it.done then (some (.ok false), it, s)
  else
    match access with
    | .error e => (some (.error e), { it with done := true }, s)
    | .ok _ =>
      if it.batchIdx < it.batch.length then
        (some (.ok true), { it with batchIdx := it.batchIdx + 1 }, s)
      else if it.fetched ∧ it.batch.length < it.batchSize then
        (some (.ok false), { it with done := true }, s)
      else
        match fetch it.fetch s with
        | (none, s) => (none, it, s)
        | (some (.error e), s) => (some (.error e), { it with done := true }, s)
        | (some (.ok messages), s) =>
          let it := { it with batch := messages, batchIdx := 0, fetched := true }
          match messages.getLast? with
          | none => (some (.ok false), { it with done := true }, s)
          | some last =>
            (some (.ok true), { it with fetch := it.fetch.setCursor last.id, batchIdx := 1 }, s)

namespace MemoryMailbox

variable (m : MemoryMailbox) (order : Ranges)

def fetchBatch (s : Store) : Fetch → Option MessageList
  | .find filters opts => s.find m.service.now (order 0) filters opts
  | .search query => s.search m.service.now m.toLower (order 0) query

/-- Fetching from the in-memory store, which a fetch leaves as it is; `none` when a page's slice
expression panics. -/
def fetchFrom (s : Store) (f : Fetch) (u : Unit) : Option (Except Error (List Message)) × Unit :=
  ((m.fetchBatch order s f).map fun list => .ok list.messages, u)

/-- `Next` of an iterator over the in-memory store. -/
def next (s : Store) (it : BatchIterator) : Option (Except Error Bool) × BatchIterator :=
  let r := it.next m.checkAccess (m.fetchFrom order s) ()
  (r.1, r.2.1)

/-- The batch size of an iterator. -/
def streamBatchSize (batchSize : ℤ) : ℤ := if batchSize ≤ 0 then 100 else batchSize

def streamOptions (batchSize : ℤ) : ListOptions :=
  { limit := streamBatchSize batchSize, sortBy := "created_at", sortOrder := .desc }

/-- `Stream` returns an iterator for messages matching the given filters. -/
def stream (filters : List Filter) (batchSize : ℤ) : BatchIterator where
  fetch := .find (streamFilters m.userID filters) (streamOptions batchSize)
  batchSize := streamBatchSize batchSize

/-- `StreamSearch` returns an iterator for search results. -/
def streamSearch (query : SearchQuery) (batchSize : ℤ) : BatchIterator where
  fetch := .search
    { query := query.query
      ownerID := m.userID
      tags := query.tags
      filters := [ownerIs m.userID, notDeleted] ++ query.filters
      options := streamOptions batchSize }
  batchSize := streamBatchSize batchSize

end MemoryMailbox

/-! ## Sessions -/

/-- The calls that change messages. -/
inductive Mutation where
  | updateFlags (messageID : String) (flags : Flags)
  | delete (messageID : String)
  | restore (messageID : String)
  | permanentlyDelete (messageID : String)
  | moveToFolder (messageID folderID : String) (opts : MoveOptions)
  | addTag (messageID tagID : String)
  | removeTag (messageID tagID : String)
  | markAllRead (folderID : String)
  | updateByFilter (filters : List Filter) (flags : Flags)
  | moveByFilter (filters : List Filter) (folderID : String)
  | deleteByFilter (filters : List Filter)
  | tagByFilter (filters : List Filter) (tagID : String)
  | untagByFilter (filters : List Filter) (tagID : String)

/-- All calls: the mutations, the queries, and the two ways to open an iterator and to use it. -/
inductive Request where
  | mutation (c : Mutation)
  | get (messageID : String)
  | folder (folderID : String) (opts : ListOptions)
  | search (query : SearchQuery)
  | stream (filters : List Filter) (batchSize : ℤ)
  | streamSearch (query : SearchQuery) (batchSize : ℤ)
  | next (iterator : ℕ)
  | current (iterator : ℕ)

/-- What a call answers. -/
inductive Response where
  | done (result : Result)
  | count (n : ℕ) (err : Option Error)
  | message (result : Except Error Message)
  | list (result : Except Error MemoryMailbox.Listing)
  | opened (result : Except Error ℕ)
  | next (result : Except Error Bool)
  /-- The call has not returned: a panic, or a loop that goes on. -/
  | stuck

def Reply.response (r : Reply Result) : Reply Response :=
  ⟨.done r.result, r.state, r.published⟩

def Reply.countResponse (r : Reply (ℕ × Option Error)) : Reply Response :=
  ⟨.count r.result.1 r.result.2, r.state, r.published⟩

def Response.ofListing : Except Error (Option MemoryMailbox.Listing) → Response
  | .error e => .list (.error e)
  | .ok none => .stuck
  | .ok (some listing) => .list (.ok listing)

namespace MemoryMailbox

variable (m : MemoryMailbox) (order : Ranges) (fuel : ℕ)

def mutate (i : Instance) : Mutation → Reply Response
  | .updateFlags messageID flags => (m.updateFlags messageID flags i).response
  | .delete messageID => (m.delete messageID i).response
  | .restore messageID => (m.restore messageID i).response
  | .permanentlyDelete messageID => (m.permanentlyDelete messageID i).response
  | .moveToFolder messageID folderID opts => (m.moveToFolder messageID folderID opts i).response
  | .addTag messageID tagID => (m.addTag messageID tagID i).response
  | .removeTag messageID tagID => (m.removeTag messageID tagID i).response
  | .markAllRead folderID => (m.markAllRead folderID i).countResponse
  | .updateByFilter filters flags =>
    let r := m.updateByFilter order fuel filters flags i
    ⟨match r.result with | some (n, err) => .count n err | none => .stuck, r.state, r.published⟩
  | .moveByFilter filters folderID => (m.bulk (.move folderID) filters i).countResponse
  | .deleteByFilter filters => (m.bulk .delete filters i).countResponse
  | .tagByFilter filters tagID => (m.bulk (.tag tagID) filters i).countResponse
  | .untagByFilter filters tagID => (m.bulk (.untag tagID) filters i).countResponse

end MemoryMailbox

/-- A user's session with an instance: the iterators opened so far. -/
structure Session where
  inst : Instance
  iterators : List BatchIterator

/-- One call: the mailbox at that time, the request, the orders in which the message map is visited
on its behalf, and how many pages an unbounded loop is followed for. -/
structure Turn where
  mailbox : MemoryMailbox
  request : Request
  order : Ranges
  fuel : ℕ

namespace Session

/-- Opens an iterator, unless access is refused. -/
def openIterator (m : MemoryMailbox) (it : BatchIterator) (s : Session) : Session × Response :=
  match m.checkAccess with
  | .error e => (s, .opened (.error e))
  | .ok _ => ({ s with iterators := s.iterators ++ [it] }, .opened (.ok s.iterators.length))

def serve (s : Session) (turn : Turn) : Session × Response :=
  let m := turn.mailbox
  match turn.request with
  | .mutation c =>
    let r := m.mutate turn.order turn.fuel s.inst c
    ({ s with inst := r.state }, r.result)
  | .get messageID => (s, .message (m.get messageID s.inst))
  | .folder folderID opts => (s, .ofListing (m.folder turn.order folderID opts s.inst))
  | .search query => (s, .ofListing (m.search turn.order query s.inst))
  | .stream filters batchSize => s.openIterator m (m.stream filters batchSize)
  | .streamSearch query batchSize => s.openIterator m (m.streamSearch query batchSize)
  | .next n =>
    match s.iterators[n]? with
    | none => (s, .stuck)
    | some it =>
      match m.next turn.order s.inst.store it with
      | (none, it) => ({ s with iterators := s.iterators.set n it }, .stuck)
      | (some result, it) => ({ s with iterators := s.iterators.set n it }, .next result)
  | .current n =>
    match s.iterators[n]? with
    | none => (s, .stuck)
    | some it => (s, .message it.current)

end Session

/-! ## A plain mailbox -/

/-- A mailbox over the store as it is, without attachments. -/
def plainMemoryMailbox (userID : String) : MemoryMailbox :=
  { plainMailbox (memoryBackend unaryID 1 .none false) userID with
    uuid := unaryID
    faults := .none
    managed := false
    backend_eq := rfl
    publishFault := fun _ => none
    defaultQueryLimit := 20
    maxQueryLimit := 100
    toLower := id }

/-- A message in somebody's inbox. -/
def letterTo (messageID ownerID : String) : Message :=
  { Store.newDraft 0 ownerID with
    id := messageID
    isDraft := false
    status := .delivered
    folderID := folderInbox }

/-- An instance that has just been started over the given messages. -/
def freshInstance (messages : Messages) : Instance :=
  ⟨⟨.of messages, ∅, 0, []⟩, ∅⟩

end Mailbox.Service
