import Mailbox.Lib.RefCount
import Mailbox.Memory.Create
import Mailbox.Service.Send

/-!
# Sending over the in-memory store

The `Backend` made of the in-memory store, an attachment manager that counts references, and an
event bus that keeps what is published.  The attachment manager is `attachment.go` over a metadata
store that does what the interface in `store/attachment.go` documents.

The in-memory store does not fail; `Faults` adds the failures that other stores have, all of them
without an effect.  `Faults.none` is the store as it is.
-/

namespace Mailbox.Service

open Memory

structure World where
  store : Store
  /-- The reference counts of the attachments whose metadata is stored. -/
  refs : RefCount.Counts String
  /-- How many times `AddRef` has been called. -/
  addRefCalls : ℕ
  events : List Event

abbrev World.new : World := ⟨Store.new, ∅, 0, []⟩

/-- The attachments of a message, as `AddRef` sees them. -/
def attachmentIDs (msg : Message) : List String := msg.attachments.map Attachment.id

/-- Which operations fail, and how. -/
structure Faults where
  create : Option Error
  /-- `CreateMessagesIdempotent` as a whole. -/
  batch : Option Error
  /-- A recipient's entry of `CreateMessagesIdempotent`. -/
  entry : String → Option Error
  /-- A call of `AddRef`. -/
  addRef : ℕ → Option Error
  publish : Event → Option Error

def Faults.none : Faults :=
  ⟨Option.none, Option.none, fun _ => Option.none, fun _ => Option.none, fun _ => Option.none⟩

namespace MemoryBackend

variable (uuid : ℕ → String) (now : Time) (faults : Faults)

/-- `AddRef` increments the reference count for an attachment. -/
def addRef (id : String) (w : World) : Result × World :=
  let w' := { w with addRefCalls := w.addRefCalls + 1 }
  match faults.addRef w.addRefCalls with
  | some e => (.error e, w')
  | none =>
    match RefCount.increment id w.refs with
    | none => (.error (.sentinel .notFound), w')
    | some refs => (.ok (), { w' with refs := refs })

/-- `RemoveRef` decrements the reference count and deletes if no references remain. -/
def removeRef (id : String) (w : World) : Result × World :=
  match RefCount.decrement id w.refs with
  | none => (.error (.wrap "release attachment" (.sentinel .notFound)), w)
  | some refs => (.ok (), { w with refs := refs })

def refManager : AttachmentManager World where
  addRef := addRef faults
  removeRef := removeRef

def createMessage (data : MessageData) (w : World) : Except Error Message × World :=
  match faults.create with
  | some e => (.error e, w)
  | none =>
    let (msg, store) := Store.createMessage uuid now data w.store
    (.ok msg, { w with store := store })

/-- The entries one by one; a fault skips the entry. -/
def createEntries : List IdempotentCreateEntry → Store → List IdempotentCreateResult × Store
  | [], s => ([], s)
  | entry :: entries, s =>
    let (result, s) :=
      match faults.entry entry.data.ownerID with
      | some e => (.err e, s)
      | none => Store.createMessageIdempotent uuid now entry.data entry.idempotencyKey s
    let (results, s) := createEntries entries s
    (result :: results, s)

def createMessagesIdempotent (entries : List IdempotentCreateEntry) (w : World) :
    Except Error (List IdempotentCreateResult) × World :=
  match faults.batch with
  | some e => (.error e, w)
  | none =>
    let (results, store) := createEntries uuid now faults entries w.store
    (.ok results, { w with store := store })

/-- An operation of the store in the world. -/
def lift (op : StoreOp) (w : World) : Result × World :=
  let (result, store) := op w.store
  (result, { w with store := store })

def publish (event : Event) (w : World) : Result × World :=
  match faults.publish event with
  | some e => (.error e, w)
  | none => (.ok (), { w with events := w.events ++ [event] })

end MemoryBackend

/-- The backend, with or without an attachment manager. -/
def memoryBackend (uuid : ℕ → String) (now : Time) (faults : Faults) (managed : Bool) :
    Backend World where
  get id w := w.store.get id
  count filters w := .ok (w.store.count now filters)
  createMessage := MemoryBackend.createMessage uuid now faults
  createMessagesIdempotent := MemoryBackend.createMessagesIdempotent uuid now faults
  hardDelete id := MemoryBackend.lift (Store.hardDelete id)
  moveToFolder id folderID := MemoryBackend.lift (Store.moveToFolder now id folderID {})
  deleteDraft id := MemoryBackend.lift (Store.deleteDraft id)
  attachments := if managed then some (MemoryBackend.refManager faults) else none
  publish := MemoryBackend.publish faults

lemma eq_refManager {uuid : ℕ → String} {now : Time} {faults : Faults} {managed : Bool}
    {manager : AttachmentManager World}
    (h : (memoryBackend uuid now faults managed).attachments = some manager) :
    manager = MemoryBackend.refManager faults := by
  cases managed with
  | false => cases h
  | true => exact (Option.some.inj h).symm

lemma memoryBackend_hardDelete {uuid : ℕ → String} {now : Time} {faults : Faults} {managed : Bool}
    {id : String} {msg : Message} {w : World} (hid : id ≠ "")
    (hld : w.store.messages.load id = some msg) (hdr : msg.isDraft = false) :
    (memoryBackend uuid now faults managed).hardDelete id w
      = (.ok (), { w with store := w.store.remove id }) := by
  show MemoryBackend.lift (Store.hardDelete id) w = _
  rw [MemoryBackend.lift, Store.hardDelete_of_load hid hld hdr]

/-- A mailbox with the default limits, and neither quotas nor plugins. -/
def plainMailbox (backend : Backend World) (userID : String) : UserMailbox World where
  service :=
    { backend := backend
      lib := ⟨fun s => s, fun _ => "", fun _ => .ok 0⟩
      cfg := ⟨defaultLimits, 0, 0, 0, 0, 0⟩
      connected := true
      userResolver := none
      quotaProvider := none
      statsTotal := none
      plugins := []
      acquire := .ok ()
      eventErrorsFatal := false
      now := 1
      newThreadID := "thread" }
  userID := userID
  validUserID := true

end Mailbox.Service
