import Mailbox.Service.Validation

/-!
# Sending a draft

`send.go`, with the parts of `attachment.go`, `quota.go`, `outbox_helpers.go` and `plugin.go` that
it calls.  Everything a mailbox sends through — the store, the attachment manager, the event bus —
is a `Backend` over one state `σ`; its operations are parameters here, and what is known of them is
stated where it is used.

`sendDraft` changes the draft it is given before it looks at anything else, and goes on changing
it: the recipients are deduplicated, headers and metadata are added, plugins may edit it.  The
caller keeps that draft, so it is part of the result.

The clock stands still during a call.
-/

namespace Mailbox.Service

/-! ## What a mailbox sends through -/

inductive Event where
  | messageSent (messageID senderID : String) (recipientIDs : List String) (subject : String)
      (sentAt : Time)
  | messageReceived (messageID recipientID senderID subject : String) (receivedAt : Time)

def Event.name : Event → String
  | .messageSent .. => "mailbox.message.sent"
  | .messageReceived .. => "mailbox.message.received"

def Event.messageID : Event → String
  | .messageSent messageID .. => messageID
  | .messageReceived messageID .. => messageID

/-- `store.AttachmentManager`, as far as sending uses it. -/
structure AttachmentManager (σ : Type) where
  addRef : String → σ → Result × σ
  removeRef : String → σ → Result × σ

structure Backend (σ : Type) where
  get : String → σ → Except Error Message
  count : List Filter → σ → Except Error ℤ
  createMessage : MessageData → σ → Except Error Message × σ
  createMessagesIdempotent : List IdempotentCreateEntry → σ →
    Except Error (List IdempotentCreateResult) × σ
  hardDelete : String → σ → Result × σ
  moveToFolder : String → String → σ → Result × σ
  deleteDraft : String → σ → Result × σ
  attachments : Option (AttachmentManager σ)
  publish : Event → σ → Result × σ

inductive QuotaAction where
  | reject
  | deleteOldest
  deriving DecidableEq

structure QuotaPolicy where
  maxMessages : ℤ
  exceedAction : QuotaAction

structure User where
  firstName : String
  lastName : String
  email : String

/-- A plugin's send hooks. -/
structure SendHook where
  name : String
  beforeSend : String → Message → Result × Message
  afterSend : String → Message → Result

structure ServiceConfig where
  limits : MessageLimits
  defaultTTL : ℤ
  minTTL : ℤ
  maxTTL : ℤ
  minScheduleDelay : ℤ
  maxScheduleDelay : ℤ

/-- A service during one call: its configuration, the time, and how the call fares with what is
outside of it. -/
structure ServiceEnv (σ : Type) where
  backend : Backend σ
  lib : Library
  cfg : ServiceConfig
  connected : Bool
  userResolver : Option (String → Except Error User)
  quotaProvider : Option (String → Except Error (Option QuotaPolicy))
  /-- The total that the stats cache has for a user, when the cache is enabled. -/
  statsTotal : Option (String → σ → Except Error ℤ)
  plugins : List SendHook
  /-- The outcome of acquiring the send semaphore. -/
  acquire : Result
  eventErrorsFatal : Bool
  now : Time
  /-- What `uuid.New` returns for a new thread. -/
  newThreadID : String

structure UserMailbox (σ : Type) where
  service : ServiceEnv σ
  userID : String
  validUserID : Bool

/-- A map from recipients or attachments to errors. -/
abbrev ErrorMap := AList fun _ : String => Error

def ErrorMap.pairs (errs : ErrorMap) : List (String × Error) := errs.entries.map fun e => (e.1, e.2)

/-- `errors.Join`: `nil` errors are left out. -/
def joinErrors (errs : List (Option Error)) : Option Error :=
  match errs.filterMap id with
  | [] => none
  | errs => some (.join errs)

namespace UserMailbox

variable {σ : Type} (m : UserMailbox σ)

/-! ## Attachment references -/

/-- Removes references one by one, and collects the failures. -/
def removeRefs (manager : AttachmentManager σ) : List String → ErrorMap → σ → ErrorMap × σ
  | [], failed, s => (failed, s)
  | id :: ids, failed, s =>
    match manager.removeRef id s with
    | (.ok _, s) => removeRefs manager ids failed s
    | (.error e, s) => removeRefs manager ids (failed.insert id e) s

/-- The loop of `addAttachmentRefs`; `added` are the references added so far, which a failure
rolls back. -/
def addRefs (manager : AttachmentManager σ) : List String → List String → σ → Result × σ
  | [], _, s => (.ok (), s)
  | id :: ids, added, s =>
    match manager.addRef id s with
    | (.ok _, s) => addRefs manager ids (added ++ [id]) s
    | (.error e, s) =>
      let (rollbackFailed, s) := removeRefs manager added ∅ s
      (.error (.attachmentRef "add" [(id, e)] (ErrorMap.pairs rollbackFailed)), s)

/-- `addAttachmentRefs` increments reference counts for all attachments in a message. -/
def addAttachmentRefs (msg : Message) (s : σ) : Result × σ :=
  match m.service.backend.attachments with
  | none => (.ok (), s)
  | some manager => addRefs manager (msg.attachments.map Attachment.id) [] s

/-- `releaseAttachmentRefs` decrements reference counts for all attachments in a message. -/
def releaseAttachmentRefs (msg : Message) (s : σ) : Result × σ :=
  match m.service.backend.attachments with
  | none => (.ok (), s)
  | some manager =>
    let (failed, s) := removeRefs manager (msg.attachments.map Attachment.id) ∅ s
    if failed.entries.length > 0 then
      (.error (.attachmentRef "release" (ErrorMap.pairs failed) []), s)
    else (.ok (), s)

/-! ## The copies -/

/-- What all copies of a message share besides the draft. -/
structure Envelope where
  threadID : String
  replyToID : String
  externalID : String
  expiresAt : Option Time
  availableAt : Option Time

/-- `resolveThreadID` determines the thread ID for an outgoing message: the caller's, or that of a
message of the sender's own that it replies to, or a new one. -/
def resolveThreadID (threadID replyToID : String) (s : σ) : String :=
  if threadID ≠ "" then threadID
  else if replyToID ≠ "" then
    match m.service.backend.get replyToID s with
    | .ok orig =>
      if orig.ownerID = m.userID then
        if orig.threadID ≠ "" then orig.threadID else replyToID
      else m.service.newThreadID
    | .error _ => m.service.newThreadID
  else m.service.newThreadID

/-- `computeTTLFields` calculates expiry and availability.  The zero time is no schedule. -/
def computeTTLFields (ttl : ℤ) (scheduleAt : Option Time) :
    Except Error (Option Time × Option Time) := do
  let cfg := m.service.cfg
  let text := m.service.lib.duration
  let effectiveTTL := if ttl ≤ 0 then cfg.defaultTTL else ttl
  if effectiveTTL > 0 then
    if effectiveTTL < cfg.minTTL then
      invalid .invalidTTL s!"TTL {text effectiveTTL} is below minimum {text cfg.minTTL}"
    if cfg.maxTTL > 0 ∧ effectiveTTL > cfg.maxTTL then
      invalid .invalidTTL s!"TTL {text effectiveTTL} exceeds maximum {text cfg.maxTTL}"
  let availableAt := scheduleAt.filter (· ≠ 0)
  if let some scheduled := availableAt then
    let delay := scheduled - m.service.now
    if delay > 0 then
      if cfg.minScheduleDelay > 0 ∧ delay < cfg.minScheduleDelay then
        invalid .invalidSchedule
          s!"schedule delay {text delay} is below minimum {text cfg.minScheduleDelay}"
      if cfg.maxScheduleDelay > 0 ∧ delay > cfg.maxScheduleDelay then
        invalid .invalidSchedule
          s!"schedule delay {text delay} exceeds maximum {text cfg.maxScheduleDelay}"
  let expiresAt :=
    if effectiveTTL > 0 then some (availableAt.getD m.service.now + effectiveTTL) else none
  return (expiresAt, availableAt)

/-- The sender's copy. -/
def senderData (draft : Message) (env : Envelope) : MessageData where
  ownerID := m.userID
  senderID := m.userID
  recipientIDs := draft.recipientIDs
  subject := draft.subject
  body := draft.body
  headers := draft.headers
  metadata := draft.metadata
  status := .queued
  folderID := folderOutbox
  attachments := draft.attachments
  threadID := env.threadID
  replyToID := env.replyToID
  externalID := env.externalID
  expiresAt := env.expiresAt
  availableAt := env.availableAt

/-- A recipient's copy, under the key made of the sender's message ID and the recipient. -/
def recipientEntry (draft : Message) (env : Envelope) (senderMsgID recipientID : String) :
    IdempotentCreateEntry where
  data := { m.senderData draft env with
    ownerID := recipientID, status := .delivered, folderID := folderInbox }
  idempotencyKey := senderMsgID ++ ":" ++ recipientID

/-- `createSenderMessage` creates the sender's copy in the outbox. -/
def createSenderMessage (draft : Message) (env : Envelope) (s : σ) : Except Error Message × σ :=
  match m.service.backend.createMessage (m.senderData draft env) s with
  | (.error e, s) => (.error (.wrap "create sender message" e), s)
  | (.ok senderCopy, s) =>
    match m.addAttachmentRefs senderCopy s with
    | (.ok _, s) => (.ok senderCopy, s)
    | (.error e, s) =>
      let (_, s) := m.releaseAttachmentRefs senderCopy s
      match m.service.backend.hardDelete senderCopy.id s with
      | (.ok _, s) => (.error (.wrap "add attachment refs" e), s)
      | (.error deleteErr, s) =>
        (.error (.wrap
          s!"add attachment refs failed and rollback failed (orphaned message {senderCopy.id})"
          (.join [e, deleteErr])), s)

/-! ## Delivery -/

/-- The outcome of delivering to the recipients. -/
structure Delivery where
  /-- Recipients with an inbox copy, newly created or there already. -/
  deliveredTo : List String
  /-- Those whose copy this call created. -/
  newlyDelivered : List String
  failedRecipients : ErrorMap

def Delivery.fail (recipientID : String) (e : Error) (d : Delivery) : Delivery :=
  { d with failedRecipients := d.failedRecipients.insert recipientID e }

/-- `checkQuotaWithPolicy` checks whether the user is within the quota policy. -/
def checkQuotaWithPolicy (userID : String) (policy : QuotaPolicy) (s : σ) : Result :=
  if policy.maxMessages ≤ 0 then .ok ()
  else
    let count : Except Error ℤ :=
      match m.service.statsTotal with
      | some total =>
        match total userID s with
        | .error e => .error (.wrap "get stats for quota check" e)
        | .ok count => .ok count
      | none =>
        match m.service.backend.count [ownerIs userID] s with
        | .error e => .error (.wrap "count messages for quota check" e)
        | .ok count => .ok count
    match count with
    | .error e => .error e
    | .ok count =>
      if count ≥ policy.maxMessages then .error (.quotaExceeded userID count policy.maxMessages)
      else .ok ()

/-- The quota check of phase 1, for one recipient. -/
def checkQuota (recipientID : String) (s : σ) : Result :=
  match m.service.quotaProvider with
  | none => .ok ()
  | some getQuota =>
    match getQuota recipientID with
    | .error e => .error (.wrap "check quota" e)
    | .ok none => .ok ()
    | .ok (some policy) =>
      if policy.exceedAction = .reject then m.checkQuotaWithPolicy recipientID policy s
      else .ok ()

/-- Phase 1: the recipients within their quota. -/
def eligible (s : σ) : List String → Delivery → List String × Delivery
  | [], d => ([], d)
  | recipientID :: targets, d =>
    match m.checkQuota recipientID s with
    | .error e => eligible s targets (d.fail recipientID e)
    | .ok _ =>
      let (recipients, d) := eligible s targets d
      (recipientID :: recipients, d)

/-- `publishOnly`: a publish error is reported only when it is configured to be fatal. -/
def publishOnly (event : Event) (s : σ) : Result × σ :=
  match m.service.backend.publish event s with
  | (.ok _, s) => (.ok (), s)
  | (.error e, s) =>
    if m.service.eventErrorsFatal then (.error (.eventPublish event.name event.messageID e), s)
    else (.ok (), s)

/-- Phase 3 for one recipient: attachment references and the event. -/
def processResult (draft : Message) (recipientID : String) (result : IdempotentCreateResult)
    (d : Delivery) (s : σ) : Delivery × σ :=
  match result with
  | .err e => (d.fail recipientID (.wrap "create message" e), s)
  | .ok _ false => ({ d with deliveredTo := d.deliveredTo ++ [recipientID] }, s)
  | .ok msg true =>
    match m.addAttachmentRefs msg s with
    | (.error e, s) =>
      let (_, s) := m.releaseAttachmentRefs msg s
      let (_, s) := m.service.backend.hardDelete msg.id s
      (d.fail recipientID (.wrap "add attachment refs" e), s)
    | (.ok _, s) =>
      let (_, s) := m.publishOnly
        (.messageReceived msg.id recipientID m.userID draft.subject m.service.now) s
      ({ d with
        deliveredTo := d.deliveredTo ++ [recipientID]
        newlyDelivered := d.newlyDelivered ++ [recipientID] }, s)

/-- Phase 3. -/
def processResults (draft : Message) :
    List (String × IdempotentCreateResult) → Delivery → σ → Delivery × σ
  | [], d, s => (d, s)
  | (recipientID, result) :: results, d, s =>
    let (d, s) := m.processResult draft recipientID result d s
    processResults draft results d s

/-- `deliverToRecipients` creates message copies for the delivery targets, all recipients when
none are given. -/
def deliverToRecipients (draft : Message) (env : Envelope) (senderMsgID : String)
    (deliverTo : List String) (s : σ) : Delivery × σ :=
  let targets := if deliverTo.length = 0 then draft.recipientIDs else deliverTo
  let (recipients, d) := m.eligible s targets ⟨[], [], ∅⟩
  if recipients.length = 0 then (d, s)
  else
    let entries := recipients.map (m.recipientEntry draft env senderMsgID)
    match m.service.backend.createMessagesIdempotent entries s with
    | (.error e, s) =>
      (recipients.foldl (fun d recipientID => d.fail recipientID (.wrap "create message" e)) d, s)
    | (.ok results, s) => m.processResults draft (recipients.zip results) d s

/-- `rollbackSenderMessage` cleans up the sender's copy on total delivery failure. -/
def rollbackSenderMessage (senderCopy : Message) (s : σ) : Option Error × σ :=
  let (released, s) := m.releaseAttachmentRefs senderCopy s
  let (deleted, s) := m.service.backend.hardDelete senderCopy.id s
  let wrapped (context : String) : Result → Option Error
    | .ok _ => none
    | .error e => some (.wrap context e)
  (joinErrors
    [wrapped "release attachment refs" released, wrapped "hard delete sender message" deleted], s)

/-- `finalizeDelivery` handles post-delivery tasks: move to sent, draft cleanup, event
publishing. -/
def finalizeDelivery (senderCopy : Message) (deliveredTo : List String) (draft : Message) (s : σ) :
    Message × Result × σ :=
  match m.service.backend.moveToFolder senderCopy.id folderSent s with
  | (.error e, s) => (senderCopy, .error (.wrap "move message to sent folder" e), s)
  | (.ok _, s) =>
    -- A failure to delete the draft is only logged.
    let s := if draft.id = "" then s else (m.service.backend.deleteDraft draft.id s).2
    match m.service.backend.get senderCopy.id s with
    | .error e => (senderCopy, .error (.wrap "fetch updated sender copy" e), s)
    | .ok updatedCopy =>
      let (published, s) := m.publishOnly
        (.messageSent senderCopy.id senderCopy.senderID deliveredTo senderCopy.subject
          m.service.now) s
      (updatedCopy, published, s)

/-! ## The draft -/

/-- `deduplicateRecipients` returns a list of unique recipient IDs, each where it occurs first. -/
def deduplicateRecipients (recipientIDs : List String) : List String :=
  recipientIDs.foldl (fun unique id => if id ∈ unique then unique else unique ++ [id]) []

def setHeader (key value : String) (draft : Message) : Message :=
  { draft with headers := draft.headers.insert key value, updatedAt := m.service.now }

def setMetadata (key : String) (value : Value) (draft : Message) : Message :=
  { draft with metadata := draft.metadata.insert key value, updatedAt := m.service.now }

def headerContentLength : String := "Content-Length"

/-- Adds a metadata entry unless its value is empty. -/
def injectMetadata (key value : String) (draft : Message) : Message :=
  if value = "" then draft else m.setMetadata key (.str value) draft

/-- `resolveAndInjectUserMetadata` resolves the sender's identity and injects it into the draft's
metadata.  The resolver's own error only shows in the text of the one that is returned. -/
def resolveAndInjectUserMetadata (draft : Message) : Result × Message :=
  match m.service.userResolver with
  | none => (.ok (), draft)
  | some resolveUser =>
    match resolveUser m.userID with
    | .error _ => (.error (.sentinel .userResolveFailed), draft)
    | .ok user =>
      let draft := m.injectMetadata "sender.firstname" user.firstName draft
      let draft := m.injectMetadata "sender.lastname" user.lastName draft
      let draft := m.injectMetadata "sender.email" user.email draft
      (.ok (), draft)

/-- The draft with its recipients deduplicated. -/
def withRecipients (draft : Message) : Message :=
  { draft with
    recipientIDs := deduplicateRecipients draft.recipientIDs, updatedAt := m.service.now }

/-- The draft with the length of its content among the headers. -/
def withLength (draft : Message) : Message :=
  if (draft.headers.lookup headerContentLength).getD "" = "" then
    m.setHeader headerContentLength (toString draft.body.utf8ByteSize) draft
  else draft

/-- Steps 2c and 2d of `sendDraft`, on the draft with its headers. -/
def checkPrepared (targets : List String) (draft : Message) :
    Except Error (List String) × Message :=
  match m.resolveAndInjectUserMetadata draft with
  | (.error e, draft) => (.error e, draft)
  | (.ok _, draft) =>
    match validateDraft m.service.lib m.service.cfg.limits draft with
    | .error e => (.error e, draft)
    | .ok _ =>
      if draft.attachments.length > 0 ∧ m.service.backend.attachments.isNone then
        (.error (.sentinel .attachmentStoreNotConfigured), draft)
      else (.ok targets, draft)

/-- Steps 1 to 2d of `sendDraft`: everything that looks at the draft alone.  Returns the delivery
targets, deduplicated. -/
def prepareDraft (draft : Message) (deliverTo : List String) :
    Except Error (List String) × Message :=
  let draft := m.withRecipients draft
  let deliverTo := deduplicateRecipients deliverTo
  match deliverTo.find? (fun id => decide (id ∉ draft.recipientIDs)) with
  | some id =>
    (.error (.detail (.sentinel .invalidRecipient)
      s!"DeliverTo contains {m.service.lib.quote id} which is not in RecipientIDs"), draft)
  | none => m.checkPrepared deliverTo (m.withLength draft)

/-- `beforeSend` runs the hooks until one fails. -/
def beforeSend : List SendHook → Message → Result × Message
  | [], draft => (.ok (), draft)
  | h :: hooks, draft =>
    match h.beforeSend m.userID draft with
    | (.error e, draft) => (.error (.plugin h.name "BeforeSend" e), draft)
    | (.ok _, draft) => beforeSend hooks draft

/-- `afterSend` runs the hooks until one fails. -/
def afterSend (msg : Message) : List SendHook → Result
  | [] => .ok ()
  | h :: hooks =>
    match h.afterSend m.userID msg with
    | .error e => .error (.plugin h.name "AfterSend" e)
    | .ok _ => afterSend msg hooks

/-! ## Sending -/

/-- What a send returns, the draft as the call leaves it, and the state. -/
structure Sent (σ : Type) where
  message : Option Message
  err : Option Error
  draft : Message
  state : σ

def checkAccess : Result :=
  if m.service.connected = false then .error (mailboxError .notConnected)
  else if m.validUserID = false then .error (.sentinel .invalidUserID)
  else .ok ()

/-- Steps 9 to 11 of `sendDraft`, once some recipient has the message. -/
def completeSend (draft senderCopy : Message) (d : Delivery) (s : σ) : Sent σ :=
  let (updatedSenderCopy, finalized, s) :=
    m.finalizeDelivery senderCopy d.newlyDelivered draft s
  let partialErr :=
    if d.failedRecipients.entries.length > 0 then
      some (.partialDelivery updatedSenderCopy.id d.deliveredTo d.failedRecipients.pairs)
    else none
  let err :=
    match finalized with
    | .error e => joinErrors [some e, partialErr]
    | .ok _ =>
      match m.afterSend updatedSenderCopy m.service.plugins with
      | .error e => joinErrors [some e, partialErr]
      | .ok _ => partialErr
  ⟨some updatedSenderCopy, err, draft, s⟩

/-- Steps 6 to 8 of `sendDraft`: the sender's copy and the delivery. -/
def transmit (draft : Message) (env : Envelope) (deliverTo : List String) (s : σ) : Sent σ :=
  match m.createSenderMessage draft env s with
  | (.error e, s) => ⟨none, some e, draft, s⟩
  | (.ok senderCopy, s) =>
    let (d, s) := m.deliverToRecipients draft env senderCopy.id deliverTo s
    if d.deliveredTo.length = 0 then
      let (rollbackErr, s) := m.rollbackSenderMessage senderCopy s
      let failed := d.failedRecipients.entries.length
      let sendErr := .text s!"send failed: all {failed} delivery targets failed"
      let sendErr :=
        match rollbackErr with
        | none => sendErr
        | some _ => .detail sendErr "rollback also failed"
      ⟨none, some sendErr, draft, s⟩
    else m.completeSend draft senderCopy d s

def sendDraft (draft : Message) (threadID replyToID externalID : String) (ttl : ℤ)
    (scheduleAt : Option Time) (deliverTo : List String) (s : σ) : Sent σ :=
  match m.checkAccess with
  | .error e => ⟨none, some e, draft, s⟩
  | .ok _ =>
  match m.prepareDraft draft deliverTo with
  | (.error e, draft) => ⟨none, some e, draft, s⟩
  | (.ok deliverTo, draft) =>
  match m.service.acquire with
  | .error e => ⟨none, some e, draft, s⟩
  | .ok _ =>
  match m.beforeSend m.service.plugins draft with
  | (.error e, draft) => ⟨none, some e, draft, s⟩
  | (.ok _, draft) =>
  match m.computeTTLFields ttl scheduleAt with
  | .error e => ⟨none, some e, draft, s⟩
  | .ok (expiresAt, availableAt) =>
    m.transmit draft
      ⟨m.resolveThreadID threadID replyToID s, replyToID, externalID, expiresAt, availableAt⟩
      deliverTo s

end UserMailbox

end Mailbox.Service
