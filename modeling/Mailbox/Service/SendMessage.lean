import Mailbox.Service.Compose

/-!
# Messages sent without a draft

`SendMessage` of `send.go`: a request is made into a draft that is never saved, and the draft is
sent.

**Replies to what one does not own.**  A request may name any ID as the one it replies to.  If it is
not the ID of a message of the sender's own, the reply opens a new thread, and nothing of what the
call returns or does depends on the message with that ID, or on whether there is one:
`sendMessage_foreign`.  The argument compares two runs over worlds that agree apart from that
message (`WorldsApart`): every operation of a send is on messages that it has created itself.
-/

namespace Mailbox.Service

open Memory UserMailbox MemoryBackend Function Table

structure SendRequest where
  recipientIDs : List String
  subject : String
  body : String
  headers : Headers
  metadata : Metadata
  attachments : List Attachment
  attachmentIDs : List String
  threadID : String
  replyToID : String
  externalID : String
  deliverTo : List String
  ttl : ℤ
  scheduleAt : Option Time

namespace UserMailbox

variable {σ : Type} (m : UserMailbox σ) (getMetadata : String → Except Error Attachment)

/-- `ResolveAttachments` resolves attachment metadata by IDs; `getMetadata` is what the attachment
manager says about an ID. -/
def resolveAttachments (attachmentIDs : List String) : Except Error (List Attachment) := do
  m.checkAccess
  if m.service.backend.attachments.isNone then throw (.sentinel .attachmentStoreNotConfigured)
  attachmentIDs.mapM fun id =>
    match getMetadata id with
    | .error e => .error (.wrap s!"resolve attachment {id}" e)
    | .ok attachment => .ok attachment

/-- The attachments of a request: those it has, and those it names. -/
def allAttachments (req : SendRequest) : Except Error (List Attachment) :=
  if req.attachmentIDs.length > 0 then
    match m.resolveAttachments getMetadata req.attachmentIDs with
    | .error e => .error (.wrap "resolve attachments" e)
    | .ok resolved => .ok (req.attachments ++ resolved)
  else .ok req.attachments

def transientDraft (req : SendRequest) (attachments : List Attachment) : Message :=
  { Store.newDraft m.service.now m.userID with
    recipientIDs := req.recipientIDs
    subject := req.subject
    body := req.body
    headers := req.headers
    metadata := req.metadata
    attachments := attachments }

/-- `SendMessage` sends a message directly without going through the draft flow. -/
def sendMessage (req : SendRequest) (s : σ) : Sent σ :=
  match m.checkAccess with
  | .error e => ⟨none, some e, Store.newDraft m.service.now m.userID, s⟩
  | .ok _ =>
    match m.allAttachments getMetadata req with
    | .error e => ⟨none, some e, Store.newDraft m.service.now m.userID, s⟩
    | .ok attachments =>
      m.sendDraft (m.transientDraft req attachments) req.threadID req.replyToID req.externalID
        req.ttl req.scheduleAt req.deliverTo s

/-- Whom a request is to be delivered to, when its checks and the hooks are past. -/
def Addresses (req : SendRequest) (r : String) : Prop :=
  ∃ attachments targets hooked, m.allAttachments getMetadata req = .ok attachments
    ∧ m.Ready (m.transientDraft req attachments) req.deliverTo targets hooked
    ∧ r ∈ deliveryTargets hooked targets

/-- A request comes to nothing, whatever the state, or is transmitted with the thread that is
resolved for it. -/
lemma sendMessage_cases (req : SendRequest) :
    (∃ err draft, ∀ s : σ, m.sendMessage getMetadata req s = ⟨none, err, draft, s⟩)
      ∨ ∃ draft hooked targets expiresAt availableAt, draft.id = ""
        ∧ (m.beforeSend m.service.plugins draft).2 = hooked
        ∧ (∀ r ∈ deliveryTargets hooked targets, m.Addresses getMetadata req r)
        ∧ ∀ s : σ, m.sendMessage getMetadata req s = m.transmit hooked
          ⟨m.resolveThreadID req.threadID req.replyToID s, req.replyToID, req.externalID, expiresAt,
            availableAt⟩ targets s := by
  cases hacc : m.checkAccess with
  | error e => exact .inl ⟨some e, _, fun s => by rw [sendMessage, hacc]⟩
  | ok =>
    cases hall : m.allAttachments getMetadata req with
    | error e =>
      refine .inl ⟨some e, Store.newDraft m.service.now m.userID, fun s => ?_⟩
      simp only [sendMessage, hacc, hall]
    | ok attachments =>
      simp only [sendMessage, hacc, hall]
      by_cases hrdy : ∃ targets hooked,
          m.Ready (m.transientDraft req attachments) req.deliverTo targets hooked
      · obtain ⟨targets, hooked, hrdy⟩ := hrdy
        simp only [sendDraft_of_ready hrdy]
        rcases m.computeTTLFields req.ttl req.scheduleAt with e | ⟨expiresAt, availableAt⟩
        · exact .inl ⟨some e, hooked, fun _ => rfl⟩
        · exact .inr ⟨_, hooked, targets, expiresAt, availableAt,
            (m.prepareDraft_frame _ req.deliverTo).1.1, congrArg Prod.snd hrdy.hooks,
            fun r hr => ⟨attachments, targets, hooked, hall, hrdy, hr⟩, fun _ => rfl⟩
      · obtain ⟨err, draft, hn⟩ := sendDraft_of_not_ready hrdy
        exact .inl ⟨err, draft, hn _ _ _ _ _⟩

end UserMailbox

/-! ## Worlds that differ in one message -/

/-- Stores that agree apart from the message `x`, which is `o` in the one and `o'` in the other, and
which no ID from the number `d` on can name. -/
structure StoresApart (uuid : ℕ → String) (d : ℕ) (x : String) (o o' : Option Message)
    (s s' : Store) : Prop where
  left : s.messages.load x = o
  right : s'.messages.load x = o'
  others : ∀ id ≠ x, s.messages.load id = s'.messages.load id
  rest : s' = { s with messages := s'.messages }
  since : d ≤ s.drawn
  later : ∀ n ≥ d, uuid n ≠ x
  keys : ∀ n ≥ d, ∀ r id, s.idempotencyIdx.lookup (copyKey (uuid n) r) = some id → id ≠ x

variable {uuid : ℕ → String} {d : ℕ} {x : String} {o o' : Option Message}

namespace StoresApart

variable {s s' : Store} {id : String}

section

variable (h : StoresApart uuid d x o o' s s')

include h

lemma of_update {t t' : Messages} {entry : Option Message} (hid : id ≠ x)
    (ht : t.load = update s.messages.load id entry)
    (ht' : t'.load = update s'.messages.load id entry) :
    StoresApart uuid d x o o' { s with messages := t } { s' with messages := t' } :=
  { h with
    left := by rw [ht, update_of_ne hid.symm, h.left]
    right := by rw [ht', update_of_ne hid.symm, h.right]
    rest := congrArg (fun s : Store => { s with messages := t' }) h.rest
    others := fun id' hne => by
      rw [ht, ht']
      by_cases heq : id' = id
      · rw [heq, update_self, update_self]
      · rw [update_of_ne heq, update_of_ne heq, h.others id' hne] }

lemma put {msg : Message} (hid : msg.id ≠ x) : StoresApart uuid d x o o' (s.put msg) (s'.put msg) :=
  h.of_update hid (load_put ..) (load_put ..)

section

variable (hid : id ≠ x)

include hid

lemma delete : StoresApart uuid d x o o' (s.remove id) (s'.remove id) :=
  h.of_update hid (load_delete_eq_update ..) (load_delete_eq_update ..)

lemma get : s.get id = s'.get id := by
  simp only [Store.get, h.others id hid]

lemma hardDelete :
    SameStep (StoresApart uuid d x o o') (Store.hardDelete id s) (Store.hardDelete id s') := by
  simp only [Store.hardDelete, h.others id hid]
  split_ifs
  · exact ⟨rfl, h⟩
  · cases s'.messages.load id with
    | none => exact ⟨rfl, h⟩
    | some =>
      simp only
      split_ifs
      · exact ⟨rfl, h⟩
      · exact ⟨rfl, h.delete hid⟩

lemma deleteDraft :
    SameStep (StoresApart uuid d x o o') (Store.deleteDraft id s) (Store.deleteDraft id s') := by
  simp only [Store.deleteDraft, h.others id hid]
  split_ifs
  · exact ⟨rfl, h⟩
  · cases s'.messages.load id with
    | none => exact ⟨rfl, h⟩
    | some =>
      simp only
      split_ifs
      · exact ⟨rfl, h.delete hid⟩
      · exact ⟨rfl, h⟩

lemma moveToFolder (now : Time) (folderID : String) :
    SameStep (StoresApart uuid d x o o') (Store.moveToFolder now id folderID {} s)
      (Store.moveToFolder now id folderID {} s') := by
  simp only [Store.moveToFolder, Store.mutate, h.others id hid]
  split_ifs
  · exact ⟨rfl, h⟩
  · exact ⟨rfl, h⟩
  · cases hld : s'.messages.load id with
    | none => exact ⟨rfl, h⟩
    | some orig =>
      have hor : orig.id ≠ x := by rwa [key_of_load hld]
      simp only [Update.moveToFolder]
      split_ifs
      · exact ⟨rfl, h⟩
      · exact ⟨rfl, h⟩
      · exact ⟨rfl, h.put hor⟩

end

lemma ne_of_drawn {n : ℕ} (hn : s.drawn ≤ n) : uuid n ≠ x := h.later n (h.since.trans hn)

end

/-! Creation draws the same IDs in both stores, and none of them is `x`. -/

section

variable {t' : Messages} (ht : StoresApart uuid d x o o' s { s with messages := t' })

include ht

/-- What else changes may change in both, as long as the index gets no entry for `x`. -/
lemma change {idx ext : AList fun _ : String => String} {drawn : ℕ} (hdrw : s.drawn ≤ drawn)
    (hidx : ∀ n ≥ d, ∀ r id, idx.lookup (copyKey (uuid n) r) = some id →
      s.idempotencyIdx.lookup (copyKey (uuid n) r) = some id ∨ id ≠ x) :
    StoresApart uuid d x o o' ⟨s.messages, idx, ext, drawn⟩ ⟨t', idx, ext, drawn⟩ :=
  { ht with
    rest := rfl
    since := ht.since.trans hdrw
    keys := fun n hn r id hlk =>
      (hidx n hn r id hlk).elim (ht.keys n hn r id) fun hne => hne }

lemma createMessageIdempotent (now : Time) {n : ℕ} (hn : d ≤ n) (data : MessageData) :
    let key := uuid n ++ ":" ++ data.ownerID
    SameStep (StoresApart uuid d x o o') (Store.createMessageIdempotent uuid now data key s)
        (Store.createMessageIdempotent uuid now data key { s with messages := t' })
      ∧ ∀ msg, (Store.createMessageIdempotent uuid now data key s).1 = .ok msg true →
        ∃ k ≥ d, msg.id = uuid k := by
  intro key
  have hkey : key ≠ "" := by simp [key]
  have hoth : ∀ id, s.idempotencyIdx.lookup (Store.idxKey data.ownerID key) = some id →
      s.messages.load id = t'.load id := fun id hid => ht.others id (ht.keys n hn _ id hid)
  by_cases hst : ∃ id m, s.idempotencyIdx.lookup (Store.idxKey data.ownerID key) = some id
      ∧ t'.load id = some m
  · obtain ⟨id, m, hidx, hld⟩ := hst
    rw [Store.createMessageIdempotent_of_stored uuid now hkey hidx ((hoth id hidx).trans hld),
      Store.createMessageIdempotent_of_stored (s := { s with messages := t' }) uuid now hkey hidx
        hld]
    exact ⟨⟨rfl, ht.change (Nat.le_succ _) fun _ _ _ _ => .inl⟩, fun msg hmsg => by cases hmsg⟩
  · obtain ⟨k, hk, idx, hlk, hmk⟩ :=
      Store.createMessageIdempotent_of_not_stored uuid now data s hkey
    rw [hmk t' hst, show Store.createMessageIdempotent uuid now data key s = _ from
      hmk s.messages fun ⟨id, m, hidx, hm⟩ => hst ⟨id, m, hidx, hoth id hidx ▸ hm⟩]
    refine ⟨⟨rfl, (ht.change (Nat.le_succ_of_le hk) fun n' hn' r' id hid => ?_).put
      (ht.ne_of_drawn hk)⟩, ?_⟩
    · rw [hlk] at hid
      split_ifs at hid
      · cases hid
        exact .inr (ht.ne_of_drawn hk)
      · exact .inl hid
    · rintro msg ⟨⟩
      exact ⟨k, ht.since.trans hk, rfl⟩

end

lemma createMessage (h : StoresApart uuid d x o o' s s') (now : Time) (data : MessageData) :
    SameStep (StoresApart uuid d x o o') (Store.createMessage uuid now data s)
      (Store.createMessage uuid now data s') := by
  obtain ⟨t', rfl⟩ : ∃ t', s' = { s with messages := t' } := ⟨_, h.rest⟩
  refine ⟨rfl, ?_⟩
  exact (h.change (Nat.le_succ _) fun _ _ _ _ => .inl).put (h.ne_of_drawn (le_rfl))

lemma createEntries (h : StoresApart uuid d x o o' s s') (now : Time) (faults : Faults)
    {entries : List IdempotentCreateEntry}
    (hents : ∀ entry ∈ entries, ∃ n ≥ d,
      entry.idempotencyKey = uuid n ++ ":" ++ entry.data.ownerID) :
    SameStep (StoresApart uuid d x o o') (createEntries uuid now faults entries s)
        (createEntries uuid now faults entries s')
      ∧ ∀ msg, .ok msg true ∈ (createEntries uuid now faults entries s).1 →
        ∃ k ≥ d, msg.id = uuid k := by
  induction entries generalizing s s' with
  | nil => exact ⟨⟨rfl, h⟩, fun msg hmsg => by cases hmsg⟩
  | cons entry entries ih =>
    rw [List.forall_mem_cons] at hents
    obtain ⟨⟨n, hn, hk⟩, hents⟩ := hents
    rw [createEntries, createEntries]
    cases faults.entry entry.data.ownerID with
    | some e =>
      obtain ⟨hsm, hw⟩ := ih h hents
      refine ⟨⟨congrArg (IdempotentCreateResult.err e :: ·) hsm.1, hsm.2⟩, ?_⟩
      intro msg hmsg
      rcases List.mem_cons.mp hmsg with hmsg | hmsg
      · cases hmsg
      · exact hw msg hmsg
    | none =>
      obtain ⟨t', rfl⟩ : ∃ t', s' = { s with messages := t' } := ⟨_, h.rest⟩
      obtain ⟨hfst, hfirstNew⟩ := h.createMessageIdempotent now hn entry.data
      rw [← hk] at hfst hfirstNew
      obtain ⟨r, u, u', hu, hu', hrel⟩ := hfst.exists
      obtain ⟨hsm, hw⟩ := ih hrel hents
      rw [hu] at hfirstNew
      simp only [hu, hu']
      refine ⟨⟨congrArg (r :: ·) hsm.1, hsm.2⟩, fun msg hmsg => ?_⟩
      rcases List.mem_cons.mp hmsg with rfl | hmsg
      · exact hfirstNew msg rfl
      · exact hw msg hmsg

end StoresApart

/-- Worlds that agree apart from the message `x`. -/
structure WorldsApart (uuid : ℕ → String) (d : ℕ) (x : String) (o o' : Option Message)
    (w w' : World) : Prop where
  store : StoresApart uuid d x o o' w.store w'.store
  refs : w.refs = w'.refs
  addRefCalls : w.addRefCalls = w'.addRefCalls
  events : w.events = w'.events

variable {now : Time} {faults : Faults} {managed : Bool}

lemma WorldsApart.lift {op : StoreOp} {w w' : World} (h : WorldsApart uuid d x o o' w w')
    (hop : SameStep (StoresApart uuid d x o o') (op w.store) (op w'.store)) :
    SameStep (WorldsApart uuid d x o o') (lift op w) (lift op w') :=
  ⟨hop.1, { h with store := hop.2 }⟩

/-- The in-memory store does the same in such worlds, as long as nobody asks it about `x`. -/
lemma memoryBackend_relates :
    (memoryBackend uuid now faults managed).Relates (WorldsApart uuid d x o o') (fun _ => True)
      (fun entry => ∃ n ≥ d, entry.idempotencyKey = uuid n ++ ":" ++ entry.data.ownerID)
      (fun id => ∃ n ≥ d, id = uuid n) where
  create data w w' _ h := by
    show SameStep _ (createMessage uuid now faults data w)
      (createMessage uuid now faults data w') ∧ ∀ msg,
        (createMessage uuid now faults data w).1 = .ok msg → _
    simp only [createMessage]
    cases faults.create with
    | some => exact ⟨⟨rfl, h⟩, fun msg hmsg => by cases hmsg⟩
    | none =>
      obtain ⟨hmsg, hsto⟩ := h.store.createMessage now data
      refine ⟨⟨congrArg Except.ok hmsg, { h with store := hsto }⟩, ?_⟩
      rintro msg ⟨⟩
      exact ⟨w.store.drawn, h.store.since, rfl⟩
  batch entries w w' hents h := by
    show SameStep _ (createMessagesIdempotent uuid now faults entries w)
      (createMessagesIdempotent uuid now faults entries w') ∧ ∀ results,
        (createMessagesIdempotent uuid now faults entries w).1 = .ok results → _
    simp only [createMessagesIdempotent]
    cases faults.batch with
    | some => exact ⟨⟨rfl, h⟩, fun msg hmsg => by cases hmsg⟩
    | none =>
      obtain ⟨⟨hresults, hsto⟩, hw⟩ := h.store.createEntries now faults hents
      refine ⟨⟨congrArg Except.ok hresults, { h with store := hsto }⟩, ?_⟩
      rintro results ⟨⟩
      exact hw
  hardDelete id w w' hid h := by
    obtain ⟨n, hn, rfl⟩ := hid
    exact h.lift (h.store.hardDelete (h.store.later n hn))
  moveToSent id w w' hid h := by
    obtain ⟨n, hn, rfl⟩ := hid
    exact h.lift (h.store.moveToFolder (h.store.later n hn) now folderSent)
  get id w w' hid h := by
    obtain ⟨n, hn, rfl⟩ := hid
    exact h.store.get (h.store.later n hn)
  deleteDraft id w w' hid h := by
    obtain ⟨n, hn, rfl⟩ := hid
    exact h.lift (h.store.deleteDraft (h.store.later n hn))
  addRef manager hmgr id w w' h := by
    obtain rfl := eq_refManager hmgr
    show SameStep _ (addRef faults id w) (addRef faults id w')
    rw [addRef, addRef]
    simp only [← h.addRefCalls, ← h.refs]
    cases faults.addRef w.addRefCalls with
    | some => exact ⟨rfl, { h with addRefCalls := rfl, refs := rfl }⟩
    | none =>
      cases RefCount.increment id w.refs with
      | none | some refs => exact ⟨rfl, { h with addRefCalls := rfl, refs := rfl }⟩
  removeRef manager hmgr id w w' h := by
    obtain rfl := eq_refManager hmgr
    show SameStep _ (removeRef id w) (removeRef id w')
    rw [removeRef, removeRef, ← h.refs]
    cases RefCount.decrement id w.refs with
    | none => exact ⟨rfl, h⟩
    | some refs => exact ⟨rfl, { h with refs := rfl }⟩
  publish event w w' h := by
    show SameStep _ (publish faults event w) (publish faults event w')
    rw [publish, publish]
    cases faults.publish event with
    | some => exact ⟨rfl, h⟩
    | none => exact ⟨rfl, { h with events := congrArg (· ++ [event]) h.events }⟩

/-! ## Replies to foreign messages -/

/-- Two worlds that have everything in common but the message `x`. -/
structure AgreeBeside (x : String) (w w' : World) : Prop where
  others : ∀ id ≠ x, w.store.messages.load id = w'.store.messages.load id
  rest : w' = { w with store := { w.store with messages := w'.store.messages } }

section Foreign

variable {m : UserMailbox World} {w w' : World}

lemma WorldsApart.agreeBeside {d : ℕ} (h : WorldsApart uuid d x o o' w w') :
    AgreeBeside x w w' := by
  refine ⟨h.store.others, ?_⟩
  obtain ⟨s', refs', calls', events'⟩ := w'
  obtain ⟨hsto, rfl, rfl, rfl⟩ := h
  exact congrArg (fun s => (⟨s, w.refs, w.addRefCalls, w.events⟩ : World)) hsto.rest

lemma AgreeBeside.worldsApart {orig : Message} (h : AgreeBeside x w w') (hw : Fresh uuid w.store)
    (hor : w.store.messages.load x = some orig) :
    WorldsApart uuid w.store.drawn x (some orig) (w'.store.messages.load x) w w' := by
  have hr := h.rest
  refine ⟨⟨hor, rfl, h.others, congrArg World.store hr, le_rfl, ?_, ?_⟩,
    (congrArg World.refs hr).symm, (congrArg World.addRefCalls hr).symm,
    (congrArg World.events hr).symm⟩
  · rintro n hn rfl
    rw [hw.unused n hn] at hor
    cases hor
  · intro n hn r id hlk
    rw [hw.keys n hn r] at hlk
    cases hlk

section

variable (hm : m.service.backend = memoryBackend uuid now faults managed)

include hm

lemma resolveThreadID_foreign
    (hforeign : ∀ msg, w.store.messages.load x = some msg → msg.ownerID ≠ m.userID) :
    m.resolveThreadID "" x w = m.service.newThreadID := by
  rw [resolveThreadID, hm]
  simp only [ne_eq, not_true_eq_false, if_false, memoryBackend]
  split_ifs
  · rfl
  · rcases Store.get_cases x w.store with ⟨e, hg, _⟩ | ⟨msg, hg, _, hld, _⟩
    · rw [hg]
    · rw [hg]
      exact if_neg (hforeign msg hld)

/-- **A reply to a foreign ID** is answered alike, and does the same, whatever the message with that
ID is. -/
theorem sendMessage_foreign
    (hhooks : ∀ h ∈ m.service.plugins, ∀ userID draft, (h.beforeSend userID draft).2.id = draft.id)
    (getMetadata : String → Except Error Attachment) {req : SendRequest}
    (hthr : req.threadID = "") {d : ℕ} (h : WorldsApart uuid d req.replyToID o o' w w')
    (ho : ∀ msg, o = some msg → msg.ownerID ≠ m.userID)
    (ho' : ∀ msg, o' = some msg → msg.ownerID ≠ m.userID)
    (hquo : ∀ r, m.Addresses getMetadata req r → ∀ t t',
      WorldsApart uuid d req.replyToID o o' t t' → m.checkQuota r t = m.checkQuota r t') :
    SentAlike (WorldsApart uuid d req.replyToID o o') (m.sendMessage getMetadata req w)
      (m.sendMessage getMetadata req w') := by
  have hopens : m.resolveThreadID "" req.replyToID w = m.service.newThreadID :=
    resolveThreadID_foreign hm fun msg hmsg => ho msg (h.store.left.symm.trans hmsg)
  have hopens' : m.resolveThreadID "" req.replyToID w' = m.service.newThreadID :=
    resolveThreadID_foreign hm fun msg hmsg => ho' msg (h.store.right.symm.trans hmsg)
  rcases m.sendMessage_cases getMetadata req with
    ⟨err, draft, heq⟩ | ⟨draft, hooked, targets, expiresAt, availableAt, hid, hhooked, haddr, heq⟩
  · rw [heq, heq]
    exact ⟨rfl, rfl, rfl, h⟩
  · rw [heq, heq, hthr, hopens, hopens']
    have hrelates : m.service.backend.Relates (WorldsApart uuid d req.replyToID o o')
        (fun _ => True)
        (fun entry => ∃ n ≥ d, entry.idempotencyKey = uuid n ++ ":" ++ entry.data.ownerID)
        (fun id => ∃ n ≥ d, id = uuid n) := by
      rw [hm]
      exact memoryBackend_relates
    refine transmit_related hrelates h hooked _ targets trivial (fun id r hkn => ?_) ?_
      fun r hr => hquo r (haddr r hr)
    · obtain ⟨n, hn, rfl⟩ := hkn
      exact ⟨n, hn, rfl⟩
    · -- The draft has never been saved.
      intro hne
      refine absurd ?_ hne
      rw [← hhooked]
      exact m.beforeSend_induction (p := fun draft => draft.id = "")
        (fun h hh userID draft hdr => (hhooks h hh userID draft).trans hdr) hid

end

end Foreign

end Mailbox.Service
