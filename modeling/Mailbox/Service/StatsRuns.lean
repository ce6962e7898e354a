import Mailbox.Service.OwnerIsolation
import Mailbox.Service.StatsTracking

/-!
# Runs with a cache of statistics

Users send messages and change the ones they have, one call after the other; the events of a call
are handled before the next call starts (`statsStep`).  The cache and the store can drift apart even
so: the store is changed by the call, the cache by the handlers, which know only what the events
say.

This module says what a call does to the store and which events it publishes, in the terms of
`StatsTracking`: it relocates a message (`Relocated`), marks it (`Marked`), removes it (`Removed`),
or sends one (`Dispatched`).

Publishing an event may fail, and then no handler sees it.  What is said about a run assumes that it
does not (`Reliable`), that the IDs a run draws are new, and that hooks leave the recipients alone.
-/

namespace Mailbox.Service

open Memory UserMailbox List StatsCache MemoryMailbox Store

/-! ## Calls and handlers -/

inductive UserCall where
  | send (draft : Message) (threadID replyToID externalID : String) (ttl : ℤ)
      (scheduleAt : Option Time) (deliverTo : List String)
  | mutate (c : Mutation)

/-- One call: the mailbox at that time, the orders in which the message map is visited on its
behalf, and how many pages an unbounded loop is followed for. -/
structure StatsTurn where
  mailbox : MemoryMailbox
  call : UserCall
  order : Ranges
  fuel : ℕ

/-- What a call leaves, before its events are handled. -/
structure Served where
  state : Instance
  /-- The events of a send. -/
  sent : List Event
  published : List MutationEvent
  /-- The message a send returns. -/
  message : Option Message

def StatsTurn.serve (turn : StatsTurn) (i : Instance) : Served :=
  match turn.call with
  | .send draft threadID replyToID externalID ttl scheduleAt deliverTo =>
    let r := turn.mailbox.sendDraft draft threadID replyToID externalID ttl scheduleAt deliverTo
      i.world
    { state := { i with world := r.state }
      sent := r.state.events.drop i.world.events.length
      published := []
      message := r.message }
  | .mutate c =>
    let r := turn.mailbox.mutate turn.order turn.fuel i c
    { state := r.state, sent := [], published := r.published, message := none }

/-- Handling the events in order, no handler finds a counter at zero that it is to decrement. -/
def StatsCache.Unclamped : StatsCache → List MutationEvent → Prop
  | _, [] => True
  | cache, event :: events => ¬ cache.Clamps event ∧ (cache.onMutation event).Unclamped events

instance StatsCache.decidableUnclamped :
    ∀ (cache : StatsCache) (events : List MutationEvent), Decidable (cache.Unclamped events)
  | _, [] => isTrue trivial
  | cache, event :: events =>
    have := StatsCache.decidableUnclamped (cache.onMutation event) events
    inferInstanceAs (Decidable (¬ cache.Clamps event ∧ (cache.onMutation event).Unclamped events))

/-- What a mutation leaves, its events handled. -/
def Reply.handled {α : Type} (r : Reply α) : Instance :=
  { r.state with cache := r.published.foldl StatsCache.onMutation r.state.cache }

namespace Served

/-- The events are handled in order. -/
def handled (r : Served) : Instance :=
  { r.state with
    cache := r.published.foldl StatsCache.onMutation
      (r.sent.foldl StatsCache.onSend r.state.cache) }

def Unclamped (r : Served) : Prop :=
  (r.sent.foldl StatsCache.onSend r.state.cache).Unclamped r.published

instance (r : Served) : Decidable r.Unclamped :=
  inferInstanceAs (Decidable (StatsCache.Unclamped _ _))

end Served

def statsStep (i : Instance) (turn : StatsTurn) : Instance × Served :=
  ((turn.serve i).handled, turn.serve i)

/-- Snapshots hold what `MailboxStats` returns. -/
def Snapshots (t : Time) (i : Instance) : Prop :=
  ∀ u stats, i.cache.cached u = some stats → ∀ k, stats.value k = (i.store.mailboxStats t u).value k

/-- What is outside of the service does its part: every event is published, IDs come from one
source, hooks leave the recipients alone, and the message map is visited as a whole. -/
structure StatsTurn.Reliable (uuid : ℕ → String) (turn : StatsTurn) : Prop where
  uuid : turn.mailbox.uuid = uuid
  publish : ∀ event, turn.mailbox.publishFault event = none
  publishSent : ∀ event, turn.mailbox.faults.publish event = none
  tame : ∀ h ∈ turn.mailbox.service.plugins, Tame h
  order : ∀ n l, (turn.order n l).Perm l

/-! ## What the calls do -/

section Effects

variable (u id : String) (s : Store)

/-- A message is moved, or nothing happens. -/
inductive Relocated : Store → List MutationEvent → Prop where
  | same : Relocated s []
  | moved (msg : Message) (howns : Owns u id s msg) (toFolderID : String) (hto : toFolderID ≠ "")
      (now : Time) :
      Relocated (s.put { msg with folderID := toFolderID, updatedAt := now })
        [.messageMoved id u msg.folderID toFolderID (!msg.isRead) now]

/-- A message is marked, or nothing happens.  Only reading is published. -/
inductive Marked : Store → List MutationEvent → Prop where
  | same : Marked s []
  | read (msg : Message) (howns : Owns u id s msg) (now : Time) :
      Marked (s.put { msg with isRead := true, updatedAt := now, readAt := some now })
        [.messageRead id u msg.folderID now]
  | unread (msg : Message) (howns : Owns u id s msg) (now : Time) :
      Marked (s.put { msg with isRead := false, updatedAt := now, readAt := none }) []

/-- A message is deleted for good, or nothing happens. -/
inductive Removed : Store → List MutationEvent → Prop where
  | same : Removed s []
  | deleted (msg : Message) (howns : Owns u id s msg) (now : Time) :
      Removed (s.remove id) [.messageDeleted id u msg.folderID (!msg.isRead) now]

/-- A message gets other tags, or nothing happens. -/
inductive Retagged : Store → Prop where
  | same : Retagged s
  | tagged (msg : Message) (howns : Owns u id s msg) (tags : List String) (now : Time) :
      Retagged (s.put { msg with tags := tags, updatedAt := now })

end Effects

variable {effect : Store → Store → List MutationEvent → Prop} {flags : Flags}
  {s s' : Store} {u : String} {published : List MutationEvent}

section Calls

variable {m : MemoryMailbox} {i : Instance} {id : String} {msg : Message}
  (hpublish : ∀ event, m.publishFault event = none)

lemma owns_of_getAndVerify (h : getAndVerify u id s = .ok msg) : id ≠ "" ∧ Owns u id s msg := by
  rw [getAndVerify] at h
  cases hg : s.get id with
  | error => simp [hg] at h
  | ok msg' =>
    obtain ⟨hid, hld, hdr⟩ := get_eq_ok.mp hg
    simp only [hg] at h
    split_ifs at h with hown
    cases h
    exact ⟨hid, hld, hown, hdr⟩

/-- A call is refused and changes nothing, or it goes on past the access check. -/
lemma guarded_elim {p : Reply Result → Prop} {r : Reply Result}
    (hrefuse : ∀ e, p (.refuse e i)) (h : p r) : p (m.guarded i r) := by
  unfold guarded
  cases m.checkAccess with
  | error e => exact hrefuse e
  | ok => exact h

/-- A call is refused and changes nothing, or it goes on with a message of the user's own. -/
lemma verified_elim {p : Reply Result → Prop} {k : Message → Reply Result}
    (hrefuse : ∀ e, p (.refuse e i))
    (h : ∀ msg, id ≠ "" → Owns m.userID id i.store msg → p (k msg)) : p (m.verified id i k) := by
  unfold verified
  cases hg : getAndVerify m.userID id i.store with
  | error e => exact hrefuse e
  | ok msg =>
    obtain ⟨hid, hon⟩ := owns_of_getAndVerify hg
    exact h msg hid hon

lemma owned_elim {p : Reply Result → Prop} {k : Message → Reply Result}
    (hrefuse : ∀ e, p (.refuse e i))
    (h : ∀ msg, id ≠ "" → Owns m.userID id i.store msg → p (k msg)) :
    p (m.guarded i (m.verified id i k)) :=
  guarded_elim hrefuse (verified_elim hrefuse h)

lemma moveToFolder_cases (hid : id ≠ "") (hon : Owns u id s msg)
    (now : Time) (toFolderID : String) (opts : MoveOptions) :
    (∃ e, Store.moveToFolder now id toFolderID opts s = (.error e, s))
      ∨ Store.moveToFolder now id toFolderID opts s
          = (.ok (), s.put { msg with folderID := toFolderID, updatedAt := now }) := by
  unfold Store.moveToFolder
  rw [if_neg hid]
  split_ifs
  · exact .inl ⟨_, rfl⟩
  · rw [mutate_of_load hid hon.1 hon.2.2]
    simp only [Update.moveToFolder]
    split_ifs
    · exact .inl ⟨_, rfl⟩
    · exact .inr rfl

lemma defaultFolderForMessage_ne_empty (msg : Message) : defaultFolderForMessage msg ≠ "" := by
  rw [defaultFolderForMessage]
  split_ifs <;> decide

/-- What the call does to the store and publishes; the cache it leaves alone. -/
def Does (effect : Store → Store → List MutationEvent → Prop) (i : Instance)
    (r : Reply Result) : Prop :=
  effect i.store r.state.store r.published ∧ r.state.cache = i.cache

lemma Does.refuse (hsm : effect i.store i.store []) (e : Error) : Does effect i (.refuse e i) :=
  ⟨hsm, rfl⟩

lemma retagged_changeTag {update : Update} (i : Instance) (id context tagID : String)
    (hupd : ∀ orig, update orig = .ok none ∨ ∃ tags now,
      update orig = .ok (some { orig with tags := tags, updatedAt := now })) :
    Does (fun s s' published => Retagged m.userID id s s' ∧ published = []) i
      (m.changeTag context id tagID (mutate update id) i) := by
  refine guarded_elim (.refuse ⟨.same, rfl⟩) ?_
  split
  · exact ⟨⟨.same, rfl⟩, rfl⟩
  · refine verified_elim (.refuse ⟨.same, rfl⟩) fun msg hid hon => ?_
    rw [mutate_of_load hid hon.1 hon.2.2]
    rcases hupd msg with heq | ⟨tags, now, heq⟩
    · simp only [heq]
      exact ⟨⟨.same, rfl⟩, rfl⟩
    · simp only [heq]
      exact ⟨⟨.tagged msg hon tags now, rfl⟩, rfl⟩

include hpublish

lemma opAndPublish_effect (event : MutationEvent) (op : StoreOp)
    (i : Instance) : (m.opAndPublish event op i).state = i.setStore (op i.store).2
      ∧ (m.opAndPublish event op i).published
        = (match (op i.store).1 with | .ok _ => [event] | .error _ => [])
      ∧ (m.opAndPublish event op i).result = (op i.store).1 := by
  refine ⟨congrArg (i.setStore ·) (opAndPublish_state _ _ _ op i.store), ?_, ?_⟩
  · simp only [MemoryMailbox.opAndPublish, hpublish event]
    cases (op i.store).1 <;> rfl
  · simp only [MemoryMailbox.opAndPublish, Service.opAndPublish, hpublish event]
    rcases op i.store with ⟨_ | _, s⟩ <;> rfl

/-- `moveAndPublish` relocates the message; when it succeeds, the message is in the folder. -/
lemma relocated_moveAndPublish (hid : id ≠ "") (hon : Owns m.userID id i.store msg)
    {toFolderID : String} (hto : toFolderID ≠ "") (opts : MoveOptions) :
    let r := m.moveAndPublish id msg.folderID toFolderID (!msg.isRead) opts i
    Relocated m.userID id i.store r.state.store r.published ∧ r.state.cache = i.cache
      ∧ (r.result = .ok () → ∃ msg', Owns m.userID id r.state.store msg'
          ∧ msg'.folderID = toFolderID ∧ msg'.isRead = msg.isRead) := by
  unfold MemoryMailbox.moveAndPublish Service.moveAndPublish
  split_ifs with hsm
  · exact ⟨.same, rfl, fun _ => ⟨msg, hon, hsm, rfl⟩⟩
  · obtain ⟨hst, hpubd, hres⟩ := opAndPublish_effect hpublish
      (.messageMoved id m.userID msg.folderID toFolderID (!msg.isRead) m.service.now)
      (Store.moveToFolder m.service.now id toFolderID opts) i
    simp only [hst, hpubd, hres]
    rcases moveToFolder_cases hid hon m.service.now toFolderID opts with ⟨e, heq⟩ | heq
    · rw [heq]
      exact ⟨.same, rfl, fun hok => by cases hok⟩
    · rw [heq]
      refine ⟨.moved msg hon toFolderID hto m.service.now, rfl, fun _ => ?_⟩
      refine ⟨{ msg with folderID := toFolderID, updatedAt := m.service.now },
        ⟨?_, hon.2.1, hon.2.2⟩, rfl, rfl⟩
      rw [← Table.key_of_load hon.1]
      exact Table.load_put_self

variable (id i)

lemma relocated_delete : Does (Relocated m.userID id) i (m.delete id i) := by
  refine owned_elim (.refuse .same) fun msg hid hon => ?_
  split_ifs
  · exact ⟨.same, rfl⟩
  · obtain ⟨hreloc, hca, _⟩ :=
      relocated_moveAndPublish hpublish hid hon (show folderTrash ≠ "" by decide) {}
    exact ⟨hreloc, hca⟩

lemma relocated_restore : Does (Relocated m.userID id) i (m.restore id i) := by
  refine owned_elim (.refuse .same) fun msg hid hon => ?_
  split_ifs with htrash
  · exact ⟨.same, rfl⟩
  · rw [not_not] at htrash
    rw [← htrash]
    obtain ⟨hreloc, hca, _⟩ :=
      relocated_moveAndPublish hpublish hid hon (defaultFolderForMessage_ne_empty msg) {}
    exact ⟨hreloc, hca⟩

lemma relocated_moveToFolder (folderID : String) (opts : MoveOptions) :
    Does (Relocated m.userID id) i (m.moveToFolder id folderID opts i) := by
  refine guarded_elim (.refuse .same) ?_
  split_ifs with hval
  · exact ⟨.same, rfl⟩
  · exact ⟨.same, rfl⟩
  · have hto : folderID ≠ "" := by
      rintro rfl
      exact hval rfl
    refine verified_elim (.refuse .same) fun msg hid hon => ?_
    obtain ⟨hreloc, hca, _⟩ := relocated_moveAndPublish hpublish hid hon hto opts
    exact ⟨hreloc, hca⟩

lemma removed_permanentlyDelete : Does (Removed m.userID id) i (m.permanentlyDelete id i) := by
  refine owned_elim (.refuse .same) fun msg hid hon => ?_
  split_ifs
  · exact ⟨.same, rfl⟩
  · obtain ⟨hst, hpubd, _⟩ := opAndPublish_effect hpublish
      (.messageDeleted id m.userID msg.folderID (!msg.isRead) m.service.now)
      (hardDelete id) i
    rw [hardDelete_of_load hid hon.1 hon.2.2] at hst hpubd
    generalize m.opAndPublish _ (hardDelete id) i = r at hst hpubd
    have hrem : Does (Removed m.userID id) i r := by
      rw [Does, hst, hpubd]
      exact ⟨.deleted msg hon m.service.now, rfl⟩
    cases hres : r.result with
    | error =>
      simp only [hres]
      exact hrem
    | ok =>
      simp only [hres]
      refine ⟨?_, hrem.2⟩
      show Removed m.userID id i.store (m.releaseAttachmentRefs msg r.state.world).2.store
        r.published
      rw [releaseAttachmentRefs_store]
      exact hrem.1

/-! ## Flags -/

variable {id i}

/-- The archived flag relocates the message, to the folder that the read flag is told of. -/
lemma relocated_applyArchived (hid : id ≠ "") (hon : Owns m.userID id i.store msg)
    (archived : Option Bool) : Does (Relocated m.userID id) i (m.applyArchived id msg archived i)
      ∧ ((m.applyArchived id msg archived i).result = .ok () →
        ∃ msg', Owns m.userID id (m.applyArchived id msg archived i).state.store msg'
          ∧ msg'.folderID = flaggedFolder msg archived ∧ msg'.isRead = msg.isRead) := by
  cases archived with
  | none => exact ⟨⟨.same, rfl⟩, fun _ => ⟨msg, hon, rfl, rfl⟩⟩
  | some b =>
    have hto : flaggedFolder msg (some b) ≠ "" := by
      cases b with
      | true => exact (by decide : folderArchived ≠ "")
      | false => exact defaultFolderForMessage_ne_empty msg
    obtain ⟨hreloc, hca, hmoved⟩ := relocated_moveAndPublish hpublish hid hon hto {}
    refine ⟨⟨hreloc, hca⟩, fun hok => hmoved ?_⟩
    -- The error is wrapped, and an error it remains.
    have hwrap : wrapError "move to folder" (m.moveAndPublish id msg.folderID
      (flaggedFolder msg (some b)) (!msg.isRead) {} i).result = .ok () := hok
    cases hres : (m.moveAndPublish id msg.folderID (flaggedFolder msg (some b)) (!msg.isRead)
      {} i).result with
    | error e =>
      rw [hres] at hwrap
      cases hwrap
    | ok _ => rfl

lemma marked_applyRead (hid : id ≠ "") (hon : Owns m.userID id i.store msg) (read : Option Bool) :
    Does (Marked m.userID id) i (m.applyRead id msg.folderID read i) := by
  have hmark : ∀ b, markRead m.service.now id b i.store
      = (.ok (), i.store.put { msg with
          isRead := b, updatedAt := m.service.now,
          readAt := if b then some m.service.now else none }) := fun b =>
    mutate_of_load hid hon.1 hon.2.2
  match read with
  | none => exact ⟨.same, rfl⟩
  | some false =>
    simp only [applyRead, hmark false]
    exact ⟨.unread msg hon m.service.now, rfl⟩
  | some true =>
    obtain ⟨hst, hpubd, _⟩ := opAndPublish_effect hpublish
      (.messageRead id m.userID msg.folderID m.service.now)
      (markRead m.service.now id true) i
    rw [hmark true] at hst hpubd
    show Marked _ _ _ (m.opAndPublish _ _ i).state.store (m.opAndPublish _ _ i).published
      ∧ (m.opAndPublish _ _ i).state.cache = i.cache
    rw [hst, hpubd]
    exact ⟨.read msg hon m.service.now, rfl⟩

/-- The flags of a message are updated: first it is relocated, then it is marked. -/
inductive Flagged (u id : String) (flags : Flags) (s : Store) :
    Store → List MutationEvent → Prop where
  | same : Flagged u id flags s s []
  | relocated {s' : Store} {published : List MutationEvent}
      (h : Relocated u id s s' published) : Flagged u id flags s s' published
  | marked {s₁ s₂ : Store} {published₁ published₂ : List MutationEvent} (msg msg' : Message)
      (hread : flags.read ≠ none) (howns : Owns u id s msg) (h : Relocated u id s s₁ published₁)
      (howns' : Owns u id s₁ msg') (hsame : msg'.isRead = msg.isRead)
      (h' : Marked u id s₁ s₂ published₂) :
      Flagged u id flags s s₂ (published₁ ++ published₂)

lemma flagged_updateFlags (id : String) (flags : Flags) (i : Instance) :
    Does (Flagged m.userID id flags) i (m.updateFlags id flags i) := by
  refine guarded_elim (.refuse .same) ?_
  split_ifs
  · exact ⟨.same, rfl⟩
  · refine verified_elim (.refuse .same) fun msg hid hon => ?_
    obtain ⟨⟨hreloc, hca⟩, hok⟩ := relocated_applyArchived hpublish hid hon flags.archived
    unfold Reply.andThen
    cases hres : (m.applyArchived id msg flags.archived i).result with
    | error => exact ⟨.relocated hreloc, hca⟩
    | ok =>
      obtain ⟨msg', hon', hfo, hsm⟩ := hok hres
      cases hrd : flags.read with
      | none =>
        simp only [applyRead, Reply.done, append_nil]
        exact ⟨.relocated hreloc, hca⟩
      | some b =>
        obtain ⟨hmark, hca'⟩ := marked_applyRead hpublish hid hon' (some b)
        rw [hfo] at hmark hca'
        exact ⟨.marked msg msg' (by simp [hrd]) hon hreloc hon' hsm hmark, hca'.trans hca⟩

end Calls

/-! ## What the changes do to the snapshots -/

variable {id : String}

lemma Flagged.relocated_of_none (h : Flagged u id flags s s' published)
    (hrd : flags.read = none) : Relocated u id s s' published := by
  cases h with
  | same => exact .same
  | relocated h => exact h
  | marked _ _ hsome => exact absurd hrd hsome

section Tracked

variable {K : Counter → Prop} {included : Included} {t : Time} {cache : StatsCache}
  (h : Tracked K included t s cache)
  (hcovered : ∀ msg, Owns u id s msg → cache.cached u ≠ none → Covered K included msg)

include h hcovered

lemma Relocated.tracked (hreloc : Relocated u id s s' published) :
    Tracked K included t s' (published.foldl onMutation cache) := by
  cases hreloc with
  | same => exact h
  | moved msg hon toFolderID hto now => exact h.moved hon (hcovered msg hon) hto now

lemma Removed.tracked (hrem : Removed u id s s' published) :
    Tracked K included t s' (published.foldl onMutation cache) := by
  cases hrem with
  | same => exact h
  | deleted msg hon now => exact h.deleted hon (hcovered msg hon) now

lemma Relocated.unclamped (hreloc : Relocated u id s s' published) (hK : ∀ k, K k) :
    cache.Unclamped published := by
  cases hreloc with
  | same => exact trivial
  | moved msg hon =>
    exact ⟨h.not_clamps hK hon (hcovered msg hon) fun _ => counts_of_decrements_moved, trivial⟩

lemma Removed.unclamped (hrem : Removed u id s s' published) (hK : ∀ k, K k) :
    cache.Unclamped published := by
  cases hrem with
  | same => exact trivial
  | deleted msg hon =>
    exact ⟨h.not_clamps hK hon (hcovered msg hon) fun _ => counts_of_decrements_deleted, trivial⟩

end Tracked

/-! ## IDs -/

/-- No message has an ID that was not there before, and no ID is drawn. -/
structure KeepsIDs (s s' : Store) : Prop where
  drawn : s'.drawn = s.drawn
  idempotencyIdx : s'.idempotencyIdx = s.idempotencyIdx
  ids : ∀ msg ∈ s'.messages.all, ∃ msg' ∈ s.messages.all, msg'.id = msg.id

lemma KeepsIDs.refl (s : Store) : KeepsIDs s s := ⟨rfl, rfl, fun msg hmsg => ⟨msg, hmsg, rfl⟩⟩

lemma KeepsIDs.trans {s'' : Store} (h : KeepsIDs s s') (h' : KeepsIDs s' s'') : KeepsIDs s s'' where
  drawn := h'.drawn.trans h.drawn
  idempotencyIdx := h'.idempotencyIdx.trans h.idempotencyIdx
  ids msg hmsg := by
    obtain ⟨msg', hmsg', hid'⟩ := h'.ids msg hmsg
    obtain ⟨msg'', hmsg'', hid''⟩ := h.ids msg' hmsg'
    exact ⟨msg'', hmsg'', hid''.trans hid'⟩

variable {uuid : ℕ → String}

lemma KeepsIDs.fresh (h : KeepsIDs s s') (hs : Fresh uuid s) : Fresh uuid s' where
  toFreshIDs := hs.toFreshIDs.of_ids h.drawn h.ids
  keys n hn r := by
    rw [h.idempotencyIdx]
    exact hs.keys n (by rw [← h.drawn]; exact hn) r

section KeepsIDs

variable {msg : Message}

lemma keepsIDs_put (hon : Owns u id s msg) {msg' : Message} (hid : msg'.id = msg.id) :
    KeepsIDs s (s.put msg') := by
  refine ⟨rfl, rfl, fun m hm => ?_⟩
  rcases Table.mem_put.mp hm with rfl | ⟨hmem, _⟩
  · exact ⟨msg, hon.mem, hid.symm⟩
  · exact ⟨m, hmem, rfl⟩

lemma Relocated.keepsIDs (h : Relocated u id s s' published) : KeepsIDs s s' := by
  cases h with
  | same => exact .refl s
  | moved msg hon => exact keepsIDs_put hon rfl

lemma Marked.keepsIDs (h : Marked u id s s' published) : KeepsIDs s s' := by
  cases h with
  | same => exact .refl s
  | read msg hon | unread msg hon => exact keepsIDs_put hon rfl

lemma Removed.keepsIDs (h : Removed u id s s' published) : KeepsIDs s s' := by
  cases h with
  | same => exact .refl s
  | deleted =>
    exact ⟨rfl, rfl, fun m hm => ⟨m, (Table.mem_delete.mp hm).1, rfl⟩⟩

lemma Retagged.keepsIDs (h : Retagged u id s s') : KeepsIDs s s' := by
  cases h with
  | same => exact .refl s
  | tagged msg hon => exact keepsIDs_put hon rfl

lemma Flagged.keepsIDs (h : Flagged u id flags s s' published) : KeepsIDs s s' := by
  cases h with
  | same => exact .refl s
  | relocated h => exact h.keepsIDs
  | marked _ _ _ _ h _ _ h' => exact h.keepsIDs.trans h'.keepsIDs

end KeepsIDs

/-! ## Sending -/

/-- A message is sent: the sender's copy and the recipients' copies are new, and the saved draft is
gone. -/
structure Dispatched (uuid : ℕ → String) (u : String) (s s' : Store) (draftID : String)
    (sent : Message) (copies : List Message) : Prop where
  all : s'.messages.all = sent :: (copies.reverse ++ s.messages.all.filter (notDraft draftID))
  arrived : Arrived folderSent sent
  owner : sent.ownerID = u
  status : sent.status = .queued
  id : sent.id = uuid s.drawn
  somebody : copies ≠ []
  copies : ∀ msg ∈ copies, Arrived folderInbox msg ∧ msg.status = .delivered
  fresh : Fresh uuid s'
  drawn : s.drawn ≤ s'.drawn

section Send

variable {turn : StatsTurn} {i : Instance}

theorem dispatched_of_message (hu : IDSource uuid) (hturn : turn.Reliable uuid)
    (hfr : Fresh uuid i.store) {draft : Message} {threadID replyToID externalID : String}
    {ttl : ℤ} {scheduleAt : Option Time} {deliverTo : List String}
    (hcl : turn.call = .send draft threadID replyToID externalID ttl scheduleAt deliverTo)
    (hunsch : scheduleAt.filter (· ≠ 0) = none) (hms : (turn.serve i).message ≠ none) :
    ∃ draftID sent copies, Dispatched uuid turn.mailbox.userID i.store (turn.serve i).state.store
        draftID sent copies
      ∧ (turn.serve i).handled.cache
        = i.cache.onMessageSent turn.mailbox.userID (copies.map Message.ownerID) := by
  obtain ⟨m, call, order, fuel⟩ := turn
  obtain ⟨hu', _, hpublish, htame, _⟩ := hturn
  simp only at hu' hpublish htame hcl
  subst hu' hcl
  simp only [StatsTurn.serve, Served.handled, foldl_nil] at hms ⊢
  by_cases hrdy : ∃ targets hooked, m.Ready draft deliverTo targets hooked
  · obtain ⟨targets, hooked, hrdy⟩ := hrdy
    have hnd := hrdy.nodup_targets htame
    rw [sendDraft_of_ready hrdy] at hms ⊢
    rcases htm : m.computeTTLFields ttl scheduleAt with e | ⟨expiresAt, availableAt⟩
    · rw [htm] at hms
      exact absurd rfl hms
    · have hav : availableAt = none :=
        (computeTTLFields_ok htm).2.trans hunsch
      simp only [htm] at hms ⊢
      have henv : (⟨m.resolveThreadID threadID replyToID i.world, replyToID, externalID, expiresAt,
        availableAt⟩ : UserMailbox.Envelope).availableAt = none := hav
      generalize (⟨m.resolveThreadID threadID replyToID i.world, replyToID, externalID, expiresAt,
        availableAt⟩ : UserMailbox.Envelope) = env at *
      have hdelv := delivers_of_message m.backend_eq hu env hfr hnd hms
      have hsomebody := hdelv.somebody
      obtain ⟨_, hall, hevs, hdrw, hfr'⟩ := transmit_delivers m.backend_eq hu env hfr hnd hdelv
      generalize delivered m.uuid m.service.now m.faults m.toUserMailbox hooked env
        targets i.world = kept at hall hevs hsomebody
      have haccepted : ∀ events, accepted m.faults events = events := by
        intro events
        exact filter_eq_self.mpr fun event _ => by simp [hpublish event]
      refine ⟨hooked.id, sentCopy m.service.now (senderCopy m.uuid
          m.service.now m.toUserMailbox hooked env i.world),
        kept.map (copyAt m.uuid m.service.now (recipientData m.toUserMailbox hooked env)),
        ⟨hall, ⟨rfl, rfl, rfl, henv⟩, rfl, rfl, rfl, by simpa using hsomebody, ?_, hfr', hdrw⟩, ?_⟩
      · intro msg hmsg
        obtain ⟨p, _, rfl⟩ := mem_map.mp hmsg
        exact ⟨⟨rfl, rfl, rfl, henv⟩, rfl⟩
      · -- `MessageReceived` has no handler here.
        have hrecv : (kept.map (receivedEvent m.uuid m.toUserMailbox hooked)).foldl
            onSend i.cache = i.cache := by
          rw [foldl_map]
          exact foldl_fixed' (fun _ => rfl) _
        rw [hevs, haccepted, drop_left, sendEvents, foldl_append, hrecv, map_map]
        rfl
  · obtain ⟨_, _, hn⟩ := sendDraft_of_not_ready hrdy
    rw [hn] at hms
    exact absurd rfl hms

end Send

/-! ## Plain runs -/

/-- A call of somebody with a plain mailbox. -/
def plainTurn (userID : String) (call : UserCall) : StatsTurn :=
  ⟨plainMemoryMailbox userID, call, inOrder, 0⟩

lemma reliable_plainTurn (userID : String) (call : UserCall) :
    (plainTurn userID call).Reliable unaryID :=
  ⟨rfl, fun _ => rfl, fun _ => rfl, by simp [plainTurn, plainMemoryMailbox, plainMailbox],
    inOrder_perm⟩

/-- `alice` sends a note to `bob`. -/
def sendNote : StatsTurn :=
  plainTurn "alice" (.send
    { Store.newDraft 0 "alice" with recipientIDs := ["bob"], subject := "hi", body := "there" }
    "" "" "" 0 none [])

/-- The instance has just filled the entries of the given users. -/
def snapshotOf (users : List String) (messages : Messages) : Instance :=
  let i := freshInstance messages
  { i with cache := users.foldl (fun cache u => cache.refresh 1 u i.store) i.cache }

lemma snapshots_snapshotOf (users : List String) (messages : Messages) :
    Snapshots 1 (snapshotOf users messages) := by
  have hfo : ∀ (l : List String) (cache : StatsCache) (s : Store),
      (∀ u stats, cache.cached u = some stats → stats = s.mailboxStats 1 u) →
      ∀ u stats, (l.foldl (fun cache u => cache.refresh 1 u s) cache).cached u = some stats →
        stats = s.mailboxStats 1 u := by
    intro l
    induction l with
    | nil => exact fun _ _ h => h
    | cons v l ih =>
      intro cache s h
      refine ih _ s fun u stats hss => ?_
      rw [cached_refresh] at hss
      split_ifs at hss
      · exact (Option.some.inj hss).symm
      · exact h u stats hss
  intro u stats hss k
  have heq := hfo users ∅ (freshInstance messages).store (fun _ _ h => by cases h) u stats hss
  rw [heq]
  rfl

end Mailbox.Service
