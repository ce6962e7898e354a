import Mailbox.Lib.Conversation
import Mailbox.Lib.Machine
import Mailbox.Memory.Edits
import Mailbox.Service.SendMessage

/-!
# Conversations keep one thread ID

A run of `SendMessage` calls without thread IDs of their own, from an empty store.  Each call is a
post of an abstract log: its items are the IDs of the copies it makes, its parent is the message it
replies to, if that is the sender's, and its token is the UUID that a new thread would get.

* `next_grown` — the messages after a call are those from before, and new ones under the thread that
  the call has resolved; from the operations of the store, whatever hooks and faults do.
* `Threaded` — every message stands under its own thread ID in the log; `Threaded.next` is the step.
* **`conversations_keep_thread`** — what this means for chains of replies.
-/

namespace Mailbox.Service

open Memory UserMailbox Conversation List Option

structure MessageCall where
  mailbox : MemoryMailbox
  getMetadata : String → Except Error Attachment
  request : SendRequest

variable (c : MessageCall)

namespace MessageCall

def send (w : World) : Sent World :=
  c.mailbox.sendMessage c.getMetadata c.request w

def next (w : World) (c : MessageCall) : World := (c.send w).state

/-- The message that the call replies to, if it is the sender's. -/
def ownTarget (w : World) : Option Message :=
  match w.store.get c.request.replyToID with
  | .ok orig => if orig.ownerID = c.mailbox.userID then some orig else none
  | .error _ => none

/-- The IDs of the messages that the call makes. -/
def newIDs (w : World) : List String :=
  ((c.next w).store.messages.all.filter fun msg => (w.store.messages.load msg.id).isNone).map
    Message.id

def post (e : World × MessageCall) : Post String String where
  items := e.2.newIDs e.1
  parent := (e.2.ownTarget e.1).map Message.id
  token := e.2.mailbox.service.newThreadID

end MessageCall

open MessageCall

/-! ## One call -/

/-- What keeps a message the same as far as threads go. -/
structure Kin (old msg : Message) : Prop where
  id : msg.id = old.id
  ownerID : msg.ownerID = old.ownerID
  threadID : msg.threadID = old.threadID
  isDraft : msg.isDraft = old.isDraft

/-- Where a message comes from: it was there, or is new, with an ID up to the given number. -/
def Origin (uuid : ℕ → String) (threadID : String) (s : Store) (drawn : ℕ) (msg : Message) : Prop :=
  (∃ old ∈ s.messages.all, Kin old msg)
    ∨ ∃ n, s.drawn ≤ n ∧ n < drawn ∧ msg.id = uuid n ∧ msg.threadID = threadID ∧ msg.isDraft = false

/-- All messages of the second store come from the first one, or are new. -/
structure Grown (uuid : ℕ → String) (threadID : String) (s s' : Store) : Prop where
  drawn : s.drawn ≤ s'.drawn
  every : s'.Every (Origin uuid threadID s s'.drawn)

variable {msg : Message} {data : MessageData} {uuid : ℕ → String} {n : ℕ} {s'' : Store}

section Grown

variable {threadID : String} {s s' : Store} {now : Time} {faults : Faults} {managed : Bool}

lemma Origin.mono {k : ℕ} (hle : n ≤ k) (h : Origin uuid threadID s n msg) :
    Origin uuid threadID s k msg := by
  rcases h with hold | ⟨i, hi, hlt, hw⟩
  · exact .inl hold
  · exact .inr ⟨i, hi, hlt.trans_le hle, hw⟩

lemma Grown.refl : Grown uuid threadID s s :=
  ⟨le_rfl, fun msg hmsg => .inl ⟨msg, hmsg, rfl, rfl, rfl, rfl⟩⟩

lemma Grown.later (h : Grown uuid threadID s s') (hdrw : s'.drawn ≤ s''.drawn)
    (hevery : s''.Every (Origin uuid threadID s s'.drawn)) : Grown uuid threadID s s'' :=
  ⟨h.drawn.trans hdrw, fun msg hmsg => (hevery msg hmsg).mono hdrw⟩

lemma Grown.create (h : Grown uuid threadID s s')
    (hdata : data.threadID = threadID) (hn : s'.drawn ≤ n) (hn' : n < s''.drawn)
    (hms : s''.messages = s'.messages.put (newMessageFromData data (uuid n) now)) :
    Grown uuid threadID s s'' := by
  refine ⟨h.drawn.trans (hn.trans hn'.le), fun msg hmsg => ?_⟩
  rw [hms] at hmsg
  rcases Table.mem_put.mp hmsg with rfl | ⟨hmem, _⟩
  · exact .inr ⟨n, h.drawn.trans hn, hn', rfl, hdata, rfl⟩
  · exact (h.every msg hmem).mono (hn.trans hn'.le)

lemma keeps_origin_moveToFolder (drawn : ℕ) (folderID : String) :
    (Update.moveToFolder now folderID {}).Keeps (Origin uuid threadID s drawn) := by
  intro orig msg _ hor hupd
  obtain rfl := some.inj (Except.ok.inj hupd)
  rcases hor with ⟨old, hold, hkin⟩ | hw
  · exact .inl ⟨old, hold, hkin.id, hkin.ownerID, hkin.threadID, hkin.isDraft⟩
  · exact .inr hw

lemma Grown.createMessageIdempotent (hdata : data.threadID = threadID)
    (key : String) (h : Grown uuid threadID s s') :
    Grown uuid threadID s (Store.createMessageIdempotent uuid now data key s').2 := by
  obtain ⟨hdrw, hcases⟩ := Store.createMessageIdempotent_cases uuid now data key s'
  rcases hcases with ⟨_, hms⟩ | ⟨_, hms⟩ | ⟨n, hn, hn', _, hms⟩
  · exact h.later hdrw (h.every.congr hms)
  · exact h.later hdrw (h.every.congr hms)
  · exact h.create hdata hn hn' hms

/-- The operations of the in-memory store let a store grow by messages of one thread. -/
lemma memoryBackend_grows :
    (memoryBackend uuid now faults managed).Keeps (fun w => Grown uuid threadID s w.store)
      (fun data => data.threadID = threadID) := by
  have hdel : ∀ (id : String) (s' : Store), Edits now {id} s' (Store.hardDelete id s').2 :=
    fun id _ => Store.edits_hardDelete id
  have hmv : ∀ (id : String) (s' : Store),
      Edits now {id} s' (Store.moveToFolder now id folderSent {} s').2 :=
    fun id _ => Store.edits_moveToFolder id folderSent {}
  exact memoryBackend_keepsStore managed
    (fun _ _ hdata h => h.create hdata (le_rfl) (Nat.lt_succ_self _) rfl)
    (fun _ key _ hdata h => h.createMessageIdempotent hdata key)
    (fun id s' h => h.later (hdel id s').drawn.ge (h.every.hardDelete id))
    (fun id s' h => h.later (hmv id s').drawn.ge
      (h.every.moveToFolder (keeps_origin_moveToFolder _ _) id))
    (fun id s' h => h.later (deleteDraft_rest id s').1.ge (h.every.deleteDraft id))

/-- **One call** adds messages of the thread it resolves. -/
theorem next_grown (w : World) : Grown c.mailbox.uuid
      (c.mailbox.resolveThreadID c.request.threadID c.request.replyToID w) w.store
      (c.next w).store := by
  rw [MessageCall.next, send]
  rcases c.mailbox.sendMessage_cases c.getMetadata c.request with
    ⟨err, draft, heq⟩ | ⟨draft, hooked, targets, expiresAt, availableAt, _, _, _, heq⟩
  · rw [heq]
    exact .refl
  · rw [heq]
    have hkeeps : c.mailbox.service.backend.Keeps (fun w' => Grown c.mailbox.uuid
        (c.mailbox.resolveThreadID c.request.threadID c.request.replyToID w) w.store w'.store)
        (fun data => data.threadID
          = c.mailbox.resolveThreadID c.request.threadID c.request.replyToID w) := by
      rw [c.mailbox.backend_eq]
      exact memoryBackend_grows
    exact transmit_keeps hkeeps hooked _ targets rfl (fun _ _ => rfl) .refl

end Grown

/-! ## The log -/

/-- The thread that a call resolves, in terms of what it replies to. -/
lemma resolveThreadID_eq (w : World) :
    c.mailbox.resolveThreadID "" c.request.replyToID w = match c.ownTarget w with
        | some orig => if orig.threadID ≠ "" then orig.threadID else c.request.replyToID
        | none => c.mailbox.service.newThreadID := by
  rw [resolveThreadID, c.mailbox.backend_eq, ownTarget]
  by_cases hreply : c.request.replyToID = ""
  · simp [hreply, Store.get]
  · simp only [ne_eq, not_true_eq_false, if_false, hreply, not_false_eq_true, if_true,
      memoryBackend]
    cases w.store.get c.request.replyToID with
    | error => rfl
    | ok orig =>
      by_cases hown : orig.ownerID = c.mailbox.userID
      · simp only [hown, if_true]
      · simp only [hown, if_false]

variable {orig : Message} {c : MessageCall}

lemma mem_of_ownTarget {w : World} (h : c.ownTarget w = some orig) :
    orig ∈ w.store.messages.all ∧ orig.id = c.request.replyToID
      ∧ orig.ownerID = c.mailbox.userID := by
  rw [ownTarget] at h
  rcases Store.get_cases c.request.replyToID w.store with ⟨e, hg, _⟩ | ⟨msg, hg, _, hld, _⟩
  · rw [hg] at h
    cases h
  · rw [hg] at h
    simp only at h
    split_ifs at h with hown
    cases h
    exact ⟨(Table.load_eq_some_iff.mp hld).1, Table.key_of_load hld, hown⟩

/-- The log of a run keeps the threads of its messages. -/
structure Threaded (uuid : ℕ → String) (log : List (Post String String)) (w : World) : Prop where
  wellFormed : WellFormed log
  items : ∀ p ∈ log, ∀ id ∈ p.items, ∃ n < w.store.drawn, id = uuid n
  messages : w.store.Every fun msg => msg.isDraft = false ∧ msg.threadID ≠ ""
    ∧ Bears log msg.id msg.threadID

/-- A call without a thread ID of its own, by a service that takes IDs from `uuid`. -/
structure MessageCall.Unthreaded (uuid : ℕ → String) (c : MessageCall) : Prop where
  ids : c.mailbox.uuid = uuid
  threadID : c.request.threadID = ""
  newThreadID : c.mailbox.service.newThreadID ≠ ""

section Run

variable (huuid : IDSource uuid) {log : List (Post String String)} {w : World}

lemma Threaded.unused (h : Threaded uuid log w) (huuid : IDSource uuid)
    (hn : w.store.drawn ≤ n) : w.store.messages.load (uuid n) = none := by
  refine Table.load_eq_none_iff.mpr fun msg hmsg heq => ?_
  obtain ⟨p, hp, hid⟩ := mem_of_bears (h.messages msg hmsg).2.2
  obtain ⟨k, hk, hkid⟩ := h.items p hp msg.id hid
  have hnk := huuid.injective (heq.symm.trans hkid)
  omega

lemma mem_newIDs {id : String} : id ∈ c.newIDs w ↔ ∃ msg ∈ (c.next w).store.messages.all,
      w.store.messages.load msg.id = none ∧ msg.id = id := by
  simp only [newIDs, List.mem_map, List.mem_filter, Option.isNone_iff_eq_none, and_assoc]

/-- New messages have new IDs, and the thread that the call has resolved. -/
lemma MessageCall.Unthreaded.new (hc : c.Unthreaded uuid)
    (hmsg : msg ∈ (c.next w).store.messages.all) (hw : w.store.messages.load msg.id = none) :
    (∃ n, w.store.drawn ≤ n ∧ n < (c.next w).store.drawn ∧ msg.id = uuid n)
      ∧ msg.threadID = c.mailbox.resolveThreadID "" c.request.replyToID w
      ∧ msg.isDraft = false := by
  have hgrown := next_grown c w
  rw [hc.ids, hc.threadID] at hgrown
  rcases hgrown.every msg hmsg with ⟨old, hold, hkin⟩ | ⟨n, hn, hn', hid, hthr, hdr⟩
  · rw [hkin.id, Table.load_of_mem hold] at hw
    cases hw
  · exact ⟨⟨n, hn, hn', hid⟩, hthr, hdr⟩

lemma Threaded.extends (h : Threaded uuid log w) (huuid : IDSource uuid) (hc : c.Unthreaded uuid)
    (htoken : ∀ p ∈ log, p.token ≠ c.mailbox.service.newThreadID) : Extends (post (w, c)) log where
  items id hid p hp hmem := by
    obtain ⟨msg, hmsg, hw, rfl⟩ := mem_newIDs.mp hid
    obtain ⟨⟨n, hn, _, hmsgID⟩, _⟩ := hc.new hmsg hw
    obtain ⟨k, hk, hkid⟩ := h.items p hp msg.id hmem
    rw [huuid.injective (hmsgID.symm.trans hkid)] at hn
    exact absurd hk (Nat.not_lt.mpr hn)
  parent id hid := by
    obtain ⟨orig, hor, rfl⟩ := map_eq_some_iff.mp hid
    exact mem_of_bears (h.messages orig (mem_of_ownTarget hor).1).2.2
  token := htoken

/-- The thread that a call resolves: that of the message it replies to, if it is the sender's. -/
lemma Threaded.resolve_own (h : Threaded uuid log w) (hor : c.ownTarget w = some orig) :
    c.mailbox.resolveThreadID "" c.request.replyToID w = orig.threadID := by
  rw [resolveThreadID_eq, hor]
  exact if_pos (h.messages orig (mem_of_ownTarget hor).1).2.1

/-- **The step.** -/
theorem Threaded.next (h : Threaded uuid log w) (huuid : IDSource uuid) (hc : c.Unthreaded uuid)
    (htoken : ∀ p ∈ log, p.token ≠ c.mailbox.service.newThreadID) :
    Threaded uuid (post (w, c) :: log) (c.next w) := by
  have hgrown := next_grown c w
  rw [hc.ids, hc.threadID] at hgrown
  refine ⟨⟨h.extends huuid hc htoken, h.wellFormed⟩, fun p hp id hid => ?_, fun msg hmsg => ?_⟩
  · rcases mem_cons.mp hp with rfl | hp
    · obtain ⟨msg, hmsg, hw, rfl⟩ := mem_newIDs.mp hid
      obtain ⟨⟨n, _, hn, hmsgID⟩, _⟩ := hc.new hmsg hw
      exact ⟨n, hn, hmsgID⟩
    · obtain ⟨n, hn, hid⟩ := h.items p hp id hid
      exact ⟨n, hn.trans_le hgrown.drawn, hid⟩
  · rcases hgrown.every msg hmsg with ⟨old, hold, hkin⟩ | ⟨n, hn, _, hid, _⟩
    · obtain ⟨hdr, hthr, hbears⟩ := h.messages old hold
      rw [← hkin.isDraft] at hdr
      rw [← hkin.threadID] at hthr hbears
      rw [← hkin.id] at hbears
      exact ⟨hdr, hthr, .inr hbears⟩
    · have hw : w.store.messages.load msg.id = none := by
        rw [hid]
        exact h.unused huuid hn
      obtain ⟨_, hthr, hdr⟩ := hc.new hmsg hw
      have hitem : msg.id ∈ c.newIDs w := mem_newIDs.mpr ⟨msg, hmsg, hw, rfl⟩
      cases hor : c.ownTarget w with
      | none =>
        rw [resolveThreadID_eq, hor] at hthr
        refine ⟨hdr, hthr ▸ hc.newThreadID, .inl ⟨hitem, ?_⟩⟩
        simp only [post, hor, map_none, elim_none]
        exact hthr
      | some orig =>
        obtain ⟨_, hne, hbears⟩ := h.messages orig (mem_of_ownTarget hor).1
        rw [h.resolve_own hor] at hthr
        refine ⟨hdr, hthr ▸ hne, .inl ⟨hitem, ?_⟩⟩
        simp only [post, hor, map_some, elim_some]
        rwa [hthr]

/-- The log of a run, newest first. -/
def conversationLog (calls : List MessageCall) (w : World) : List (Post String String) :=
  ((Machine.steps next calls w).map post).reverse

lemma threaded_run (huuid : IDSource uuid) {calls : List MessageCall}
    (hcalls : ∀ c ∈ calls, c.Unthreaded uuid)
    (hthreads : (calls.map fun c => c.mailbox.service.newThreadID).Nodup)
    (htokens : ∀ p ∈ log, ∀ c ∈ calls, p.token ≠ c.mailbox.service.newThreadID)
    (h : Threaded uuid log w) : Threaded uuid (conversationLog calls w ++ log) (calls.foldl next w)
      ∧ ∀ e ∈ Machine.steps next calls w, e.2 ∈ calls ∧ ∃ log, Threaded uuid log e.1 := by
  induction calls generalizing w log with
  | nil => exact ⟨h, by simp [Machine.steps]⟩
  | cons c calls ih =>
    rw [forall_mem_cons] at hcalls
    rw [map_cons, nodup_cons] at hthreads
    have hnx := h.next huuid hcalls.1 fun p hp => htokens p hp c mem_cons_self
    have htokens' : ∀ p ∈ post (w, c) :: log, ∀ c' ∈ calls,
        p.token ≠ c'.mailbox.service.newThreadID := by
      intro p hp c' hc'
      rcases mem_cons.mp hp with rfl | hp
      · exact fun heq => hthreads.1 (List.mem_map.mpr ⟨c', hc', heq.symm⟩)
      · exact htokens p hp c' (mem_cons_of_mem _ hc')
    obtain ⟨hfinal, hsteps⟩ := ih hcalls.2 hthreads.2 htokens' hnx
    rw [Machine.steps, forall_mem_cons]
    refine ⟨?_, ⟨mem_cons_self, log, h⟩, fun e he => ?_⟩
    · rw [conversationLog, Machine.steps, map_cons, reverse_cons, append_assoc]
      exact hfinal
    · obtain ⟨hmem, hthreaded⟩ := hsteps e he
      exact ⟨mem_cons_of_mem _ hmem, hthreaded⟩

end Run

/-- **Conversations keep one thread ID.**  In a run of `SendMessage` calls without thread IDs from
an empty store, a reply to a message of the sender's own has the thread ID of that message; so two
messages share one exactly if a chain of such replies, through the copies of each call, links them.
A reply to what the sender does not own does the same, whatever message has that ID, or none. -/
theorem conversations_keep_thread {uuid : ℕ → String} (huuid : IDSource uuid)
    (calls : List MessageCall) (hcalls : ∀ c ∈ calls, c.Unthreaded uuid)
    (hthreads : (calls.map fun c => c.mailbox.service.newThreadID).Nodup) (w : World)
    (hw : w.store = Store.new) :
    (∀ e ∈ Machine.steps MessageCall.next calls w, ∀ orig, e.2.ownTarget e.1 = some orig →
      ∀ msg ∈ (e.2.next e.1).store.messages.all, e.1.store.messages.load msg.id = none →
        msg.threadID = orig.threadID)
    ∧ (∀ a ∈ (calls.foldl MessageCall.next w).store.messages.all,
      ∀ b ∈ (calls.foldl MessageCall.next w).store.messages.all,
        Linked (conversationLog calls w) a.id b.id ↔ a.threadID = b.threadID)
    ∧ ∀ (c : MessageCall) (w₁ w₂ : World) (orig : Message), c.Unthreaded uuid →
      (∀ h ∈ c.mailbox.service.plugins, ∀ userID draft,
        (h.beforeSend userID draft).2.id = draft.id) →
      Fresh uuid w₁.store → AgreeBeside c.request.replyToID w₁ w₂ →
      w₁.store.messages.load c.request.replyToID = some orig → orig.ownerID ≠ c.mailbox.userID →
      (∀ msg, w₂.store.messages.load c.request.replyToID = some msg →
        msg.ownerID ≠ c.mailbox.userID) →
      (∀ r, c.mailbox.Addresses c.getMetadata c.request r → ∀ t₁ t₂,
        AgreeBeside c.request.replyToID t₁ t₂ →
        t₁.store.messages.load c.request.replyToID = some orig →
        t₂.store.messages.load c.request.replyToID = w₂.store.messages.load c.request.replyToID →
        c.mailbox.checkQuota r t₁ = c.mailbox.checkQuota r t₂) →
      (c.send w₁).message = (c.send w₂).message ∧ (c.send w₁).err = (c.send w₂).err
        ∧ AgreeBeside c.request.replyToID (c.next w₁) (c.next w₂) := by
  have hemp : Threaded uuid [] w := by
    refine ⟨trivial, by simp, fun msg hmsg => ?_⟩
    rw [hw] at hmsg
    cases hmsg
  obtain ⟨hfinal, hsteps⟩ := threaded_run huuid hcalls hthreads (by simp) hemp
  rw [List.append_nil] at hfinal
  refine ⟨fun e he orig hor msg hmsg hnew => ?_, fun a ha b hb => ?_, ?_⟩
  · obtain ⟨hmem, log, hlog⟩ := hsteps e he
    rw [((hcalls e.2 hmem).new hmsg hnew).2.1, hlog.resolve_own hor]
  · exact linked_iff hfinal.wellFormed (hfinal.messages a ha).2.2 (hfinal.messages b hb).2.2
  · intro c w₁ w₂ orig hc hh hw₁ hagr hor hforeign hforeign' hquo
    have hapart := hagr.worldsApart hw₁ hor
    have halike := sendMessage_foreign (hc.ids ▸ c.mailbox.backend_eq) hh c.getMetadata
      hc.threadID hapart (fun msg hmsg => Option.some.inj hmsg ▸ hforeign) hforeign'
      fun r hr t t' ht => hquo r hr t t' ht.agreeBeside ht.store.left ht.store.right
    exact ⟨halike.message, halike.err, halike.state.agreeBeside⟩

/-- A note from one user to another, in reply to a message, or to none. -/
def noteCall (senderID recipientID replyToID newThreadID : String) : MessageCall where
  mailbox :=
    { plainMemoryMailbox senderID with
      service := { (plainMemoryMailbox senderID).service with newThreadID := newThreadID }
      backend_eq := rfl }
  getMetadata := fun _ => .error (.sentinel .notFound)
  request := ⟨[recipientID], "hi", "", ∅, ∅, [], [], "", replyToID, "", [], 0, none⟩

/-- A note, the answer to the recipient's copy of it, and a note of somebody else. -/
def threeNotes : List MessageCall :=
  [noteCall "ann" "bob" "" "t", noteCall "bob" "ann" (unaryID 1) "u", noteCall "carol" "bob" "" "v"]

/-- A store with one message, of Bob's. -/
def bobsNote : Store :=
  { Store.new with
    messages := Table.empty.put
      { Store.newDraft 0 "bob" with id := unaryID 0, isDraft := false, threadID := "t" }
    drawn := 1 }

/-- The answer stands under the thread of the note, the other note under its own; and when Carol
names the message of Bob's, the answer is the one that Carol would get without it. -/
theorem three_notes_keep_thread :
    (threeNotes.foldl MessageCall.next World.new).store.messages.all.map
        Message.threadID = ["v", "v", "t", "t", "t", "t"]
      ∧ (∀ e ∈ Machine.steps MessageCall.next threeNotes World.new, ∀ orig,
        e.2.ownTarget e.1 = some orig → ∀ msg ∈ (e.2.next e.1).store.messages.all,
          e.1.store.messages.load msg.id = none → msg.threadID = orig.threadID)
      ∧ (∀ a ∈ (threeNotes.foldl MessageCall.next World.new).store.messages.all,
        ∀ b ∈ (threeNotes.foldl MessageCall.next World.new).store.messages.all,
          Linked (conversationLog threeNotes World.new) a.id b.id
            ↔ a.threadID = b.threadID)
      ∧ ((noteCall "carol" "dan" (unaryID 0) "u").send ⟨bobsNote, ∅, 0, []⟩).message
        = ((noteCall "carol" "dan" (unaryID 0) "u").send
          ⟨{ Store.new with drawn := 1 }, ∅, 0, []⟩).message := by
  have hcalls : ∀ c ∈ threeNotes, c.Unthreaded unaryID := by
    simp only [threeNotes, forall_mem_cons]
    exact ⟨⟨rfl, rfl, by decide⟩, ⟨rfl, rfl, by decide⟩, ⟨rfl, rfl, by decide⟩, forall_mem_nil _⟩
  obtain ⟨hreplies, hlinked, hforeign⟩ := conversations_keep_thread idSource_unaryID threeNotes
    hcalls (by decide) World.new rfl
  refine ⟨by decide, hreplies, hlinked, ?_⟩
  have hnone : ∀ id ≠ unaryID 0, bobsNote.messages.load id = none := by
    intro id hid
    rw [bobsNote, Table.load_put]
    exact Function.update_of_ne hid _ _
  have hfresh : Fresh unaryID bobsNote := by
    refine ⟨⟨fun n hn => hnone _ fun heq => ?_, fun id hid => ?_⟩, fun _ _ _ => rfl⟩
    · cases unaryID_injective heq
      cases hn
    · rintro rfl
      exact hid (hnone "" (unaryID_ne_empty 0).symm)
  have hagree : AgreeBeside (unaryID 0) ⟨bobsNote, ∅, 0, []⟩
      ⟨{ Store.new with drawn := 1 }, ∅, 0, []⟩ := ⟨hnone, rfl⟩
  exact (hforeign (noteCall "carol" "dan" (unaryID 0) "u") _ _ _ ⟨rfl, rfl, by decide⟩
    (forall_mem_nil _) hfresh hagree rfl (by decide) (fun _ h => by cases h)
    fun _ _ _ _ _ _ _ => rfl).1

end Mailbox.Service
