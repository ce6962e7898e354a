import Mailbox.Service.Conservation
import Mailbox.Service.Edits
import Mailbox.Service.Validity

/-!
# The content of a message does not change

Everything that happens to a store, one call after the other: what users do (`Operation`), what
rules do, and what is done for maintenance.

Most of it are edits.  Sends and saved drafts put new entries into the store: new messages, each
under an ID drawn for it, and drafts, under any ID whatsoever — even that of a message, which is
gone then.  `Stems` sums up where the message under an ID may have come from, and `Descends` is what
every call does to the store.  It composes, so it is also what a run does.

No ID is drawn twice, and hence a message that is there in two states of a run has not been
replaced in between: **`content_immutable`**.
-/

namespace Mailbox.Service

open Memory List Table Store

/-! ## Where messages come from -/

/-- Where a message comes from, as seen from an earlier store: it is a draft, or it was there with
the same content, or its ID has been drawn since. -/
def Stems (uuid : ℕ → String) (s : Store) (drawn : ℕ) (msg : Message) : Prop :=
  msg.isDraft = true ∨ (∃ orig, s.messages.load msg.id = some orig ∧ contentOf msg = contentOf orig)
    ∨ ∃ n, s.drawn ≤ n ∧ n < drawn ∧ msg.id = uuid n

/-- All messages of the second store stem from the first one. -/
structure Descends (uuid : ℕ → String) (s s' : Store) : Prop where
  drawn : s.drawn ≤ s'.drawn
  every : s'.Every (Stems uuid s s'.drawn)

variable {msg : Message} {s s' : Store} {now : Time}

section Descends

variable {uuid : ℕ → String} {s'' : Store}

lemma Descends.trans (h : Descends uuid s s') (h' : Descends uuid s' s'') :
    Descends uuid s s'' := by
  refine ⟨h.drawn.trans h'.drawn, fun msg hmsg => ?_⟩
  rcases h'.every msg hmsg with hdr | ⟨orig, hor, hct⟩ | ⟨n, hn, hlt, hid⟩
  · exact .inl hdr
  · have hid : msg.id = orig.id := id_eq_of_content hct
    rcases h.every.of_load hor with hdr | ⟨first, hfst, hct'⟩ | ⟨n, hn, hlt, hid'⟩
    · have hsm : msg.isDraft = orig.isDraft :=
        eq_of_content Message.isDraft (fun _ => rfl) hct
      exact .inl (hsm.trans hdr)
    · exact .inr (.inl ⟨first, by rw [hid, hfst], hct.trans hct'⟩)
    · exact .inr (.inr ⟨n, hn, hlt.trans_le h'.drawn, hid.trans hid'⟩)
  · exact .inr (.inr ⟨n, h.drawn.trans hn, hlt, hid⟩)

lemma Descends.of_edits {ids : Set String} (h : Edits now ids s s') : Descends uuid s s' := by
  refine ⟨h.drawn.ge, fun msg hmsg => ?_⟩
  exact .inr (.inl (h.content (load_of_mem hmsg)))

lemma Descends.refl : Descends uuid s s := .of_edits (Edits.refl : Edits 0 ∅ s s)

/-- Something new is stored, and it is a draft or its ID has been drawn for it. -/
lemma Descends.put (hdrw : s.drawn ≤ s'.drawn) (hms : s'.messages = s.messages.put msg)
    (hmsg : msg.isDraft = true ∨ ∃ n, s.drawn ≤ n ∧ n < s'.drawn ∧ msg.id = uuid n) :
    Descends uuid s s' := by
  refine ⟨hdrw, fun msg' hmsg' => ?_⟩
  rw [hms] at hmsg'
  rcases mem_put.mp hmsg' with rfl | ⟨hmem, _⟩
  · exact hmsg.imp_right .inr
  · exact .inr (.inl ⟨msg', load_of_mem hmem, rfl⟩)

lemma descends_createMessage (data : MessageData) :
    Descends uuid s (createMessage uuid now data s).2 :=
  .put (Nat.le_succ _) rfl (.inr ⟨s.drawn, le_rfl, Nat.lt_succ_self _, rfl⟩)

lemma descends_createMessageIdempotent (data : MessageData) (key : String) :
    Descends uuid s (createMessageIdempotent uuid now data key s).2 := by
  obtain ⟨hdrw, hcases⟩ := createMessageIdempotent_cases uuid now data key s
  have hsm : (createMessageIdempotent uuid now data key s).2.messages = s.messages →
      Descends uuid s (createMessageIdempotent uuid now data key s).2 := by
    intro hms
    refine ⟨hdrw, fun msg hmsg => .inr (.inl ⟨msg, ?_, rfl⟩)⟩
    rw [← hms]
    exact load_of_mem hmsg
  rcases hcases with ⟨_, hms⟩ | ⟨_, hms⟩ | ⟨n, hn, hn', _, hms⟩
  · exact hsm hms
  · exact hsm hms
  · exact .put hdrw hms (.inr ⟨n, hn, hn', rfl⟩)

lemma descends_saveDraft (draft : Message) : Descends uuid s (saveDraft uuid now draft s).2 := by
  refine .put ?_ rfl (.inl rfl)
  show s.drawn ≤ if draft.id = "" then s.drawn + 1 else s.drawn
  split_ifs
  · exact Nat.le_succ _
  · exact le_rfl

lemma memoryBackend_descends {faults : Faults} (managed : Bool) :
    (memoryBackend uuid now faults managed).Keeps (fun w => Descends uuid s w.store)
      fun _ => True := by
  have hdel : ∀ (id : String) (s' : Store), Edits now {id} s' (hardDelete id s').2 :=
    fun id _ => edits_hardDelete id
  have hdr : ∀ (id : String) (s' : Store), Edits now {id} s' (deleteDraft id s').2 :=
    fun id _ => edits_deleteDraft id
  exact memoryBackend_keepsStore managed (fun data _ _ h => h.trans (descends_createMessage data))
    (fun data key _ _ h => h.trans (descends_createMessageIdempotent data key))
    (fun id s' h => h.trans (.of_edits (hdel id s')))
    (fun id _ h => h.trans (.of_edits (edits_moveToFolder id folderSent {})))
    (fun id s' h => h.trans (.of_edits (hdr id s')))

end Descends

/-! ## Rules -/

section Rules

variable {e : Rules.Engine}

lemma edits_applyAction (messageID : String) (a : Rules.Action) :
    Edits now {messageID} s (e.applyAction now messageID a s).2 := by
  unfold Rules.Engine.applyAction
  cases a.type with
  | setFolder => exact edits_moveToFolder messageID a.value {}
  | addTag => exact edits_mutate (Update.editsAt_addTag a.value) messageID
  | removeTag => exact edits_mutate (Update.editsAt_removeTag a.value) messageID
  | markRead => exact edits_mutate (Update.editsAt_markRead true) messageID
  | delete => exact edits_mutate Update.editsAt_delete messageID
  | hardDelete => exact edits_hardDelete messageID
  | archive => exact edits_moveToFolder messageID folderArchived {}
  | spam => exact edits_moveToFolder messageID folderSpam {}
  | webhook => exact .refl
  | forward =>
    simp only
    split <;> exact .refl
  | other =>
    split_ifs <;> exact .refl

lemma edits_applied (messageID : String) (actions : List Rules.Action) :
    Edits now {messageID} s (e.applied now messageID actions s) := by
  induction actions generalizing s with
  | nil => exact .refl
  | cons a actions ih => exact (edits_applyAction messageID a).trans ih

end Rules

/-! ## Maintenance -/

variable {fuel : ℕ} {ranges : Ranges} {managed : Bool}

section Maintenance

variable {w w' : World}

lemma Sweep.edits_cleanup {sweep : Sweep} {r : ℕ × World}
    (h : sweep.cleanup now fuel managed ranges w = some r) :
    Edits now Set.univ w.store r.2.store := by
  cases managed with
  | true =>
    obtain ⟨_, _, hr⟩ := Sweep.withAttachments_eq_some h
    rw [hr, store_releaseRefs]
    exact (edits_deleteMessagesByIDs _).mono (Set.subset_univ _)
  | false =>
    cases h
    exact (edits_deleteMessagesByIDs _).mono (Set.subset_univ _)

/-- Enforcing a quota removes messages, whatever fails. -/
lemma edits_enforceUserQuota {env : Surroundings Unit}
    (h : enforceUserQuota env fuel w = some w') : Edits now Set.univ w.store w'.store := by
  let shrinks (t : Messages) : Prop := ∀ id, t.load id = w.store.messages.load id ∨ t.load id = none
  have hstep : ∀ c i, shrinks c.shared.messages →
      shrinks (Pool.stepAt (enforcerStep env) c i).shared.messages := by
    intro c i hc
    have hmv := enforceMove env i (c.loc i).ticks c.shared (c.loc i).phase
    show shrinks (enforcerPhase env i (c.loc i).ticks c.shared (c.loc i).phase).1.messages
    generalize enforcerPhase env i (c.loc i).ticks c.shared (c.loc i).phase = r at hmv ⊢
    obtain ⟨depot, phase⟩ := r
    cases hmv with
    | delete p p' msg =>
      intro id
      by_cases heq : id = msg.id
      · exact .inr (heq ▸ load_delete)
      · exact (load_delete_of_ne heq).symm ▸ hc id
    | _ => exact hc
  have hrun := Pool.run_induction (replicate fuel ()) hstep
    (fun id => Or.inl rfl : shrinks (allEnforcers w.store.messages).shared.messages)
  rw [enforceUserQuota] at h
  split_ifs at h
  rw [Option.some.injEq] at h
  rw [← h, store_releaseRefs]
  exact edits_of_removed (fun id => (hrun id).imp_right (⟨trivial, ·⟩)) rfl

end Maintenance

/-! ## Runs -/

/-- What happens to the store of a service. -/
inductive Deed where
  | operation (op : Operation)
  /-- The rules engine is told that a message has been received. -/
  | onMessageReceived (e : Rules.Engine) (now : Time) (messageID recipientID : String)
  /-- The rules engine is told that a message has been sent. -/
  | afterSend (e : Rules.Engine) (now : Time) (userID : String) (msg : Message)
  | cleanupTrash (now : Time) (fuel : ℕ) (managed : Bool) (trashRetention : ℤ) (ranges : Ranges)
  | cleanupExpiredMessages (now : Time) (fuel : ℕ) (managed : Bool) (messageRetention : ℤ)
      (ranges ranges' : Ranges)
  | enforceUserQuota (env : Surroundings Unit) (fuel : ℕ)

namespace Deed

/-- The world after maintenance; `none` when it has not come to its end. -/
def maintained (w : World) : Deed → Option World
  | .cleanupTrash now fuel managed trashRetention ranges =>
    (Service.cleanupTrash now fuel managed trashRetention ranges w).map Prod.snd
  | .cleanupExpiredMessages now fuel managed messageRetention ranges ranges' =>
    (Service.cleanupExpiredMessages now fuel managed messageRetention ranges ranges' w).map Prod.snd
  | .enforceUserQuota env fuel => Service.enforceUserQuota env fuel w
  | _ => some w

/-- The state after it. -/
def next (i : Instance) : Deed → Instance
  | .operation op => op.apply i
  | .onMessageReceived e now messageID recipientID =>
    i.setStore (e.onMessageReceived now messageID recipientID i.store).2
  | .afterSend e now userID msg => i.setStore (e.afterSend now userID msg i.store).2
  | deed => { i with world := (deed.maintained i.world).getD i.world }

/-- Where an operation takes new IDs from. -/
def DrawsFrom (uuid : ℕ → String) : Deed → Prop
  | .operation (.send m _ _ _ _ _ _ _) => m.uuid = uuid
  | .operation (.saveDraft m _) => m.uuid = uuid
  | _ => True

end Deed

variable {deeds : List Deed} {deed : Deed}

section Runs

variable {uuid : ℕ → String} {i : Instance}

lemma descends_send {m : MemoryMailbox} (hm : m.uuid = uuid) (draft : Message)
    (threadID replyToID externalID : String) (ttl : ℤ) (scheduleAt : Option Time)
    (deliverTo : List String) :
    Descends uuid i.store (m.sendDraft draft threadID replyToID externalID ttl scheduleAt deliverTo
      i.world).state.store := by
  subst hm
  have hkeeps : m.service.backend.Keeps (fun w => Descends m.uuid i.store w.store)
      fun _ => True := by
    rw [m.backend_eq]
    exact memoryBackend_descends m.managed
  exact UserMailbox.sendDraft_keeps hkeeps (fun _ _ => trivial) (fun _ _ _ _ => trivial) draft
    threadID replyToID externalID ttl scheduleAt deliverTo .refl

lemma descends_operation {op : Operation} (hop : (Deed.operation op).DrawsFrom uuid) :
    Descends uuid i.store (op.apply i).store := by
  cases op with
  | send m draft threadID replyToID externalID ttl scheduleAt deliverTo =>
    exact descends_send hop draft threadID replyToID externalID ttl scheduleAt deliverTo
  | mutate m order fuel c => exact .of_edits (edits_mutation m i order fuel c)
  | bulk m c ctxErr messageIDs =>
    exact MemoryMailbox.bulkOp_induction (P := fun i' => Descends uuid i.store i'.store) .refl c
      (fun i' id h => h.trans (.of_edits (edits_mutation m i' inOrder 0 _))) ctxErr messageIDs
  | saveDraft m d =>
    obtain rfl : m.uuid = uuid := hop
    show Descends m.uuid i.store (d.save m i.world).2.2.store
    unfold Draft.save MemoryMailbox.saveDraft
    cases m.checkDraft (d.mirrored m.service.now) with
    | error => exact .refl
    | ok => exact descends_saveDraft _
  | deleteDraft d =>
    show Descends uuid i.store (d.delete i.world).2.store
    unfold Draft.delete
    split_ifs
    · exact .refl
    · have hedits : Edits 0 {d.message.id} i.store (deleteDraft d.message.id i.store).2 :=
        edits_deleteDraft d.message.id
      exact .of_edits hedits
  | action e now messageID a => exact .of_edits (edits_applyAction messageID a)

lemma descends_maintained
    (h : ∀ w', deed.maintained i.world = some w' → Descends uuid i.store w'.store) :
    Descends uuid i.store ((deed.maintained i.world).getD i.world).store := by
  cases hmaintained : deed.maintained i.world with
  | none => exact .refl
  | some w' => exact h w' hmaintained

/-- **The step.** -/
theorem Deed.descends (hdeed : deed.DrawsFrom uuid) :
    Descends uuid i.store (deed.next i).store := by
  cases deed with
  | operation => exact descends_operation hdeed
  | onMessageReceived e now messageID recipientID =>
    obtain ⟨done, hst, _⟩ := e.onMessageReceived_actions now messageID recipientID i.store
    show Descends uuid i.store (e.onMessageReceived now messageID recipientID i.store).2
    rw [hst]
    exact .of_edits (edits_applied messageID done)
  | afterSend e now userID msg =>
    obtain ⟨done, hst, _⟩ := e.afterSend_actions now userID msg i.store
    show Descends uuid i.store (e.afterSend now userID msg i.store).2
    rw [hst]
    exact .of_edits (edits_applied msg.id done)
  | cleanupTrash =>
    refine descends_maintained fun w' hw' => ?_
    obtain ⟨r, hcln, rfl⟩ := Option.map_eq_some_iff.mp hw'
    exact .of_edits (Sweep.edits_cleanup hcln)
  | cleanupExpiredMessages =>
    refine descends_maintained fun w' hw' => ?_
    obtain ⟨r, hcln, rfl⟩ := Option.map_eq_some_iff.mp hw'
    refine cleanupExpiredMessages_induction (P := fun w => Descends uuid i.store w.store) hcln ?_
      .refl
    exact fun _ _ _ _ _ hsweep h => h.trans (.of_edits (Sweep.edits_cleanup hsweep))
  | enforceUserQuota =>
    refine descends_maintained fun w' hw' => ?_
    exact .of_edits (edits_enforceUserQuota hw' : Edits 0 Set.univ _ _)

lemma descends_run (hdeeds : ∀ deed ∈ deeds, deed.DrawsFrom uuid) :
    Descends uuid i.store (deeds.foldl Deed.next i).store := by
  induction deeds generalizing i with
  | nil => exact .refl
  | cons deed deeds ih =>
    rw [forall_mem_cons] at hdeeds
    exact (Deed.descends hdeeds.1).trans (ih hdeeds.2)

/-- Only drafts may have an ID that is still to be drawn. -/
def Undrawn (uuid : ℕ → String) (s : Store) : Prop :=
  ∀ n ≥ s.drawn, ∀ msg, s.messages.load (uuid n) = some msg → msg.isDraft = true

lemma Descends.undrawn (hinj : Function.Injective uuid) (h : Descends uuid s s')
    (hs : Undrawn uuid s) : Undrawn uuid s' := by
  intro n hn msg hld
  have hid : msg.id = uuid n := key_of_load hld
  rcases h.every.of_load hld with hdr | ⟨orig, hor, hct⟩ | ⟨k, _, hlt, hk⟩
  · exact hdr
  · rw [hid] at hor
    have hsm : msg.isDraft = orig.isDraft := eq_of_content Message.isDraft (fun _ => rfl) hct
    exact hsm.trans (hs n (h.drawn.trans hn) orig hor)
  · have hkn : k = n := hinj (hk.symm.trans hid)
    omega

/-- A message that is there before and after has not been replaced. -/
lemma Descends.content {id : String} {msg' : Message} (h : Descends uuid s s')
    (hs : Undrawn uuid s) (hld : s.messages.load id = some msg) (hdr : msg.isDraft = false)
    (hld' : s'.messages.load id = some msg') (hdr' : msg'.isDraft = false) :
    contentOf msg' = contentOf msg := by
  have hid : msg'.id = id := key_of_load hld'
  rcases h.every.of_load hld' with hdr'' | ⟨orig, hor, hct⟩ | ⟨n, hn, _, hn'⟩
  · rw [hdr'] at hdr''
    cases hdr''
  · rw [hid, hld] at hor
    rwa [Option.some.inj hor]
  · rw [← hid, hn'] at hld
    rw [hs n hn msg hld] at hdr
    cases hdr

lemma descends_between (hdeeds : ∀ deed ∈ deeds, deed.DrawsFrom uuid) {j k : ℕ} (hjk : j ≤ k) :
    Descends uuid ((deeds.take j).foldl Deed.next i).store
      ((deeds.take k).foldl Deed.next i).store := by
  have hspl : deeds.take k = deeds.take j ++ (deeds.take k).drop j := by
    conv_lhs => rw [← take_append_drop j (deeds.take k), take_take, min_eq_left hjk]
  rw [hspl, foldl_append]
  refine descends_run fun deed hdeed => hdeeds deed ?_
  exact mem_of_mem_take (mem_of_mem_drop hdeed)

/-- **The content of a message does not change.**  In every run that draws its IDs from one source
without repetitions: a message that is there in two states of the run has the same content in
both. -/
theorem content_immutable (hinj : Function.Injective uuid) (deeds : List Deed) (i : Instance)
    (hdeeds : ∀ deed ∈ deeds, deed.DrawsFrom uuid) (hstart : Undrawn uuid i.store) (j k : ℕ)
    (id : String) (msg msg' : Message)
    (hload : ((deeds.take j).foldl Deed.next i).store.messages.load id = some msg)
    (hdraft : msg.isDraft = false)
    (hload' : ((deeds.take k).foldl Deed.next i).store.messages.load id = some msg')
    (hdraft' : msg'.isDraft = false) : contentOf msg = contentOf msg' := by
  have hundrawn : ∀ n, Undrawn uuid ((deeds.take n).foldl Deed.next i).store := fun n =>
    (descends_run fun deed hdeed => hdeeds deed (List.mem_of_mem_take hdeed)).undrawn hinj hstart
  rcases Nat.le_total j k with hjk | hkj
  · exact ((descends_between hdeeds hjk).content (hundrawn j) hload hdraft hload' hdraft').symm
  · exact (descends_between hdeeds hkj).content (hundrawn k) hload' hdraft' hload hdraft

/-- A message is sent, and the recipient deletes their copy. -/
def sentAndTrashed : List Deed :=
  [.operation (.send (plainMemoryMailbox "u") plainDraft "" "" "" 0 none []),
    .operation (.mutate (plainMemoryMailbox "v") inOrder 0 (.delete (unaryID 1)))]

/-- The copy is in another folder, and has the content that it had. -/
theorem content_immutable_trashed : ∃ msg msg' : Message,
      ((sentAndTrashed.take 1).foldl Deed.next (freshInstance .empty)).store.messages.load
          (unaryID 1) = some msg
        ∧ ((sentAndTrashed.take 2).foldl Deed.next (freshInstance .empty)).store.messages.load
          (unaryID 1) = some msg'
        ∧ msg.folderID = folderInbox ∧ msg'.folderID = folderTrash
        ∧ contentOf msg = contentOf msg' := by
  have hst : Undrawn unaryID (freshInstance .empty).store := fun n _ msg hld => by cases hld
  have hdeeds : ∀ deed ∈ sentAndTrashed, deed.DrawsFrom unaryID := by
    simp only [sentAndTrashed, List.forall_mem_cons]
    exact ⟨rfl, trivial, by simp⟩
  refine ⟨_, _, rfl, rfl, by decide +kernel, by decide +kernel, ?_⟩
  exact content_immutable unaryID_injective sentAndTrashed (freshInstance .empty) hdeeds hst 1 2
    (unaryID 1) _ _ rfl (by decide +kernel) rfl (by decide +kernel)

/-- A run that draws its IDs from one source. -/
abbrev History (uuid : ℕ → String) := {deeds : List Deed // ∀ deed ∈ deeds, deed.DrawsFrom uuid}

/-- The stored messages, drafts apart. -/
def messageIDs (i : Instance) : Set String :=
  {id | ∃ msg, i.store.messages.load id = some msg ∧ msg.isDraft = false}

/-- **What is gone does not come back**: a message that is stored before and after some deeds has
been stored in between. -/
theorem gone_for_good (uuid : ℕ ↪ String) (before between after : History uuid) :
    let i := before.1.foldl Deed.next (freshInstance .empty)
    let i' := between.1.foldl Deed.next i
    messageIDs i ∩ messageIDs (after.1.foldl Deed.next i') ⊆ messageIDs i' := by
  rintro i i' id ⟨⟨msg, hld, hdr⟩, msg', hld', hdr'⟩
  have hud : Undrawn uuid i.store :=
    (descends_run before.2).undrawn uuid.injective fun _ _ _ h => by cases h
  have hid : msg'.id = id := key_of_load hld'
  rcases (descends_run after.2).every.of_load hld' with hdr'' | ⟨orig, hor, hct⟩ | ⟨n, hn, -, hn'⟩
  · simp [hdr'] at hdr''
  · have hsm : msg'.isDraft = orig.isDraft := eq_of_content Message.isDraft (fun _ => rfl) hct
    exact ⟨orig, hid ▸ hor, hsm ▸ hdr'⟩
  · rw [← hid, hn'] at hld
    -- No ID of `i` is drawn later on.
    have hdraft := hud n ((descends_run between.2).drawn.trans hn) msg hld
    simp [hdr] at hdraft

end Runs
end Mailbox.Service
