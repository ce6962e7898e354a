import Mailbox.Memory.Paging
import Mailbox.Service.StatsRuns

/-!
# Cached unread counts

Runs of all the calls that change messages, every event handled before the next call.  The handlers
infer the unread counts from the events, not from the state of the message.  The counts go wrong
wherever the two differ:

* the sender's copy of a message is stored unread, and `onMessageSent` does not count it as unread;
* `UpdateFlags` publishes `MessageRead` also for a message that has been read already, and nothing
  when it marks a message **unread**;
* the calls that take filters publish nothing at all;
* a scheduled message is counted before `MailboxStats` shows it.

`Announced` excludes exactly these.  `MarkAllRead` stays — it corrects the cache itself — and so do
moves, deletions and restores of single messages.  The invariant is `Tracked`, for the counters of
unread messages and with no message left out.

`UpdateByFilter` without a read flag pages through the mailbox and marks every selected message
**unread**; `MarkingUnread` says what is known while the loop runs.
-/

namespace Mailbox.Service

open Memory BulkOp StatsCache MemoryMailbox

/-- The cached unread counts are those of the store. -/
def UnreadAgrees (t : Time) (i : Instance) : Prop :=
  ∀ u stats, i.cache.cached u = some stats →
    stats.unreadCount = (i.store.mailboxStats t u).unreadCount
      ∧ ∀ f, (stats.folder f).unread = ((i.store.mailboxStats t u).folder f).unread

/-- What the events of the call say of unread messages is what the call does to them. -/
def Mutation.Announced (now : Time) (u : String) (s : Store) : Mutation → Prop
  | .updateFlags id flags => flags.read ≠ none → ∀ msg, Owns u id s msg → msg.isRead = false
  | .updateByFilter filters flags =>
    ∀ msg ∈ s.messages.all, selects now (scopedFilters u filters) msg = true →
      msg.isRead = flags.read.getD false
  | .moveByFilter filters folderID =>
    ∀ msg ∈ s.messages.all, selects now (scopedFilters u filters) msg = true →
      msg.isRead = true ∨ msg.folderID = folderID
  | .deleteByFilter filters =>
    ∀ msg ∈ s.messages.all, selects now (scopedFilters u filters) msg = true →
      msg.isRead = true ∨ msg.folderID = folderTrash
  | _ => True

/-- A call of a run: a send is not scheduled, succeeds, and its sender has no snapshot; the changes
of a user with a snapshot are announced. -/
structure UnreadStep (uuid : ℕ → String) (e : Instance × StatsTurn × Served) : Prop where
  reliable : e.2.1.Reliable uuid
  send : ∀ draft threadID replyToID externalID ttl scheduleAt deliverTo,
    e.2.1.call = .send draft threadID replyToID externalID ttl scheduleAt deliverTo →
      scheduleAt.filter (· ≠ 0) = none ∧ e.2.2.message ≠ none
        ∧ e.1.cache.cached e.2.1.mailbox.userID = none
  mutate : ∀ c, e.2.1.call = .mutate c → e.1.cache.cached e.2.1.mailbox.userID ≠ none →
    c.Announced e.2.1.mailbox.service.now e.2.1.mailbox.userID e.1.store

/-! ## One call -/

/-- The unread counts of the cache, over all messages. -/
abbrev TrackedUnread (t : Time) (s : Store) (cache : StatsCache) : Prop :=
  Tracked (fun k => k.isUnread = true) (fun _ _ _ => true) t s cache

variable {t : Time} {s : Store} {cache : StatsCache} {u id : String}

section Calls

variable {s' : Store} {published : List MutationEvent}

lemma covered_true (msg : Message) :
    Covered (fun k => k.isUnread = true) (fun _ _ _ => true) msg := fun _ _ _ => rfl

lemma cached_onMutation_ne_none (event : MutationEvent) :
    (cache.onMutation event).cached u ≠ none ↔ cache.cached u ≠ none := by
  cases event with
  | markAllRead => rfl
  | _ => exact (applies_updateCachedStats _ _ cache).ne_none_iff

lemma cached_foldl_ne_none (events : List MutationEvent) :
    (events.foldl onMutation cache).cached u ≠ none ↔ cache.cached u ≠ none := by
  induction events generalizing cache with
  | nil => rfl
  | cons event events ih => exact ih.trans (cached_onMutation_ne_none event)

lemma Marked.tracked (hmark : Marked u id s s' published) (h : TrackedUnread t s cache)
    (hunread : cache.cached u ≠ none → ∀ msg, Owns u id s msg → msg.isRead = false) :
    TrackedUnread t s' (published.foldl onMutation cache) := by
  cases hmark with
  | same => exact h
  | read msg hon now =>
    have hsm : SameMail msg { msg with isRead := true, updatedAt := now, readAt := some now } :=
      ⟨rfl, rfl, rfl, rfl, rfl⟩
    exact h.read hon (fun hcd => ⟨covered_true msg, hunread hcd msg hon⟩) hsm rfl
      (fun _ hk => hk) now
  | unread msg hon now =>
    have hsm : SameMail msg { msg with isRead := false, updatedAt := now, readAt := none } :=
      ⟨rfl, rfl, rfl, rfl, rfl⟩
    refine h.silent hon hsm (fun hcd k _ => ?_) rfl
    rw [Counter.ofMessage, Counter.ofMessage, hunread hcd msg hon]

/-- The archived flag first; it does not change what the read flag finds. -/
lemma Flagged.tracked {flags : Flags} (hflagged : Flagged u id flags s s' published)
    (h : TrackedUnread t s cache)
    (hunread : cache.cached u ≠ none → flags.read ≠ none → ∀ msg, Owns u id s msg →
      msg.isRead = false) : TrackedUnread t s' (published.foldl onMutation cache) := by
  cases hflagged with
  | same => exact h
  | relocated hreloc => exact hreloc.tracked h fun msg _ _ => covered_true msg
  | marked msg msg' hrd hon hreloc hon' hsm hmark =>
    rw [List.foldl_append]
    refine hmark.tracked (hreloc.tracked h fun msg _ _ => covered_true msg) ?_
    intro hcd msg'' hon''
    rw [cached_foldl_ne_none] at hcd
    obtain rfl : msg' = msg'' := Option.some.inj (hon'.1.symm.trans hon''.1)
    rw [hsm]
    exact hunread hcd hrd msg hon

lemma Retagged.tracked (hretagged : Retagged u id s s') (h : TrackedUnread t s cache) :
    TrackedUnread t s' cache := by
  cases hretagged with
  | same => exact h
  | tagged msg hon tags now =>
    have hsm : SameMail msg { msg with tags := tags, updatedAt := now } :=
      ⟨rfl, rfl, rfl, rfl, rfl⟩
    exact h.silent hon hsm (fun _ _ _ => rfl) rfl

end Calls

/-! ## Bulk calls -/

variable {now : Time} {fs : List Filter}

lemma sameMail_nativeEffect (op : BulkOp) (msg : Message) :
    SameMail msg (op.nativeEffect now msg) := by
  cases op with
  | tag =>
    simp only [nativeEffect]
    split_ifs <;> exact ⟨rfl, rfl, rfl, rfl, rfl⟩
  | _ => exact ⟨rfl, rfl, rfl, rfl, rfl⟩

lemma keepsIDs_changed {f : Message → Message} {ids : List String} {t' : Messages}
    (hchg : Table.Changed f ids s.messages t') (hid : ∀ msg, (f msg).id = msg.id) :
    KeepsIDs s { s with messages := t' } := by
  refine ⟨rfl, rfl, fun msg hmsg => ?_⟩
  obtain ⟨orig, hor, rfl⟩ := hchg.mem_iff.mp hmsg
  refine ⟨orig, hor, ?_⟩
  split_ifs
  · exact (hid orig).symm
  · rfl

/-- A bulk operation publishes nothing, so it must not change an unread count. -/
lemma tracked_native (op : BulkOp) (h : TrackedUnread t s cache)
    (hsilent : cache.cached u ≠ none → ∀ msg ∈ s.messages.all, op.hits now u fs msg = true →
      (op.nativeEffect now msg).isRead = msg.isRead
        ∧ (msg.isRead = true ∨ (op.nativeEffect now msg).folderID = msg.folderID)) :
    TrackedUnread t (op.native now u fs s).2 cache ∧ KeepsIDs s (op.native now u fs s).2 := by
  obtain ⟨t', hnat, hchg⟩ := native_spec now u fs op s
  rw [hnat]
  refine ⟨h.bulk hchg (sameMail_nativeEffect op) fun msg hmsg hid hcd k hk => ?_,
    keepsIDs_changed hchg fun msg => op.nativeEffect_id now msg⟩
  · have hhit := (Table.mem_keys_filter (op.hits now u fs) hmsg).mp hid
    have hown : msg.ownerID = u := by simpa [owned] using owned_of_hits hhit
    obtain ⟨hrd, hfo⟩ := hsilent (by rwa [← hown]) msg hmsg hhit
    cases k with
    | unread => exact ⟨by simp [Counter.ofMessage, Counter.counts, hrd], fun hcnts => by
      rcases hfo with hisRead | hfo
      · simp [Counter.ofMessage, Counter.counts, hisRead] at hcnts
      · exact hfo⟩
    | folderUnread =>
      rcases hfo with hisRead | hfo
      · simp [Counter.ofMessage, Counter.counts, hrd, hisRead]
      · exact ⟨by rw [Counter.ofMessage, Counter.ofMessage, hrd, hfo], fun _ => hfo⟩
    | _ => cases hk

/-- `MarkAllRead` subtracts what it has marked. -/
lemma tracked_markAllRead (folderID : String) (h : TrackedUnread t s cache) :
    let marked := Store.markAllRead now u folderID s
    TrackedUnread t marked.2 (cache.updateCachedStats u (countAllRead folderID marked.1))
      ∧ KeepsIDs s marked.2 := by
  obtain ⟨t', hnat, hchg⟩ := native_spec now u [] (.markAllRead folderID) s
  rw [native] at hnat
  simp only [hnat]
  refine ⟨h.allRead (fun msg => ?_) hchg (sameMail_nativeEffect _) fun _ => rfl,
    keepsIDs_changed hchg fun msg => nativeEffect_id now _ msg⟩
  simp only [hits, Bool.and_eq_true, Bool.not_eq_true', decide_eq_true_eq]
  tauto

/-! ## The pages of `UpdateByFilter` -/

section Pages

variable {start : Store}

/-- The message has been selected at the start. -/
def SelectedAt (now : Time) (u : String) (fs : List Filter) (start : Store) (id : String) : Prop :=
  ∃ orig ∈ start.messages.all, orig.id = id ∧ selects now (scopedFilters u fs) orig = true

/-- Between two calls of the loop: messages are as they were, or they have been selected and are
unread. -/
structure MarkingUnread (t now : Time) (u : String) (fs : List Filter) (cache : StatsCache)
    (start s : Store) : Prop where
  tracked : TrackedUnread t s cache
  ids : KeepsIDs start s
  mail : ∀ msg ∈ s.messages.all, msg ∈ start.messages.all
    ∨ msg.ownerID = u ∧ msg.isRead = false ∧ SelectedAt now u fs start msg.id

section

variable (h : MarkingUnread t now u fs cache start s)
  (hunread : cache.cached u ≠ none → ∀ msg ∈ start.messages.all,
    selects now (scopedFilters u fs) msg = true → msg.isRead = false)

include h hunread

lemma MarkingUnread.owner {msg : Message} (hmsg : msg ∈ s.messages.all)
    (hsld : SelectedAt now u fs start msg.id) :
    msg.ownerID = u ∧ (cache.cached u ≠ none → msg.isRead = false) := by
  rcases h.mail msg hmsg with hst | ⟨hown, hrd, _⟩
  · obtain ⟨orig, hor, hid, hsel⟩ := hsld
    obtain rfl : orig = msg := by
      have hld := Table.load_of_mem hor
      rw [hid, Table.load_of_mem hst] at hld
      exact (Option.some.inj hld).symm
    have hscoped := hsel
    simp only [selects, Bool.and_eq_true, matchesFilters_scopedFilters] at hscoped
    exact ⟨hscoped.2.1, fun hcd => hunread hcd orig hor hsel⟩
  · exact ⟨hown, fun _ => hrd⟩

lemma MarkingUnread.mark (hsld : SelectedAt now u fs start id) :
    MarkingUnread t now u fs cache start (Store.markRead now id false s).2 := by
  simp only [Store.markRead, Store.mutate]
  split_ifs with hid
  · exact h
  · cases hld : s.messages.load id with
    | none => exact h
    | some msg =>
      simp only
      split_ifs with hdr
      · exact h
      · obtain ⟨hmsg, rfl⟩ := Table.load_eq_some_iff.mp hld
        obtain ⟨hown, hrd⟩ := h.owner hunread hmsg hsld
        have hon : Owns u msg.id s msg := ⟨hld, hown, by simpa using hdr⟩
        have hmark := Marked.unread msg hon now
        refine ⟨hmark.tracked h.tracked fun hcd msg' hon' => ?_,
          h.ids.trans hmark.keepsIDs, fun msg' hmsg' => ?_⟩
        · rw [← Option.some.inj (hon.1.symm.trans hon'.1)]
          exact hrd hcd
        · rcases Table.mem_put.mp hmsg' with rfl | ⟨hmem, _⟩
          · exact .inr ⟨hown, rfl, hsld⟩
          · exact h.mail msg' hmem

end

lemma markingUnread_pageLoop (h : TrackedUnread t s cache)
    (hunread : cache.cached u ≠ none → ∀ msg ∈ s.messages.all,
      selects now (scopedFilters u fs) msg = true → msg.isRead = false)
    (limit : ℤ) (fuel : ℕ) {ranges : Ranges} (hpm : ranges.Perm) :
    MarkingUnread t now u fs cache s
      (pageLoop now (scopedFilters u fs) limit ((updateRead false).single now) fuel ranges
        "" 0 s).2 := by
  have hstep : ∀ s' id, MarkingUnread t now u fs cache s s' → SelectedAt now u fs s id →
      MarkingUnread t now u fs cache s ((updateRead false).single now id s').2 :=
    fun s' id hs' hid => hs'.mark hunread hid
  refine pageLoop_induction hstep ?_ fuel "" 0 ⟨h, KeepsIDs.refl s, fun msg hmsg => .inl hmsg⟩
  intro s' n cursor list hs' hls msg hmsg
  obtain ⟨hmem, hsel⟩ := mem_find (hpm n) hls hmsg
  rcases hs'.mail msg hmem with hst | ⟨-, -, hsld⟩
  · exact ⟨msg, hst, rfl, hsel⟩
  · exact hsld

end Pages

/-! ## Runs -/

/-- The cache has the unread counts of the store. -/
structure UnreadInv (uuid : ℕ → String) (t : Time) (i : Instance) : Prop where
  tracked : TrackedUnread t i.store i.cache
  fresh : Fresh uuid i.store

variable {r : Reply Result} {order : Ranges}

section Run

variable {uuid : ℕ → String} {t : Time} {i : Instance}

lemma UnreadInv.handle {α : Type} {r : Reply α} (h : UnreadInv uuid t i)
    (hca : r.state.cache = i.cache) (hi : KeepsIDs i.store r.state.store)
    (htrack : TrackedUnread t r.state.store (r.published.foldl onMutation i.cache)) :
    UnreadInv uuid t r.handled where
  tracked := by
    rw [← hca] at htrack
    exact htrack
  fresh := hi.fresh h.fresh

variable {m : MemoryMailbox}

section

variable (h : UnreadInv uuid t i)

include h

lemma unread_relocated (hr : Does (Relocated m.userID id) i r) : UnreadInv uuid t r.handled :=
  h.handle hr.2 hr.1.keepsIDs (hr.1.tracked h.tracked fun msg _ _ => covered_true msg)

lemma unread_retagged
    (hr : Does (fun s s' published => Retagged m.userID id s s' ∧ published = []) i r) :
    UnreadInv uuid t r.handled := by
  obtain ⟨⟨hretagged, hpubd⟩, hca⟩ := hr
  refine h.handle hca hretagged.keepsIDs ?_
  rw [hpubd]
  exact hretagged.tracked h.tracked

lemma unread_bulk (op : BulkOp) (fs : List Filter)
    (hsilent : i.cache.cached m.userID ≠ none → ∀ msg ∈ i.store.messages.all,
      op.hits m.service.now m.userID fs msg = true →
        (op.nativeEffect m.service.now msg).isRead = msg.isRead
          ∧ (msg.isRead = true ∨ (op.nativeEffect m.service.now msg).folderID = msg.folderID)) :
    UnreadInv uuid t (m.bulk op fs i).handled := by
  unfold bulk
  cases m.checkAccess with
  | error => exact h
  | ok =>
    obtain ⟨htrack, hi⟩ := tracked_native op h.tracked hsilent
    exact ⟨htrack, hi.fresh h.fresh⟩

lemma unread_updateByFilter (hpm : order.Perm) (fuel : ℕ) (fs : List Filter) (flags : Flags)
    (hsilent : i.cache.cached m.userID ≠ none → ∀ msg ∈ i.store.messages.all,
      selects m.service.now (scopedFilters m.userID fs) msg = true →
        msg.isRead = flags.read.getD false) :
    UnreadInv uuid t (m.updateByFilter order fuel fs flags i).handled := by
  unfold updateByFilter updateByFilterOn
  cases hrd : flags.read with
  | some read =>
    rw [hrd, Option.getD_some] at hsilent
    exact unread_bulk h (.updateRead read) fs fun hcd msg hmsg hhit =>
      ⟨(hsilent hcd msg hmsg hhit).symm, .inr rfl⟩
  | none =>
    rw [hrd, Option.getD_none] at hsilent
    cases m.checkAccess with
    | error => exact h
    | ok =>
      have hmarking := markingUnread_pageLoop h.tracked hsilent m.maxQueryLimit fuel hpm
      exact ⟨hmarking.tracked, hmarking.ids.fresh h.fresh⟩

lemma UnreadInv.unreadAgrees {t' : Time} (ht : t ≤ t') : UnreadAgrees t' i := by
  intro u stats hss
  have hv : ∀ k : Counter, k.isUnread = true →
      stats.value k = (i.store.mailboxStats t' u).value k := by
    intro k hk
    rw [mailboxStats_value, h.tracked.tally_eq (by simp [hss]) ht,
      h.tracked.counted u stats hss k hk]
    simp
  exact ⟨hv .unread rfl, fun f => hv (.folderUnread f) rfl⟩

end

lemma unread_markAllRead (hpub : ∀ event, m.publishFault event = none)
    (h : UnreadInv uuid t i) (folderID : String) :
    UnreadInv uuid t (m.markAllRead folderID i).handled := by
  unfold MemoryMailbox.markAllRead
  cases m.checkAccess with
  | error => exact h
  | ok =>
    simp only
    split_ifs with hzr
    · -- Nothing has been unread.
      obtain ⟨t', hnat, -⟩ := native_spec m.service.now m.userID [] (.markAllRead folderID) i.store
      have hcnt : i.store.messages.all.countP
          ((markAllRead folderID).hits m.service.now m.userID []) = 0 := by
        rw [native] at hnat
        rw [← hzr, hnat]
      rw [List.countP_eq_zero] at hcnt
      obtain ⟨htrack, hi⟩ := tracked_native (.markAllRead folderID) h.tracked
        fun _ msg hmsg hhit => absurd hhit (hcnt msg hmsg)
      exact ⟨htrack, hi.fresh h.fresh⟩
    · obtain ⟨htrack, hi⟩ := tracked_markAllRead folderID h.tracked
      simp only [publishMutation, hpub]
      exact ⟨htrack, hi.fresh h.fresh⟩

lemma unread_mutate (hpub : ∀ event, m.publishFault event = none)
    (hpm : order.Perm) (fuel : ℕ) (h : UnreadInv uuid t i) (c : Mutation)
    (hannounced : i.cache.cached m.userID ≠ none → c.Announced m.service.now m.userID i.store) :
    UnreadInv uuid t (m.mutate order fuel i c).handled := by
  cases c with
  | updateFlags id flags =>
    obtain ⟨hflagged, hca⟩ := flagged_updateFlags hpub id flags i
    exact h.handle hca hflagged.keepsIDs (hflagged.tracked h.tracked hannounced)
  | delete id => exact unread_relocated h (relocated_delete i id hpub)
  | restore id => exact unread_relocated h (relocated_restore i id hpub)
  | permanentlyDelete id =>
    obtain ⟨hrem, hca⟩ := removed_permanentlyDelete i id hpub
    exact h.handle hca hrem.keepsIDs (hrem.tracked h.tracked fun msg _ _ => covered_true msg)
  | moveToFolder id folderID opts =>
    exact unread_relocated h (relocated_moveToFolder i id hpub folderID opts)
  | addTag id tagID =>
    refine unread_retagged h (retagged_changeTag i id "add tag" tagID fun orig => ?_)
    simp only [Update.addTag]
    split_ifs
    · exact .inl rfl
    · exact .inr ⟨_, _, rfl⟩
  | removeTag id tagID =>
    refine unread_retagged h (retagged_changeTag i id "remove tag" tagID fun orig => ?_)
    simp only [Update.removeTag]
    split_ifs
    · exact .inr ⟨_, _, rfl⟩
    · exact .inl rfl
  | markAllRead folderID => exact unread_markAllRead hpub h folderID
  | updateByFilter fs flags => exact unread_updateByFilter h hpm fuel fs flags hannounced
  | moveByFilter fs folderID =>
    refine unread_bulk h (.move folderID) fs fun hcd msg hmsg hhit => ⟨rfl, ?_⟩
    exact (hannounced hcd msg hmsg hhit).imp_right Eq.symm
  | deleteByFilter fs =>
    refine unread_bulk h .delete fs fun hcd msg hmsg hhit => ⟨rfl, ?_⟩
    exact (hannounced hcd msg hmsg hhit).imp_right Eq.symm
  | tagByFilter fs tagID =>
    refine unread_bulk h (.tag tagID) fs fun _ msg _ _ => ?_
    simp only [nativeEffect]
    split_ifs <;> exact ⟨rfl, .inr rfl⟩
  | untagByFilter fs tagID =>
    exact unread_bulk h (.untag tagID) fs fun _ _ _ _ => ⟨rfl, .inr rfl⟩

lemma unread_step (hu : IDSource uuid) {turn : StatsTurn} (h : UnreadInv uuid t i)
    (hok : UnreadStep uuid (i, turn, (statsStep i turn).2)) :
    UnreadInv uuid t (statsStep i turn).1 := by
  cases hcl : turn.call with
  | send =>
    obtain ⟨hunsch, hms, hsender⟩ := hok.send _ _ _ _ _ _ _ hcl
    obtain ⟨draftID, sent, copies, hsn, hca⟩ :=
      dispatched_of_message hu hok.reliable h.fresh hcl hunsch hms
    refine ⟨?_, hsn.fresh⟩
    rw [statsStep, hca, ← hsn.owner]
    refine h.tracked.send hsn.all hsn.arrived (fun hcd => ?_) fun msg hmsg => ?_
    · rw [hsn.owner] at hcd
      exact absurd hsender hcd
    · exact ⟨(hsn.copies msg hmsg).1, fun _ _ => rfl⟩
  | mutate c =>
    have hnx := unread_mutate hok.reliable.publish hok.reliable.order turn.fuel h c
      (hok.mutate c hcl)
    simp only [statsStep, Served.handled, StatsTurn.serve, hcl, List.foldl_nil]
    exact hnx

lemma unreadInv_start {start : Instance} (hfr : Fresh uuid start.store) (hsnaps : Snapshots t start)
    (hvis : ∀ msg ∈ start.store.messages.all, msg.isDraft = false →
      start.cache.cached msg.ownerID ≠ none →
        isAvailableNow t msg = true ∧ (msg.isRead = false → msg.folderID ≠ "")) :
    UnreadInv uuid t start where
  tracked :=
    { available := fun msg hmsg hdr hcd => (hvis msg hmsg hdr hcd).1
      named := by
        intro msg hmsg hdr hcd k hk hcnts
        refine (hvis msg hmsg hdr hcd).2 ?_
        cases k with
        | unread => simpa [Counter.ofMessage, Counter.counts] using hcnts
        | folderUnread =>
          simp only [Counter.ofMessage, Counter.counts, Bool.and_eq_true, Bool.not_eq_true']
            at hcnts
          exact hcnts.2
        | _ => cases hk
      counted := by
        intro u stats hss k _
        rw [hsnaps u stats hss k, mailboxStats_value]
        simp }
  fresh := hfr

/-- **The cached unread counts track the store** in every run that starts with snapshots of
mailboxes whose messages are available, and the unread ones in a folder, and whose calls all meet
`UnreadStep`. -/
theorem cached_unread_tracks (huuid : IDSource uuid) {start : Instance}
    (hfresh : Fresh uuid start.store) (hsnapshots : Snapshots t start)
    (hvisible : ∀ msg ∈ start.store.messages.all, msg.isDraft = false →
      start.cache.cached msg.ownerID ≠ none →
        isAvailableNow t msg = true ∧ (msg.isRead = false → msg.folderID ≠ ""))
    {turns : List StatsTurn}
    (hsteps : ∀ e ∈ Machine.trace statsStep turns start, UnreadStep uuid e) :
    (∀ t' ≥ t, UnreadAgrees t' (Machine.final statsStep turns start))
      ∧ ∀ e ∈ Machine.trace statsStep turns start, ∀ t' ≥ t, UnreadAgrees t' e.1 := by
  have hstep : ∀ i turn, UnreadInv uuid t i → UnreadStep uuid (i, turn, (statsStep i turn).2) →
      UnreadInv uuid t (statsStep i turn).1 ∧ True :=
    fun i turn h hok => ⟨unread_step huuid h hok, trivial⟩
  obtain ⟨hfinal, htrace⟩ := Machine.trace_induction (p := fun _ => True) hstep hsteps
    (unreadInv_start hfresh hsnapshots hvisible)
  exact ⟨fun _ ht => hfinal.unreadAgrees ht, fun e he _ ht => (htrace e he).1.unreadAgrees ht⟩

end Run

/-! ## Runs that drift -/

/-- `alice` sends a note, and `bob` reads it. -/
def noteRead : List StatsTurn :=
  [sendNote, plainTurn "bob" (.mutate (.updateFlags (unaryID 1) { read := some true }))]

theorem cached_unread_tracks_note_read :
    UnreadAgrees 1 (Machine.final statsStep noteRead (snapshotOf ["bob"] Table.empty)) := by
  have hfr : Fresh unaryID (snapshotOf ["bob"] Table.empty).store := fresh_new unaryID
  refine (cached_unread_tracks idSource_unaryID hfr
    (snapshots_snapshotOf ["bob"] Table.empty) (fun msg hmsg => by cases hmsg)
    fun e he => ?_).1 1 (Int.le_refl 1)
  rcases List.mem_cons.mp he with rfl | he
  · refine ⟨reliable_plainTurn "alice" _, fun _ _ _ _ _ _ _ hcl => ?_, fun c hcl => ?_⟩
    · cases hcl
      exact ⟨rfl, by decide +kernel, rfl⟩
    · cases hcl
  · obtain rfl := List.mem_singleton.mp he
    refine ⟨reliable_plainTurn "bob" _, fun _ _ _ _ _ _ _ hcl => ?_, fun c hcl => ?_⟩
    · cases hcl
    · cases hcl
      intro _ _ msg hon
      have hrd : ((statsStep (snapshotOf ["bob"] Table.empty) sendNote).1.store.messages.load
            (unaryID 1)).map Message.isRead = some false := by decide +kernel
      rw [hon.1] at hrd
      exact Option.some.inj hrd

lemma UnreadAgrees.cached_all {i : Instance} (h : UnreadAgrees t i) (u : String) :
    (i.cache.cached u).all
      (fun stats => decide (stats.unreadCount = (i.store.mailboxStats t u).unreadCount))
      = true := by
  cases hcd : i.cache.cached u with
  | none => rfl
  | some stats => simpa using (h u stats hcd).1

/-- A mailbox with a message that has been read and one that has not. -/
def halfRead : Messages :=
  (Table.empty.put { letterTo "m" "alice" with isRead := true }).put (letterTo "n" "alice")

/-- The sender's copy is unread and not counted; reading a message again counts it again; and
marking a message unread, or many by filter, is not counted at all. -/
theorem cached_unread_drifts : Snapshots 1 (snapshotOf ["alice"] halfRead)
      ∧ ¬ UnreadAgrees 1 (Machine.final statsStep [sendNote] (snapshotOf ["alice"] halfRead))
      ∧ ¬ UnreadAgrees 1 (Machine.final statsStep
        [plainTurn "alice" (.mutate (.updateFlags "m" { read := some true }))]
        (snapshotOf ["alice"] halfRead))
      ∧ ¬ UnreadAgrees 1 (Machine.final statsStep
        [plainTurn "alice" (.mutate (.updateFlags "m" { read := some false }))]
        (snapshotOf ["alice"] halfRead))
      ∧ ¬ UnreadAgrees 1 (Machine.final statsStep
        [plainTurn "alice" (.mutate (.updateByFilter [] { read := some true }))]
        (snapshotOf ["alice"] halfRead)) := by
  refine ⟨snapshots_snapshotOf _ _, fun h => ?_, fun h => ?_, fun h => ?_, fun h => ?_⟩
  all_goals exact absurd (h.cached_all "alice") (by decide +kernel)

end Mailbox.Service
