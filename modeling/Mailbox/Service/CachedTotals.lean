import Mailbox.Service.StatsRuns

/-!
# Cached totals

Runs of sends, moves, deletions, restores and (un)archivings over the in-memory store, every event
handled before the next call.  The claim of the cache is that its totals — of the mailbox and of
each folder — are those `MailboxStats` would recompute, and that no counter is decremented at zero.

Two things break it.

* `MailboxStats` hides a message until it is available, but the calls find it by its ID and the
  handlers count what they did with it.
* The sender's copy is stored **unread**, and `onMessageSent` does not count it as unread.  The
  handler of a later move or deletion subtracts what was never added.

So the counters of unread messages in the invariant `TotalsInv` leave out the copies that their
owner has sent since the snapshots were taken (`countedSince`).  A run keeps it as long as the owner
does not work on such a copy while it is unread.
-/

namespace Mailbox.Service

open Memory

/-- The cached totals are those of the store. -/
def TotalsAgree (t : Time) (i : Instance) : Prop :=
  ∀ u stats, i.cache.cached u = some stats →
    stats.totalMessages = (i.store.mailboxStats t u).totalMessages
      ∧ ∀ f, (stats.folder f).total = ((i.store.mailboxStats t u).folder f).total

/-- Sends that are not scheduled, and the calls that move or delete single messages. -/
inductive UserCall.Basic : UserCall → Prop where
  | send (draft : Message) (threadID replyToID externalID : String) (ttl : ℤ)
      (scheduleAt : Option Time) (deliverTo : List String)
      (hunscheduled : scheduleAt.filter (· ≠ 0) = none) :
      Basic (.send draft threadID replyToID externalID ttl scheduleAt deliverTo)
  | moveToFolder (id folderID : String) (opts : MoveOptions) :
      Basic (.mutate (.moveToFolder id folderID opts))
  | delete (id : String) : Basic (.mutate (.delete id))
  | restore (id : String) : Basic (.mutate (.restore id))
  | archive (id : String) (archived : Option Bool) :
      Basic (.mutate (.updateFlags id { archived := archived }))
  | permanentlyDelete (id : String) : Basic (.mutate (.permanentlyDelete id))

/-- An unread copy of a message that its owner has sent since the snapshots were taken: the handler
of the send does not count it as unread. -/
def Uncounted (start : Messages) (msg : Message) : Prop :=
  start.load msg.id = none ∧ msg.status = .queued ∧ msg.isRead = false

/-- The message a call names. -/
def UserCall.messageID : UserCall → Option String
  | .send .. => none
  | .mutate c => c.messageID

/-- A call of a run: it is one of the calls, a send succeeds, and a user with a snapshot does not
work on an uncounted message. -/
structure TotalsStep (uuid : ℕ → String) (start : Messages) (e : Instance × StatsTurn × Served) :
    Prop where
  reliable : e.2.1.Reliable uuid
  basic : e.2.1.call.Basic
  succeeds : e.2.1.call.messageID = none → e.2.2.message ≠ none
  counted : ∀ id msg, e.2.1.call.messageID = some id → Owns e.2.1.mailbox.userID id e.1.store msg →
    e.1.cache.cached e.2.1.mailbox.userID ≠ none → ¬ Uncounted start msg

/-- What the cache counts: everything, except that the counters of unread messages have not heard
of what was sent since `start`. -/
def countedSince (start : Messages) : Included := fun k id status =>
  !k.isUnread || (start.load id).isSome || decide (status ≠ .queued)

lemma covered_of_not_uncounted {start : Messages} {msg : Message} (h : ¬ Uncounted start msg) :
    Covered (fun _ => True) (countedSince start) msg := by
  intro k _ hur
  cases hk : k.isUnread with
  | false => simp [countedSince, hk]
  | true =>
    cases hld : start.load msg.id with
    | some => simp [countedSince, hld]
    | none =>
      have hstatus : msg.status ≠ .queued := fun hqueued => h ⟨hld, hqueued, hur hk⟩
      simp [countedSince, hstatus]

/-- The cache counts what `countedSince` says, and nothing that was there at the start can be
mistaken for something sent since. -/
structure TotalsInv (uuid : ℕ → String) (t : Time) (start : Store) (i : Instance) : Prop where
  tracked : Tracked (fun _ => True) (countedSince start.messages) t i.store i.cache
  fresh : Fresh uuid i.store
  drawn : start.drawn ≤ i.store.drawn

section Run

variable {uuid : ℕ → String} {t : Time} {start : Store} {i : Instance} {turn : StatsTurn}

lemma TotalsInv.handle {r : Reply Response} (h : TotalsInv uuid t start i)
    (hca : r.state.cache = i.cache) (hi : KeepsIDs i.store r.state.store)
    (htrack : Tracked (fun _ => True) (countedSince start.messages) t r.state.store
      (r.published.foldl StatsCache.onMutation i.cache))
    (hunclamped : i.cache.Unclamped r.published) :
    TotalsInv uuid t start r.handled ∧ r.state.cache.Unclamped r.published := by
  rw [← hca] at htrack hunclamped
  exact ⟨⟨htrack, hi.fresh h.fresh, h.drawn.trans (Nat.le_of_eq hi.drawn.symm)⟩, hunclamped⟩

lemma totals_relocated {r : Reply Response} {id : String} (h : TotalsInv uuid t start i)
    (hcnt : ∀ msg, Owns turn.mailbox.userID id i.store msg →
      i.cache.cached turn.mailbox.userID ≠ none → ¬ Uncounted start.messages msg)
    (hr : Relocated turn.mailbox.userID id i.store r.state.store r.published
      ∧ r.state.cache = i.cache) :
    TotalsInv uuid t start r.handled ∧ r.state.cache.Unclamped r.published := by
  have hcov := fun msg hon hcd => covered_of_not_uncounted (hcnt msg hon hcd)
  exact h.handle hr.2 hr.1.keepsIDs (hr.1.tracked h.tracked hcov)
    (hr.1.unclamped h.tracked hcov fun _ => trivial)

section

variable (huuid : IDSource uuid) (hstart : Fresh uuid start) (h : TotalsInv uuid t start i)

include huuid hstart h

lemma totals_send (hturn : turn.Reliable uuid) {draft : Message}
    {threadID replyToID externalID : String} {ttl : ℤ} {scheduleAt : Option Time}
    {deliverTo : List String}
    (hcl : turn.call = .send draft threadID replyToID externalID ttl scheduleAt deliverTo)
    (hunsch : scheduleAt.filter (· ≠ 0) = none) (hms : (turn.serve i).message ≠ none) :
    TotalsInv uuid t start (turn.serve i).handled ∧ (turn.serve i).Unclamped := by
  obtain ⟨draftID, sent, copies, hsn, hca⟩ :=
    dispatched_of_message huuid hturn h.fresh hcl hunsch hms
  have hw : start.messages.load sent.id = none := by
    rw [hsn.id]
    exact hstart.unused _ h.drawn
  refine ⟨⟨?_, hsn.fresh, h.drawn.trans hsn.drawn⟩, ?_⟩
  · rw [hca, ← hsn.owner]
    refine h.tracked.send hsn.all hsn.arrived (fun _ k _ => ?_) fun msg hmsg => ?_
    · -- The sender's copy counts as a read message does.
      rw [hsn.status]
      cases k <;> simp [Counter.counts, countedSince, Counter.isUnread, hw]
    · refine ⟨(hsn.copies msg hmsg).1, fun k _ => ?_⟩
      simp [countedSince, (hsn.copies msg hmsg).2, MessageStatus.delivered, MessageStatus.queued]
  · have hno : (turn.serve i).published = [] := by
      rw [StatsTurn.serve, hcl]
    rw [Served.Unclamped, hno]
    exact trivial

lemma totals_step (hok : TotalsStep uuid start.messages (i, turn, (statsStep i turn).2)) :
    TotalsInv uuid t start (statsStep i turn).1 ∧ (statsStep i turn).2.Unclamped := by
  obtain ⟨hreliable, hbasic, hsucc, hcnt⟩ := hok
  have hpub := hreliable.publish
  cases hcl : turn.call with
  | send =>
    simp only [hcl] at hbasic hsucc
    cases hbasic with
    | send _ _ _ _ _ _ _ hunsch =>
      exact totals_send huuid hstart h hreliable hcl hunsch (hsucc rfl)
  | mutate =>
    simp only [hcl] at hbasic hcnt
    simp only [statsStep, Served.handled, Served.Unclamped, StatsTurn.serve, hcl, List.foldl_nil]
    cases hbasic with
    | moveToFolder id folderID opts =>
      exact totals_relocated h (hcnt id · rfl) (relocated_moveToFolder i id hpub folderID opts)
    | delete id =>
      exact totals_relocated h (hcnt id · rfl) (relocated_delete i id hpub)
    | restore id =>
      exact totals_relocated h (hcnt id · rfl) (relocated_restore i id hpub)
    | archive id archived =>
      obtain ⟨hflagged, hca⟩ := flagged_updateFlags hpub id { archived := archived } i
      exact totals_relocated h (hcnt id · rfl) ⟨hflagged.relocated_of_none rfl, hca⟩
    | permanentlyDelete id =>
      obtain ⟨hrem, hca⟩ := removed_permanentlyDelete i id hpub
      have hcov := fun msg hon hcd =>
        covered_of_not_uncounted (hcnt id msg rfl hon hcd)
      exact h.handle hca hrem.keepsIDs (hrem.tracked h.tracked hcov)
        (hrem.unclamped h.tracked hcov fun _ => trivial)

end

/-! ## The totals -/

lemma TotalsInv.totalsAgree (h : TotalsInv uuid t start i) {t' : Time} (ht : t ≤ t') :
    TotalsAgree t' i := by
  intro u stats hss
  have hv : ∀ k : Counter, k.isUnread = false →
      stats.value k = (i.store.mailboxStats t' u).value k := by
    intro k hk
    rw [mailboxStats_value, h.tracked.tally_eq (by simp [hss]) ht,
      h.tracked.counted u stats hss k trivial]
    simp [countedSince, hk]
  exact ⟨hv .total rfl, fun f => hv (.folderTotal f) rfl⟩

lemma totalsInv_start {start : Instance} (hfr : Fresh uuid start.store) (hsnaps : Snapshots t start)
    (hvis : ∀ msg ∈ start.store.messages.all, msg.isDraft = false →
      start.cache.cached msg.ownerID ≠ none → isAvailableNow t msg = true ∧ msg.folderID ≠ "") :
    TotalsInv uuid t start.store start where
  tracked :=
    { available := fun msg hmsg hdr hcd => (hvis msg hmsg hdr hcd).1
      named := fun msg hmsg hdr hcd _ _ _ => (hvis msg hmsg hdr hcd).2
      counted := by
        intro u stats hss k _
        rw [hsnaps u stats hss k, mailboxStats_value]
        refine congrArg _ (List.countP_congr fun msg hmsg => ?_)
        simp [countedSince, Table.load_of_mem hmsg] }
  fresh := hfr
  drawn := Nat.le_refl _

/-- **The cached totals track the store**, and no counter is decremented at zero, in every run that
starts with snapshots of mailboxes whose messages are available and in a folder, and in which no
user with a snapshot moves or deletes an unread copy of a message they have sent during the run. -/
theorem cached_totals_track (huuid : IDSource uuid) {start : Instance}
    (hfresh : Fresh uuid start.store) (hsnapshots : Snapshots t start)
    (hvisible : ∀ msg ∈ start.store.messages.all, msg.isDraft = false →
      start.cache.cached msg.ownerID ≠ none → isAvailableNow t msg = true ∧ msg.folderID ≠ "")
    {turns : List StatsTurn}
    (hsteps : ∀ e ∈ Machine.trace statsStep turns start, TotalsStep uuid start.store.messages e) :
    (∀ t' ≥ t, TotalsAgree t' (Machine.final statsStep turns start))
      ∧ ∀ e ∈ Machine.trace statsStep turns start,
        (∀ t' ≥ t, TotalsAgree t' e.1) ∧ e.2.2.Unclamped := by
  have hstep : ∀ i turn, TotalsInv uuid t start.store i →
      TotalsStep uuid start.store.messages (i, turn, (statsStep i turn).2) →
      TotalsInv uuid t start.store (statsStep i turn).1 ∧ (statsStep i turn).2.Unclamped :=
    fun i turn h hok => totals_step huuid hfresh h hok
  obtain ⟨hfinal, htrace⟩ := Machine.trace_induction (p := fun e => e.2.2.Unclamped) hstep hsteps
    (totalsInv_start hfresh hsnapshots hvisible)
  exact ⟨fun _ ht => hfinal.totalsAgree ht,
    fun e he => ⟨fun _ ht => (htrace e he).1.totalsAgree ht, (htrace e he).2⟩⟩

end Run

/-- `alice` sends a note, and `bob` throws it away. -/
def noteThrownAway : List StatsTurn :=
  [sendNote, plainTurn "bob" (.mutate (.delete (unaryID 1)))]

theorem cached_totals_track_note_thrown_away : TotalsAgree 1
      (Machine.final statsStep noteThrownAway (snapshotOf ["alice", "bob"] Table.empty)) := by
  have hfr : Fresh unaryID (snapshotOf ["alice", "bob"] Table.empty).store := fresh_new unaryID
  refine (cached_totals_track idSource_unaryID hfr
    (snapshots_snapshotOf ["alice", "bob"] Table.empty) (fun msg hmsg => by cases hmsg)
    fun e he => ?_).1 1 (Int.le_refl 1)
  rcases List.mem_cons.mp he with rfl | he
  · exact
      { reliable := reliable_plainTurn "alice" _
        basic := .send _ _ _ _ _ _ _ rfl
        succeeds := fun _ => by decide +kernel
        counted := fun id msg hid => by cases hid }
  · obtain rfl := List.mem_singleton.mp he
    refine
      { reliable := reliable_plainTurn "bob" _
        basic := .delete _
        succeeds := fun hno => by cases hno
        counted := ?_ }
    rintro id msg hid hon - ⟨-, hqueued, -⟩
    cases hid
    -- What `bob` has is a recipient's copy.
    have hstatus :
        ((statsStep (snapshotOf ["alice", "bob"] Table.empty) sendNote).1.store.messages.load
          (unaryID 1)).map Message.status = some .delivered := by decide +kernel
    rw [hon.1, Option.map_some, Option.some.injEq, hqueued] at hstatus
    exact absurd hstatus (by decide)

/-- A copy of a message that `alice` has scheduled for later. -/
def scheduledCopy : Message :=
  { letterTo "m" "alice" with folderID := folderSent, status := .queued, availableAt := some 100 }

/-- `alice` throws away a message that is scheduled for later, which nobody has counted, or one that
they have just sent, which nobody has counted as unread: the handler finds nothing to subtract. -/
theorem cached_totals_drift : (Snapshots 1 (snapshotOf ["alice"] (Table.empty.put scheduledCopy))
      ∧ ¬ TotalsAgree 1 (Machine.final statsStep [plainTurn "alice" (.mutate (.delete "m"))]
        (snapshotOf ["alice"] (Table.empty.put scheduledCopy)))
      ∧ ∃ e ∈ Machine.trace statsStep [plainTurn "alice" (.mutate (.delete "m"))]
        (snapshotOf ["alice"] (Table.empty.put scheduledCopy)), ¬ e.2.2.Unclamped)
    ∧ Snapshots 1 (snapshotOf ["alice"] Table.empty)
      ∧ ∃ e ∈ Machine.trace statsStep [sendNote, plainTurn "alice" (.mutate (.delete (unaryID 0)))]
        (snapshotOf ["alice"] Table.empty), ¬ e.2.2.Unclamped := by
  refine ⟨⟨snapshots_snapshotOf _ _, fun h => ?_, _, List.mem_cons_self, by decide +kernel⟩,
    snapshots_snapshotOf _ _, _, List.mem_cons_of_mem _ List.mem_cons_self, by decide +kernel⟩
  have hcd : ((Machine.final statsStep [plainTurn "alice" (.mutate (.delete "m"))]
      (snapshotOf ["alice"] (Table.empty.put scheduledCopy))).cache.cached "alice").map
        (fun stats => (stats.folder folderTrash).total) = some 1 := by decide +kernel
  obtain ⟨stats, hss, htot⟩ := Option.map_eq_some_iff.mp hcd
  have hagr := (h "alice" stats hss).2 folderTrash
  rw [htot] at hagr
  revert hagr
  decide +kernel

end Mailbox.Service
