import Mailbox.Notify.Store

/-!
# Pushing an event to one user and to many

`Push`, `PushMulti`, `deliverLocal` and `tryRoute` of `notify/notifier.go`.

`Push` asks the presence tracker, saves the event, and hands the event *that the store has filled
in* to the user's streams.  `PushMulti` handles a list of users in passes of its own: one call to
the tracker, then all the saves, then all the deliveries.  These start again from the caller's
event, so they carry neither the ID that the store has assigned nor the outcome of the save.

* `StoreOps`, `Tracker`, `Options` — what a notifier is configured with.  The store is any function
  that saves an event, so it may fail in any pattern.

**`pushMulti_iff_push_each`** compares the two.
-/

namespace Mailbox.Notify

open List

variable {σ ε : Type}

/-! ## Configuration -/

/-- `notify.Store`, as `Push` and `PushMulti` use it.  `saveBatch` is there for a `BatchSaver`, and
`streaming` says whether the store is a `StreamStore`.  A save that succeeds returns the event as
the caller's pointer then has it. -/
structure StoreOps (σ ε : Type) where
  save : Event → σ → Except ε Event × σ
  saveBatch : Option (List Event → σ → Except ε Unit × σ)
  streaming : Bool

/-- A polling store without batches. -/
structure StoreOps.Polling (ops : StoreOps σ ε) : Prop where
  single : ops.saveBatch = none
  polled : ops.streaming = false

structure RoutingInfo where
  instanceID : String
  metadata : List (String × String)
  deriving DecidableEq, Repr

/-- The sentinel errors of the presence package, and those of a tracker's backend. -/
inductive PresenceError where
  | trackerClosed
  | notFound
  | backend (text : String)
  deriving DecidableEq, Repr

/-- `presence.Tracker`, at the time of the call. -/
structure Tracker where
  isOnline : String → Except PresenceError Bool
  onlineUsers : List String → Except PresenceError (List String)
  locate : String → Except PresenceError RoutingInfo

structure Options (σ ε : Type) where
  store : Option (StoreOps σ ε)
  presence : Option Tracker
  router : Bool
  instanceID : String

inductive PushError (ε : Type) where
  | notify (err : NotifyError)
  | store (err : ε)
  | allSavesFailed (failed : ℕ)

/-- The notifier.  `routed` is what the router has been given. -/
structure Notifier (σ : Type) where
  store : σ
  streams : AList fun _ : String => List Inbox
  closed : Bool
  routed : List (RoutingInfo × Event)

/-! ## Delivery -/

/-- `deliverLocal` pushes an event to all local streams of the user, and says whether one of them
has received it. -/
def deliverLocal (user : String) (evt : Event) (n : Notifier σ) : Notifier σ × Bool :=
  match n.streams.lookup user with
  | none => (n, false)
  | some us =>
    ({ n with streams := n.streams.insert user (us.map fun q => (q.offer evt).1) },
      us.any fun q => (q.offer evt).2)

section

variable (opts : Options σ ε)

/-- `tryRoute` routes an event to the instance where the user is connected. -/
def tryRoute (user : String) (evt : Event) (n : Notifier σ) : Notifier σ :=
  match opts.router, opts.presence with
  | true, some tracker =>
    match tracker.locate user with
    | .error _ => n
    | .ok info =>
      if opts.instanceID ≠ "" ∧ info.instanceID = opts.instanceID then n
      else { n with routed := n.routed ++ [(info, evt)] }
  | _, _ => n

/-- Local delivery, and routing for a user who is not connected here. -/
def deliverOrRoute (user : String) (evt : Event) (n : Notifier σ) : Notifier σ :=
  match deliverLocal user evt n with
  | (n', true) => n'
  | (n', false) => tryRoute opts user evt n'

/-! ## `Push` -/

/-- The user is known to be offline; a failed presence check does not count. -/
def Options.offline (user : String) : Bool :=
  match opts.presence with
  | none => false
  | some tracker =>
    match tracker.isOnline user with
    | .ok online => !online
    | .error _ => false

def Options.isStreaming : Bool :=
  match opts.store with
  | none => false
  | some ops => ops.streaming

def push (user : String) (evt : Event) (n : Notifier σ) : Except (PushError ε) Unit × Notifier σ :=
  if n.closed then (.error (.notify .notifierClosed), n)
  else
    let evt := { evt with userID := user }
    if opts.offline user then (.ok (), n)
    else
      match opts.store with
      | none => (.ok (), deliverOrRoute opts user evt n)
      | some ops =>
        match ops.save evt n.store with
        | (.error err, store) => (.error (.store err), { n with store })
        | (.ok saved, store) =>
          if opts.isStreaming then (.ok (), { n with store })
          else (.ok (), deliverOrRoute opts user saved { n with store })

/-- `Push` once per user, in list order, and the number of calls that return an error. -/
def pushEach : List String → Event → Notifier σ → ℕ × Notifier σ
  | [], _, n => (0, n)
  | user :: users, evt, n =>
    let (result, n) := push opts user evt n
    let (failed, n) := pushEach users evt n
    ((if result.toBool then 0 else 1) + failed, n)

/-! ## `PushMulti` -/

/-- The users that `PushMulti` goes through. -/
def Options.targets (users : List String) : List String :=
  match opts.presence with
  | none => users
  | some tracker =>
    match tracker.onlineUsers users with
    | .ok online => online
    | .error _ => users

/-- The events that `PushMulti` saves: one copy for each target. -/
def eventsFor (targets : List String) (evt : Event) : List Event :=
  targets.map fun user => { evt with userID := user }

/-- The loop of saves: the number that failed, and the store. -/
def saveAll (ops : StoreOps σ ε) : List Event → σ → ℕ × σ
  | [], store => (0, store)
  | evt :: events, store =>
    let (result, store) := ops.save evt store
    let (failed, store) := saveAll ops events store
    ((if result.toBool then 0 else 1) + failed, store)

/-- The loop of deliveries.  Each one is of a new copy of the caller's event. -/
def deliverAll (targets : List String) (evt : Event) (n : Notifier σ) : Notifier σ :=
  targets.foldl (fun n user => deliverOrRoute opts user { evt with userID := user } n) n

/-- What `PushMulti` returns, with the notifier it leaves. -/
structure PushMultiResult (σ ε : Type) where
  failed : ℕ
  err : Option (PushError ε)
  notifier : Notifier σ

def pushMulti (users : List String) (evt : Event) (n : Notifier σ) : PushMultiResult σ ε :=
  if n.closed then ⟨0, some (.notify .notifierClosed), n⟩
  else
    let targets := opts.targets users
    if targets.length = 0 then ⟨0, none, n⟩
    else
      match opts.store with
      | none => ⟨0, none, deliverAll opts targets evt n⟩
      | some ops =>
        match ops.saveBatch with
        | some saveBatch =>
          match saveBatch (eventsFor targets evt) n.store with
          | (.error err, store) => ⟨targets.length, some (.store err), { n with store }⟩
          | (.ok _, store) =>
            if opts.isStreaming then ⟨0, none, { n with store }⟩
            else ⟨0, none, deliverAll opts targets evt { n with store }⟩
        | none =>
          let (failed, store) := saveAll ops (eventsFor targets evt) n.store
          if failed = targets.length then
            ⟨failed, some (.allSavesFailed failed), { n with store }⟩
          else if opts.isStreaming then ⟨failed, none, { n with store }⟩
          else ⟨failed, none, deliverAll opts targets evt { n with store }⟩

/-! ## What is compared -/

def Notifier.streamsOf (n : Notifier σ) (user : String) : List Inbox :=
  (n.streams.lookup user).getD []

/-- The queues of the local streams of a user. -/
def Notifier.queues (n : Notifier σ) (user : String) : List (List Event) :=
  (n.streamsOf user).map Inbox.ch

/-- The same store and the same queues. -/
structure Notifier.Same (n n' : Notifier σ) : Prop where
  store : n.store = n'.store
  queues : ∀ user, n.queues user = n'.queues user

/-- The stream takes the next event. -/
def Inbox.Takes (q : Inbox) : Prop := q.closed = false ∧ q.HasRoom

instance (q : Inbox) : Decidable q.Takes := inferInstanceAs (Decidable (_ ∧ _))

/-- A local stream of the user takes the next event. -/
def Notifier.Listening (n : Notifier σ) (user : String) : Prop := ∃ q ∈ n.streamsOf user, q.Takes

/-- `OnlineUsers` selects the users that `IsOnline` does not report to be offline. -/
def Options.Consistent : Prop :=
  ∀ users, opts.targets users = users.filter fun user => !opts.offline user

/-- The result of each save, in list order. -/
def outcomes (ops : StoreOps σ ε) (evt : Event) : List String → σ → List (String × Except ε Event)
  | [], _ => []
  | user :: users, store =>
    let (result, store) := ops.save { evt with userID := user } store
    (user, result) :: outcomes ops evt users store

/-- Every target with a stream that takes an event has a save that succeeds and leaves the event as
it is. -/
def LiveAsSaved (ops : StoreOps σ ε) (users : List String) (evt : Event) (n : Notifier σ) : Prop :=
  ∀ outcome ∈ outcomes ops evt (opts.targets users) n.store, n.Listening outcome.1 →
    outcome.2 = .ok { evt with userID := outcome.1 }

end

/-! ## The stores and trackers in memory -/

/-- `Save` of the memory store, in one go. -/
def MemoryStore.save (evt : Event) (s : MemoryStore) : Except NotifyError Event × MemoryStore :=
  match s.assignID evt with
  | .error err => (.error err, s)
  | .ok (saved, s) => (.ok saved, s.append saved)

/-- The memory store neither saves batches nor streams. -/
def MemoryStore.ops : StoreOps MemoryStore NotifyError where
  save := MemoryStore.save
  saveBatch := none
  streaming := false

lemma MemoryStore.polling_ops : MemoryStore.ops.Polling := ⟨rfl, rfl⟩

/-- `userEntry` of the memory tracker. -/
structure UserEntry where
  count : ℤ
  routing : Option RoutingInfo

structure MemoryTracker where
  users : AList fun _ : String => UserEntry
  closed : Bool

namespace MemoryTracker

variable (t : MemoryTracker)

/-- `entry != nil && entry.count > 0`. -/
def registered (user : String) : Bool :=
  match t.users.lookup user with
  | none => false
  | some entry => 0 < entry.count

def tracker : Tracker where
  isOnline user := if t.closed then .error .trackerClosed else .ok (t.registered user)
  onlineUsers users := if t.closed then .error .trackerClosed else .ok (users.filter t.registered)
  locate user :=
    if t.closed then .error .trackerClosed
    else
      match t.users.lookup user with
      | none => .error .notFound
      | some entry =>
        if entry.count = 0 then .error .notFound else .ok (entry.routing.getD ⟨"", []⟩)

lemma consistent {opts : Options σ ε} (h : opts.presence = some t.tracker) : opts.Consistent := by
  intro users
  cases hcl : t.closed with
  | true | false => simp [Options.targets, Options.offline, h, tracker, hcl]

end MemoryTracker

/-! ## Queues -/

variable {e evt : Event} {opts : Options σ ε} {ops : StoreOps σ ε} {n : Notifier σ}
  {u user : String}

lemma Inbox.ch_offer (q : Inbox) : (q.offer e).1.ch = if q.Takes then q.ch ++ [e] else q.ch := by
  unfold offer Takes
  by_cases hcl : q.closed = true
  · simp [hcl]
  · by_cases hrm : q.HasRoom
    · simp [hcl, hrm, enqueue]
    · simp [hcl, hrm]

lemma tryRoute_eq (opts : Options σ ε) (user : String) (evt : Event) (n : Notifier σ) :
    ∃ routed, tryRoute opts user evt n = { n with routed } := by
  unfold tryRoute
  split
  · split
    · exact ⟨_, rfl⟩
    · split_ifs
      · exact ⟨_, rfl⟩
      · exact ⟨_, rfl⟩
  · exact ⟨_, rfl⟩

/-- What a delivery does: every stream of the user is offered the event. -/
structure Delivered (user : String) (evt : Event) (n n' : Notifier σ) : Prop where
  store : n'.store = n.store
  closed : n'.closed = n.closed
  self : n'.streamsOf user = (n.streamsOf user).map fun q => (q.offer evt).1
  others : ∀ u ≠ user, n'.streamsOf u = n.streamsOf u

lemma delivered_deliverLocal (user : String) (evt : Event) (n : Notifier σ) :
    Delivered user evt n (deliverLocal user evt n).1 := by
  unfold deliverLocal
  cases hus : n.streams.lookup user with
  | none => exact ⟨rfl, rfl, by simp [Notifier.streamsOf, hus], fun _ _ => rfl⟩
  | some =>
    refine ⟨rfl, rfl, by simp [Notifier.streamsOf, hus], fun u hu => ?_⟩
    simp [Notifier.streamsOf, AList.lookup_insert_ne hu]

lemma delivered_deliverOrRoute (opts : Options σ ε) (user : String) (evt : Event)
    (n : Notifier σ) : Delivered user evt n (deliverOrRoute opts user evt n) := by
  have hlocal := delivered_deliverLocal user evt n
  unfold deliverOrRoute
  split
  next n' heq =>
      rw [heq] at hlocal
      exact hlocal
  next n' heq =>
      rw [heq] at hlocal
      obtain ⟨routed, hroute⟩ := tryRoute_eq opts user evt n'
      rw [hroute]
      exact ⟨hlocal.store, hlocal.closed, hlocal.self, hlocal.others⟩

/-! ## `Push`, user by user -/

variable {us : List String} {outcome : String × Except ε Event}

section Each

variable {n' : Notifier σ}

/-- The streams of a user after a save: they are offered what the store has saved. -/
def offerSaved (result : Except ε Event) (qs : List Inbox) : List Inbox :=
  match result with
  | .ok saved => qs.map fun q => (q.offer saved).1
  | .error _ => qs

/-- What a call of `Push` does for a user who is online. -/
structure Pushed (ops : StoreOps σ ε) (user : String) (evt : Event) (n : Notifier σ)
    (result : Except (PushError ε) Unit) (n' : Notifier σ) : Prop where
  failed : result.toBool = (ops.save { evt with userID := user } n.store).1.toBool
  store : n'.store = (ops.save { evt with userID := user } n.store).2
  closed : n'.closed = n.closed
  self : n'.streamsOf user
    = offerSaved (ops.save { evt with userID := user } n.store).1 (n.streamsOf user)
  others : ∀ u ≠ user, n'.streamsOf u = n.streamsOf u

lemma pushed_push (hstore : opts.store = some ops) (hpolling : ops.Polling)
    (hopen : n.closed = false) (honline : opts.offline user = false) :
    Pushed ops user evt n (push opts user evt n).1 (push opts user evt n).2 := by
  have hstreaming : ¬ opts.isStreaming = true := by
    rw [Options.isStreaming, hstore]
    simp [hpolling.polled]
  have hcl : ¬ n.closed = true := by simp [hopen]
  have hoff : ¬ opts.offline user = true := by simp [honline]
  rcases hsave : ops.save { evt with userID := user } n.store with ⟨err | saved, store⟩
  · have hpush : push opts user evt n = (.error (.store err), { n with store }) := by
      simp only [push, if_neg hcl, if_neg hoff, hstore, hsave]
    rw [hpush]
    constructor <;> simp [hsave, Except.toBool, offerSaved, Notifier.streamsOf]
  · have hpush : push opts user evt n
        = (.ok (), deliverOrRoute opts user saved { n with store }) := by
      simp only [push, if_neg hcl, if_neg hoff, hstore, hsave, if_neg hstreaming]
    have hdelivered := delivered_deliverOrRoute opts user saved { n with store }
    rw [hpush]
    refine ⟨?_, ?_, hdelivered.closed, ?_, hdelivered.others⟩ <;> rw [hsave]
    · rfl
    · exact hdelivered.store
    · exact hdelivered.self

lemma push_of_offline (hopen : n.closed = false) (hoff : opts.offline user = true) :
    push opts user evt n = (.ok (), n) := by
  simp [push, hopen, hoff]

/-- `Push` calls for the users who are offline change nothing. -/
lemma pushEach_filter (hstore : opts.store = some ops) (hpolling : ops.Polling)
    (hopen : n.closed = false) :
    pushEach opts (us.filter fun user => !opts.offline user) evt n = pushEach opts us evt n := by
  induction us generalizing n with
  | nil => rfl
  | cons user us ih =>
    cases hoff : opts.offline user with
    | true =>
      rw [filter_cons_of_neg (by simp [hoff]), ih hopen]
      simp [pushEach, push_of_offline hopen hoff, Except.toBool]
    | false =>
      have hpsh : Pushed ops user evt n _ _ := pushed_push hstore hpolling hopen hoff
      rw [filter_cons_of_pos (by simp [hoff])]
      simp only [pushEach, ih (hpsh.closed.trans hopen)]

lemma outcomes_cons (ops : StoreOps σ ε) (evt : Event) (user : String) (us : List String)
    (store : σ) :
    outcomes ops evt (user :: us) store = (user, (ops.save { evt with userID := user } store).1)
        :: outcomes ops evt us (ops.save { evt with userID := user } store).2 :=
  rfl

lemma map_fst_outcomes (ops : StoreOps σ ε) (evt : Event) (us : List String) (store : σ) :
    (outcomes ops evt us store).map Prod.fst = us := by
  induction us generalizing store with
  | nil => rfl
  | cons user us ih => simp [outcomes, ih]

lemma saveAll_cons (ops : StoreOps σ ε) (evt : Event) (user : String) (us : List String)
    (store : σ) : saveAll ops (eventsFor (user :: us) evt) store
      = let saved := ops.save { evt with userID := user } store
        ((if saved.1.toBool then 0 else 1) + (saveAll ops (eventsFor us evt) saved.2).1,
          (saveAll ops (eventsFor us evt) saved.2).2) :=
  rfl

/-- The calls of `Push` for users who are online save what the loop of `PushMulti` saves. -/
lemma pushEach_saves (evt : Event) (hstore : opts.store = some ops) (hpolling : ops.Polling)
    (hopen : n.closed = false) (honline : ∀ u ∈ us, opts.offline u = false) :
    (pushEach opts us evt n).1 = (saveAll ops (eventsFor us evt) n.store).1
      ∧ (pushEach opts us evt n).2.store = (saveAll ops (eventsFor us evt) n.store).2 := by
  induction us generalizing n with
  | nil => exact ⟨rfl, rfl⟩
  | cons user us ih =>
    have hpsh : Pushed ops user evt n _ _ :=
      pushed_push hstore hpolling hopen (honline user mem_cons_self)
    have htl := ih (hpsh.closed.trans hopen) fun u hu =>
      honline u (mem_cons_of_mem _ hu)
    rw [hpsh.store] at htl
    simp only [pushEach, hpsh.failed]
    exact ⟨congrArg _ htl.1, htl.2⟩

section

variable (hstore : opts.store = some ops) (hpolling : ops.Polling) (hopen : n.closed = false)
  (honline : ∀ u ∈ us, opts.offline u = false)

include hstore hpolling hopen honline

/-- The calls of `Push` leave the streams of other users alone. -/
lemma pushEach_others (hu : u ∉ us) : (pushEach opts us evt n).2.streamsOf u = n.streamsOf u := by
  induction us generalizing n with
  | nil => rfl
  | cons user us ih =>
    have hpsh : Pushed ops user evt n _ _ :=
      pushed_push hstore hpolling hopen (honline user mem_cons_self)
    rw [mem_cons, not_or] at hu
    rw [← hpsh.others u hu.1]
    exact ih (hpsh.closed.trans hopen) (fun u hu => honline u (mem_cons_of_mem _ hu)) hu.2

/-- The streams of a target are offered what the store has saved for it. -/
lemma pushEach_target (hnd : us.Nodup) (hmem : outcome ∈ outcomes ops evt us n.store) :
    (pushEach opts us evt n).2.streamsOf outcome.1
      = offerSaved outcome.2 (n.streamsOf outcome.1) := by
  induction us generalizing n with
  | nil => cases hmem
  | cons user us ih =>
    have hpsh : Pushed ops user evt n _ _ :=
      pushed_push hstore hpolling hopen (honline user mem_cons_self)
    have hopen' := hpsh.closed.trans hopen
    have honline' : ∀ u ∈ us, opts.offline u = false := fun u hu => honline u (mem_cons_of_mem _ hu)
    obtain ⟨hn, hnd⟩ := nodup_cons.mp hnd
    rw [outcomes_cons, mem_cons] at hmem
    rcases hmem with rfl | hmem
    · rw [← hpsh.self]
      exact pushEach_others hstore hpolling hopen' honline' hn
    · rw [← hpsh.store] at hmem
      have hne : outcome.1 ≠ user := by
        rintro rfl
        refine hn ?_
        rw [← map_fst_outcomes ops evt us (push opts outcome.1 evt n).2.store]
        exact mem_map_of_mem hmem
      rw [← hpsh.others _ hne]
      exact ih hopen' honline' hnd hmem

end

end Each

/-! ## `PushMulti`, pass by pass -/

variable {users : List String}

section Multi

variable {store : σ}

lemma deliverAll_store : (deliverAll opts us evt n).store = n.store := by
  induction us generalizing n with
  | nil => rfl
  | cons user us ih => exact ih.trans (delivered_deliverOrRoute opts user _ n).store

lemma deliverAll_others (hu : u ∉ us) : (deliverAll opts us evt n).streamsOf u = n.streamsOf u := by
  induction us generalizing n with
  | nil => rfl
  | cons user us ih =>
    rw [mem_cons, not_or] at hu
    exact (ih hu.2).trans ((delivered_deliverOrRoute opts user _ n).others u hu.1)

/-- The streams of a target are offered the caller's event. -/
lemma deliverAll_target (hnd : us.Nodup) (hu : u ∈ us) : (deliverAll opts us evt n).streamsOf u
      = (n.streamsOf u).map fun q => (q.offer { evt with userID := u }).1 := by
  induction us generalizing n with
  | nil => cases hu
  | cons user us ih =>
    obtain ⟨hn, hnd⟩ := nodup_cons.mp hnd
    have hdelivered := delivered_deliverOrRoute opts user { evt with userID := user } n
    rcases mem_cons.mp hu with rfl | hmem
    · exact (deliverAll_others hn).trans hdelivered.self
    · have hne : u ≠ user := by
        rintro rfl
        exact hn hmem
      rw [← hdelivered.others u hne]
      exact ih hnd hmem

lemma saveAll_le (ops : StoreOps σ ε) (evt : Event) (us : List String) (store : σ) :
    (saveAll ops (eventsFor us evt) store).1 ≤ us.length := by
  induction us generalizing store with
  | nil => exact Nat.zero_le _
  | cons user us ih =>
    have htl := ih (ops.save { evt with userID := user } store).2
    rw [saveAll_cons, length_cons]
    show (if _ then _ else _) + _ ≤ _
    split_ifs <;> omega

lemma saveAll_lt (hmem : outcome ∈ outcomes ops evt us store)
    (hok : outcome.2.toBool = true) : (saveAll ops (eventsFor us evt) store).1 < us.length := by
  induction us generalizing store with
  | nil => cases hmem
  | cons user us ih =>
    have hle := saveAll_le ops evt us (ops.save { evt with userID := user } store).2
    rw [outcomes_cons, mem_cons] at hmem
    rw [saveAll_cons, length_cons]
    show (if _ then _ else _) + _ < _
    rcases hmem with rfl | hmem
    · rw [if_pos hok]
      omega
    · have htl := ih hmem
      split_ifs <;> omega

/-- `PushMulti` over a polling store, when there are targets and one of their saves succeeds. -/
lemma pushMulti_eq (hstore : opts.store = some ops) (hpolling : ops.Polling)
    (hopen : n.closed = false) (hmem : outcome ∈ outcomes ops evt (opts.targets users) n.store)
    (hok : outcome.2.toBool = true) : pushMulti opts users evt n
      = ⟨(saveAll ops (eventsFor (opts.targets users) evt) n.store).1, none,
          deliverAll opts (opts.targets users) evt
            { n with store := (saveAll ops (eventsFor (opts.targets users) evt) n.store).2 }⟩ := by
  have hlt := saveAll_lt hmem hok
  have hcl : ¬ n.closed = true := by simp [hopen]
  have hstreaming : ¬ opts.isStreaming = true := by
    rw [Options.isStreaming, hstore]
    simp [hpolling.polled]
  have htgts : ¬ (opts.targets users).length = 0 := by omega
  simp only [pushMulti, if_neg hcl, if_neg htgts, hstore, hpolling.single,
    if_neg (Nat.ne_of_lt hlt), if_neg hstreaming]

end Multi

/-! ## Which deliveries agree -/

section Agree

variable {qs : List Inbox} {e' : Event}

/-- Two events leave the same queues exactly if they are equal or no stream takes them. -/
lemma map_ch_offer_eq_iff :
    (qs.map fun q => (q.offer e).1).map Inbox.ch = (qs.map fun q => (q.offer e').1).map Inbox.ch
      ↔ ((∃ q ∈ qs, q.Takes) → e = e') := by
  simp only [map_map, map_inj_left, Function.comp_apply, Inbox.ch_offer]
  constructor
  · rintro h ⟨q, hq, htakes⟩
    have hq' := h q hq
    rw [if_pos htakes, if_pos htakes] at hq'
    exact (cons.inj (append_cancel_left hq')).1
  · intro h q hq
    split_ifs with htakes
    · rw [h ⟨q, hq, htakes⟩]
    · rfl

/-- An event that is offered leaves the queues as they are exactly if no stream takes it. -/
lemma map_ch_offer_eq_self_iff :
    (qs.map fun q => (q.offer e).1).map Inbox.ch = qs.map Inbox.ch ↔ ¬ ∃ q ∈ qs, q.Takes := by
  simp only [map_map, map_inj_left, Function.comp_apply, Inbox.ch_offer]
  constructor
  · rintro h ⟨q, hq, htakes⟩
    have hq' := h q hq
    rw [if_pos htakes] at hq'
    simp at hq'
  · intro h q hq
    rw [if_neg fun htakes => h ⟨q, hq, htakes⟩]

/-- The caller's event leaves the queues that the save's event leaves exactly if the save has
succeeded without changing the event, or no stream takes it. -/
lemma map_ch_offerSaved_iff {ε : Type} {result : Except ε Event} :
    (qs.map fun q => (q.offer e).1).map Inbox.ch = (offerSaved result qs).map Inbox.ch
      ↔ ((∃ q ∈ qs, q.Takes) → result = .ok e) := by
  cases result with
  | error =>
    rw [offerSaved, map_ch_offer_eq_self_iff]
    simp
  | ok =>
    rw [offerSaved, map_ch_offer_eq_iff]
    simp [eq_comm]

end Agree

lemma same_pushMulti_iff {ops : StoreOps σ ε} {n : Notifier σ}
    (hstore : opts.store = some ops) (hpolling : ops.Polling)
    (hpresence : opts.Consistent) (hnd : users.Nodup) (hopen : n.closed = false)
    (hmem : outcome ∈ outcomes ops evt (opts.targets users) n.store)
    (hok : outcome.2.toBool = true) :
    ((pushMulti opts users evt n).notifier.Same (pushEach opts users evt n).2
        ∧ (pushMulti opts users evt n).failed = (pushEach opts users evt n).1)
      ↔ LiveAsSaved opts ops users evt n := by
  rw [pushMulti_eq hstore hpolling hopen hmem hok, ← pushEach_filter hstore hpolling hopen,
    ← hpresence users]
  have honline : ∀ u ∈ opts.targets users, opts.offline u = false := by
    intro u hu
    rw [hpresence users] at hu
    simpa using (mem_filter.mp hu).2
  have hdist : (opts.targets users).Nodup := by
    rw [hpresence users]
    exact hnd.filter _
  unfold LiveAsSaved
  generalize opts.targets users = us at honline hdist
  obtain ⟨hfail, hsaved⟩ := pushEach_saves evt hstore hpolling hopen honline
  -- The queues of the users outside the list are as before on both sides.
  have hqueues : ∀ outcome ∈ outcomes ops evt us n.store, ((deliverAll opts us evt { n with store :=
        (saveAll ops (eventsFor us evt) n.store).2 }).queues
          outcome.1 = (pushEach opts us evt n).2.queues outcome.1
        ↔ (n.Listening outcome.1 → outcome.2 = .ok { evt with userID := outcome.1 })) := by
    intro outcome hout
    have hu : outcome.1 ∈ us := by
      rw [← map_fst_outcomes ops evt us n.store]
      exact mem_map_of_mem hout
    unfold Notifier.queues
    rw [deliverAll_target hdist hu, pushEach_target hstore hpolling hopen honline hdist hout]
    exact map_ch_offerSaved_iff
  constructor
  · rintro ⟨hsm, -⟩ outcome hout
    exact (hqueues outcome hout).mp (hsm.queues outcome.1)
  · intro hlv
    refine ⟨⟨deliverAll_store.trans hsaved.symm, fun u => ?_⟩, hfail.symm⟩
    by_cases hu : u ∈ us
    · rw [← map_fst_outcomes ops evt us n.store] at hu
      obtain ⟨outcome, hout, rfl⟩ := mem_map.mp hu
      exact (hqueues outcome hout).mpr (hlv outcome hout)
    · unfold Notifier.queues
      rw [deliverAll_others hu, pushEach_others hstore hpolling hopen honline hu]
      rfl

/-- Nothing is pushed when the notifier is closed: `PushMulti` counts no failures, and every `Push`
is one. -/
lemma pushEach_of_closed {n : Notifier σ} (hcl : n.closed)
    (users : List String) : pushEach opts users evt n = (users.length, n) := by
  induction users with
  | nil => rfl
  | cons user users ih =>
    simp only [pushEach, push, if_pos hcl, ih, Except.toBool, length_cons]
    rw [Nat.add_comm]
    rfl

/-- A notifier with the memory store, the memory tracker, and one stream of ann. -/
def annsOptions : Options MemoryStore NotifyError where
  store := some MemoryStore.ops
  presence := some (MemoryTracker.tracker ⟨AList.insert "ann" ⟨1, none⟩ ∅, false⟩)
  router := false
  instanceID := ""

def annsNotifier (bufferSize : ℕ) : Notifier MemoryStore where
  store := ⟨∅, 0, false⟩
  streams := AList.insert "ann" [⟨[], bufferSize, false, 0⟩] ∅
  closed := false
  routed := []

def newsFor (id : String) : Event := ⟨id, "mailbox.message.sent", "", [], 0⟩

end Mailbox.Notify
