import Mailbox.Lib.Machine
import Mailbox.Notify.Store

/-!
# A stream, its poller, its consumer and the pushes of an instance

`Subscribe` and `Push` of `notify/notifier.go` with `notify/stream.go`: one stream of one user, from
the call of `Subscribe` on, and any number of calls of `Push` for any users, which take their atomic
steps in an arbitrary order.

* The **subscriber** lists the events after `lastEventID`, puts them into the channel as long as
  there is room, and registers the stream; after that it is the poller, which lists a page from
  its own cursor on, and sends it event by event until the channel is full.
* A **push** gets an ID for its event, appends the event to the store, and offers it to the stream
  if that is registered.
* The **consumer** takes events out of the channel once `Subscribe` has returned.

What went into the channel, and from which side, is logged in `accepted`, and what `Next` returned
in `returned`.  `Stream.fed` is what the backfill and the poller have put into the channel.

**`fed_contiguous`**: that is always a contiguous run of the store after `lastEventID`, in order.
-/

namespace Mailbox.Notify

open List Function MemoryStore Cursor

/-! ## The stream -/

/-- Who put an event into the channel. -/
inductive Feed where
  | backfill
  | poll
  | live
  deriving DecidableEq, Repr

/-- `stream`, with what `Subscribe` was asked for and the two logs. -/
structure Stream extends Inbox where
  userID : String
  lastEventID : String
  lastID : String
  pollCursor : String
  accepted : List (Feed × Event)
  returned : List Event

namespace Stream

/-- The stream as `Subscribe` makes it. -/
def new (userID lastEventID : String) (bufferSize : ℕ) : Stream where
  ch := []
  bufferSize := bufferSize
  closed := false
  dropped := 0
  userID := userID
  lastEventID := lastEventID
  lastID := lastEventID
  pollCursor := lastEventID
  accepted := []
  returned := []

/-- A send of the backfill or of the poller that finds room: the cursor moves along. -/
def feed (source : Feed) (evt : Event) (s : Stream) : Stream :=
  { s with
    toInbox := s.enqueue evt
    lastID := evt.id
    pollCursor := evt.id
    accepted := s.accepted ++ [(source, evt)] }

/-- `deliverLocal`, for this stream.  The poller's cursor stays where it is. -/
def deliver (evt : Event) (s : Stream) : Stream :=
  { s with
    toInbox := (s.offer evt).1
    accepted := if (s.offer evt).2 then s.accepted ++ [(.live, evt)] else s.accepted }

/-- `Next`, when the channel has an event. -/
def next (s : Stream) : Stream :=
  match s.ch with
  | [] => s
  | evt :: rest =>
    { s with
      toInbox := { s.toInbox with ch := rest }
      lastID := evt.id
      returned := s.returned ++ [evt] }

/-- What the backfill and the poller have put into the channel. -/
def fed (s : Stream) : List Event := (s.accepted.filter fun a => a.1 ≠ .live).map Prod.snd

/-- What `Push` has put into the channel. -/
def live (s : Stream) : List Event := (s.accepted.filter fun a => a.1 = .live).map Prod.snd

end Stream

/-! ## The actors -/

/-- Where `Subscribe` and, after it, the poll loop are. -/
inductive StreamPhase where
  | subscribing
  | backfilling (page : List Event)
  | polling
  | sending (page : List Event)
  | failed (err : NotifyError)

namespace StreamPhase

/-- `addStream` has been called. -/
def registered : StreamPhase → Bool
  | .polling => true
  | .sending _ => true
  | _ => false

/-- The events that are listed and not yet sent. -/
def page : StreamPhase → List Event
  | .backfilling page => page
  | .sending page => page
  | _ => []

end StreamPhase

/-- Where a call of `Push` is.  A call says whether its user is online, as the presence check finds
it (`true` without one, and when the check fails). -/
inductive PushPhase where
  | called (userID : String) (evt : Event) (online : Bool)
  | assigned (evt : Event)
  | saved (evt : Event)
  | returned (err : Option NotifyError)

/-- The event that has an ID and is not yet offered to the stream. -/
def PushPhase.held : PushPhase → Option Event
  | .assigned evt => some evt
  | .saved evt => some evt
  | _ => none

structure System (ι : Type) where
  store : MemoryStore
  pushes : ι → PushPhase
  phase : StreamPhase
  stream : Stream

inductive Actor (ι : Type) where
  | push (i : ι)
  | subscriber
  | consumer

namespace System

variable {ι : Type} [DecidableEq ι] (sys : System ι)

/-- The stored events of the stream's user. -/
def history : List Event := sys.store.eventsOf sys.stream.userID

def pushStep (i : ι) : System ι :=
  match sys.pushes i with
  | .called userID evt online =>
    if online = false then { sys with pushes := Function.update sys.pushes i (.returned none) }
    else
      match sys.store.assignID { evt with userID := userID } with
      | .error err => { sys with pushes := Function.update sys.pushes i (.returned (some err)) }
      | .ok (evt, store) =>
        { sys with store := store, pushes := Function.update sys.pushes i (.assigned evt) }
  | .assigned evt =>
    { sys with
      store := sys.store.append evt
      pushes := Function.update sys.pushes i (.saved evt) }
  | .saved evt =>
    { sys with
      stream := if evt.userID = sys.stream.userID ∧ sys.phase.registered then
          sys.stream.deliver evt else sys.stream
      pushes := Function.update sys.pushes i (.returned none) }
  | .returned _ => sys

/-- One step of `Subscribe` or of `pollStore`. -/
def subscriberStep : System ι :=
  match sys.phase with
  | .subscribing =>
    if sys.stream.lastEventID = "" then { sys with phase := .polling }
    else
      match sys.store.list sys.stream.userID sys.stream.lastEventID 0 with
      | .error err => { sys with phase := .failed err }
      | .ok events => { sys with phase := .backfilling events }
  | .backfilling [] => { sys with phase := .polling }
  | .backfilling (evt :: page) =>
    -- A full channel does not end the loop, the next event is tried all the same.
    if sys.stream.HasRoom then
      { sys with phase := .backfilling page, stream := sys.stream.feed .backfill evt }
    else { sys with phase := .backfilling page }
  | .polling =>
    match sys.store.list sys.stream.userID sys.stream.pollCursor 100 with
    | .error _ => sys
    | .ok events => { sys with phase := .sending events }
  | .sending [] => { sys with phase := .polling }
  | .sending (evt :: page) =>
    if sys.stream.HasRoom then
      { sys with phase := .sending page, stream := sys.stream.feed .poll evt }
    else { sys with phase := .polling }
  | .failed _ => sys

/-- `Next` can be called once `Subscribe` has returned the stream, and waits for an event. -/
def consumerStep : System ι :=
  if sys.phase.registered then { sys with stream := sys.stream.next } else sys

def step : Actor ι → System ι
  | .push i => sys.pushStep i
  | .subscriber => sys.subscriberStep
  | .consumer => sys.consumerStep

def run (schedule : List (Actor ι)) (sys : System ι) : System ι := schedule.foldl step sys

/-- A store in which the IDs of a user's events are different numbers that have been given out. -/
structure WellFormed (store : MemoryStore) (u : String) : Prop where
  nodup : ((store.eventsOf u).map Event.id).Nodup
  numbered : ∀ e ∈ store.eventsOf u, ∃ n ≤ store.counter, e.id = Nat.repr n

/-- `Subscribe` is about to be called, and so is every `Push`. -/
structure Fresh (sys : System ι) : Prop where
  store : WellFormed sys.store sys.stream.userID
  pushes : ∀ i, (sys.pushes i).held = none
  phase : sys.phase = .subscribing
  stream : sys.stream = .new sys.stream.userID sys.stream.lastEventID sys.stream.bufferSize
  buffer : 1 ≤ sys.stream.bufferSize

end System

/-! ## What the operations on a stream do -/

namespace Stream

variable {s : Stream} {evt : Event} {source : Feed}

lemma feed_fed (h : source ≠ .live) : (s.feed source evt).fed = s.fed ++ [evt] := by
  simp [fed, feed, h]

lemma feed_live (h : source ≠ .live) : (s.feed source evt).live = s.live := by
  simp [live, feed, h]

@[simp] lemma deliver_fed : (s.deliver evt).fed = s.fed := by
  unfold deliver fed
  split_ifs <;> simp

lemma deliver_live :
    (s.deliver evt).live = if s.closed = false ∧ s.HasRoom then s.live ++ [evt] else s.live := by
  by_cases hcl : s.closed
  · simp [deliver, live, Inbox.offer, hcl]
  · by_cases hrm : s.HasRoom <;> simp [deliver, live, Inbox.offer, hcl, hrm]

@[simp] lemma next_userID : s.next.userID = s.userID := by
  unfold next
  split <;> rfl

@[simp] lemma next_pollCursor : s.next.pollCursor = s.pollCursor := by
  unfold next
  split <;> rfl

@[simp] lemma next_accepted : s.next.accepted = s.accepted := by
  unfold next
  split <;> rfl

@[simp] lemma next_fed : s.next.fed = s.fed := by rw [fed, next_accepted, fed]

@[simp] lemma next_live : s.next.live = s.live := by rw [live, next_accepted, live]

end Stream

/-! ## What a step does -/

namespace System

variable {ι : Type} [DecidableEq ι]

/-- Everything that a step can do. -/
inductive Effect (sys : System ι) : Actor ι → System ι → Prop where
  | idle (a : Actor ι) : Effect sys a sys
  | release (i : ι) (err : Option NotifyError) :
      Effect sys (.push i) { sys with pushes := Function.update sys.pushes i (.returned err) }
  | assign (i : ι) (evt : Event) (hopen : sys.store.closed = false) :
      Effect sys (.push i) { sys with
        store := { sys.store with counter := sys.store.counter + 1 }
        pushes := Function.update sys.pushes i
          (.assigned { evt with id := Nat.repr (sys.store.counter + 1) }) }
  | append (i : ι) (evt : Event) (hi : sys.pushes i = .assigned evt) :
      Effect sys (.push i) { sys with
        store := sys.store.append evt
        pushes := Function.update sys.pushes i (.saved evt) }
  | deliver (i : ι) (evt : Event) (hi : sys.pushes i = .saved evt)
      (hu : evt.userID = sys.stream.userID) (hregistered : sys.phase.registered) :
      Effect sys (.push i) { sys with
        stream := sys.stream.deliver evt
        pushes := Function.update sys.pushes i (.returned none) }
  | turn (phase : StreamPhase) (hpage : phase.page = []) (hphase : phase ≠ .subscribing)
      (hregistered : sys.phase.registered → phase.registered) :
      Effect sys .subscriber { sys with phase := phase }
  | list (phase : StreamPhase) (after : String) (limit : ℤ)
      (hafter : after = sys.stream.pollCursor
        ∨ sys.phase = .subscribing ∧ after = sys.stream.lastEventID)
      (hlist : sys.store.list sys.stream.userID after limit = .ok phase.page)
      (hphase : phase ≠ .subscribing) (hregistered : sys.phase.registered → phase.registered) :
      Effect sys .subscriber { sys with phase := phase }
  | skip (evt : Event) (page : List Event) (hphase : sys.phase = .backfilling (evt :: page))
      (hfull : ¬ sys.stream.HasRoom) :
        Effect sys .subscriber { sys with phase := .backfilling page }
  | send (source : Feed) (evt : Event) (phase : StreamPhase) (hsource : source ≠ .live)
      (hroom : sys.stream.HasRoom) (hpage : sys.phase.page = evt :: phase.page)
      (hphase : phase ≠ .subscribing) (hregistered : sys.phase.registered → phase.registered) :
      Effect sys .subscriber { sys with phase := phase, stream := sys.stream.feed source evt }
  | next (hregistered : sys.phase.registered) :
      Effect sys .consumer { sys with stream := sys.stream.next }

variable (sys : System ι)

lemma effect_pushStep (i : ι) : Effect sys (.push i) (sys.pushStep i) := by
  unfold pushStep
  split
  · next userID evt online _ =>
      cases online with
      | false => exact .release i none
      | true =>
        cases hcl : sys.store.closed with
        | true =>
          rw [assignID_of_closed hcl]
          exact .release i _
        | false =>
          rw [assignID, if_neg (ne_true_of_eq_false hcl)]
          exact .assign i _ hcl
  · next evt hi => exact .append i evt hi
  · next evt hi =>
      split_ifs with hoffer
      · exact .deliver i evt hi hoffer.1 hoffer.2
      · exact .release i none
  · exact .idle _

lemma effect_subscriberStep : Effect sys .subscriber sys.subscriberStep := by
  unfold subscriberStep
  split
  · next hph =>
      split_ifs
      · exact .turn _ rfl (by simp) fun _ => rfl
      · split
        · exact .turn _ rfl (by simp) (by simp [hph, StreamPhase.registered])
        · next events hls =>
            exact .list _ _ _ (.inr ⟨hph, rfl⟩) hls (by simp)
              (by simp [hph, StreamPhase.registered])
  · exact .turn _ rfl (by simp) fun _ => rfl
  · next evt page hph =>
      split_ifs with hrm
      · exact .send _ evt _ (by simp) hrm (by rw [hph]; rfl) (by simp)
          (by simp [hph, StreamPhase.registered])
      · exact .skip evt page hph hrm
  · split
    · exact .idle _
    · next events hls => exact .list _ _ _ (.inl rfl) hls (by simp) fun _ => rfl
  · exact .turn _ rfl (by simp) fun _ => rfl
  · next evt page hph =>
      split_ifs with hrm
      · exact .send _ evt _ (by simp) hrm (by rw [hph]; rfl) (by simp) fun _ => rfl
      · exact .turn _ rfl (by simp) fun _ => rfl
  · exact .idle _

lemma effect_step (a : Actor ι) : Effect sys a (sys.step a) := by
  cases a with
  | push i => exact effect_pushStep sys i
  | subscriber => exact effect_subscriberStep sys
  | consumer =>
    show Effect sys .consumer sys.consumerStep
    unfold consumerStep
    split_ifs with hreg
    · exact .next hreg
    · exact .idle _

lemma step_stream_userID (a : Actor ι) : (sys.step a).stream.userID = sys.stream.userID := by
  have heff := effect_step sys a
  generalize sys.step a = sys' at heff ⊢
  cases heff with
  | next => exact Stream.next_userID
  | _ => rfl

end System

/-! ## IDs -/

namespace System

variable {ι : Type} [DecidableEq ι] {sys : System ι} {i : ι}

/-- The ID has been given out. -/
def Given (store : MemoryStore) (id : String) : Prop := ∃ n ≤ store.counter, id = Nat.repr n

lemma Given.ne_next {store : MemoryStore} {id : String} (h : Given store id) :
    id ≠ Nat.repr (store.counter + 1) := by
  obtain ⟨n, hn, rfl⟩ := h
  rw [Ne, repr_inj]
  omega

/-- What is true of the event of a push, by how far it has come. -/
def Sound (store : MemoryStore) (u : String) (history live : List Event) : PushPhase → Prop
  | .assigned evt => Given store evt.id ∧ evt.id ∉ history.map Event.id
  | .saved evt =>
    Given store evt.id ∧ evt.id ∉ live.map Event.id ∧ (evt.userID = u → evt ∈ history)
  | _ => True

/-- IDs are given out once, and an event is offered to the stream at most once. -/
structure Identified (sys : System ι) : Prop where
  nodup : (sys.history.map Event.id).Nodup
  numbered : ∀ e ∈ sys.history, Given sys.store e.id
  live : ∀ e ∈ sys.stream.live, e ∈ sys.history
  once : (sys.stream.live.map Event.id).Nodup
  distinct : ∀ i j, i ≠ j → ∀ e ∈ (sys.pushes i).held, ∀ e' ∈ (sys.pushes j).held, e.id ≠ e'.id
  sound : ∀ i, Sound sys.store sys.stream.userID sys.history sys.stream.live (sys.pushes i)

/-- Different pushes keep holding different IDs when one of them goes on. -/
lemma distinct_update {f : ι → PushPhase} {p : PushPhase}
    (h : ∀ i j, i ≠ j → ∀ e ∈ (f i).held, ∀ e' ∈ (f j).held, e.id ≠ e'.id)
    (hp : ∀ j ≠ i, ∀ e ∈ p.held, ∀ e' ∈ (f j).held, e.id ≠ e'.id) :
    ∀ j k, j ≠ k → ∀ e ∈ (update f i p j).held, ∀ e' ∈ (update f i p k).held, e.id ≠ e'.id := by
  intro j k hjk e he e' he'
  by_cases hj : j = i
  · subst hj
    rw [update_self] at he
    rw [update_of_ne hjk.symm] at he'
    exact hp k hjk.symm e he e' he'
  · rw [update_of_ne hj] at he
    by_cases hk : k = i
    · subst hk
      rw [update_self] at he'
      exact (hp j hj e' he' e he).symm
    · rw [update_of_ne hk] at he'
      exact h j k hjk e he e' he'

section Sound

variable {store store' : MemoryStore} {u : String} {history live : List Event} {p : PushPhase}
  {evt : Event}

section

variable (h : Sound store u history live p)

include h

lemma Sound.given : ∀ e ∈ p.held, Given store e.id := by
  cases p with
  | called | returned => rintro e ⟨⟩
  | assigned | saved => rintro e ⟨⟩; exact h.1

lemma Sound.count (hcounter : store.counter ≤ store'.counter) : Sound store' u history live p := by
  have hgiven : ∀ id, Given store id → Given store' id :=
    fun id ⟨n, hn, hid⟩ => ⟨n, Nat.le_trans hn hcounter, hid⟩
  cases p with
  | called | returned => trivial
  | assigned | saved => exact ⟨hgiven _ h.1, h.2⟩

lemma Sound.append (hne : ∀ e ∈ p.held, e.id ≠ evt.id) :
    Sound store u (history ++ [evt]) live p := by
  cases p with
  | called | returned => trivial
  | assigned e =>
    refine ⟨h.1, ?_⟩
    simpa [h.2] using hne e rfl
  | saved => exact ⟨h.1, h.2.1, fun hu => mem_append_left _ (h.2.2 hu)⟩

lemma Sound.offer (hne : ∀ e ∈ p.held, e.id ≠ evt.id) :
    Sound store u history (live ++ [evt]) p := by
  cases p with
  | called | returned => trivial
  | assigned => exact h
  | saved e =>
    refine ⟨h.1, ?_, h.2.2⟩
    simpa [h.2.1] using hne e rfl

end

end Sound

namespace Identified

variable (h : Identified sys)

include h

lemma release {err : Option NotifyError} :
    Identified { sys with pushes := update sys.pushes i (.returned err) } := by
  refine ⟨h.nodup, h.numbered, h.live, h.once, ?_, ?_⟩
  · exact distinct_update h.distinct (by rintro j - e ⟨⟩)
  · exact (forall_update_iff sys.pushes fun _ q => Sound _ _ _ _ q).mpr
      ⟨trivial, fun j _ => h.sound j⟩

lemma assign (evt : Event) : Identified { sys with
      store := { sys.store with counter := sys.store.counter + 1 }
      pushes := update sys.pushes i
        (.assigned { evt with id := Nat.repr (sys.store.counter + 1) }) } := by
  have hcounter : sys.store.counter ≤ sys.store.counter + 1 := by omega
  refine ⟨h.nodup, ?_, h.live, h.once, ?_, ?_⟩
  · intro e he
    obtain ⟨n, hn, hid⟩ := h.numbered e he
    exact ⟨n, Nat.le_trans hn hcounter, hid⟩
  · refine distinct_update h.distinct ?_
    rintro j - e ⟨⟩ e' he'
    exact (((h.sound j).given e' he').ne_next).symm
  · refine (forall_update_iff sys.pushes fun _ q => Sound _ _ _ _ q).mpr ⟨?_, ?_⟩
    · refine ⟨⟨_, le_rfl, rfl⟩, ?_⟩
      intro hmem
      obtain ⟨e, he, hid⟩ := mem_map.mp hmem
      exact (h.numbered e he).ne_next hid
    · intro j _
      exact (h.sound j).count hcounter

lemma append {evt : Event} (hi : sys.pushes i = .assigned evt) : Identified { sys with
      store := sys.store.append evt
      pushes := update sys.pushes i (.saved evt) } := by
  have hsound : Sound sys.store sys.stream.userID sys.history sys.stream.live (.assigned evt) :=
    hi ▸ h.sound i
  have hnotLive : evt.id ∉ sys.stream.live.map Event.id := by
    intro hmem
    obtain ⟨e, he, hid⟩ := mem_map.mp hmem
    exact hsound.2 (hid ▸ mem_map_of_mem (h.live e he))
  have hoth : ∀ j ≠ i, ∀ e ∈ (sys.pushes j).held, e.id ≠ evt.id :=
    fun j hj e he => h.distinct j i hj e he evt (by rw [hi]; rfl)
  have hsaved : ∀ history, (evt.userID = sys.stream.userID → evt ∈ history) →
      Sound sys.store sys.stream.userID history sys.stream.live (.saved evt) :=
    fun _ hmem => ⟨hsound.1, hnotLive, hmem⟩
  have hdist := distinct_update (p := .saved evt) h.distinct
    (fun j hj e he e' he' => by cases he; exact (hoth j hj e' he').symm)
  let sys' : System ι := { sys with
    store := sys.store.append evt
    pushes := update sys.pushes i (.saved evt) }
  by_cases hu : sys.stream.userID = evt.userID
  · have hhist : sys'.history = sys.history ++ [evt] := by
      show (sys.store.append evt).eventsOf sys.stream.userID = _
      rw [eventsOf_append, if_pos hu]
      rfl
    refine ⟨?_, ?_, ?_, h.once, hdist, ?_⟩
    · show (sys'.history.map Event.id).Nodup
      rw [hhist, map_append]
      exact h.nodup.append (nodup_singleton _) (disjoint_singleton.mpr hsound.2)
    · show ∀ e ∈ sys'.history, Given sys.store e.id
      rw [hhist, forall_mem_append, forall_mem_singleton]
      exact ⟨h.numbered, hsound.1⟩
    · show ∀ e ∈ sys.stream.live, e ∈ sys'.history
      rw [hhist]
      exact fun e he => mem_append_left _ (h.live e he)
    · show ∀ j, Sound sys.store sys.stream.userID sys'.history sys.stream.live
        (update sys.pushes i (.saved evt) j)
      rw [hhist]
      refine (forall_update_iff sys.pushes fun _ q => Sound _ _ _ _ q).mpr ⟨?_, ?_⟩
      · exact hsaved _ fun _ => by simp
      · exact fun j hj => (h.sound j).append (hoth j hj)
  · have hhist : sys'.history = sys.history := by
      show (sys.store.append evt).eventsOf sys.stream.userID = _
      rw [eventsOf_append, if_neg hu]
      rfl
    refine ⟨hhist ▸ h.nodup, hhist ▸ h.numbered, hhist ▸ h.live, h.once, hdist, ?_⟩
    rw [hhist]
    refine (forall_update_iff sys.pushes fun _ q => Sound _ _ _ _ q).mpr ⟨?_, ?_⟩
    · exact hsaved _ fun huser => absurd huser.symm hu
    · exact fun j _ => h.sound j

lemma deliver {evt : Event} (hi : sys.pushes i = .saved evt) (hu : evt.userID = sys.stream.userID) :
    Identified { sys with
      stream := sys.stream.deliver evt
      pushes := update sys.pushes i (.returned none) } := by
  have hsound : Sound sys.store sys.stream.userID sys.history sys.stream.live (.saved evt) :=
    hi ▸ h.sound i
  have hoth : ∀ j ≠ i, ∀ e ∈ (sys.pushes j).held, e.id ≠ evt.id :=
    fun j hj e he => h.distinct j i hj e he evt (by rw [hi]; rfl)
  have hdist := distinct_update (i := i) (p := .returned none) h.distinct (by rintro j - e ⟨⟩)
  have hsounds : ∀ live, (∀ j ≠ i, Sound sys.store sys.stream.userID sys.history live
      (sys.pushes j)) → ∀ j, Sound sys.store sys.stream.userID sys.history live
        (update sys.pushes i (.returned none) j) :=
    fun live hlv => (forall_update_iff sys.pushes fun _ q => Sound _ _ _ _ q).mpr ⟨trivial, hlv⟩
  have hlv : (sys.stream.deliver evt).live = _ := Stream.deliver_live
  by_cases hrm : sys.stream.closed = false ∧ sys.stream.HasRoom
  · rw [if_pos hrm] at hlv
    refine ⟨h.nodup, h.numbered, ?_, ?_, hdist, ?_⟩
    · show ∀ e ∈ (sys.stream.deliver evt).live, e ∈ sys.history
      rw [hlv, forall_mem_append, forall_mem_singleton]
      exact ⟨h.live, hsound.2.2 hu⟩
    · show ((sys.stream.deliver evt).live.map Event.id).Nodup
      rw [hlv, map_append]
      exact h.once.append (nodup_singleton _) (disjoint_singleton.mpr hsound.2.1)
    · show ∀ j, Sound _ _ sys.history (sys.stream.deliver evt).live _
      rw [hlv]
      exact hsounds _ fun j hj => (h.sound j).offer (hoth j hj)
  · rw [if_neg hrm] at hlv
    refine ⟨h.nodup, h.numbered, hlv ▸ h.live, hlv ▸ h.once, hdist, ?_⟩
    rw [hlv]
    exact hsounds _ fun j _ => h.sound j

omit [DecidableEq ι] in
/-- The stream's own steps do not touch the pushes, nor what they have put into the channel. -/
lemma own {stream : Stream} {phase : StreamPhase} (huser : stream.userID = sys.stream.userID)
    (hlv : stream.live = sys.stream.live) :
    Identified { sys with stream := stream, phase := phase } := by
  have hhist : ({ sys with stream := stream, phase := phase } : System ι).history
      = sys.history := by
    rw [history, history, huser]
  refine ⟨hhist ▸ h.nodup, hhist ▸ h.numbered, ?_, hlv ▸ h.once, h.distinct, ?_⟩
  · show ∀ e ∈ stream.live, _
    rw [hlv, hhist]
    exact h.live
  · show ∀ j, Sound sys.store stream.userID _ stream.live _
    rw [hhist, hlv, huser]
    exact h.sound

lemma step (a : Actor ι) : Identified (sys.step a) := by
  have heff := effect_step sys a
  generalize sys.step a = sys' at heff ⊢
  cases heff with
  | idle => exact h
  | release => exact h.release
  | assign i evt => exact h.assign evt
  | append i evt hi => exact h.append hi
  | deliver i evt hi hu => exact h.deliver hi hu
  | turn | list | skip => exact h.own rfl rfl
  | send source evt phase hsrc => exact h.own rfl (Stream.feed_live hsrc)
  | next => exact h.own Stream.next_userID Stream.next_live

end Identified

end System

/-! ## The cursor of the poller -/

namespace System

variable {ι : Type} {sys : System ι}

/-- What the backfill and the poller have put into the channel is a contiguous part of the history,
and the poller's cursor stands at the end of it.  A page of the poller that is on its way comes
next.  The backfill may have left out a part of its page, but then the channel is full and nobody
can take anything out of it before `Subscribe` returns. -/
def Feeding (start : List Event) (known : Prop) (sys : System ι) : Prop :=
  ∃ rest, Cursor.Reader Event.id (· = "") start known sys.history sys.stream.fed rest
      sys.stream.pollCursor
    ∧ (sys.phase.page <+: rest ∨ sys.phase.registered = false ∧ ¬ sys.stream.HasRoom)
    ∧ (sys.phase = .subscribing → sys.stream.pollCursor = sys.stream.lastEventID)

variable {start : List Event} {known : Prop}

namespace Feeding

lemma ne_empty (hid : Identified sys) : ∀ e ∈ sys.history, ¬ e.id = "" := by
  intro e he
  obtain ⟨n, -, hn⟩ := hid.numbered e he
  rw [hn]
  exact Nat.repr_ne_empty

lemma prefix_of_list (hid : Identified sys) {after : String} {limit : ℤ} {events : List Event}
    (hls : sys.store.list sys.stream.userID after limit = .ok events) :
    events <+: seek Event.id after sys.history := by
  cases hcl : sys.store.closed with
  | true =>
    rw [list_of_closed hcl] at hls
    cases hls
  | false =>
    rw [list_of_open hcl (ne_empty hid)] at hls
    cases hls
    exact take_prefix _ _

lemma own {stream : Stream} {phase : StreamPhase} {rest : List Event}
    (hrd : Cursor.Reader Event.id (· = "") start known sys.history stream.fed rest
      stream.pollCursor) (huser : stream.userID = sys.stream.userID)
    (hpg : phase.page <+: rest ∨ phase.registered = false ∧ ¬ stream.HasRoom)
    (hph : phase ≠ .subscribing) :
    Feeding start known { sys with stream := stream, phase := phase } := by
  refine ⟨rest, ?_, hpg, fun h => absurd h hph⟩
  show Cursor.Reader _ _ _ _ (sys.store.eventsOf stream.userID) _ _ _
  rw [huser]
  exact hrd

/-- Another event is stored, or none; the stream itself only receives live events. -/
lemma stored {store : MemoryStore} {pushes : ι → PushPhase} {stream : Stream}
    (h : Feeding start known sys) (hfed : stream.fed = sys.stream.fed)
    (hcur : stream.pollCursor = sys.stream.pollCursor)
    (hl : stream.lastEventID = sys.stream.lastEventID)
    (hrm : sys.phase.registered = false → stream.toInbox = sys.stream.toInbox)
    (hsto : store.eventsOf stream.userID = sys.history ∨
      ∃ evt, store.eventsOf stream.userID = sys.history ++ [evt]
        ∧ ∀ e ∈ sys.history ++ [evt], ¬ e.id = "") :
    Feeding start known { sys with store := store, pushes := pushes, stream := stream } := by
  obtain ⟨rest, hrd, hpg, hsubscribing⟩ := h
  have hpg' : ∀ more, sys.phase.page <+: rest ++ more
      ∨ sys.phase.registered = false ∧ ¬ stream.HasRoom := by
    intro more
    rcases hpg with hpg | ⟨hreg, hfl⟩
    · exact .inl (hpg.trans (prefix_append _ _))
    · exact .inr ⟨hreg, by rw [hrm hreg]; exact hfl⟩
  have hsubscribing' : sys.phase = .subscribing → stream.pollCursor = stream.lastEventID := by
    rw [hcur, hl]
    exact hsubscribing
  rcases hsto with hsto | ⟨evt, hsto, hne⟩
  · refine ⟨rest, ?_, by simpa using hpg' [], hsubscribing'⟩
    show Cursor.Reader _ _ _ _ (store.eventsOf stream.userID) _ _ _
    rw [hsto, hfed, hcur]
    exact hrd
  · refine ⟨rest ++ [evt], ?_, hpg' [evt], hsubscribing'⟩
    show Cursor.Reader _ _ _ _ (store.eventsOf stream.userID) _ _ _
    rw [hsto, hfed, hcur]
    exact hrd.append hne

lemma step [DecidableEq ι] (hid : Identified sys) (h : Feeding start known sys) (a : Actor ι) :
    Feeding start known (sys.step a) := by
  have hne := ne_empty (hid.step a)
  have heff := effect_step sys a
  generalize sys.step a = sys' at heff hne ⊢
  cases heff with
  | idle => exact h
  | release | assign => exact stored h rfl rfl rfl (fun _ => rfl) (.inl rfl)
  | append i evt =>
    refine stored h rfl rfl rfl (fun _ => rfl) ?_
    by_cases hu : sys.stream.userID = evt.userID
    · have hhist : (sys.store.append evt).eventsOf sys.stream.userID = sys.history ++ [evt] := by
        rw [eventsOf_append, if_pos hu]
        rfl
      exact .inr ⟨evt, hhist, hhist ▸ hne⟩
    · refine .inl ?_
      rw [eventsOf_append, if_neg hu]
      rfl
  | deliver i evt hi hu hreg =>
    refine stored h Stream.deliver_fed rfl rfl (fun hn => ?_) (.inl rfl)
    rw [hreg] at hn
    cases hn
  | turn phase hpg hph =>
    obtain ⟨rest, hrd, -⟩ := h
    exact own hrd rfl (.inl (hpg ▸ nil_prefix)) hph
  | list phase after limit haft hls hph =>
    obtain ⟨rest, hrd, -, hcur⟩ := h
    have haft' : after = sys.stream.pollCursor := by
      rcases haft with rfl | ⟨hsubscribing, rfl⟩
      · rfl
      · exact (hcur hsubscribing).symm
    subst haft'
    exact own hrd.seek rfl (.inl (prefix_of_list hid hls)) hph
  | skip evt page hph hfl =>
    obtain ⟨rest, hrd, -⟩ := h
    exact own hrd rfl (.inr ⟨rfl, hfl⟩) (by simp)
  | send source evt phase hsrc hrm hpg hph =>
    obtain ⟨rest, hrd, hlst, -⟩ := h
    rw [hpg] at hlst
    obtain ⟨tail, rfl⟩ := hlst.resolve_right fun hfl => hfl.2 hrm
    refine own (?_ : Cursor.Reader _ _ _ _ _ _ (phase.page ++ tail) _) rfl
      (.inl (prefix_append _ _)) hph
    rw [Stream.feed_fed hsrc]
    exact hrd.take hid.nodup
  | next hreg =>
    obtain ⟨rest, hrd, hpg, -⟩ := h
    refine own (?_ : Cursor.Reader _ _ _ _ _ _ rest _) Stream.next_userID ?_ ?_
    · rw [Stream.next_fed, Stream.next_pollCursor]
      exact hrd
    · refine .inl (hpg.resolve_right fun hfl => ?_)
      rw [hreg] at hfl
      exact absurd hfl.1 (by simp)
    · rintro hph
      rw [hph] at hreg
      cases hreg

end Feeding

/-! ## Runs -/

lemma Fresh.identified (h : sys.Fresh) : Identified sys := by
  have hlv : sys.stream.live = [] := by
    rw [h.stream]
    rfl
  have hsound : ∀ i, Sound sys.store sys.stream.userID sys.history sys.stream.live
      (sys.pushes i) := by
    intro i
    have hheld := h.pushes i
    cases hi : sys.pushes i with
    | called | returned => trivial
    | assigned | saved => rw [hi] at hheld; cases hheld
  refine ⟨h.store.nodup, h.store.numbered, ?_, ?_, ?_, hsound⟩
  · simp [hlv]
  · simp [hlv]
  · intro i j _ e he
    rw [h.pushes i] at he
    cases he

/-- The starting point is known when `lastEventID` is empty or the ID of a stored event. -/
def Known (sys : System ι) : Prop :=
  sys.stream.lastEventID ∈ sys.history.map Event.id ∨ sys.stream.lastEventID = ""

lemma Fresh.feeding (h : sys.Fresh) :
    Feeding (upTo Event.id sys.stream.lastEventID sys.history) sys.Known sys := by
  have hfed : sys.stream.fed = [] := by
    rw [h.stream]
    rfl
  have hcur : sys.stream.pollCursor = sys.stream.lastEventID := by
    rw [h.stream]
    rfl
  refine ⟨seek Event.id sys.stream.pollCursor sys.history, ?_, ?_, fun _ => hcur⟩
  · rw [hfed, hcur]
    refine ⟨⟨_, upTo_append_seek.symm, fun _ => rfl⟩, fun hkn => ⟨rfl, ?_⟩⟩
    exact hkn.resolve_right (by simp)
  · rw [h.phase]
    exact .inl nil_prefix

section Run

variable [DecidableEq ι] (schedule : List (Actor ι))

lemma run_induction {inv : System ι → Prop} (hstep : ∀ s a, inv s → inv (step s a)) (h : inv sys) :
    inv (sys.run schedule) :=
  foldlRecOn schedule step h fun s hs a _ => hstep s a hs

@[simp] lemma run_stream_userID : (sys.run schedule).stream.userID = sys.stream.userID := by
  induction schedule generalizing sys with
  | nil => rfl
  | cons a schedule ih => exact ih.trans (step_stream_userID sys a)

lemma Fresh.run (h : sys.Fresh) : Identified (sys.run schedule) ∧
      Feeding (upTo Event.id sys.stream.lastEventID sys.history) sys.Known (sys.run schedule) := by
  have hstep : ∀ (s : System ι) (a : Actor ι), (Identified s ∧ Feeding
        (upTo Event.id sys.stream.lastEventID sys.history) sys.Known s) →
      (Identified (s.step a) ∧ Feeding
        (upTo Event.id sys.stream.lastEventID sys.history) sys.Known (s.step a)) :=
    fun s a hs => ⟨hs.1.step a, hs.2.step hs.1 a⟩
  exact run_induction schedule hstep ⟨h.identified, h.feeding⟩

/-- **Backfill and polling never skip or reorder.**  Whatever the interleaving of pushes, poll
steps, live deliveries and calls of `Next`, the events that the backfill and the poller have put
into the channel are the ones that follow `lastEventID` in the store, up to some point, each of them
once. -/
theorem fed_contiguous (sys : System ι) (h : sys.Fresh)
    (hlast : sys.stream.lastEventID ∈ sys.history.map Event.id) (schedule : List (Actor ι)) :
    (∃ rest, Cursor.seek Event.id sys.stream.lastEventID
        ((sys.run schedule).store.eventsOf sys.stream.userID)
          = (sys.run schedule).stream.fed ++ rest)
      ∧ ((sys.run schedule).stream.fed.map Event.id).Nodup := by
  obtain ⟨hid, rest, hrd, -⟩ := h.run schedule
  refine ⟨⟨rest, ?_⟩, hrd.nodup hid.nodup⟩
  obtain ⟨before, hspl, hbef⟩ := hrd.split
  rw [history, run_stream_userID, hbef (.inl hlast)] at hspl
  rw [hspl, Cursor.seek_upTo_append hlast]

end Run

/-! Bob has two events and has seen the first; a third one is pushed while their channel, which
holds one event, is full. -/

def bobsEvent (id : String) : Event := ⟨id, "mailbox.message.received", "bob", [], 0⟩

def bobsSystem : System Unit where
  store := ⟨(∅ : AList _).insert "bob" [bobsEvent "1", bobsEvent "2"], 2, false⟩
  pushes := fun _ => .called "bob" (bobsEvent "") true
  phase := .subscribing
  stream := .new "bob" "1" 1

def bobsSchedule : List (Actor Unit) :=
  [.subscriber, .subscriber, .subscriber, .push (), .push (), .push (), .consumer, .subscriber,
    .subscriber]

lemma bobsSystem_fresh : bobsSystem.Fresh := by
  refine ⟨⟨by decide, ?_⟩, fun _ => rfl, rfl, rfl, by decide⟩
  have hevs : bobsSystem.store.eventsOf "bob" = [bobsEvent "1", bobsEvent "2"] := rfl
  show ∀ e ∈ bobsSystem.store.eventsOf "bob", _
  rw [hevs, forall_mem_cons, forall_mem_singleton]
  exact ⟨⟨1, by decide, by decide⟩, 2, by decide, by decide⟩

theorem fed_contiguous_bob :
    (∃ rest, Cursor.seek Event.id "1" ((bobsSystem.run bobsSchedule).store.eventsOf "bob")
        = (bobsSystem.run bobsSchedule).stream.fed ++ rest)
      ∧ ((bobsSystem.run bobsSchedule).stream.fed.map Event.id).Nodup
      ∧ (bobsSystem.run bobsSchedule).stream.fed = [bobsEvent "2", bobsEvent "3"] := by
  have hfed := fed_contiguous bobsSystem bobsSystem_fresh (by decide) bobsSchedule
  exact ⟨hfed.1, hfed.2, by decide⟩

end System

end Mailbox.Notify
