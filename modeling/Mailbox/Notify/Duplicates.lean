import Mailbox.Notify.Stream

/-!
# Events that are delivered twice, and old events

A push saves its event and then offers it to the open streams of the user.  The poller of such a
stream has its own cursor, which a live delivery does not move, so it lists the event as well:
**whatever is delivered live is delivered once more by the poller**, unless it stands before the
point at which the stream started to read.

* `Harmless` — the step is not a live delivery that finds room in the channel, or the event stands
  at or before `lastEventID`.
* `Fifo` — the channel hands out what was put into it, in that order.

Without a harmful step there are no duplicates (`noDuplicates_of_harmless`); after one, the poller
and the consumer alone produce one (`exists_duplicate`), if the stream's starting point is known.

The poller of a stream without a `lastEventID` starts at the beginning of the store, so the stream
also returns what was saved before it was opened (`returned_new_iff`).
-/

namespace Mailbox.Notify

open List

/-! ## First in, first out -/

namespace Stream

variable {s : Stream} {evt : Event} {source : Feed}

/-- What was returned and what is in the channel, together, is what was put in. -/
def Fifo (s : Stream) : Prop := s.returned ++ s.ch = s.accepted.map Prod.snd

lemma Fifo.feed (h : s.Fifo) : (s.feed source evt).Fifo := by
  show s.returned ++ (s.ch ++ [evt]) = (s.accepted ++ [(source, evt)]).map Prod.snd
  rw [← append_assoc, h]
  simp

lemma Fifo.deliver (h : s.Fifo) : (s.deliver evt).Fifo := by
  unfold Stream.deliver Inbox.offer
  by_cases hcl : s.closed
  · simpa [Fifo, hcl] using h
  · by_cases hrm : s.HasRoom
    · simp only [hcl, hrm, if_true]
      exact h.feed
    · simpa [Fifo, hcl, hrm] using h

lemma Fifo.next (h : s.Fifo) : s.next.Fifo := by
  unfold Stream.next
  split
  · exact h
  · next evt rest hch =>
      rw [Fifo, hch] at h
      show (s.returned ++ [evt]) ++ rest = s.accepted.map Prod.snd
      rw [← h]
      simp

lemma accepted_perm : (s.accepted.map Prod.snd).Perm (s.live ++ s.fed) := by
  have hpm := filter_append_perm (fun a : Feed × Event => decide (a.1 = .live)) s.accepted
  have hfed : s.fed = (s.accepted.filter fun a => !decide (a.1 = .live)).map Prod.snd := by
    simp [fed]
  rw [hfed, live, ← map_append]
  exact (hpm.map Prod.snd).symm

end Stream

namespace System

variable {ι : Type} [DecidableEq ι] {sys : System ι} {start : List Event}

/-- `Next` has returned no event twice. -/
def NoDuplicates (sys : System ι) : Prop := (sys.stream.returned.map Event.id).Nodup

/-- The event that the next step of a push is to deliver. -/
def toDeliver : PushPhase → Option Event
  | .saved evt => some evt
  | _ => none

/-- The step delivers nothing live, or an event from before the stream's starting point. -/
def Harmless (start : List Event) (sys : System ι) : Actor ι → Prop
  | .push i => ∀ evt ∈ toDeliver (sys.pushes i), evt.userID = sys.stream.userID →
      sys.phase.registered → sys.stream.closed = false → sys.stream.HasRoom → evt ∈ start
  | _ => True

instance (start : List Event) (sys : System ι) : ∀ a, Decidable (Harmless start sys a)
  | .push i => inferInstanceAs (Decidable (∀ evt ∈ toDeliver (sys.pushes i), _))
  | .subscriber => isTrue trivial
  | .consumer => isTrue trivial

lemma fifo_step (h : sys.stream.Fifo) (a : Actor ι) : (sys.step a).stream.Fifo := by
  have heff := effect_step sys a
  generalize sys.step a = sys' at heff ⊢
  cases heff with
  | deliver => exact h.deliver
  | send => exact h.feed
  | next => exact h.next
  | _ => exact h

/-- What a harmless step delivers live comes from before the starting point. -/
lemma live_step (h : ∀ e ∈ sys.stream.live, e ∈ start) {a : Actor ι} (ha : Harmless start sys a) :
    ∀ e ∈ (sys.step a).stream.live, e ∈ start := by
  have heff := effect_step sys a
  generalize sys.step a = sys' at heff ⊢
  cases heff with
  | deliver i evt hi hu hreg =>
    show ∀ e ∈ (sys.stream.deliver evt).live, e ∈ start
    rw [Stream.deliver_live]
    split_ifs with hrm
    · rw [forall_mem_append, forall_mem_singleton]
      exact ⟨h, ha evt (by rw [hi]; rfl) hu hreg hrm.1 hrm.2⟩
    · exact h
  | send source evt phase hsrc =>
    show ∀ e ∈ (sys.stream.feed source evt).live, e ∈ start
    rwa [Stream.feed_live hsrc]
  | next =>
    show ∀ e ∈ sys.stream.next.live, e ∈ start
    rwa [Stream.next_live]
  | _ => exact h

/-! ## No harm, no duplicates -/

omit [DecidableEq ι] in
/-- The IDs of the events in the log are different when the live ones come from before the starting
point. -/
lemma nodup_accepted {known : Prop} (hid : Identified sys) (hfeed : Feeding start known sys)
    (hlv : ∀ e ∈ sys.stream.live, e ∈ start) (hst : ¬ known → start = []) :
    ((sys.stream.accepted.map Prod.snd).map Event.id).Nodup := by
  obtain ⟨rest, hrd, -⟩ := hfeed
  obtain ⟨before, hspl, hbef⟩ := hrd.split
  rw [(sys.stream.accepted_perm.map Event.id).nodup_iff, map_append, nodup_append]
  refine ⟨hid.once, hrd.nodup hid.nodup, ?_⟩
  intro id hid₁ id' hid₂ heq
  obtain ⟨e, he, rfl⟩ := mem_map.mp hid₁
  obtain ⟨e', he', rfl⟩ := mem_map.mp hid₂
  have hkn : known := by
    by_contra hunk
    have hmem := hlv e he
    rw [hst hunk] at hmem
    cases hmem
  have hnd := hid.nodup
  rw [hspl, hbef hkn, map_append, nodup_append] at hnd
  refine hnd.2.2 e.id (mem_map_of_mem (hlv e he)) e'.id ?_ heq
  exact mem_map_of_mem (mem_append_left _ he')

lemma Fresh.fifo (h : sys.Fresh) (schedule : List (Actor ι)) : (sys.run schedule).stream.Fifo := by
  have hfifo : sys.stream.Fifo := by
    rw [h.stream]
    rfl
  have hstep : ∀ (s : System ι) (a : Actor ι), s.stream.Fifo → (s.step a).stream.Fifo :=
    fun s a hs => fifo_step hs a
  exact run_induction schedule hstep hfifo

/-- **Runs without a harmful step have no duplicates.** -/
lemma noDuplicates_of_harmless (h : sys.Fresh) (schedule : List (Actor ι))
    (hok : ∀ e ∈ Machine.steps step schedule sys,
      Harmless (Cursor.upTo Event.id sys.stream.lastEventID sys.history) e.1 e.2) (n : ℕ) :
    NoDuplicates (sys.run (schedule.take n)) := by
  let start := Cursor.upTo Event.id sys.stream.lastEventID sys.history
  have hlv₀ : ∀ e ∈ sys.stream.live, e ∈ start := by
    rw [h.stream]
    rintro e ⟨⟩
  have hstep : ∀ (s : System ι) (a : Actor ι), (∀ e ∈ s.stream.live, e ∈ start) →
      Harmless start s a → ∀ e ∈ (s.step a).stream.live, e ∈ start :=
    fun s a hs ha => live_step hs ha
  have hlv := Machine.steps_induction hstep hok hlv₀ n
  have hst : ¬ sys.Known → start = [] := by
    intro hunk
    rw [Known, not_or] at hunk
    exact Cursor.upTo_of_not_mem hunk.1
  obtain ⟨hid, hfeed⟩ := h.run (schedule.take n)
  have hnd := nodup_accepted hid hfeed hlv hst
  rw [← h.fifo (schedule.take n), map_append] at hnd
  exact hnd.of_append_left

/-! ## Harm is done -/

lemma run_append (schedule more : List (Actor ι)) :
    sys.run (schedule ++ more) = (sys.run schedule).run more := foldl_append

/-- A stream that is read from a known starting point, and whose store answers. -/
structure Ready (start : List Event) (sys : System ι) : Prop where
  identified : Identified sys
  feeding : Feeding start True sys
  fifo : sys.stream.Fifo
  registered : sys.phase.registered
  store : sys.store.closed = false
  buffer : 1 ≤ sys.stream.bufferSize

/-- Nothing but the stream and its poller has moved. -/
structure Later (sys sys' : System ι) : Prop where
  history : sys'.history = sys.history
  live : sys'.stream.live = sys.stream.live

omit [DecidableEq ι] in
lemma Later.trans {sys' sys'' : System ι} (h : Later sys sys') (h' : Later sys' sys'') :
    Later sys sys'' :=
  ⟨h'.history.trans h.history, h'.live.trans h.live⟩

namespace Ready

variable (h : Ready start sys)

include h

omit [DecidableEq ι] in
lemma split : sys.history
    = start ++ (sys.stream.fed ++ Cursor.seek Event.id sys.stream.pollCursor sys.history) := by
  obtain ⟨rest, hrd, -⟩ := h.feeding
  obtain ⟨before, hspl, hbef⟩ := hrd.split
  rw [← (hrd.cursor (.inl trivial)).1, ← hbef trivial]
  exact hspl

/-- A step that moves the stream and its poller, whatever it is, leaves the stream ready. -/
lemma moved {a : Actor ι} {phase : StreamPhase} {stream : Stream}
    (hstep : sys.step a = { sys with phase := phase, stream := stream })
    (hreg : phase.registered) (huser : stream.userID = sys.stream.userID)
    (hbuffer : stream.bufferSize = sys.stream.bufferSize) (hlv : stream.live = sys.stream.live) :
    Ready start (sys.step a) ∧ Later sys (sys.step a) := by
  have hidentified := h.identified.step a
  have hfeeding := h.feeding.step h.identified a
  have hfifo := fifo_step h.fifo a
  rw [hstep] at *
  exact ⟨⟨hidentified, hfeeding, hfifo, hreg, h.store, hbuffer ▸ h.buffer⟩,
    congrArg sys.store.eventsOf huser, hlv⟩

lemma consume : Ready start (sys.step .consumer) ∧ Later sys (sys.step .consumer)
      ∧ (sys.step .consumer).stream = sys.stream.next := by
  have hstep : sys.step .consumer = { sys with stream := sys.stream.next } := if_pos h.registered
  have hbuffer : sys.stream.next.bufferSize = sys.stream.bufferSize := by
    unfold Stream.next
    split <;> rfl
  obtain ⟨hrdy, hlat⟩ := h.moved hstep h.registered Stream.next_userID hbuffer Stream.next_live
  exact ⟨hrdy, hlat, by rw [hstep]⟩

lemma drain : ∃ more, Ready start (sys.run more) ∧ Later sys (sys.run more)
    ∧ (sys.run more).stream.ch = [] ∧ (sys.run more).stream.fed = sys.stream.fed := by
  generalize hlen : sys.stream.ch.length = n
  induction n generalizing sys with
  | zero => exact ⟨[], h, ⟨rfl, rfl⟩, length_eq_zero_iff.mp hlen, rfl⟩
  | succ n ih =>
    obtain ⟨hrdy, hlat, hstrm⟩ := h.consume
    have hnx : (sys.step .consumer).stream.ch.length = n := by
      rw [hstrm, Stream.next]
      split
      · next hch => simp [hch] at hlen
      · next evt rest hch => simpa [hch] using hlen
    obtain ⟨more, hrdy', hlat', hemp, hfed⟩ := ih hrdy hnx
    refine ⟨.consumer :: more, hrdy', hlat.trans hlat', hemp, hfed.trans ?_⟩
    rw [hstrm, Stream.next_fed]

variable {evt : Event}

/-- A page that is listed is sent, at least its first event, once the channel is empty. -/
lemma send {page : List Event} (hemp : sys.stream.ch = [])
    (hph : sys.phase = .sending (evt :: page)) :
    Ready start (sys.step .subscriber) ∧ Later sys (sys.step .subscriber)
      ∧ (sys.step .subscriber).stream.fed = sys.stream.fed ++ [evt] := by
  have hrm : sys.stream.HasRoom := by
    have hbuffer := h.buffer
    rw [Inbox.HasRoom, hemp]
    exact hbuffer
  have hstep : sys.step .subscriber
      = { sys with phase := .sending page, stream := sys.stream.feed .poll evt } := by
    show sys.subscriberStep = _
    rw [subscriberStep, hph]
    exact if_pos hrm
  obtain ⟨hrdy, hlat⟩ := h.moved hstep rfl rfl rfl (Stream.feed_live (by decide))
  refine ⟨hrdy, hlat, ?_⟩
  rw [hstep]
  exact Stream.feed_fed (by decide)

lemma list (hph : sys.phase = .polling) : sys.step .subscriber = { sys with
      phase := .sending ((Cursor.seek Event.id sys.stream.pollCursor sys.history).take 100) } := by
  show sys.subscriberStep = _
  rw [subscriberStep, hph]
  simp only
  rw [MemoryStore.list_of_open h.store (Feeding.ne_empty h.identified)]
  rfl

omit [DecidableEq ι] in
lemma page : sys.phase.page <+: Cursor.seek Event.id sys.stream.pollCursor sys.history := by
  obtain ⟨rest, hrd, hpg, -⟩ := h.feeding
  rw [← (hrd.cursor (.inl trivial)).1]
  refine hpg.resolve_right fun hfl => ?_
  rw [h.registered] at hfl
  exact absurd hfl.1 (by simp)

omit [DecidableEq ι] in
/-- Where nothing was fed, the cursor still points at the same events. -/
lemma seek_eq {sys' : System ι} (h' : Ready start sys') (hlat : Later sys sys')
    (more rest : List Event) (hfed : sys'.stream.fed = sys.stream.fed ++ more)
    (hrest : Cursor.seek Event.id sys.stream.pollCursor sys.history = more ++ rest) :
    Cursor.seek Event.id sys'.stream.pollCursor sys'.history = rest := by
  have hspl := h.split
  rw [hrest] at hspl
  have heq := hspl.symm.trans (hlat.history.symm.trans h'.split)
  rw [hfed] at heq
  simpa using heq.symm

section

variable {rest : List Event}
  (hrest : Cursor.seek Event.id sys.stream.pollCursor sys.history = evt :: rest)

include hrest

/-- From an empty channel, the poller sends the next event in two steps. -/
lemma advance_polling (hemp : sys.stream.ch = []) (hph : sys.phase = .polling) :
    ∃ more, Ready start (sys.run more) ∧ Later sys (sys.run more)
      ∧ (sys.run more).stream.fed = sys.stream.fed ++ [evt] := by
  have hls := h.list hph
  obtain ⟨hrdy, hlat⟩ := h.moved hls rfl rfl rfl rfl
  have hstrm : (sys.step .subscriber).stream = sys.stream := by rw [hls]
  have hph' : (sys.step .subscriber).phase = .sending (evt :: rest.take 99) := by
    rw [hls, hrest]
    rfl
  obtain ⟨hrdy', hlat', hfed⟩ := hrdy.send (hstrm ▸ hemp) hph'
  exact ⟨[.subscriber, .subscriber], hrdy', hlat.trans hlat', hstrm ▸ hfed⟩

/-- **The poller gets to the next event**, with the help of the consumer. -/
lemma advance : ∃ more, Ready start (sys.run more) ∧ Later sys (sys.run more)
      ∧ (sys.run more).stream.fed = sys.stream.fed ++ [evt] := by
  obtain ⟨more, hrdy, hlat, hemp, hfed⟩ := h.drain
  have hrest' := h.seek_eq hrdy hlat [] _ (by simpa using hfed) hrest
  -- It is enough to get there from the state with the empty channel.
  suffices hgoal : ∃ more', Ready start ((sys.run more).run more')
      ∧ Later (sys.run more) ((sys.run more).run more')
      ∧ ((sys.run more).run more').stream.fed = (sys.run more).stream.fed ++ [evt] by
    obtain ⟨more', hrdy', hlat', hfed'⟩ := hgoal
    refine ⟨more ++ more', ?_⟩
    rw [run_append, ← hfed]
    exact ⟨hrdy', hlat.trans hlat', hfed'⟩
  generalize sys.run more = sys' at hrdy hrest' hemp
  cases hph : sys'.phase with
  | subscribing | backfilling | failed => have := hrdy.registered; rw [hph] at this; cases this
  | polling => exact hrdy.advance_polling hrest' hemp hph
  | sending page =>
    have hpg := hrdy.page
    rw [hph, hrest'] at hpg
    cases page with
    | nil =>
      have hstep : sys'.step .subscriber = { sys' with phase := .polling } := by
        show sys'.subscriberStep = _
        rw [subscriberStep, hph]
      have hstrm : (sys'.step .subscriber).stream = sys'.stream := by rw [hstep]
      obtain ⟨hrdy', hlat'⟩ := hrdy.moved hstep rfl rfl rfl rfl
      have hrest'' := hrdy.seek_eq hrdy' hlat' [] _ (by simp [hstrm]) hrest'
      obtain ⟨more', hrdy'', hlat'', hfed''⟩ := hrdy'.advance_polling hrest''
        (by rw [hstrm]; exact hemp) (by rw [hstep])
      rw [hstrm] at hfed''
      exact ⟨.subscriber :: more', hrdy'', hlat'.trans hlat'', hfed''⟩
    | cons =>
      obtain ⟨rfl, -⟩ := cons_prefix_cons.mp hpg
      obtain ⟨hrdy', hlat', hfed'⟩ := hrdy.send hemp hph
      exact ⟨[.subscriber], hrdy', hlat', hfed'⟩

end

/-- Sooner or later the poller sends every event that comes after its cursor. -/
lemma reach (hmem : evt ∈ Cursor.seek Event.id sys.stream.pollCursor sys.history) :
    ∃ more, Ready start (sys.run more) ∧ Later sys (sys.run more)
      ∧ evt ∈ (sys.run more).stream.fed := by
  generalize hrest : Cursor.seek Event.id sys.stream.pollCursor sys.history = rest at hmem
  induction rest generalizing sys with
  | nil => cases hmem
  | cons evt' rest ih =>
    obtain ⟨more, hrdy, hlat, hfed⟩ := h.advance hrest
    rcases mem_cons.mp hmem with rfl | hmem
    · exact ⟨more, hrdy, hlat, by simp [hfed]⟩
    · have hrest' := h.seek_eq hrdy hlat [evt'] rest hfed hrest
      obtain ⟨more', hrdy', hlat', hevt⟩ := ih hrdy hrest' hmem
      refine ⟨more ++ more', ?_⟩
      rw [run_append]
      exact ⟨hrdy', hlat.trans hlat', hevt⟩

/-- **What was delivered live, and is not from before the starting point, will be returned twice.**
-/
lemma exists_duplicate (hlv : evt ∈ sys.stream.live) (hevt : evt ∉ start) :
    ∃ more, ¬ NoDuplicates (sys.run more) := by
  have hfed : ∃ more, Ready start (sys.run more) ∧ evt ∈ (sys.run more).stream.live
      ∧ evt ∈ (sys.run more).stream.fed := by
    have hmem := h.identified.live evt hlv
    rw [h.split, mem_append, mem_append] at hmem
    rcases hmem.resolve_left hevt with hmem | hmem
    · exact ⟨[], h, hlv, hmem⟩
    · obtain ⟨more, hrdy, hlat, hmem⟩ := h.reach hmem
      exact ⟨more, hrdy, hlat.live ▸ hlv, hmem⟩
  obtain ⟨more, hrdy, hlv', hfed'⟩ := hfed
  obtain ⟨more', hrdy', hlat, hemp, hsm⟩ := hrdy.drain
  refine ⟨more ++ more', ?_⟩
  rw [run_append, NoDuplicates]
  have hret : ((sys.run more).run more').stream.returned
      = ((sys.run more).run more').stream.accepted.map Prod.snd := by
    rw [← hrdy'.fifo, hemp, append_nil]
  rw [hret, (Stream.accepted_perm.map Event.id).nodup_iff, map_append, nodup_append]
  rintro ⟨-, -, hdisj⟩
  rw [hlat.live, hsm] at hdisj
  exact hdisj evt.id (mem_map_of_mem hlv') evt.id (mem_map_of_mem hfed') rfl

end Ready

/-! ## Runs -/

/-- A stream that is open for reading, and has got an event from a push. -/
structure Delivered (evt : Event) (sys : System ι) : Prop where
  registered : sys.phase.registered
  store : sys.store.closed = false
  buffer : 1 ≤ sys.stream.bufferSize
  live : evt ∈ sys.stream.live

lemma Delivered.step {evt : Event} (h : Delivered evt sys) (a : Actor ι) :
    Delivered evt (sys.step a) := by
  have heff := effect_step sys a
  generalize sys.step a = sys' at heff ⊢
  cases heff with
  | deliver i evt' =>
    refine ⟨h.registered, h.store, ?_, ?_⟩
    · show 1 ≤ (sys.stream.offer evt').1.bufferSize
      unfold Inbox.offer
      split_ifs <;> exact h.buffer
    · show evt ∈ (sys.stream.deliver evt').live
      rw [Stream.deliver_live]
      split_ifs
      · exact mem_append_left _ h.live
      · exact h.live
  | turn phase hpg hph hreg => exact { h with registered := hreg h.registered }
  | list phase after limit haft hls hph hreg =>
    exact { h with registered := hreg h.registered }
  | skip evt' page hph =>
    have hreg := h.registered
    rw [hph] at hreg
    cases hreg
  | send source evt' phase hsrc hrm hpg hph hreg =>
    refine ⟨hreg h.registered, h.store, h.buffer, ?_⟩
    show evt ∈ (sys.stream.feed source evt').live
    rw [Stream.feed_live hsrc]
    exact h.live
  | next =>
    refine ⟨h.registered, h.store, ?_, ?_⟩
    · show 1 ≤ sys.stream.next.bufferSize
      unfold Stream.next
      split <;> exact h.buffer
    · show evt ∈ sys.stream.next.live
      rw [Stream.next_live]
      exact h.live
  | _ => exact ⟨h.registered, h.store, h.buffer, h.live⟩

/-- While the store is closed, no push holds an event. -/
def Idle (sys : System ι) : Prop := sys.store.closed → ∀ i, (sys.pushes i).held = none

lemma Idle.step (h : Idle sys) (a : Actor ι) : Idle (sys.step a) := by
  have heff := effect_step sys a
  generalize sys.step a = sys' at heff ⊢
  cases heff with
  | release =>
    intro hcl
    exact (Function.forall_update_iff sys.pushes fun _ q => q.held = none).mpr
      ⟨rfl, fun j _ => h hcl j⟩
  | assign i evt hop =>
    intro hcl
    rw [hop] at hcl
    cases hcl
  | append i evt hi | deliver i evt hi =>
    intro hcl
    have hno := h hcl i
    rw [hi] at hno
    cases hno
  | _ => exact h

/-- A harmful step leaves an event in the channel that the poller sends as well. -/
lemma delivered_of_harmful (h : Idle sys) {a : Actor ι} (ha : ¬ Harmless start sys a) :
    ∃ evt, evt ∉ start ∧ Delivered evt (sys.step a) := by
  cases a with
  | subscriber | consumer => exact absurd trivial ha
  | push i =>
    simp only [Harmless] at ha
    push Not at ha
    obtain ⟨evt, hevt, hu, hreg, hcl, hrm, hst⟩ := ha
    have hi : sys.pushes i = .saved evt := by
      cases hph : sys.pushes i with
      | saved =>
        rw [hph] at hevt
        cases hevt
        rfl
      | _ => rw [hph] at hevt; cases hevt
    have hstep : sys.step (.push i) = { sys with
        stream := sys.stream.deliver evt
        pushes := Function.update sys.pushes i (.returned none) } := by
      show sys.pushStep i = _
      rw [pushStep, hi]
      simp only [hu, hreg, and_self, if_true]
    have hsto : sys.store.closed = false := by
      by_contra hn
      have hno := h (by simpa using hn) i
      rw [hi] at hno
      cases hno
    have hbuffer : (sys.stream.deliver evt).bufferSize = sys.stream.bufferSize := by
      show (sys.stream.offer evt).1.bufferSize = _
      unfold Inbox.offer
      split_ifs <;> rfl
    rw [hstep]
    refine ⟨evt, hst, hreg, hsto, ?_, ?_⟩
    · show 1 ≤ (sys.stream.deliver evt).bufferSize
      rw [hbuffer]
      exact Nat.lt_of_le_of_lt (Nat.zero_le _) hrm
    · show evt ∈ (sys.stream.deliver evt).live
      rw [Stream.deliver_live, if_pos ⟨hcl, hrm⟩]
      simp

/-- **At most once, as long as live deliveries do no harm.**  A run of harmless steps returns no
event twice.  Any other run can be continued to one that does, when the stream started at an event
of the store or at the beginning. -/
theorem returned_once_iff_harmless (sys : System ι) (h : sys.Fresh) (schedule : List (Actor ι)) :
    ((∀ e ∈ Machine.steps step schedule sys,
        Harmless (Cursor.upTo Event.id sys.stream.lastEventID sys.history) e.1 e.2) →
      ∀ n, NoDuplicates (sys.run (schedule.take n)))
    ∧ (sys.Known → (∃ e ∈ Machine.steps step schedule sys,
          ¬ Harmless (Cursor.upTo Event.id sys.stream.lastEventID sys.history) e.1 e.2) →
        ∃ more, ¬ NoDuplicates (sys.run (schedule ++ more))) := by
  refine ⟨noDuplicates_of_harmless h schedule, ?_⟩
  rintro hkn ⟨⟨s, a⟩, he, hharm⟩
  obtain ⟨before, after, rfl, rfl⟩ := Machine.exists_of_mem_steps he
  have hidle : Idle (before.foldl step sys) :=
    run_induction before (fun _ a hs => hs.step a) fun _ => h.pushes
  obtain ⟨evt, hst, hdelivered⟩ := delivered_of_harmful hidle hharm
  have hend : Delivered evt (sys.run (before ++ a :: after)) := by
    rw [run_append]
    exact run_induction after (fun _ a hs => hs.step a) hdelivered
  obtain ⟨hid, rest, hrd, hpg, hcur⟩ := h.run (before ++ a :: after)
  have hrdy : Ready (Cursor.upTo Event.id sys.stream.lastEventID sys.history)
      (sys.run (before ++ a :: after)) :=
    ⟨hid, ⟨rest, hrd.of_known hkn, hpg, hcur⟩, h.fifo _, hend.registered, hend.store, hend.buffer⟩
  obtain ⟨more, hmr⟩ := hrdy.exists_duplicate hend.live hst
  exact ⟨more, by rwa [run_append]⟩

/-- Bob's live event finds the channel full: the poller brings it later, and only once. -/
theorem returned_once_bob : (∀ e ∈ Machine.steps step bobsSchedule bobsSystem,
        Harmless (Cursor.upTo Event.id "1" bobsSystem.history) e.1 e.2)
      ∧ ∀ n, NoDuplicates (bobsSystem.run (bobsSchedule.take n)) := by
  have hharmless : ∀ e ∈ Machine.steps step bobsSchedule bobsSystem,
      Harmless (Cursor.upTo Event.id "1" bobsSystem.history) e.1 e.2 := by decide
  exact ⟨hharmless, (returned_once_iff_harmless bobsSystem bobsSystem_fresh bobsSchedule).1
    hharmless⟩

/-- A stream from the beginning, with an empty store. -/
def annsSystem : System Unit where
  store := ⟨∅, 0, false⟩
  pushes := fun _ => .called "ann" ⟨"", "mailbox.message.received", "ann", [], 0⟩ true
  phase := .subscribing
  stream := .new "ann" "" 2

lemma annsSystem_fresh : annsSystem.Fresh :=
  ⟨⟨by decide, by rintro e ⟨⟩⟩, fun _ => rfl, rfl, rfl, by decide⟩

/-- Ann's stream is open, one event is pushed and delivered live, the poller lists it and sends it
again, and `Next` returns it twice. -/
theorem returned_twice : annsSystem.Fresh ∧
      ¬ NoDuplicates (annsSystem.run [.subscriber, .push (), .push (), .push (), .subscriber,
        .subscriber, .consumer, .consumer]) := by
  refine ⟨annsSystem_fresh, ?_⟩
  unfold NoDuplicates
  decide

/-! ## Events from before the stream -/

/-- Nothing gets to a stream from a store that is closed. -/
structure Silent (sys : System ι) : Prop where
  store : sys.store.closed
  pushes : ∀ i, (sys.pushes i).held = none
  page : sys.phase.page = []
  accepted : sys.stream.accepted = []

lemma Silent.step (h : Silent sys) (a : Actor ι) : Silent (sys.step a) := by
  have heff := effect_step sys a
  have hidle := (show Idle sys from fun _ => h.pushes).step a
  generalize sys.step a = sys' at heff hidle ⊢
  cases heff with
  | assign i evt hop => simp [h.store] at hop
  | append i evt hi | deliver i evt hi => simpa [hi, PushPhase.held] using h.pushes i
  | turn phase hpg => exact { h with page := hpg }
  | list phase after limit _ hls => simp [MemoryStore.list_of_closed h.store] at hls
  | skip evt page hph => simpa [hph, StreamPhase.page] using h.page
  | send source evt phase _ _ hpg => simp [h.page] at hpg
  | next => exact { h with accepted := Stream.next_accepted.trans h.accepted }
  | release => exact { h with pushes := hidle h.store }
  | _ => exact h

/-- **Only new events** are returned by a stream without a `lastEventID` if there are no old ones,
or none that can be listed: the poller starts at the beginning of the store. -/
theorem returned_new_iff (sys : System ι) (h : sys.Fresh) (hlast : sys.stream.lastEventID = "") :
    (∀ schedule, ∀ e ∈ (sys.run schedule).stream.returned, e ∉ sys.history)
      ↔ sys.history = [] ∨ sys.store.closed := by
  constructor
  · intro hw
    by_contra hn
    rw [not_or, Bool.not_eq_true] at hn
    obtain ⟨e, rest, hhist⟩ := exists_cons_of_ne_nil hn.1
    have hls : sys.store.list sys.stream.userID "" 100 = .ok (e :: rest.take 99) := by
      simp [MemoryStore.list, hn.2, show sys.store.eventsOf sys.stream.userID = _ from hhist]
    have hcur : sys.stream.pollCursor = "" := by rw [h.stream, ← hlast]; rfl
    have hch : sys.stream.ch = [] := by rw [h.stream]; rfl
    have hrm : sys.stream.HasRoom := by rw [Inbox.HasRoom, hch]; exact h.buffer
    refine hw [.subscriber, .subscriber, .subscriber, .consumer] e ?_ (by simp [hhist])
    simp [run, step, subscriberStep, consumerStep, h.phase, hlast, hcur, hls, hrm,
      StreamPhase.registered, Stream.feed, Stream.next, Inbox.enqueue, hch]
  · rintro (hno | hcl) schedule e he
    · simp [hno]
    · have hsilent : Silent sys := ⟨hcl, h.pushes, by rw [h.phase]; rfl, by rw [h.stream]; rfl⟩
      have hend : Silent (sys.run schedule) :=
        run_induction schedule (fun _ a hs => hs.step a) hsilent
      have hfifo := h.fifo schedule
      rw [Stream.Fifo, hend.accepted] at hfifo
      simp_all

/-- Ann's store is empty. -/
theorem returned_new_ann : annsSystem.Fresh
      ∧ ∀ schedule, ∀ e ∈ (annsSystem.run schedule).stream.returned, e ∉ annsSystem.history :=
  ⟨annsSystem_fresh, (returned_new_iff annsSystem annsSystem_fresh rfl).mpr (.inl rfl)⟩

/-- Bob's two events are old when Bob subscribes without a `lastEventID`. -/
theorem returned_old_bob :
    let sys := { bobsSystem with stream := .new "bob" "" 1 }
    sys.Fresh ∧ ∃ e ∈ (sys.run [.subscriber, .subscriber, .subscriber, .consumer]).stream.returned,
      e ∈ sys.history :=
  ⟨⟨bobsSystem_fresh.store, fun _ => rfl, rfl, rfl, by decide⟩, bobsEvent "1", by decide⟩

end System

end Mailbox.Notify
