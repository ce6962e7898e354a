import Mailbox.Lib.Machine
import Mailbox.Notify.RedisLog

/-!
# Streams that read from Redis

`Subscribe` and `Next` of `notify/redis/store.go`.  A stream keeps the ID that it has read up to and
asks Redis, by a blocking `XREAD`, for the next entry after it.  A stream that was opened without a
last event ID asks for what comes after `$` until its first event, and Redis takes that for the last
ID *at the time of the command*.

An event that is saved before the first read, between two reads, or whose answer comes after the
read was given up, is before the `$` of the next read, and no read returns it.

* `RedisSystem` — the log of the user, and the stream with the call of `Next` in progress.  Every
  step is one command, one answer, one timeout or one call.
* `Held` — the step loses no event: while the stream stands at `$`, an event is saved only while a
  read is waiting, and no read is given up that has an answer.

**`gap_free_while_held`**: the stream loses no event exactly while all steps are `Held`.
-/

namespace Mailbox.Notify

open EventLog List

/-- `stream.lastID`: an ID, or `$`. -/
inductive Marker where
  | tail
  | at (id : StreamID)
  deriving DecidableEq, Repr

/-- What Redis makes of the marker. -/
def Marker.resolve (log : RedisLog) : Marker → StreamID
  | .tail => log.lastID
  | .at id => id

lemma Marker.eq_tail_or_at (marker : Marker) : marker = .tail ∨ ∃ m, marker = .at m := by
  cases marker with
  | tail => exact .inl rfl
  | «at» m => exact .inr ⟨m, rfl⟩

/-- Where the stream is: outside `Next`, at the head of its loop, or in an `XREAD` for what comes
after an ID. -/
inductive ReadPhase where
  | idle
  | ready
  | waiting (id : StreamID)
  deriving DecidableEq, Repr

/-- The log of a user and a stream that reads it, with the events that `Next` has returned. -/
structure RedisSystem where
  log : RedisLog
  lastID : Marker
  backfill : List (StreamID × Event)
  phase : ReadPhase
  returned : List Event

variable (start : StreamID) (lastEventID : Option StreamID)

/-- `Subscribe` with the given last event ID; `none` is the empty text. -/
def subscribe (backfillSize : ℕ) (log : RedisLog) : RedisSystem :=
  match lastEventID with
  | none => ⟨log, .tail, [], .idle, []⟩
  | some id =>
    -- XRangeN(key, "(" + lastEventID, "+", backfillSize)
    let backfill := (log.after id).take backfillSize
    match backfill.getLast? with
    | some msg => ⟨log, .at msg.1, backfill, .idle, []⟩
    | none => ⟨log, .at id, backfill, .idle, []⟩

inductive RedisAction where
  | save (now : ℕ) (evt : Event)
  | next
  | read
  | answer
  | timeout
  | cancel
  deriving DecidableEq, Repr

namespace RedisSystem

/-- One step.  An action that is not possible does nothing. -/
def step (sys : RedisSystem) : RedisAction → RedisSystem
  | .save now evt => { sys with log := xadd now evt sys.log }
  | .next =>
    match sys.phase, sys.backfill with
    | .idle, msg :: rest =>
      { sys with backfill := rest, returned := sys.returned ++ [parseMessage msg] }
    | .idle, [] => { sys with phase := .ready }
    | _, _ => sys
  | .read =>
    match sys.phase with
    | .ready => { sys with phase := .waiting (sys.lastID.resolve sys.log) }
    | _ => sys
  | .answer =>
    match sys.phase with
    | .waiting id =>
      match sys.log.after id with
      | msg :: _ =>
        { sys with
            lastID := .at msg.1
            phase := .idle
            returned := sys.returned ++ [parseMessage msg] }
      | [] => sys
    | _ => sys
  | .timeout =>
    match sys.phase with
    | .waiting _ => { sys with phase := .ready }
    | _ => sys
  | .cancel => { sys with phase := .idle }

def run (as : List RedisAction) (sys : RedisSystem) : RedisSystem := as.foldl step sys

/-- `Next`, called `k` times with answers that come in time.  A call that is in progress is the
first of them. -/
def nexts (k : ℕ) : List RedisAction := (List.replicate k [.next, .read, .answer]).flatten

/-- What the stream is going to return, if it is not disturbed. -/
def pending (sys : RedisSystem) : List (StreamID × Event) :=
  match sys.lastID, sys.phase with
  | .at id, _ => sys.backfill ++ sys.log.after id
  | .tail, .waiting id => sys.log.after id
  | .tail, _ => []

/-- The step does not make the stream lose an event. -/
def Held (sys : RedisSystem) : RedisAction → Prop
  | .save _ _ => sys.lastID = .tail → ∃ id, sys.phase = .waiting id
  | .timeout | .cancel => sys.lastID = .tail → sys.pending = []
  | _ => True

/-- The events that a stream with the given start is to return. -/
def expected (sys : RedisSystem) : List Event :=
  (sys.log.after start).map parseMessage

/-- The events that `Next` has returned are the first of those after the start, in the order of
their IDs, and every further call returns the next one. -/
def GapFree (sys : RedisSystem) : Prop :=
  ∀ k, (sys.run (nexts k)).returned = (sys.expected start).take (sys.returned.length + k)

/-- The event is one after the start, and is never returned. -/
def Loses (evt : Event) (sys : RedisSystem) : Prop :=
  evt ∈ sys.expected start ∧ ∀ more, evt ∉ (sys.run more).returned

/-! ## What a step does -/

/-- The outcomes of a step. -/
inductive Outcome (sys : RedisSystem) : RedisAction → RedisSystem → Prop
  | nothing (a : RedisAction) : Outcome sys a sys
  | saved (now : ℕ) (evt : Event) :
      Outcome sys (.save now evt) { sys with log := xadd now evt sys.log }
  | replayed (msg : StreamID × Event) (rest : List (StreamID × Event))
      (backfill : sys.backfill = msg :: rest) :
      Outcome sys .next
        { sys with backfill := rest, returned := sys.returned ++ [parseMessage msg] }
  | called (phase : sys.phase = .idle) (backfill : sys.backfill = []) :
      Outcome sys .next { sys with phase := .ready }
  | asked (phase : sys.phase = .ready) :
      Outcome sys .read { sys with phase := .waiting (sys.lastID.resolve sys.log) }
  | answered (id : StreamID) (msg : StreamID × Event) (rest : List (StreamID × Event))
      (phase : sys.phase = .waiting id) (after : sys.log.after id = msg :: rest) :
      Outcome sys .answer
        { sys with
            lastID := .at msg.1
            phase := .idle
            returned := sys.returned ++ [parseMessage msg] }
  | timedOut (id : StreamID) (phase : sys.phase = .waiting id) :
      Outcome sys .timeout { sys with phase := .ready }
  | cancelled : Outcome sys .cancel { sys with phase := .idle }

variable {sys sys' : RedisSystem} {a : RedisAction} {start : StreamID} {e : StreamID × Event}

lemma outcome_step (sys : RedisSystem) (a : RedisAction) : Outcome sys a (sys.step a) := by
  cases a with
  | save now evt => exact .saved now evt
  | cancel => exact .cancelled
  | next =>
    simp only [step]
    split
    next msg rest _ hback => exact .replayed msg rest hback
    next hph hback => exact .called hph hback
    next => exact .nothing _
  | read =>
    simp only [step]
    split
    next hph => exact .asked hph
    next => exact .nothing _
  | answer =>
    simp only [step]
    split
    next id hph =>
        split
        next msg rest haft => exact .answered id msg rest hph haft
        next => exact .nothing _
    next => exact .nothing _
  | timeout =>
    simp only [step]
    split
    next id hph => exact .timedOut id hph
    next => exact .nothing _

/-- A read of a stream with an ID asks for what comes after it, reads come after the backfill, and a
stream at `$` has nothing to replay and has not returned anything. -/
structure Sane (sys : RedisSystem) : Prop where
  waiting : ∀ m id, sys.lastID = .at m → sys.phase = .waiting id → id = m
  drained : sys.phase ≠ .idle → sys.backfill = []
  tail : sys.lastID = .tail → sys.backfill = [] ∧ sys.returned = []

lemma Sane.step (h : sys.Sane) (a : RedisAction) : (sys.step a).Sane := by
  have hout := outcome_step sys a
  generalize sys.step a = sys' at hout ⊢
  cases hout with
  | nothing => exact h
  | saved => exact ⟨h.waiting, h.drained, h.tail⟩
  | replayed msg rest hback =>
    have hat : sys.lastID ≠ .tail := by
      intro htl
      rw [(h.tail htl).1] at hback
      cases hback
    have hidle : sys.phase = .idle := by
      by_contra hph
      rw [h.drained hph] at hback
      cases hback
    exact ⟨h.waiting, fun hph => absurd hidle hph, fun htl => absurd htl hat⟩
  | called hph hback => exact ⟨fun _ _ _ hw => (nomatch hw), fun _ => hback, h.tail⟩
  | asked hph =>
    refine ⟨?_, fun _ => h.drained (by rw [hph]; simp), h.tail⟩
    rintro m id hm ⟨⟩
    have hl : sys.lastID = .at m := hm
    rw [hl, Marker.resolve]
  | answered =>
    exact ⟨fun _ _ _ hw => (nomatch hw), fun hidle => absurd rfl hidle, fun ht => nomatch ht⟩
  | timedOut id hph =>
    exact ⟨fun _ _ _ hw => (nomatch hw), fun _ => h.drained (by rw [hph]; simp), h.tail⟩
  | cancelled => exact ⟨fun _ _ _ hw => (nomatch hw), fun hidle => absurd rfl hidle, h.tail⟩

/-! ## Pending events -/

lemma pending_at (sys : RedisSystem) {m : StreamID} (h : sys.lastID = .at m) :
    sys.pending = sys.backfill ++ sys.log.after m := by
  unfold pending
  rw [h]

variable {id : StreamID}

lemma pending_waiting (h : sys.lastID = .tail) (hph : sys.phase = .waiting id) :
    sys.pending = sys.log.after id := by
  unfold pending
  rw [h, hph]

lemma pending_tail (h : sys.lastID = .tail) (hph : ∀ id, sys.phase ≠ .waiting id) :
    sys.pending = [] := by
  unfold pending
  rw [h]
  cases hp : sys.phase with
  | idle | ready => rfl
  | waiting id => exact absurd hp (hph id)

/-- A stream that waits is going to return what its read asks for. -/
lemma Sane.pending_eq_after (h : sys.Sane) (hph : sys.phase = .waiting id) :
    sys.pending = sys.log.after id := by
  rcases sys.lastID.eq_tail_or_at with hl | ⟨m, hl⟩
  · exact pending_waiting hl hph
  · rw [pending_at sys hl, h.drained (by rw [hph]; simp), h.waiting m id hl hph, nil_append]

/-- What a step does to the log, the returned events and those that are pending. -/
inductive Effect (sys sys' : RedisSystem) : RedisAction → Prop
  | kept (a : RedisAction) (log : sys'.log = sys.log) (returned : sys'.returned = sys.returned)
      (pending : sys'.pending = sys.pending) : Effect sys sys' a
  | dropped (a : RedisAction) (log : sys'.log = sys.log) (returned : sys'.returned = sys.returned)
      (tail : sys.lastID = .tail) (given : a = .timeout ∨ a = .cancel)
      (pending : sys'.pending = []) :
      Effect sys sys' a
  | gave (a : RedisAction) (msg : StreamID × Event) (log : sys'.log = sys.log)
      (returned : sys'.returned = sys.returned ++ [parseMessage msg])
      (pending : sys.pending = msg :: sys'.pending) : Effect sys sys' a
  | saved (now : ℕ) (evt : Event) (log : sys'.log = xadd now evt sys.log)
      (returned : sys'.returned = sys.returned) : Effect sys sys' (.save now evt)

variable {p : ReadPhase}

/-- A read that is given up, or a call: only the phase changes, and not to a read. -/
lemma effect_of_phase (hp : ∀ id, p ≠ .waiting id)
    (ha : (∀ id, sys.phase ≠ .waiting id) ∨ a = .timeout ∨ a = .cancel) :
    Effect sys { sys with phase := p } a := by
  rcases sys.lastID.eq_tail_or_at with hl | ⟨m, hl⟩
  · have hno : ({ sys with phase := p } : RedisSystem).pending = [] := pending_tail hl hp
    rcases ha with hph | hgiven
    · exact .kept a rfl rfl (hno.trans (pending_tail hl hph).symm)
    · exact .dropped a rfl rfl hl hgiven hno
  · refine .kept a rfl rfl ?_
    rw [pending_at sys hl]
    exact pending_at _ hl

lemma effect_step (h : sys.Sane) (a : RedisAction) : Effect sys (sys.step a) a := by
  have hout := outcome_step sys a
  generalize sys.step a = sys' at hout ⊢
  cases hout with
  | nothing => exact .kept a rfl rfl rfl
  | saved now evt => exact .saved now evt rfl rfl
  | replayed msg rest hback =>
    rcases sys.lastID.eq_tail_or_at with hl | ⟨m, hl⟩
    · rw [(h.tail hl).1] at hback
      cases hback
    · refine .gave _ msg rfl rfl ?_
      rw [pending_at sys hl, hback, cons_append, cons_inj_right]
      symm
      exact pending_at _ hl
  | called hph =>
    exact effect_of_phase (fun _ hw => nomatch hw) (.inl fun id hw => by simp [hph] at hw)
  | asked hph =>
    refine .kept _ rfl rfl ?_
    rcases sys.lastID.eq_tail_or_at with hl | ⟨m, hl⟩
    · rw [pending_tail hl (by simp [hph]), hl]
      exact (pending_waiting rfl rfl).trans (Log.after_of_lastID_le (le_of_eq rfl))
    · rw [pending_at sys hl]
      exact pending_at _ hl
  | answered id msg rest hph haft =>
    have hdrd : sys.backfill = [] := h.drained (by rw [hph]; simp)
    refine .gave _ msg rfl rfl ?_
    rw [h.pending_eq_after hph, haft, cons_inj_right, ← Log.after_of_after_eq_cons haft]
    refine ((pending_at _ rfl).trans ?_).symm
    rw [hdrd, nil_append]
  | timedOut =>
    exact effect_of_phase (fun _ hw => nomatch hw) (.inr (.inl rfl))
  | cancelled => exact effect_of_phase (fun _ hw => nomatch hw) (.inr (.inr rfl))

/-! ## Every event is accounted for -/

/-- The reader has not passed anything after the start that is still to come. -/
def Near (start p : StreamID) (log : RedisLog) : Prop :=
  p = start ∨ start ≤ log.lastID ∧ p ≤ log.lastID

variable {log : RedisLog}

lemma Near.lt_iff {p : StreamID} (h : Near start p log) (hid : log.lastID < id) :
    p < id ↔ start < id := by
  rcases h with rfl | ⟨hst, hp⟩
  · exact .rfl
  · exact ⟨fun _ => lt_of_le_of_lt hst hid, fun _ => lt_of_le_of_lt hp hid⟩

lemma Near.mono {log' : RedisLog} {p : StreamID} (h : Near start p log)
    (hle : log.lastID ≤ log'.lastID) : Near start p log' :=
  h.imp_right fun h => ⟨le_trans h.1 hle, le_trans h.2 hle⟩

/-- What was returned and what is pending are together the events after the start. -/
structure Sound (start : StreamID) (sys : RedisSystem) : Prop extends Sane sys where
  accounted : sys.returned ++ sys.pending.map parseMessage = (sys.log.after start).map parseMessage
  near : ∀ p, sys.lastID = .at p ∨ sys.phase = .waiting p → Near start p sys.log
  started : sys.lastID = .tail → start ≤ sys.log.lastID

variable {now : ℕ} {evt : Event}

lemma lastID_le_xadd : log.lastID ≤ (xadd now evt log).lastID :=
  le_of_lt (lt_nextID now log.lastID)

lemma lastID_le_step (sys : RedisSystem) (a : RedisAction) :
    sys.log.lastID ≤ (sys.step a).log.lastID := by
  have hout := outcome_step sys a
  generalize sys.step a = sys' at hout ⊢
  cases hout with
  | saved => exact lastID_le_xadd
  | _ => exact le_refl _

/-- Where the stream reads stays near its start. -/
lemma Sound.near_step (h : sys.Sound start) (a : RedisAction) :
    (∀ p, (sys.step a).lastID = .at p ∨ (sys.step a).phase = .waiting p →
        Near start p (sys.step a).log)
      ∧ ((sys.step a).lastID = .tail → start ≤ (sys.step a).log.lastID) := by
  have hle := lastID_le_step sys a
  have hout := outcome_step sys a
  generalize sys.step a = sys' at hout hle ⊢
  have hold : ∀ p, sys.lastID = .at p ∨ sys.phase = .waiting p → Near start p sys'.log :=
    fun p hp => (h.near p hp).mono hle
  have hstarted : sys.lastID = .tail → start ≤ sys'.log.lastID :=
    fun htl => le_trans (h.started htl) hle
  cases hout with
  | nothing | saved | replayed => exact ⟨hold, hstarted⟩
  | called | timedOut =>
    exact ⟨fun p hp => hold p (hp.imp_right fun hw => nomatch hw), hstarted⟩
  | cancelled => exact ⟨fun p hp => hold p (hp.imp_right fun hw => nomatch hw), hstarted⟩
  | asked =>
    refine ⟨?_, hstarted⟩
    rintro p (hp | ⟨⟨⟩⟩)
    · exact hold p (.inl hp)
    · rcases sys.lastID.eq_tail_or_at with hl | ⟨m, hl⟩
      · rw [hl]
        exact .inr ⟨hstarted hl, le_refl _⟩
      · rw [hl]
        exact hold m (.inl hl)
  | answered id msg rest hph haft =>
    refine ⟨?_, fun htl => nomatch htl⟩
    rintro p (⟨⟨⟩⟩ | hw)
    · have hmem : msg ∈ sys.log.after id := haft ▸ mem_cons_self
      have hmsg : msg.1 ≤ sys.log.lastID := sys.log.le_lastID msg (Log.mem_after.mp hmem).1
      rcases h.near id (.inr hph) with rfl | ⟨hst, -⟩
      · exact .inr ⟨le_trans (le_of_lt (Log.mem_after.mp hmem).2) hmsg, hmsg⟩
      · exact .inr ⟨hst, hmsg⟩
    · cases hw

/-- An event that is saved is pending if the step is held. -/
lemma Sound.pending_save (h : sys.Sound start) (hheld : sys.Held (.save now evt)) :
    (sys.step (.save now evt)).pending = sys.pending ++
          if start < nextID now sys.log.lastID then [(nextID now sys.log.lastID, evt)] else [] := by
  have haft : ∀ p, Near start p sys.log → (xadd now evt sys.log).after p = sys.log.after p ++
          if start < nextID now sys.log.lastID then [(nextID now sys.log.lastID, evt)] else [] := by
    intro p hp
    rw [xadd, Log.after_append, if_congr (hp.lt_iff (lt_nextID _ _)) rfl rfl]
  rcases sys.lastID.eq_tail_or_at with hl | ⟨m, hl⟩
  · obtain ⟨id, hph⟩ := hheld hl
    rw [pending_waiting hl hph, ← haft id (h.near id (.inr hph))]
    exact pending_waiting hl hph
  · rw [pending_at sys hl, append_assoc, ← haft m (h.near m (.inl hl))]
    exact pending_at _ hl

/-- **A held step keeps every event accounted for.** -/
lemma Sound.step (h : sys.Sound start) (hheld : sys.Held a) : (sys.step a).Sound start := by
  obtain ⟨hnear, hstarted⟩ := h.near_step a
  refine ⟨h.toSane.step a, ?_, hnear, hstarted⟩
  have hacct := h.accounted
  have hsave : ∀ now evt, a = .save now evt → _ := fun now evt ha => h.pending_save (ha ▸ hheld)
  cases effect_step h.toSane a with
  | kept _ hlog hret hpd => rw [hlog, hret, hpd, hacct]
  | dropped _ hlog hret htl hgiven hpd =>
    have hno : sys.pending = [] := by
      rcases hgiven with rfl | rfl
      · exact hheld htl
      · exact hheld htl
    rw [hno] at hacct
    rw [hlog, hret, hpd, hacct]
  | gave _ msg hlog hret hpd =>
    rw [hpd] at hacct
    rw [hlog, hret, ← hacct, append_assoc]
    rfl
  | saved now evt hlog hret =>
    rw [hlog, hret, hsave now evt rfl, map_append, ← append_assoc, hacct,
      xadd, Log.after_append, map_append]

/-! ## A call of `Next` returns what is pending -/

/-- The stream has returned the next `k` of the events that were pending. -/
structure Gives (k : ℕ) (sys sys' : RedisSystem) : Prop where
  log : sys'.log = sys.log
  returned : sys'.returned = sys.returned ++ (sys.pending.take k).map parseMessage
  pending : sys'.pending = sys.pending.drop k

lemma Gives.trans {k l : ℕ} {sys₁ sys₂ : RedisSystem} (h : Gives k sys sys₁)
    (h' : Gives l sys₁ sys₂) : Gives (k + l) sys sys₂ where
  log := h'.log.trans h.log
  returned := by
    rw [h'.returned, h.returned, h.pending, take_add, map_append, append_assoc]
  pending := by rw [h'.pending, h.pending, drop_drop]

/-- The beginning of a call that returns nothing leaves what is pending. -/
lemma Sane.gives_zero (h : sys.Sane) (ha : a = .next ∨ a = .read)
    (hret : (sys.step a).returned = sys.returned) : Gives 0 sys (sys.step a) := by
  cases effect_step h a with
  | kept _ hlog _ hpd => exact ⟨hlog, by simp [hret], by simp [hpd]⟩
  | dropped _ _ _ _ hgiven => rcases ha with rfl | rfl <;> simp at hgiven
  | gave _ msg _ hgave => simp [hgave] at hret
  | saved => simp at ha

/-- A step that returns an event returns the first that is pending. -/
lemma Sane.gives_one (h : sys.Sane) (hret : (sys.step a).returned ≠ sys.returned) :
    Gives 1 sys (sys.step a) := by
  cases effect_step h a with
  | kept _ _ hsm | dropped _ _ hsm | saved _ _ _ hsm => exact absurd hsm hret
  | gave _ msg hlog hgave hpd =>
    exact ⟨hlog, by rw [hgave, hpd]; rfl, by rw [hpd]; rfl⟩

/-- A stream that waits returns the first event that is pending. -/
lemma Sane.gives_answer (h : sys.Sane) (hph : sys.phase = .waiting id) :
    Gives 1 sys (sys.step .answer) := by
  cases haft : sys.log.after id with
  | nil =>
    have hstep : sys.step .answer = sys := by
      simp [RedisSystem.step, hph, haft]
    have hno : sys.pending = [] := (h.pending_eq_after hph).trans haft
    rw [hstep]
    exact ⟨rfl, by simp [hno], by simp [hno]⟩
  | cons =>
    refine h.gives_one ?_
    simp only [RedisSystem.step, hph, haft]
    simp

/-- After the backfill a call of `Next` comes to wait for Redis. -/
lemma waits (hback : sys.backfill = []) : (sys.step .next).returned = sys.returned
      ∧ ((sys.step .next).step .read).returned = (sys.step .next).returned
      ∧ ∃ id, ((sys.step .next).step .read).phase = .waiting id := by
  obtain ⟨log, lastID, backfill, phase, returned⟩ := sys
  cases hback
  cases phase with
  | idle | ready | waiting => exact ⟨rfl, rfl, _, rfl⟩

variable {msg : StreamID × Event}

lemma Sane.replays (h : sys.Sane) {rest : List (StreamID × Event)}
    (hback : sys.backfill = msg :: rest) : (sys.step .next).returned ≠ sys.returned
      ∧ ((sys.step .next).step .read).step .answer = sys.step .next := by
  obtain ⟨log, lastID, backfill, phase, returned⟩ := sys
  cases hback
  cases phase with
  | idle => exact ⟨by simp [RedisSystem.step], rfl⟩
  | ready | waiting => exact absurd (h.drained (by simp)) (by simp)

lemma Sane.gives_next (h : sys.Sane) : Gives 1 sys (sys.run [.next, .read, .answer]) := by
  show Gives 1 sys (((sys.step .next).step .read).step .answer)
  cases hback : sys.backfill with
  | nil =>
    obtain ⟨hnx, hrd, id, hph⟩ := waits hback
    have hsane := h.step .next
    exact ((h.gives_zero (.inl rfl) hnx).trans (hsane.gives_zero (.inr rfl) hrd)).trans
      ((hsane.step .read).gives_answer hph)
  | cons =>
    obtain ⟨hret, hr⟩ := h.replays hback
    rw [hr]
    exact h.gives_one hret

lemma Sane.run (h : sys.Sane) (as : List RedisAction) : (sys.run as).Sane := by
  induction as generalizing sys with
  | nil => exact h
  | cons a as ih => exact ih (h.step a)

lemma run_append (as bs : List RedisAction) : sys.run (as ++ bs) = (sys.run as).run bs :=
  foldl_append

lemma Sane.gives_nexts (h : sys.Sane) (k : ℕ) : Gives k sys (sys.run (nexts k)) := by
  induction k generalizing sys with
  | zero => exact ⟨rfl, by simp [nexts, RedisSystem.run], by simp [nexts, RedisSystem.run]⟩
  | succ k ih =>
    rw [nexts, replicate_succ, flatten_cons, run_append, Nat.add_comm]
    exact h.gives_next.trans (ih (h.run _))

lemma Sound.gapFree (h : sys.Sound start) : sys.GapFree start := by
  intro k
  rw [(h.toSane.gives_nexts k).returned, expected, ← h.accounted, take_length_add_append, map_take]

/-! ## What is lost stays lost -/

/-- The entry is in the log, and the stream has passed it without returning it. -/
structure Past (e : StreamID × Event) (sys : RedisSystem) : Prop where
  old : e.1 ≤ sys.log.lastID
  ahead : ∀ msg ∈ sys.pending, e.1 < msg.1
  unreturned : ∀ evt ∈ sys.returned, evt.id ≠ e.1.text

/-- What is pending after a save was pending, or is what was saved. -/
lemma mem_pending_save (h : msg ∈ (sys.step (.save now evt)).pending) :
    msg ∈ sys.pending ∨ msg.1 = nextID now sys.log.lastID := by
  have haft : ∀ p, msg ∈ (xadd now evt sys.log).after p →
      msg ∈ sys.log.after p ∨ msg.1 = nextID now sys.log.lastID := by
    intro p hp
    rw [xadd, Log.after_append, mem_append] at hp
    refine hp.imp_right fun hw => ?_
    split_ifs at hw
    · rw [mem_singleton.mp hw]
    · cases hw
  rcases sys.lastID.eq_tail_or_at with hl | ⟨m, hl⟩
  · cases hph : sys.phase with
    | waiting id =>
      rw [pending_waiting hl hph]
      have hpd : (sys.step (.save now evt)).pending = (xadd now evt sys.log).after id :=
        pending_waiting hl hph
      exact haft id (hpd ▸ h)
    | idle | ready =>
      have hpd : (sys.step (.save now evt)).pending = [] :=
        pending_tail hl (by simp [RedisSystem.step, hph])
      rw [hpd] at h
      cases h
  · have hpd : (sys.step (.save now evt)).pending
        = sys.backfill ++ (xadd now evt sys.log).after m := pending_at _ hl
    rw [hpd, mem_append] at h
    rw [pending_at sys hl, mem_append, or_assoc]
    exact h.imp_right (haft m)

lemma Past.step (h : Past e sys) (hsane : sys.Sane) (a : RedisAction) : Past e (sys.step a) := by
  refine ⟨le_trans h.old (lastID_le_step sys a), ?_, ?_⟩
  · have hsave : ∀ now evt, a = .save now evt → ∀ msg ∈ (sys.step a).pending, e.1 < msg.1 := by
      rintro now evt rfl msg hmsg
      rcases mem_pending_save hmsg with hmem | hw
      · exact h.ahead msg hmem
      · rw [hw]
        exact lt_of_le_of_lt h.old (lt_nextID _ _)
    cases effect_step hsane a with
    | kept _ _ _ hpd => rw [hpd]; exact h.ahead
    | dropped _ _ _ _ _ hpd => simp [hpd]
    | gave _ msg _ _ hpd =>
      intro msg' hmsg'
      exact h.ahead msg' (hpd ▸ mem_cons_of_mem _ hmsg')
    | saved now evt => exact hsave now evt rfl
  · cases effect_step hsane a with
    | kept _ _ hret | dropped _ _ hret | saved _ _ _ hret =>
      rw [hret]; exact h.unreturned
    | gave _ msg _ hret hpd =>
      intro evt hevt
      rw [hret, mem_append, mem_singleton] at hevt
      rcases hevt with hevt | rfl
      · exact h.unreturned evt hevt
      · have hlt : e.1 < msg.1 := h.ahead msg (hpd ▸ mem_cons_self)
        exact fun heq => ne_of_gt hlt (StreamID.text_inj.mp heq)

lemma Past.run (h : Past e sys) (hsane : sys.Sane) (as : List RedisAction) :
    Past e (sys.run as) := by
  induction as generalizing sys with
  | nil => exact h
  | cons a as ih => exact ih (h.step hsane a) (hsane.step a)

lemma past_of_tail (htl : sys.lastID = .tail) (hph : ∀ id, sys.phase ≠ .waiting id)
    (hret : sys.returned = []) (hold : e.1 ≤ sys.log.lastID) : Past e sys :=
  ⟨hold, by simp [pending_tail htl hph], by simp [hret]⟩

/-- A read at `$` is given up that has an answer. -/
lemma Sound.lost_of_pending (h : sys.Sound start) (htl : sys.lastID = .tail)
    (hpd : sys.pending ≠ []) (hp : ∀ id, p ≠ .waiting id) :
    ∃ e, parseMessage e ∈ sys.expected start ∧ Past e { sys with phase := p } := by
  obtain ⟨e, he⟩ := exists_mem_of_ne_nil _ hpd
  refine ⟨e, ?_, past_of_tail htl hp (h.tail htl).2 ?_⟩
  · rw [expected, ← h.accounted]
    exact mem_append_right _ (mem_map_of_mem he)
  · cases hph : sys.phase with
    | waiting =>
      rw [pending_waiting htl hph] at he
      exact sys.log.le_lastID e (Log.mem_after.mp he).1
    | idle | ready => exact absurd (pending_tail htl (by simp [hph])) hpd

/-- The stream has passed an event when a step is not held. -/
lemma Sound.passed (h : sys.Sound start) (hheld : ¬ sys.Held a) :
    ∃ e, parseMessage e ∈ (sys.step a).expected start ∧ Past e (sys.step a) := by
  cases a with
  | next | read | answer => exact absurd trivial hheld
  | save now evt =>
    simp only [Held, not_forall, not_exists] at hheld
    obtain ⟨htl, hph⟩ := hheld
    refine ⟨(nextID now sys.log.lastID, evt), mem_map_of_mem ?_,
      past_of_tail htl hph (h.tail htl).2 (le_refl _)⟩
    show _ ∈ (xadd now evt sys.log).after start
    have hlt : start < nextID now sys.log.lastID := lt_of_le_of_lt (h.started htl) (lt_nextID _ _)
    rw [xadd, Log.after_append, if_pos hlt]
    exact mem_append_right _ mem_cons_self
  | cancel =>
    simp only [Held, not_forall] at hheld
    obtain ⟨htl, hpd⟩ := hheld
    exact h.lost_of_pending htl hpd (by simp)
  | timeout =>
    simp only [Held, not_forall] at hheld
    obtain ⟨htl, hpd⟩ := hheld
    cases hph : sys.phase with
    | waiting =>
      have hstep : sys.step .timeout = { sys with phase := .ready } := by
        simp [RedisSystem.step, hph]
      rw [hstep]
      exact h.lost_of_pending htl hpd (by simp)
    | idle | ready => exact absurd (pending_tail htl (by simp [hph])) hpd

/-- **A step that is not held loses an event.** -/
lemma Sound.lost (h : sys.Sound start) (hheld : ¬ sys.Held a) :
    ∃ e, Loses start (parseMessage e) (sys.step a) := by
  refine (h.passed hheld).imp fun e he => ⟨he.1, fun more hmem => ?_⟩
  exact (he.2.run (h.toSane.step a) more).unreturned _ hmem rfl

/-! ## The stream after `Subscribe` -/

lemma sound_subscribe (backfillSize : ℕ) (log : RedisLog) :
    (subscribe lastEventID backfillSize log).Sound (lastEventID.getD log.lastID) := by
  cases lastEventID with
  | none =>
    refine ⟨⟨by simp [subscribe], fun _ => rfl, fun _ => ⟨rfl, rfl⟩⟩, ?_, by simp [subscribe],
      fun _ => le_refl _⟩
    show [] = (log.after log.lastID).map parseMessage
    rw [Log.after_of_lastID_le (le_refl _), map_nil]
  | some id =>
    show Sound id (subscribe (some id) backfillSize log)
    unfold subscribe
    cases hl : ((log.after id).take backfillSize).getLast? with
    | some msg =>
      have hspl := Log.after_eq_take_append hl
      have hmem := mem_of_mem_take (mem_of_getLast? hl)
      have hle := log.le_lastID msg (Log.mem_after.mp hmem).1
      refine ⟨⟨by simp [hl], by simp [hl], by simp [hl]⟩, ?_, ?_, by simp [hl]⟩
      · simp only [hl, pending, nil_append]
        rw [← hspl]
      · rintro p (hp | hp)
        · simp only [hl, Marker.at.injEq] at hp ⊢
          subst hp
          exact .inr ⟨le_trans (le_of_lt (Log.mem_after.mp hmem).2) hle, hle⟩
        · simp [hl] at hp
    | none =>
      have hnil := getLast?_eq_none_iff.mp hl
      refine ⟨⟨by simp [hl], by simp [hl], by simp [hl]⟩, ?_, ?_, by simp [hl]⟩
      · simp [pending, hnil]
      · rintro p (hp | hp)
        · simp only [hl, Marker.at.injEq] at hp ⊢
          exact .inl hp.symm
        · simp [hl] at hp

/-- A stream that was opened with a last event ID never stands at `$`. -/
lemma held_of_lastEventID (id : StreamID) (backfillSize : ℕ) (log : RedisLog)
    (as : List RedisAction) :
    ∀ e ∈ Machine.steps step as (subscribe (some id) backfillSize log), Held e.1 e.2 := by
  have hstep : ∀ (sys : RedisSystem) a,
      sys.lastID ≠ .tail → True → (sys.step a).lastID ≠ .tail := by
    intro sys a h _
    have hout := outcome_step sys a
    generalize sys.step a = sys' at hout ⊢
    cases hout with
    | answered => exact fun htl => nomatch htl
    | _ => exact h
  have hst : (subscribe (some id) backfillSize log).lastID ≠ .tail := by
    simp only [subscribe]
    split <;> exact fun htl => nomatch htl
  intro e he
  obtain ⟨before, after, -, hstate⟩ := Machine.exists_of_mem_steps he
  have hat : e.1.lastID ≠ .tail := by
    have hall : ∀ e ∈ Machine.steps step before (subscribe (some id) backfillSize log), True :=
      fun _ _ => trivial
    have hrun := Machine.steps_induction hstep hall hst before.length
    rwa [take_length, ← hstate] at hrun
  cases e.2 with
  | save | timeout | cancel => exact fun htl => absurd htl hat
  | _ => trivial

/-- **A stream is gap-free as long as all steps are held**, from the given last event ID on, or the
last ID of the log if there is none.  Every other run has lost an event after the first step that is
not held. -/
theorem gap_free_while_held (lastEventID : Option StreamID) (backfillSize : ℕ) (log : RedisLog)
    (as : List RedisAction) :
    ((∀ e ∈ Machine.steps step as (subscribe lastEventID backfillSize log), Held e.1 e.2) →
      ∀ n, GapFree (lastEventID.getD log.lastID)
        ((subscribe lastEventID backfillSize log).run (as.take n)))
    ∧ ((¬ ∀ e ∈ Machine.steps step as (subscribe lastEventID backfillSize log), Held e.1 e.2) →
      ∃ before a after evt, as = before ++ a :: after ∧ Loses (lastEventID.getD log.lastID) evt
          ((subscribe lastEventID backfillSize log).run (before ++ [a]))) := by
  have hst := sound_subscribe lastEventID backfillSize log
  have hstep : ∀ (sys : RedisSystem) a, sys.Sound (lastEventID.getD log.lastID) → sys.Held a →
      (sys.step a).Sound (lastEventID.getD log.lastID) := fun sys a h hheld => h.step hheld
  refine ⟨fun hheld n => ?_, fun hn => ?_⟩
  · exact (Machine.steps_induction hstep hheld hst n).gapFree
  · obtain ⟨before, a, after, rfl, ha, hbef⟩ := Machine.exists_first_of_not_steps hn
    have hsound := Machine.steps_induction hstep hbef hst before.length
    rw [List.take_length] at hsound
    obtain ⟨e, hloses⟩ := hsound.lost ha
    refine ⟨before, a, after, parseMessage e, rfl, ?_⟩
    rw [run_append]
    exact hloses

def annsEvent : Event := ⟨"", "mailbox.message.received", "ann", [], 0⟩

/-- A stream that resumes after `5-0`, with one event to replay and one to come. -/
theorem gap_free_resumed : GapFree ⟨5, 0⟩
      ((subscribe (some ⟨5, 0⟩) 10 (xadd 7 annsEvent (xadd 5 annsEvent .empty))).run
        [.next, .next, .save 7 annsEvent, .read, .timeout]) :=
  (gap_free_while_held (some ⟨5, 0⟩) 10 (xadd 7 annsEvent (xadd 5 annsEvent .empty))
    [.next, .next, .save 7 annsEvent, .read, .timeout]).1 (held_of_lastEventID _ _ _ _) 5

/-- An event that is saved after `Subscribe` and before the first read is lost. -/
theorem first_event_lost : Loses ⟨0, 0⟩ { annsEvent with id := "5-0" }
      ((subscribe none 10 .empty).run [.save 5 annsEvent]) := by
  have hsound := sound_subscribe none 10 .empty
  refine ⟨by decide, fun more hmem => ?_⟩
  have hpast : Past (⟨5, 0⟩, annsEvent) ((subscribe none 10 .empty).run [.save 5 annsEvent]) :=
    past_of_tail rfl (fun _ hw => nomatch hw) rfl (le_refl _)
  exact (hpast.run (hsound.toSane.run _) more).unreturned _ hmem (by decide)

end RedisSystem

end Mailbox.Notify
