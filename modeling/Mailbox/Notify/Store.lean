import Mathlib.Data.List.AList
import Mailbox.Lib.Cursor
import Mailbox.Store.Filter

/-!
# Notifications, their in-memory store and the channel of a stream

`notify/notify.go`, `notify/memory/store.go` and the parts of `notify/stream.go` and
`notify/notifier.go` that put an event into the channel of a stream.

The store keeps a list of events per user, in the order in which they were appended.  `Save` takes
the next number of a counter as the event's ID and then appends the event under a lock; these are
two steps, and those of two calls may alternate, so that the list need not be in the order of the
IDs.  `List` goes by position: it returns what follows the first event with the given ID.
-/

namespace Mailbox.Notify

/-- `notify.Event`. -/
structure Event where
  id : String
  type : String
  userID : String
  payload : List UInt8
  timestamp : Time
  deriving DecidableEq, Repr

/-- The sentinel errors of the package. -/
inductive NotifyError where
  | streamClosed
  | notifierClosed
  | storeClosed
  deriving DecidableEq, Repr

/-! ## IDs -/

lemma repr_inj {m n : ℕ} : Nat.repr m = Nat.repr n ↔ m = n := by
  constructor
  · intro h
    rw [Nat.repr_eq_ofList_toDigits, Nat.repr_eq_ofList_toDigits, String.ofList_inj] at h
    have hdig := congrArg (Nat.ofDigitChars 10 · 0) h
    simpa using hdig
  · rintro rfl
    rfl

/-! ## The store -/

structure MemoryStore where
  events : AList fun _ : String => List Event
  counter : ℕ
  closed : Bool

namespace MemoryStore

/-- `s.events[userID]`. -/
def eventsOf (s : MemoryStore) (userID : String) : List Event :=
  (s.events.lookup userID).getD []

/-- The first half of `Save`: the event gets its ID. -/
def assignID (evt : Event) (s : MemoryStore) : Except NotifyError (Event × MemoryStore) :=
  if s.closed then .error .storeClosed
  else .ok ({ evt with id := Nat.repr (s.counter + 1) }, { s with counter := s.counter + 1 })

/-- The second half of `Save`: the event is appended to its user's list. -/
def append (evt : Event) (s : MemoryStore) : MemoryStore :=
  { s with events := s.events.insert evt.userID (s.eventsOf evt.userID ++ [evt]) }

/-- `List` returns notifications for a user after the given event ID. -/
def list (userID afterID : String) (limit : ℤ) (s : MemoryStore) :
    Except NotifyError (List Event) :=
  if s.closed then .error .storeClosed
  else
    let limit := if limit ≤ 0 then 100 else limit
    let events := s.eventsOf userID
    let rest := if afterID ≠ "" then Cursor.seek Event.id afterID events else events
    .ok (rest.take limit.toNat)

variable {s : MemoryStore} {evt : Event} {u : String}

lemma eventsOf_append : (s.append evt).eventsOf u
      = if u = evt.userID then s.eventsOf u ++ [evt] else s.eventsOf u := by
  unfold append eventsOf
  split_ifs with hu
  · subst hu
    simp
  · rw [AList.lookup_insert_ne hu]

lemma assignID_of_closed (h : s.closed) : s.assignID evt = .error .storeClosed := if_pos h

/-- The number of events that `List` returns at most. -/
def pageSize (limit : ℤ) : ℕ := (if limit ≤ 0 then 100 else limit).toNat

lemma list_of_closed {after : String} {limit : ℤ} (h : s.closed) :
    s.list u after limit = .error .storeClosed := if_pos h

/-- When no event has the empty ID, `List` needs no special case for it. -/
lemma list_of_open {after : String} {limit : ℤ} (h : s.closed = false)
    (hne : ∀ e ∈ s.eventsOf u, e.id ≠ "") : s.list u after limit = .ok
      ((Cursor.seek Event.id after (s.eventsOf u)).take (pageSize limit)) := by
  unfold list
  rw [if_neg (by simp [h])]
  by_cases haft : after = ""
  · have hseek : Cursor.seek Event.id after (s.eventsOf u) = s.eventsOf u := by
      refine Cursor.seek_of_not_mem ?_
      intro hmem
      obtain ⟨e, he, hid⟩ := List.mem_map.mp hmem
      exact hne e he (hid.trans haft)
    rw [hseek]
    simp [haft, pageSize]
  · simp [haft, pageSize]

end MemoryStore

/-! ## The channel of a stream -/

/-- What `deliverLocal` uses of a stream: its buffered channel, whether it is closed, and how many
events it has missed. -/
structure Inbox where
  ch : List Event
  bufferSize : ℕ
  closed : Bool
  dropped : ℕ
  deriving DecidableEq, Repr

namespace Inbox

/-- A send to the channel would not block. -/
def HasRoom (q : Inbox) : Prop := q.ch.length < q.bufferSize

instance (q : Inbox) : Decidable q.HasRoom := inferInstanceAs (Decidable (_ < _))

/-- The event joins the channel. -/
def enqueue (evt : Event) (q : Inbox) : Inbox := { q with ch := q.ch ++ [evt] }

/-- `select { case s.ch <- evt: delivered = true; default: s.dropped.Add(1) }`, for a stream that is
not closed. -/
def offer (evt : Event) (q : Inbox) : Inbox × Bool :=
  if q.closed then (q, false)
  else if q.HasRoom then (q.enqueue evt, true)
  else ({ q with dropped := q.dropped + 1 }, false)

end Inbox

end Mailbox.Notify
