import Mathlib.Data.String.Basic
import Mailbox.Lib.Decimal
import Mailbox.Lib.EventLog
import Mailbox.Notify.Store

/-!
# Redis streams

What the Redis store of `notify/redis/store.go` uses of Redis.  A stream is a log of entries whose
IDs are pairs of a time in milliseconds and a sequence number, ordered numerically; `XADD` takes the
server's time, and the next sequence number when that is not above the last ID.

As text an ID is its two numbers in decimal, joined by a dash.  Different IDs have different texts
(`StreamID.text_inj`), but the order of the texts is another one.
-/

namespace Mailbox.Notify

open EventLog

/-- The ID of an entry. -/
structure StreamID where
  ms : ℕ
  seq : ℕ
  deriving DecidableEq, Repr

namespace StreamID

/-- Redis compares the milliseconds first. -/
instance : LinearOrder StreamID where
  le a b := a.ms < b.ms ∨ a.ms = b.ms ∧ a.seq ≤ b.seq
  lt a b := a.ms < b.ms ∨ a.ms = b.ms ∧ a.seq < b.seq
  le_refl a := .inr ⟨rfl, le_rfl⟩
  le_trans a b c hab hbc := by omega
  lt_iff_le_not_ge a b := by omega
  le_antisymm a b hab hba := by
    obtain ⟨ms, seq⟩ := a
    obtain ⟨ms', seq'⟩ := b
    rw [mk.injEq]
    simp only at hab hba
    omega
  le_total a b := by omega
  toDecidableLE a b := inferInstanceAs (Decidable (_ ∨ _))
  toDecidableLT a b := inferInstanceAs (Decidable (_ ∨ _))

lemma lt_def {a b : StreamID} : a < b ↔ a.ms < b.ms ∨ a.ms = b.ms ∧ a.seq < b.seq := Iff.rfl

/-- `<ms>-<seq>`. -/
def text (id : StreamID) : String := id.ms.repr ++ "-" ++ id.seq.repr

lemma toList_text (id : StreamID) :
    id.text.toList = Nat.toDigits 10 id.ms ++ '-' :: Nat.toDigits 10 id.seq := by
  simp [text, Nat.repr_eq_ofList_toDigits]

lemma text_inj {a b : StreamID} : a.text = b.text ↔ a = b := by
  refine ⟨fun h => ?_, fun h => h ▸ rfl⟩
  have hlists := congrArg String.toList h
  have hdash : ∀ n, '-' ∉ Nat.toDigits 10 n := Decimal.not_mem_toDigits rfl
  rw [toList_text, toList_text, List.append_cons_inj_of_notMem (hdash _) (hdash _)] at hlists
  rw [mk.injEq]
  exact ⟨Decimal.toDigits_inj hlists.1, Decimal.toDigits_inj hlists.2.2⟩

end StreamID

/-- What `Save` writes into a stream: the event without its ID. -/
abbrev RedisLog := Log StreamID Event

/-- A key that does not exist. -/
def RedisLog.empty : RedisLog := ⟨[], ⟨0, 0⟩, List.Pairwise.nil, by simp⟩

/-- The ID that `XADD` gives out at a time of the server. -/
def nextID (now : ℕ) (last : StreamID) : StreamID :=
  if last.ms < now then ⟨now, 0⟩ else ⟨last.ms, last.seq + 1⟩

lemma lt_nextID (now : ℕ) (last : StreamID) : last < nextID now last := by
  unfold nextID
  split_ifs with h
  · exact .inl h
  · exact .inr ⟨rfl, Nat.lt_succ_self _⟩

/-- `XADD key * …`. -/
def xadd (now : ℕ) (evt : Event) (log : RedisLog) : RedisLog :=
  log.append (nextID now log.lastID) (lt_nextID now log.lastID) evt

/-- `parseMessage`: `Save` has written all fields, so that none of the defaults is needed. -/
def parseMessage (msg : StreamID × Event) : Event := { msg.2 with id := msg.1.text }

end Mailbox.Notify
