import Mathlib.Data.List.Pairwise
import Mathlib.Order.Lattice
import Mathlib.Tactic.Common

/-!
# Logs with increasing IDs

A log is a list of entries whose IDs increase, with the last ID it has given out: the ID of an entry
that is removed is not given out again.  Readers keep an ID and ask for what comes after it.

* `Log.append` — a new entry, with an ID above all others.
* `Log.after` — the entries after an ID.  A reader that has taken the first of them and goes on
  after its ID has the others before it (`after_of_after_eq_cons`); what is appended comes last for
  every reader that is not ahead of the log (`after_append`).
-/

namespace EventLog

open List

variable {κ α : Type} [LinearOrder κ]

/-- Entries with increasing IDs, none of them above the last ID given out. -/
structure Log (κ α : Type) [LinearOrder κ] where
  entries : List (κ × α)
  lastID : κ
  sorted : entries.Pairwise fun e e' => e.1 < e'.1
  le_lastID : ∀ e ∈ entries, e.1 ≤ lastID

namespace Log

def append (log : Log κ α) (id : κ) (h : log.lastID < id) (value : α) : Log κ α where
  entries := log.entries ++ [(id, value)]
  lastID := id
  sorted := by
    rw [pairwise_append]
    refine ⟨log.sorted, pairwise_singleton _ _, fun e he e' he' => ?_⟩
    rw [mem_singleton] at he'
    subst he'
    exact lt_of_le_of_lt (log.le_lastID e he) h
  le_lastID := by
    intro e he
    rcases mem_append.mp he with he | he
    · exact le_of_lt (lt_of_le_of_lt (log.le_lastID e he) h)
    · rw [mem_singleton] at he
      rw [he]

def filter (log : Log κ α) (p : κ → Bool) : Log κ α where
  entries := log.entries.filter fun e => p e.1
  lastID := log.lastID
  sorted := log.sorted.filter _
  le_lastID := fun e he => log.le_lastID e (mem_filter.mp he).1

def drop (log : Log κ α) (n : ℕ) : Log κ α where
  entries := log.entries.drop n
  lastID := log.lastID
  sorted := log.sorted.drop
  le_lastID := fun e he => log.le_lastID e (mem_of_mem_drop he)

def after (log : Log κ α) (id : κ) : List (κ × α) :=
  log.entries.filter fun e => id < e.1

variable {log : Log κ α} {id id' : κ} {value : α} {e : κ × α} {rest : List (κ × α)}

lemma le_of_getLast? {last : κ × α} (hl : log.entries.getLast? = some last)
    (he : e ∈ log.entries) : e.1 ≤ last.1 := by
  obtain ⟨before, hspl⟩ := getLast?_eq_some_iff.mp hl
  have hsort := log.sorted
  rw [hspl, pairwise_append] at hsort
  rw [hspl, mem_append, mem_singleton] at he
  rcases he with he | rfl
  · exact le_of_lt (hsort.2.2 e he last mem_cons_self)
  · exact le_refl _

lemma mem_after : e ∈ log.after id ↔ e ∈ log.entries ∧ id < e.1 := by
  simp [after]

lemma after_of_lastID_le (h : log.lastID ≤ id) : log.after id = [] := by
  unfold after
  rw [filter_eq_nil_iff]
  intro e he
  simpa using le_trans (log.le_lastID e he) h

/-- A reader sees a new entry exactly if it is not ahead of it. -/
lemma after_append (h : log.lastID < id') : (log.append id' h value).after id
      = log.after id ++ if id < id' then [(id', value)] else [] := by
  unfold after append
  split_ifs with hid
  · simp [hid]
  · simp [hid]

/-- A reader goes on after the entry that it has taken. -/
lemma after_of_after_eq_cons (h : log.after id = e :: rest) : log.after e.1 = rest := by
  have hid : id < e.1 := (mem_after.mp (h ▸ mem_cons_self)).2
  have hsort : (e :: rest).Pairwise fun e e' => e.1 < e'.1 := h ▸ log.sorted.filter _
  have hfilt : log.after e.1 = (log.after id).filter fun e' => e.1 < e'.1 := by
    unfold after
    rw [filter_filter]
    refine filter_congr fun e' _ => ?_
    simpa using fun he' => lt_trans hid he'
  rw [hfilt, h, filter_cons_of_neg (by simp), filter_eq_self]
  intro e' he'
  simpa using rel_of_pairwise_cons hsort he'

/-- The first entries after an ID, and what comes after the last of them. -/
lemma after_eq_take_append {n : ℕ} (h : ((log.after id).take n).getLast? = some e) :
    log.after id = (log.after id).take n ++ log.after e.1 := by
  induction n generalizing id with
  | zero => simp at h
  | succ n ih =>
    cases haft : log.after id with
    | nil => simp [haft] at h
    | cons first rest =>
      have hr := after_of_after_eq_cons haft
      rw [haft, take_succ_cons] at h
      rw [take_succ_cons, cons_append, cons_inj_right, ← hr]
      cases htake : rest.take n with
      | nil =>
        rw [htake, getLast?_singleton] at h
        rw [hr, htake, nil_append, ← Option.some.inj h, hr]
      | cons =>
        refine ih ?_
        rw [hr]
        rw [htake, getLast?_cons_cons] at h
        rw [htake, h]

end Log

end EventLog
