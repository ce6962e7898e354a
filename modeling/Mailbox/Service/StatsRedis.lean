import Mailbox.Lib.Pool
import Mailbox.Service.StatsHash

/-!
# The commands of the distributed cache

`statscache/redis/cache.go`, command by command.  `Set` sends an `HSET` and an `EXPIRE`, `IncrBy`
runs one script, `Invalidate` a `DEL`; a key may also expire by itself.  Redis executes each of them
at once, and the commands of different calls in any order.

* `get_set_iff` — `Set` keeps the fields of folders that the new snapshot does not have, and `Get`
  reads them again.
* **`seeded_run`** — the script does nothing for a user without a hash, so a hash that exists has
  all the fields of some `Set`.
-/

namespace Mailbox.Service

open Pool StatsHash

def DistCache.set (ownerID : String) (s : MailboxStats) (dist : DistCache) : DistCache :=
  dist.insert ownerID (hset s ((dist.lookup ownerID).getD ∅))

lemma DistCache.get_of_mem {dist : DistCache} {u k : String} {fields : StatsHash}
    (hlk : dist.lookup u = some fields) (hk : k ∈ fields) :
    dist.get u = some fields.decodeStats := by
  have hne : fields.entries ≠ [] := by
    intro hnil
    simp [AList.mem_keys, AList.keys, hnil] at hk
  simp [DistCache.get, hlk, hne]

/-- **Set and Get.**  Whatever the hash of the user holds, `Get` returns the snapshot that has just
been set exactly if no folder of it has a colon in its ID, and every folder that a field of the old
hash names is one of its folders. -/
theorem get_set_iff (dist : DistCache) (ownerID : String) (s : MailboxStats) :
    (∃ stats, (dist.set ownerID s).get ownerID = some stats ∧ s.Same stats)
      ↔ (∀ f ∈ s.folders.keys, Plain f)
        ∧ ∀ f, Names f ((dist.lookup ownerID).getD ∅).entries → f ∈ s.folders := by
  have hg : (dist.set ownerID s).get ownerID = _ := DistCache.get_of_mem (AList.lookup_insert _)
    (mem_hset.mpr (.inl ⟨s.totalMessages, by simp [encodedFields]⟩) : fieldTotal ∈ _)
  simp [hg, same_hset_iff]

/-- A folder that is gone comes back, and one with a colon in its ID is lost. -/
theorem get_set_differs :
    let old : MailboxStats := ⟨1, 0, 0, (∅ : AList _).insert "work" ⟨1, 0⟩⟩
    let new : MailboxStats := ⟨0, 0, 0, ∅⟩
    let colon : MailboxStats := ⟨1, 0, 0, (∅ : AList _).insert "a:b" ⟨1, 0⟩⟩
    (isValidFolderID "work" ∧ isValidFolderID "a:b")
      ∧ (((DistCache.set "ann" new (DistCache.set "ann" old ∅)).get "ann").map
          fun stats => stats.folders.keys) = some ["work"]
      ∧ ((DistCache.set "ann" colon ∅).get "ann").map (fun stats => stats.folders.keys)
          = some [] := by
  decide

/-! ## Commands -/

/-- What Redis executes at once.  An `EXPIRE` or `PEXPIRE` whose time is over deletes the key. -/
inductive RedisCommand where
  | hset (ownerID : String) (s : MailboxStats)
  | expire (ownerID : String) (past : Bool)
  | incrByScript (ownerID field : String) (delta : ℤ) (past : Bool)
  | del (ownerID : String)

def RedisCommand.exec : RedisCommand → DistCache → DistCache
  | .hset ownerID s, dist => dist.set ownerID s
  | .expire ownerID past, dist => if past then dist.erase ownerID else dist
  | .incrByScript ownerID field delta past, dist =>
    match dist.lookup ownerID with
    | none => dist
    | some fields =>
      if past then dist.erase ownerID else dist.insert ownerID (fields.incrBy field delta)
  | .del ownerID, dist => dist.erase ownerID

/-- A call of the cache, or a key that expires. -/
inductive RedisCall where
  | set (ownerID : String) (s : MailboxStats) (past : Bool)
  | incrBy (ownerID field : String) (delta : ℤ) (past : Bool)
  | invalidate (ownerID : String)
  | expiry (ownerID : String)

def RedisCall.commands : RedisCall → List RedisCommand
  | .set ownerID s past => [.hset ownerID s, .expire ownerID past]
  | .incrBy ownerID field delta past =>
    if delta = 0 then [] else [.incrByScript ownerID field delta past]
  | .invalidate ownerID | .expiry ownerID => [.del ownerID]

variable {ι : Type}

/-- Redis executes the next command of a call. -/
def commandStep (_ : ι) (dist : DistCache) : List RedisCommand → DistCache × List RedisCommand
  | [] => (dist, [])
  | command :: commands => (command.exec dist, commands)

/-- The user's hash, if there is one, has all the fields of a snapshot that was set for them. -/
def Seeded (sets : String → MailboxStats → Prop) (dist : DistCache) : Prop :=
  ∀ u fields, dist.lookup u = some fields →
    ∃ s, sets u s ∧ ∀ k n, (k, n) ∈ encodedFields s → k ∈ fields

variable {sets : String → MailboxStats → Prop} {dist : DistCache}

lemma Seeded.insert {u : String} {fields : StatsHash} (h : Seeded sets dist)
    (hw : ∃ s, sets u s ∧ ∀ k n, (k, n) ∈ encodedFields s → k ∈ fields) :
    Seeded sets (dist.insert u fields) := by
  intro u' fields' hlk
  by_cases hu : u' = u
  · subst hu
    rw [AList.lookup_insert] at hlk
    cases hlk
    exact hw
  · rw [AList.lookup_insert_ne hu] at hlk
    exact h u' fields' hlk

lemma Seeded.erase (h : Seeded sets dist) (u : String) : Seeded sets (dist.erase u) := by
  intro u' fields hlk
  by_cases hu : u' = u
  · subst hu
    rw [AList.lookup_erase] at hlk
    cases hlk
  · rw [AList.lookup_erase_ne hu] at hlk
    exact h u' fields hlk

/-- **The step.** -/
lemma Seeded.exec (h : Seeded sets dist) (command : RedisCommand)
    (hset : ∀ u s, command = .hset u s → sets u s) : Seeded sets (command.exec dist) := by
  cases command with
  | hset u s =>
    refine h.insert ⟨s, hset u s rfl, fun k n hk => mem_hset.mpr (.inl ⟨n, hk⟩)⟩
  | expire u past =>
    simp only [RedisCommand.exec]
    split_ifs
    · exact h.erase u
    · exact h
  | incrByScript u field delta past =>
    simp only [RedisCommand.exec]
    cases hlk : dist.lookup u with
    | none => exact h
    | some fields =>
      split_ifs
      · exact h.erase u
      · obtain ⟨s, hs, hflds⟩ := h u fields hlk
        refine h.insert ⟨s, hs, fun k n hk => ?_⟩
        unfold incrBy
        split_ifs
        · exact hflds k n hk
        · exact (AList.mem_insert _).mpr (.inr (hflds k n hk))
  | del u => exact h.erase u

/-- **No partial entries.**  However the commands of any calls and expiries interleave, a hash that
exists has the total, unread and draft fields, and all other fields of a snapshot that one of the
calls sets for the user; that is what `Get` returns, and it returns nothing without a hash. -/
theorem seeded_run [DecidableEq ι] (calls : ι → RedisCall) (schedule : List ι) (u : String)
    (fields : StatsHash) (hlookup : (run commandStep schedule
      ⟨∅, fun i => (calls i).commands⟩).shared.lookup u = some fields) :
    (fieldTotal ∈ fields ∧ fieldUnread ∈ fields ∧ fieldDraft ∈ fields)
      ∧ (∃ i s past, calls i = .set u s past ∧ ∀ k n, (k, n) ∈ encodedFields s → k ∈ fields)
      ∧ (run commandStep schedule ⟨∅, fun i => (calls i).commands⟩).shared.get u
        = some fields.decodeStats := by
  -- The snapshots still to be set are those of calls.
  let sets (u : String) (s : MailboxStats) : Prop := ∃ i past, calls i = .set u s past
  let known (commands : List RedisCommand) : Prop := ∀ u s, .hset u s ∈ commands → sets u s
  have hcalls : ∀ i, known (calls i).commands := by
    intro i u s hmem
    cases hcl : calls i with
    | set =>
      obtain ⟨rfl, rfl⟩ : u = _ ∧ s = _ := by simpa [hcl, RedisCall.commands] using hmem
      exact ⟨i, _, hcl⟩
    | incrBy =>
      rw [hcl, RedisCall.commands] at hmem
      split_ifs at hmem <;> simp at hmem
    | invalidate | expiry => simp [hcl, RedisCall.commands] at hmem
  let inv (c : Config ι DistCache (List RedisCommand)) : Prop :=
    Seeded sets c.shared ∧ ∀ i, known (c.loc i)
  have hinv : inv (run commandStep schedule ⟨∅, fun i => (calls i).commands⟩) := by
    refine run_induction schedule (fun c i h => ?_) ⟨fun _ _ h => (nomatch h), hcalls⟩
    have hi := h.2 i
    refine ⟨?_, forall_stepAt known h.2 ?_⟩
    · rw [stepAt_shared]
      cases hloc : c.loc i with
      | nil => exact h.1
      | cons command commands =>
        rw [hloc] at hi
        exact h.1.exec command fun u s heq => hi u s (heq ▸ List.mem_cons_self)
    · cases hloc : c.loc i with
      | nil => exact fun _ _ hmem => nomatch hmem
      | cons command commands =>
        rw [hloc] at hi
        exact fun u s hmem => hi u s (List.mem_cons_of_mem _ hmem)
  obtain ⟨s, ⟨i, past, hcl⟩, hflds⟩ := hinv.1 u fields hlookup
  have hmain : fieldTotal ∈ fields ∧ fieldUnread ∈ fields ∧ fieldDraft ∈ fields :=
    ⟨hflds _ s.totalMessages (by simp [encodedFields]),
      hflds _ s.unreadCount (by simp [encodedFields]),
      hflds _ s.draftCount (by simp [encodedFields])⟩
  exact ⟨hmain, ⟨i, s, past, hcl, hflds⟩, DistCache.get_of_mem hlookup hmain.1⟩

/-- A `Set` for Ann, with an `IncrBy` between its two commands. -/
theorem seeded_run_incrBy :
    let calls : Bool → RedisCall := fun i =>
      if i then .incrBy "ann" "total" 1 false else .set "ann" ⟨2, 1, 0, ∅⟩ false
    let dist := (run commandStep [false, true, false] ⟨∅, fun i => (calls i).commands⟩).shared
    ∃ fields, dist.lookup "ann" = some fields ∧ fieldDraft ∈ fields :=
  ⟨_, rfl, (seeded_run (fun i : Bool => if i then .incrBy "ann" "total" 1 false
    else .set "ann" ⟨2, 1, 0, ∅⟩ false) [false, true, false] "ann" _ rfl).1.2.2⟩

end Mailbox.Service
