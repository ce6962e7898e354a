import Mathlib.Data.List.Dedup
import Mailbox.Memory.Paging

/-!
# Participants of a thread

`thread.go`, and `ThreadParticipants` of `store/memory/query.go`.  The service asks the store when
the store can answer itself, and otherwise scans the thread with `Find`, a hundred messages at a
time.  A store wrapped by a plugin (`searchStore` embeds the interface `store.Store` and nothing
else) is scanned.

**The scan.**  Every page starts after the `NextCursor` of the one before.  `Find` of the memory
store never sets that field, so every page is the first page (`findPage_thread`); the scan ends with
its first page, or not at all (`scan_cases`).

**The answers.**  The store's own query looks at messages that are hidden until later, and does not
look at messages in the drafts folder; `Find` does the opposite in both respects.
-/

namespace Mailbox.Service

open Memory List

/-! ## The query of the store -/

/-- The messages `ThreadParticipants` of the store looks at. -/
def participates (threadID : String) (m : Message) : Bool :=
  !m.isDraft && decide (m.threadID = threadID) && decide (m.folderID ≠ folderTrash)
    && decide (m.folderID ≠ folderDrafts)

/-- The owners a query has come across, or not-found.  They are listed in no particular order. -/
def participants (seen : List String) : Except Error (List String) :=
  if seen = [] then .error (.sentinel .notFound) else .ok seen.dedup

/-- `ThreadParticipants` of the memory store. -/
def storeThreadParticipants (threadID : String) (s : Store) : Except Error (List String) :=
  participants ((s.messages.all.filter (participates threadID)).map Message.ownerID)

/-! ## The scan -/

/-- What the scan reads off a page. -/
structure ThreadPage where
  messages : List Message
  hasMore : Bool
  nextCursor : String

/-- `Find`, as the scan sees it: the memory store leaves `NextCursor` at its zero value. -/
def findPage (now : Time) (range : Range) (filters : List Filter)
    (opts : ListOptions) (s : Store) : Option ThreadPage :=
  (s.find now range filters opts).map fun list => ⟨list.messages, list.hasMore, ""⟩

def threadFilters (threadID : String) : List Filter :=
  [threadIs threadID, notInFolder folderTrash]

section Scan

variable (now : ℕ → Time) (ranges : Ranges) (threadID : String) (s : Store)

/-- The loop, from page `k` on.  `none` while it is still going; the clock and the order of the map
are those of each page. -/
def scan : (fuel k : ℕ) → (startAfter : String) → (seen : List String) → Option (List String)
  | 0, _, _, _ => none
  | fuel + 1, k, startAfter, seen =>
    match findPage (now k) (ranges k) (threadFilters threadID)
      { limit := 100, startAfter := startAfter } s with
    | none => none
    | some list =>
      let seen := seen ++ list.messages.map Message.ownerID
      if list.hasMore then scan fuel (k + 1) list.nextCursor seen else some seen

/-- `ThreadParticipants` of a connected service.  `wrapped` tells whether the store hides that it
is a `ThreadParticipantLister`. -/
def threadParticipants (fuel : ℕ) (wrapped : Bool) : Option (Except Error (List String)) :=
  if threadID = "" then
    some (.error (.detail (.sentinel .invalidMessage) "thread_id is required"))
  else if wrapped then (scan now ranges threadID s fuel 0 "" []).map participants
  else some (storeThreadParticipants threadID s)

end Scan

/-! ## What the scan comes across -/

lemma selects_threadFilters (now : Time) (threadID : String) (m : Message) :
    selects now (threadFilters threadID) m = true
      ↔ m.isDraft = false ∧ isAvailableNow now m = true ∧ m.threadID = threadID
        ∧ m.folderID ≠ folderTrash := by
  have hthr : threadIs threadID = .mk .threadID .eq (.str threadID) := rfl
  simp [selects, threadFilters, hthr, matchesFilters, matchesFilter, matchesScalar, goEq, and_assoc]

lemma participates_iff (threadID : String) (m : Message) : participates threadID m = true
      ↔ m.isDraft = false ∧ m.threadID = threadID ∧ m.folderID ≠ folderTrash
        ∧ m.folderID ≠ folderDrafts := by
  simp [participates, and_assoc]

lemma count_mono {now now' : Time} (h : now ≤ now') (threadID : String) (s : Store) :
    s.count now (threadFilters threadID) ≤ s.count now' (threadFilters threadID) := by
  refine countP_mono_left fun m _ hm => ?_
  rw [selects_threadFilters] at hm ⊢
  exact ⟨hm.1, isAvailableNow_mono h hm.2.1, hm.2.2⟩

section Pages

variable (now : ℕ → Time) {ranges : Ranges} (threadID : String) (s : Store)

section

variable (hranges : ranges.Perm)

include hranges

lemma findPage_thread (k : ℕ) : ∃ all, Matches (now k) (threadFilters threadID) s.messages all
      ∧ findPage (now k) (ranges k) (threadFilters threadID) { limit := 100 } s
        = some ⟨all.take 100, decide (100 < s.count (now k) (threadFilters threadID)), ""⟩ := by
  have hlim : 1 ≤ 100 := by omega
  obtain ⟨all, hall, hfd⟩ := find_first (now k) (threadFilters threadID) s hlim (hranges k)
  have hlen : all.length = s.count (now k) (threadFilters threadID) := by
    rw [hall.perm.length_eq, Store.count, countP_eq_length_filter]
  refine ⟨all, hall, ?_⟩
  rw [findPage, ← hlen]
  exact congrArg (Option.map _) hfd

lemma scan_endless (hmr : ∀ k, 100 < s.count (now k) (threadFilters threadID)) (fuel k : ℕ)
    (seen : List String) : scan now ranges threadID s fuel k "" seen = none := by
  induction fuel generalizing k seen with
  | zero => rfl
  | succ fuel ih =>
    obtain ⟨all, -, hfd⟩ := findPage_thread now threadID s hranges k
    simp only [scan, hfd, decide_eq_true (hmr k), if_true]
    exact ih _ _

/-- A scan whose first page is not full ends with it, and has come across everything. -/
lemma scan_onePage (hone : s.count (now 0) (threadFilters threadID) ≤ 100) :
    ∃ all, Matches (now 0) (threadFilters threadID) s.messages all
      ∧ ∀ fuel, scan now ranges threadID s (fuel + 1) 0 "" [] = some (all.map Message.ownerID) := by
  obtain ⟨all, hall, hfd⟩ := findPage_thread now threadID s hranges 0
  have hlen : all.length ≤ 100 := by
    rw [hall.perm.length_eq, ← countP_eq_length_filter]
    exact hone
  refine ⟨all, hall, fun fuel => ?_⟩
  have hl : decide (100 < s.count (now 0) (threadFilters threadID)) = false := by
    simpa using hone
  simp [scan, hfd, hl, take_of_length_le hlen]

end

end Pages

/-! ## The two answers -/

/-- The same owners, in whatever order, or the same error. -/
def SameAnswer : Except Error (List String) → Except Error (List String) → Prop
  | .ok l, .ok l' => ∀ u, u ∈ l ↔ u ∈ l'
  | .error e, .error e' => e = e'
  | _, _ => False

lemma sameAnswer_participants (l l' : List String) :
    SameAnswer (participants l) (participants l') ↔ ∀ u, u ∈ l ↔ u ∈ l' := by
  rcases l with _ | ⟨a, l⟩ <;> rcases l' with _ | ⟨b, l'⟩
  · simp [participants, SameAnswer]
  · simp only [participants, SameAnswer, reduceIte, reduceCtorEq, false_iff]
    intro h
    exact absurd ((h b).mpr mem_cons_self) not_mem_nil
  · simp only [participants, SameAnswer, reduceIte, reduceCtorEq, false_iff]
    intro h
    exact absurd ((h a).mp mem_cons_self) not_mem_nil
  · simp only [participants, SameAnswer, reduceIte, reduceCtorEq, mem_dedup]

/-- The scan of a wrapped store ends, with the answer the store gives itself. -/
def ScanAgrees (now : ℕ → Time) (ranges : Ranges) (threadID : String) (s : Store) : Prop :=
  ∃ fuel r r', threadParticipants now ranges threadID s fuel true = some r
    ∧ threadParticipants now ranges threadID s fuel false = some r' ∧ SameAnswer r r'

/-- The thread fits on a page; who owns a hidden message of it owns one that is not hidden; and who
owns one in the drafts folder owns one elsewhere. -/
structure Scannable (now : Time) (threadID : String) (s : Store) : Prop where
  onePage : s.count now (threadFilters threadID) ≤ 100
  hidden : ∀ m ∈ s.messages.all, participates threadID m = true → isAvailableNow now m = false →
    ∃ m' ∈ s.messages.all, selects now (threadFilters threadID) m' = true ∧ m'.ownerID = m.ownerID
  inDrafts : ∀ m ∈ s.messages.all, selects now (threadFilters threadID) m = true →
    m.folderID = folderDrafts →
    ∃ m' ∈ s.messages.all, participates threadID m' = true ∧ m'.ownerID = m.ownerID

/-- Given that the thread fits on a page, the other two conditions say that scan and query come
across the same owners. -/
lemma owners_iff {now : Time} {threadID : String} {s : Store} {all : List Message}
    (hall : Matches now (threadFilters threadID) s.messages all)
    (hone : s.count now (threadFilters threadID) ≤ 100) : (∀ u, u ∈ all.map Message.ownerID
        ↔ u ∈ (s.messages.all.filter (participates threadID)).map Message.ownerID)
      ↔ Scannable now threadID s := by
  simp only [mem_map, hall.mem_iff, mem_filter, and_assoc]
  constructor
  · intro h
    refine ⟨hone, fun m hm hpart _ => ?_, fun m hm hsel _ => ?_⟩
    · exact (h m.ownerID).mpr ⟨m, hm, hpart, rfl⟩
    · exact (h m.ownerID).mp ⟨m, hm, hsel, rfl⟩
  · intro h u
    constructor
    · rintro ⟨m, hm, hsel, rfl⟩
      by_cases hdrafts : m.folderID = folderDrafts
      · exact h.inDrafts m hm hsel hdrafts
      · have hsel' := (selects_threadFilters now threadID m).mp hsel
        exact ⟨m, hm, (participates_iff threadID m).mpr
          ⟨hsel'.1, hsel'.2.2.1, hsel'.2.2.2, hdrafts⟩, rfl⟩
    · rintro ⟨m, hm, hpart, rfl⟩
      cases hav : isAvailableNow now m with
      | false => exact h.hidden m hm hpart hav
      | true =>
        have hpart' := (participates_iff threadID m).mp hpart
        exact ⟨m, hm, (selects_threadFilters now threadID m).mpr
          ⟨hpart'.1, hav, hpart'.2.1, hpart'.2.2.1⟩, rfl⟩

/-- **The scan and the query.**  As long as the clock does not go back, the scan of a wrapped store
ends with the answer of the store exactly if the thread is `Scannable` when it starts (an empty
thread ID is refused before either). -/
theorem scan_agrees_iff {now : ℕ → Time} (hnow : ∀ ⦃j k⦄, j ≤ k → now j ≤ now k)
    {ranges : Ranges} (hranges : ranges.Perm)
    (threadID : String) (s : Store) :
    ScanAgrees now ranges threadID s ↔ threadID = "" ∨ Scannable (now 0) threadID s := by
  by_cases hid : threadID = ""
  · simp [ScanAgrees, threadParticipants, hid, SameAnswer]
  · simp only [hid, false_or]
    rcases Nat.lt_or_ge 100 (s.count (now 0) (threadFilters threadID)) with hmr | hone
    · have hendless := scan_endless now threadID s hranges fun k =>
        hmr.trans_le (count_mono (hnow (Nat.zero_le k)) threadID s)
      constructor
      · rintro ⟨fuel, r, r', hr, -, -⟩
        simp [threadParticipants, hid, hendless] at hr
      · intro h
        exact absurd h.onePage (by omega)
    · obtain ⟨all, hall, hsc⟩ := scan_onePage now threadID s hranges hone
      rw [← owners_iff hall hone, ← sameAnswer_participants]
      constructor
      · rintro ⟨fuel, r, r', hr, hr', hsm⟩
        cases fuel with
        | zero => simp [threadParticipants, hid, scan] at hr
        | succ =>
          simp only [threadParticipants, hid, if_false, if_true, hsc, Option.map_some,
            Option.some.injEq] at hr
          simp only [threadParticipants, hid, if_false, Bool.false_eq_true,
            Option.some.injEq] at hr'
          rw [hr, ← storeThreadParticipants, hr']
          exact hsm
      · intro hsm
        refine ⟨1, _, _, ?_, ?_, hsm⟩
        · simp [threadParticipants, hid, hsc 0]
        · simp [threadParticipants, hid, storeThreadParticipants]

/-! ## Threads that are not scannable -/

/-- A message of a thread, in the inbox. -/
def threadLetter (id ownerID : String) : Message :=
  { Store.newDraft 0 ownerID with
    id := id
    isDraft := false
    folderID := folderInbox
    threadID := "t" }

/-- A thread with one message, which is hidden until later. -/
def scheduledThread : Store :=
  .of <| Table.empty.put { threadLetter "m" "ann" with availableAt := some 9 }

/-- A thread with a hundred and one messages. -/
def longThread : Store :=
  .of { all := (List.range 101).map fun n =>
          threadLetter (String.ofList (replicate n 'm')) "ann"
        nodup := by
          rw [map_map]
          refine nodup_range.map fun a b h => ?_
          have hchars := congrArg String.toList h
          simpa [threadLetter] using congrArg List.length hchars }

/-- A message that is not sent yet is overlooked; and of a thread of more than a hundred messages
the scan reads the first page again and again. -/
theorem scan_disagrees : ¬ ScanAgrees (fun _ => 0) (fun _ l => l) "t" scheduledThread
      ∧ ¬ ScanAgrees (fun _ => 0) (fun _ l => l) "t" longThread := by
  constructor
  · rintro ⟨fuel, r, r', hr, hr', hsm⟩
    cases fuel with
    | zero => cases hr
    | succ =>
      cases hr
      cases hr'
      exact hsm
  · rintro ⟨fuel, r, r', hr, -, -⟩
    have hcnt : longThread.count 0 (threadFilters "t") = 101 := by
      rw [Store.count, countP_eq_length.mpr]
      · exact length_map _
      · intro m hm
        obtain ⟨n, -, rfl⟩ := mem_map.mp hm
        rfl
    have hendless := scan_endless (fun _ => 0) "t" longThread
      (fun (_ : ℕ) l => .refl l) (fun _ => by omega) fuel 0 []
    simp [threadParticipants, hendless] at hr

/-- A thread of two messages, one of which is in the drafts folder. -/
theorem scan_agrees_ann : ScanAgrees (fun _ => 0) (fun _ l => l) "t"
      (.of ((Table.empty.put { threadLetter "m" "ann" with folderID := folderDrafts }).put
          (threadLetter "n" "ann"))) := by
  refine (scan_agrees_iff (fun _ _ _ => le_rfl) (fun _ _ => .refl _) _ _).mpr
    (.inr ⟨by decide, ?_, ?_⟩)
  · decide
  · decide

end Mailbox.Service
