import Mailbox.Memory.Stats

/-!
# Counts that agree

`MailboxStats`, `CountByFolders`, `Count` and `Find` each walk over the messages with tests of their
own for drafts, owners, folders and scheduled messages.  `MailboxStats` yields tallies; the other
three are brought to the same form here.
-/

namespace Mailbox.Memory

variable (now : Time) (ownerID : String)

/-- What `CountByFolders` does with a message it visits. -/
def countInFolder (folderIDs : List String) (counts : AList fun _ : String => FolderCounts)
    (m : Message) : AList fun _ : String => FolderCounts :=
  if m.isDraft ∨ m.ownerID ≠ ownerID ∨ isAvailableNow now m = false then counts
  else if m.folderID ∉ folderIDs then counts
  else
    let c := (counts.lookup m.folderID).getD ⟨0, 0⟩
    counts.insert m.folderID ⟨c.total + 1, if m.isRead then c.unread else c.unread + 1⟩

/-- `CountByFolders` returns message counts and unread counts for the given folders. -/
def Store.countByFolders (folderIDs : List String) (s : Store) :
    AList fun _ : String => FolderCounts :=
  s.messages.all.foldl (countInFolder now ownerID folderIDs) ∅

/-- In the folders it is asked for, `CountByFolders` counts what `MailboxStats` counts. -/
lemma lookup_countByFolders (folderIDs : List String) (s : Store) (f : String) :
    (s.countByFolders now ownerID folderIDs).lookup f
      = if f ∈ folderIDs then (s.mailboxStats now ownerID).folders.lookup f else none := by
  suffices hfo : ∀ (l : List Message) (counts : AList fun _ : String => FolderCounts)
      (stats : MailboxStats),
      (∀ f, counts.lookup f = if f ∈ folderIDs then stats.folders.lookup f else none) →
        ∀ f, (l.foldl (countInFolder now ownerID folderIDs) counts).lookup f
          = if f ∈ folderIDs then (l.foldl (countMessage now ownerID) stats).folders.lookup f
            else none from
    hfo s.messages.all ∅ .empty (fun f => by simp [MailboxStats.empty]) f
  intro l
  induction l with
  | nil => exact fun _ _ h => h
  | cons m l ih =>
    intro counts stats h
    refine ih _ _ fun f => ?_
    unfold countInFolder countMessage
    by_cases hown : m.ownerID = ownerID
    · cases hdr : m.isDraft with
      | true => simp [hown, h f]
      | false =>
        cases hav : isAvailableNow now m with
        | false => simp [hown, h f]
        | true =>
          by_cases hmem : m.folderID ∈ folderIDs
          · by_cases hf : f = m.folderID
            · subst hf
              simp [hown, hmem, h, MailboxStats.folder]
            · simp [hown, hmem, hf, h f, AList.lookup_insert_ne]
          · by_cases hf : f = m.folderID
            · simp [hown, hmem, hf, h]
            · simp [hown, hmem, hf, h f, AList.lookup_insert_ne]
    · simp [hown, h f]

lemma count_ownerIs (fs : List Filter) (s : Store) : (s.count now (ownerIs ownerID :: fs) : ℤ)
      = tally now ownerID (fun m => matchesFilters m fs) s.messages := by
  refine congrArg _ (List.countP_congr fun m _ => ?_)
  simp only [selects, matchesFilters, visible, List.all_cons, Bool.and_eq_true,
    matchesFilter_ownerIs, decide_eq_true_eq]
  tauto

lemma foldr_tally (q : Message → Bool) (t : Messages) {keys : List String} (hnd : keys.Nodup)
    (hks : ∀ m ∈ t.all, visible now ownerID m = true → m.folderID ∈ keys) :
    keys.foldr (fun f n => tally now ownerID (fun m => decide (m.folderID = f) && q m) t + n) 0
      = tally now ownerID q t := by
  have hsum : keys.foldr
      (fun f n => tally now ownerID (fun m => decide (m.folderID = f) && q m) t + n) 0
      = tally now ownerID (fun m => decide (m.folderID ∈ keys) && q m) t := by
    clear hks
    induction keys with
    | nil => simp [tally]
    | cons f keys ih =>
      obtain ⟨hf, hks⟩ := List.nodup_cons.mp hnd
      have hspl := t.all.countP_eq_countP_filter_add (fun m => visible now ownerID m
        && (decide (m.folderID ∈ f :: keys) && q m)) fun m => decide (m.folderID = f)
      rw [List.countP_filter, List.countP_filter] at hspl
      rw [List.foldr_cons, ih hks, tally, tally, tally, hspl, Nat.cast_add]
      congr 2 <;> refine List.countP_congr fun m _ => ?_
      · by_cases hm : m.folderID = f <;> simp [hm]
      · by_cases hm : m.folderID = f <;> simp [hm, hf]
  rw [hsum]
  refine congrArg _ (List.countP_congr fun m hm => ?_)
  cases hvis : visible now ownerID m with
  | false => rfl
  | true => simp [hks m hm hvis]

/-- **The counts of the store agree.** -/
theorem counts_consistent (s : Store) :
    let stats := s.mailboxStats now ownerID
    stats.totalMessages = s.count now [ownerIs ownerID]
      ∧ stats.folders.keys.foldr (fun f n => (stats.folder f).total + n) 0 = stats.totalMessages
      ∧ stats.folders.keys.foldr (fun f n => (stats.folder f).unread + n) 0 = stats.unreadCount
      ∧ (∀ folderIDs f, (s.countByFolders now ownerID folderIDs).lookup f
          = if f ∈ folderIDs then stats.folders.lookup f else none)
      ∧ ∀ (range : Range) sortBy order f, (∀ l, (range l).Perm l) →
          ∃ list, s.find now range [ownerIs ownerID, inFolder f] ⟨0, sortBy, order, ""⟩ = some list
            ∧ (list.messages.length : ℤ) = (stats.folder f).total := by
  intro stats
  obtain ⟨htot, hur, hfo⟩ := mailboxStats_counters now ownerID s
  have hks : ∀ m ∈ s.messages.all, visible now ownerID m = true →
      m.folderID ∈ stats.folders.keys := by
    intro m hm hvis
    by_contra hn
    have hzr := (hfo m.folderID).1
    rw [MailboxStats.folder, AList.lookup_eq_none.mpr hn] at hzr
    have hno := List.countP_eq_zero.mp (Int.natCast_eq_zero.mp hzr.symm) m hm
    simp [hvis] at hno
  refine ⟨?_, ?_, ?_, fun folderIDs => lookup_countByFolders now ownerID folderIDs s, ?_⟩
  · rw [htot, count_ownerIs]
    rfl
  · rw [htot, ← foldr_tally now ownerID _ _ stats.folders.keys_nodup hks]
    simp only [(hfo _).1, Bool.and_true, stats]
  · rw [hur, ← foldr_tally now ownerID _ _ stats.folders.keys_nodup hks]
    simp only [(hfo _).2, stats]
    rfl
  · intro range sortBy order f hrg
    have hall : ∀ all, pageOf 0 0 all = some ⟨all, all.length, false⟩ := by
      intro all
      simp [pageOf]
    refine ⟨_, hall _, ?_⟩
    rw [sortMessages, (ExchangeSort.sort_perm _).length_eq, ((hrg _).filter _).length_eq,
      ← List.countP_eq_length_filter, (hfo f).1]
    refine (count_ownerIs now ownerID [inFolder f] s).trans ?_
    refine congrArg _ (List.countP_congr fun m _ => ?_)
    simp only [matchesFilters, List.all_cons, List.all_nil, Bool.and_true, Bool.and_eq_true,
      matchesFilter_inFolder, decide_eq_true_eq]

end Mailbox.Memory
