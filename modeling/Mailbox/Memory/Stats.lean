import Mathlib.Tactic.Ring
import Mailbox.Memory.Query

/-!
# Aggregate statistics of the in-memory store

`MailboxStats` of `store/stats.go` and `store/memory/stats.go`: how many messages a user has, in all
and per folder, and how many of them are unread.  Drafts are counted apart, and messages that are
not available yet are not counted at all.

`tally` is the number of a user's visible messages with some property; the four kinds of
counters are tallies (`mailboxStats_counters`), so that what a store operation does to one of them
is what it does to a tally.
-/

namespace Mailbox

structure FolderCounts where
  total : ℤ
  unread : ℤ
  deriving DecidableEq, Repr

structure MailboxStats where
  totalMessages : ℤ
  unreadCount : ℤ
  draftCount : ℤ
  folders : AList fun _ : String => FolderCounts

namespace MailboxStats

def empty : MailboxStats := ⟨0, 0, 0, ∅⟩

/-- `stats.Folders[folderID]`, zero for a folder that is not there. -/
def folder (stats : MailboxStats) (folderID : String) : FolderCounts :=
  (stats.folders.lookup folderID).getD ⟨0, 0⟩

def setFolder (folderID : String) (c : FolderCounts) (stats : MailboxStats) : MailboxStats :=
  { stats with folders := stats.folders.insert folderID c }

@[simp] lemma folder_setFolder (stats : MailboxStats) (folderID g : String) (c : FolderCounts) :
    (stats.setFolder folderID c).folder g = if g = folderID then c else stats.folder g := by
  unfold folder setFolder
  split_ifs with h
  · subst h
    rw [AList.lookup_insert]
    rfl
  · rw [AList.lookup_insert_ne h]

lemma lookup_setFolder {stats : MailboxStats} {c : FolderCounts} (f g : String) :
    (stats.setFolder g c).folders.lookup f = if f = g then some c else stats.folders.lookup f := by
  split_ifs with hf
  · rw [hf]
    exact AList.lookup_insert _
  · exact AList.lookup_insert_ne hf

end MailboxStats

namespace Memory

variable (now : Time) (ownerID : String)

/-- What `MailboxStats` does with a message it visits. -/
def countMessage (stats : MailboxStats) (m : Message) : MailboxStats :=
  if m.ownerID ≠ ownerID then stats
  else if m.isDraft then { stats with draftCount := stats.draftCount + 1 }
  else if isAvailableNow now m = false then stats
  else
    let c := stats.folder m.folderID
    { stats with
      totalMessages := stats.totalMessages + 1
      unreadCount := if m.isRead then stats.unreadCount else stats.unreadCount + 1
      folders := stats.folders.insert m.folderID
        ⟨c.total + 1, if m.isRead then c.unread else c.unread + 1⟩ }

/-- `MailboxStats` returns aggregate statistics for a user's mailbox. -/
def Store.mailboxStats (s : Store) : MailboxStats :=
  s.messages.all.foldl (countMessage now ownerID) MailboxStats.empty

/-! ## Tallies -/

/-- The messages that are counted: the user's own, neither drafts nor scheduled for later. -/
def visible (m : Message) : Bool :=
  decide (m.ownerID = ownerID) && !m.isDraft && isAvailableNow now m

/-- How many of the user's visible messages have the property. -/
def tally (p : Message → Bool) (t : Messages) : ℤ :=
  t.all.countP fun m => visible now ownerID m && p m

/-- In the folder, and unread. -/
def unreadIn (folderID : String) (m : Message) : Bool := decide (m.folderID = folderID) && !m.isRead

lemma countMessage_counters (stats : MailboxStats) (m : Message) :
    let add (p : Message → Bool) : ℤ := if visible now ownerID m && p m then 1 else 0
    (countMessage now ownerID stats m).totalMessages = stats.totalMessages + add (fun _ => true)
      ∧ (countMessage now ownerID stats m).unreadCount = stats.unreadCount + add (!·.isRead)
      ∧ ∀ f, ((countMessage now ownerID stats m).folder f).total
            = (stats.folder f).total + add (fun m => decide (m.folderID = f))
          ∧ ((countMessage now ownerID stats m).folder f).unread
            = (stats.folder f).unread + add (unreadIn f) := by
  intro add
  by_cases hvis : visible now ownerID m = true
  · have hparts := hvis
    simp only [visible, Bool.and_eq_true, decide_eq_true_eq, Bool.not_eq_true'] at hparts
    obtain ⟨⟨hown, hdr⟩, hav⟩ := hparts
    have hcnt : countMessage now ownerID stats m = MailboxStats.setFolder m.folderID
            ⟨(stats.folder m.folderID).total + 1,
              if m.isRead then (stats.folder m.folderID).unread
              else (stats.folder m.folderID).unread + 1⟩
            { stats with
              totalMessages := stats.totalMessages + 1
              unreadCount := if m.isRead then stats.unreadCount else stats.unreadCount + 1 } := by
      simp [countMessage, hown, hdr, hav, MailboxStats.setFolder]
    refine ⟨?_, ?_, fun f => ⟨?_, ?_⟩⟩
    · rw [hcnt]
      simp [add, hvis, MailboxStats.setFolder]
    · rw [hcnt]
      cases hrd : m.isRead <;> simp [add, hvis, hrd, MailboxStats.setFolder]
    · rw [hcnt, MailboxStats.folder_setFolder]
      by_cases hf : f = m.folderID
      · simp [add, hvis, hf]
      · simp [add, hf, Ne.symm hf, MailboxStats.folder]
    · rw [hcnt, MailboxStats.folder_setFolder]
      by_cases hf : f = m.folderID
      · cases hrd : m.isRead <;> simp [add, hvis, unreadIn, hf, hrd]
      · simp [add, unreadIn, hf, Ne.symm hf, MailboxStats.folder]
  · have hsm : (countMessage now ownerID stats m).totalMessages = stats.totalMessages
        ∧ (countMessage now ownerID stats m).unreadCount = stats.unreadCount
        ∧ (countMessage now ownerID stats m).folders = stats.folders := by
      by_cases hown : m.ownerID = ownerID
      · cases hdr : m.isDraft with
        | true => simp [countMessage, hown, hdr]
        | false =>
          have hav : isAvailableNow now m = false := by
            simpa [visible, hown, hdr] using hvis
          simp [countMessage, hown, hdr, hav]
      · simp [countMessage, hown]
    simp [add, hvis, hsm, MailboxStats.folder]

theorem mailboxStats_counters (s : Store) :
    (s.mailboxStats now ownerID).totalMessages = tally now ownerID (fun _ => true) s.messages
      ∧ (s.mailboxStats now ownerID).unreadCount = tally now ownerID (!·.isRead) s.messages
      ∧ ∀ f, ((s.mailboxStats now ownerID).folder f).total
            = tally now ownerID (fun m => decide (m.folderID = f)) s.messages
          ∧ ((s.mailboxStats now ownerID).folder f).unread
            = tally now ownerID (unreadIn f) s.messages := by
  -- The accumulator is what has been counted so far.
  have hfo : ∀ (l : List Message) (stats : MailboxStats),
      let count (p : Message → Bool) : ℤ := l.countP fun m => visible now ownerID m && p m
      let r := l.foldl (countMessage now ownerID) stats
      r.totalMessages = stats.totalMessages + count (fun _ => true)
        ∧ r.unreadCount = stats.unreadCount + count (!·.isRead)
        ∧ ∀ f, (r.folder f).total
              = (stats.folder f).total + count (fun m => decide (m.folderID = f))
            ∧ (r.folder f).unread = (stats.folder f).unread + count (unreadIn f) := by
    intro l
    induction l with
    | nil => simp
    | cons m l ih =>
      intro stats
      obtain ⟨htot, hur, hfolder⟩ := ih (countMessage now ownerID stats m)
      obtain ⟨htot', hur', hfolder'⟩ := countMessage_counters now ownerID stats m
      simp only [List.foldl_cons, List.countP_cons, Nat.cast_add, Nat.cast_ite, Nat.cast_one,
        Nat.cast_zero]
      refine ⟨?_, ?_, fun f => ⟨?_, ?_⟩⟩
      · rw [htot, htot']
        ring
      · rw [hur, hur']
        ring
      · rw [(hfolder f).1, (hfolder' f).1]
        ring
      · rw [(hfolder f).2, (hfolder' f).2]
        ring
  have h := hfo s.messages.all MailboxStats.empty
  simpa [MailboxStats.empty, tally, Store.mailboxStats, MailboxStats.folder] using h

end Memory

end Mailbox
