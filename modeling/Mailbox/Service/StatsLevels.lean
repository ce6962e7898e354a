import Mailbox.Lib.Machine
import Mailbox.Service.StatsHash

/-!
# The two levels of the statistics cache

With a distributed cache configured, the handlers of `stats.go` write down every change twice: in
the instance's own snapshot, where a counter that is zero is not decremented, and as a list of
increments of the user's hash, where it is.  `MarkAllRead` changes the snapshot alone.

* `StatsLevels.Agree` — the snapshot of a user and what `Get` would return are the same.
* `StatsInput.Exact` — the condition under which one input changes both in the same way:
  **no counter is decremented below one, nothing is moved to a folder whose ID has a colon in it,
  and `MarkAllRead` finds nothing to change**.

The levels agree after a step exactly when it is exact (`agree_handle_iff`), and so along whole
runs.
-/

namespace Mailbox.Service

/-! ## The increments of the handlers -/

variable (folderID : String)

/-- The increments for a message that leaves or enters a folder. -/
def folderDeltas (delta : ℤ) (wasUnread : Bool) : List (String × ℤ) :=
  if folderID ≠ "" then
    (statsCacheFolderTotal folderID, delta) ::
      if wasUnread then [(statsCacheFolderUnread folderID, delta)] else []
  else []

def sentDeltas : List (String × ℤ) :=
  [(fieldTotal, 1), (statsCacheFolderTotal folderSent, 1)]

def receivedDeltas : List (String × ℤ) :=
  [(fieldTotal, 1), (fieldUnread, 1), (statsCacheFolderTotal folderInbox, 1),
    (statsCacheFolderUnread folderInbox, 1)]

def readDeltas : List (String × ℤ) :=
  (fieldUnread, -1) :: if folderID ≠ "" then [(statsCacheFolderUnread folderID, -1)] else []

def deletedDeltas (wasUnread : Bool) : List (String × ℤ) :=
  (fieldTotal, -1) :: (if wasUnread then [(fieldUnread, -1)] else []) ++
    folderDeltas folderID (-1) wasUnread

def movedDeltas (fromFolderID toFolderID : String) (wasUnread : Bool) : List (String × ℤ) :=
  folderDeltas fromFolderID (-1) wasUnread ++ folderDeltas toFolderID 1 wasUnread

namespace DistCache

def onMessageSent (senderID : String) (recipientIDs : List String) (dist : DistCache) : DistCache :=
  recipientIDs.foldl (fun dist recipientID => dist.incrDistCache recipientID receivedDeltas)
    (dist.incrDistCache senderID sentDeltas)

def onSend (dist : DistCache) : Event → DistCache
  | .messageSent _ senderID recipientIDs _ _ => dist.onMessageSent senderID recipientIDs
  | .messageReceived .. => dist

def onMutation (dist : DistCache) : MutationEvent → DistCache
  | .messageRead _ userID folderID _ => dist.incrDistCache userID (readDeltas folderID)
  | .messageDeleted _ userID folderID wasUnread _ =>
    dist.incrDistCache userID (deletedDeltas folderID wasUnread)
  | .messageMoved _ userID fromFolderID toFolderID wasUnread _ =>
    dist.incrDistCache userID (movedDeltas fromFolderID toFolderID wasUnread)
  | .markAllRead .. => dist

end DistCache

/-! ## Both levels -/

structure StatsLevels where
  inProcess : StatsCache
  distributed : DistCache

/-- What an instance handles: the events it is subscribed to, and the calls of `MarkAllRead` with
the number of messages they marked. -/
inductive StatsInput where
  | send (e : Event)
  | mutation (e : MutationEvent)
  | markAllRead (userID folderID : String) (count : ℕ)

def StatsLevels.handle (levels : StatsLevels) : StatsInput → StatsLevels
  | .send e => ⟨levels.inProcess.onSend e, levels.distributed.onSend e⟩
  | .mutation e => ⟨levels.inProcess.onMutation e, levels.distributed.onMutation e⟩
  | .markAllRead userID folderID count =>
    if 0 < count then
      { levels with
        inProcess := levels.inProcess.updateCachedStats userID
          (StatsCache.countAllRead folderID count) }
    else levels

/-- The user has a snapshot at both levels, and they are the same. -/
def StatsLevels.Agree (u : String) (levels : StatsLevels) : Prop :=
  ∃ stats, levels.inProcess.cached u = some stats ∧
    ∃ dist, levels.distributed.get u = some dist ∧ stats.Same dist

/-! ## When a change is the same at both levels -/

/-- The folder has the message that is to leave it. -/
def Spare (wasUnread : Bool) (stats : MailboxStats) : Prop :=
  folderID ≠ "" →
    0 < (stats.folder folderID).total ∧ (wasUnread → 0 < (stats.folder folderID).unread)

/-- The condition on a snapshot under which both levels change in the same way. -/
def MutationEvent.Exact (stats : MailboxStats) : MutationEvent → Prop
  | .messageRead _ _ folderID _ =>
    0 < stats.unreadCount ∧ (folderID ≠ "" → Plain folderID → 0 < (stats.folder folderID).unread)
  | .messageDeleted _ _ folderID wasUnread _ =>
    0 < stats.totalMessages ∧ (wasUnread → 0 < stats.unreadCount) ∧ Spare folderID wasUnread stats
  | .messageMoved _ _ fromFolderID toFolderID wasUnread _ =>
    Spare fromFolderID wasUnread stats ∧ (toFolderID ≠ "" → Plain toFolderID)
  | .markAllRead .. => True

/-- The condition on an input and on the levels it finds. -/
def StatsInput.Exact (u : String) (levels : StatsLevels) : StatsInput → Prop
  | .send _ => True
  | .mutation e => e.userID = u → ∀ stats ∈ levels.inProcess.cached u, e.Exact stats
  | .markAllRead userID folderID count =>
    userID = u → 0 < count → ∀ stats ∈ levels.inProcess.cached u,
      stats.unreadCount = 0 ∧ ∃ c ∈ stats.folders.lookup folderID, c.unread = 0

/-! ## What the increments decode to -/

namespace StatsHash

variable {fields : StatsHash} {f g k : String} {delta : ℤ} {wasUnread : Bool}

@[simp] lemma incrAll_nil : fields.incrAll [] = fields := rfl

variable {ds : List (String × ℤ)}

@[simp] lemma incrAll_cons {d : String × ℤ} :
    fields.incrAll (d :: ds) = (fields.incrBy d.1 d.2).incrAll ds := rfl

lemma incrAll_append {ds' : List (String × ℤ)} :
    fields.incrAll (ds ++ ds') = (fields.incrAll ds).incrAll ds' :=
  List.foldl_append

/-- The increments that a handler makes to the counters of the whole mailbox.  An increment of zero
is none. -/
def incrMain (total unread : ℤ) (fields : StatsHash) : StatsHash :=
  (fields.incrBy fieldTotal total).incrBy fieldUnread unread

@[simp] lemma incrBy_zero : fields.incrBy k 0 = fields := if_pos rfl

lemma lookup_incrMain (total unread : ℤ) :
    (fields.incrMain total unread).decodeStats.folders.lookup f
      = fields.decodeStats.folders.lookup f := by
  have hmain : ∀ (h : StatsHash) (k : String) (delta : ℤ),
      k ∈ [fieldTotal, fieldUnread, fieldDraft] →
        (h.incrBy k delta).decodeStats.folders.lookup f = h.decodeStats.folders.lookup f := by
    intro h k delta hk
    by_cases hdelta : delta = 0
    · rw [hdelta, incrBy_zero]
    · rw [lookup_decodeStats_incrBy hdelta, if_neg (by simp [parseField_main hk])]
  rw [incrMain, hmain _ _ _ (by decide), hmain _ _ _ (by decide)]

/-- The folder increments do not touch the counters of the whole mailbox. -/
lemma value_folderDeltas (hk : k ∈ [fieldTotal, fieldUnread, fieldDraft]) :
    (fields.incrAll (folderDeltas g delta wasUnread)).value k = fields.value k := by
  have htot : k ≠ statsCacheFolderTotal g := by
    rintro rfl
    exact (folder_not_main g).1 hk
  have hur : k ≠ statsCacheFolderUnread g := by
    rintro rfl
    exact (folder_not_main g).2 hk
  unfold folderDeltas
  split_ifs <;> simp [htot, hur]

lemma lookup_folderDeltas (hdelta : delta ≠ 0) :
    (fields.incrAll (folderDeltas g delta wasUnread)).decodeStats.folders.lookup f
      = if f = g ∧ g ≠ "" ∧ Plain g then
          some ⟨(fields.decodeStats.folder g).total + delta,
            if wasUnread then (fields.decodeStats.folder g).unread + delta
            else (fields.decodeStats.folder g).unread⟩
        else fields.decodeStats.folders.lookup f := by
  unfold folderDeltas
  by_cases hg : g = ""
  · simp [hg]
  · rw [if_pos hg]
    cases wasUnread with
    | false =>
      show (fields.incrBy (statsCacheFolderTotal g) delta).decodeStats.folders.lookup f = _
      rw [lookup_incrBy_folderTotal hdelta]
      simp [hg]
    | true =>
      show ((fields.incrBy (statsCacheFolderTotal g) delta).incrBy (statsCacheFolderUnread g)
        delta).decodeStats.folders.lookup f = _
      rw [lookup_incrBy_folderUnread hdelta]
      by_cases h : f = g ∧ Plain g
      · obtain ⟨rfl, hf⟩ := h
        rw [if_pos ⟨rfl, hf⟩, if_pos ⟨rfl, hg, hf⟩]
        simp [MailboxStats.folder, lookup_incrBy_folderTotal hdelta, hf]
      · rw [if_neg h, if_neg (by tauto), lookup_incrBy_folderTotal hdelta, if_neg h]

lemma lookup_of_not_plain (hf : ¬ Plain f) : fields.decodeStats.folders.lookup f = none := by
  rw [lookup_decodeStats, if_neg]
  exact fun h => hf h.plain

end StatsHash

/-! ## One change at both levels -/

open StatsCache StatsHash MailboxStats

variable {c : FolderCounts} {stats : MailboxStats} {fields : StatsHash} {delta : ℤ}

section Change

variable {f g folderID fromFolderID toFolderID : String} {wasUnread : Bool}

/-- The counters of the whole mailbox and the folders can be looked at apart. -/
lemma same_iff {stats' : MailboxStats} {total unread : ℤ}
    (hds : ∀ (h : StatsHash), ∀ k ∈ [fieldTotal, fieldUnread, fieldDraft],
      (h.incrAll ds).value k = h.value k) (h : stats.Same fields.decodeStats) :
    stats'.Same ((fields.incrMain total unread).incrAll ds).decodeStats
      ↔ stats'.totalMessages = stats.totalMessages + total
        ∧ stats'.unreadCount = stats.unreadCount + unread
        ∧ stats'.draftCount = stats.draftCount
        ∧ ∀ f, stats'.folders.lookup f
            = ((fields.incrMain total unread).incrAll ds).decodeStats.folders.lookup f := by
  have htot : ((fields.incrMain total unread).incrAll ds).decodeStats.totalMessages
      = stats.totalMessages + total := by
    rw [totalMessages_decodeStats, hds _ _ (by decide), incrMain, value_incrBy, value_incrBy,
      if_neg (by decide), if_pos rfl, h.total, totalMessages_decodeStats]
  have hur : ((fields.incrMain total unread).incrAll ds).decodeStats.unreadCount
      = stats.unreadCount + unread := by
    rw [unreadCount_decodeStats, hds _ _ (by decide), incrMain, value_incrBy, value_incrBy,
      if_pos rfl, if_neg (by decide), h.unread, unreadCount_decodeStats]
  have hdr : ((fields.incrMain total unread).incrAll ds).decodeStats.draftCount
      = stats.draftCount := by
    rw [draftCount_decodeStats, hds _ _ (by decide), incrMain, value_incrBy, value_incrBy,
      if_neg (by decide), if_neg (by decide), h.draft, draftCount_decodeStats]
  rw [← htot, ← hur, ← hdr]
  exact ⟨fun h => ⟨h.total, h.unread, h.draft, h.folders⟩, fun ⟨ht, hu, hd, hf⟩ => ⟨ht, hu, hd, hf⟩⟩

lemma decrement_eq_iff {n : ℤ} : decrement n = n + -1 ↔ 0 < n := by
  unfold decrement
  split_ifs <;> omega

lemma spare_iff (hg : g ≠ "") : Spare g wasUnread stats
      ↔ decrement (stats.folder g).total = (stats.folder g).total + -1
        ∧ (if wasUnread then decrement (stats.folder g).unread else (stats.folder g).unread)
          = if wasUnread then (stats.folder g).unread + -1 else (stats.folder g).unread := by
  cases wasUnread <;> simp [Spare, hg, decrement_eq_iff]

lemma lookup_countIn_ne (hf : f ≠ g) :
    (countIn g wasUnread stats).folders.lookup f = stats.folders.lookup f := by
  by_cases hg : g = ""
  · rw [countIn, if_neg (by simpa using hg)]
  · rw [countIn, if_pos hg, lookup_setFolder, if_neg hf]

@[simp] lemma countIn_counters : (countIn g wasUnread stats).totalMessages = stats.totalMessages
      ∧ (countIn g wasUnread stats).unreadCount = stats.unreadCount
      ∧ (countIn g wasUnread stats).draftCount = stats.draftCount := by
  unfold countIn
  split_ifs <;> exact ⟨rfl, rfl, rfl⟩

@[simp] lemma countOut_counters : (countOut g wasUnread stats).totalMessages = stats.totalMessages
      ∧ (countOut g wasUnread stats).unreadCount = stats.unreadCount
      ∧ (countOut g wasUnread stats).draftCount = stats.draftCount := by
  unfold countOut
  split_ifs <;> exact ⟨rfl, rfl, rfl⟩

@[simp] lemma countRead_counters : (countRead g stats).totalMessages = stats.totalMessages
      ∧ (countRead g stats).unreadCount = decrement stats.unreadCount
      ∧ (countRead g stats).draftCount = stats.draftCount := by
  simp only [countRead]
  split_ifs <;> exact ⟨rfl, rfl, rfl⟩

section Folders

variable (h : ∀ f, stats.folders.lookup f = fields.decodeStats.folders.lookup f)

include h

lemma folder_of_lookup (f : String) : stats.folder f = fields.decodeStats.folder f := by
  rw [MailboxStats.folder, h f]
  rfl

lemma plain_of_total_pos (hf : 0 < (stats.folder f).total) : Plain f := by
  by_contra hpl
  rw [MailboxStats.folder, h f, lookup_of_not_plain hpl] at hf
  exact absurd hf (by decide)

lemma plain_of_unread_pos (hf : 0 < (stats.folder f).unread) : Plain f := by
  by_contra hpl
  rw [MailboxStats.folder, h f, lookup_of_not_plain hpl] at hf
  exact absurd hf (by decide)

/-- One folder written in the snapshot, and its fields incremented in the hash. -/
lemma lookup_folder_iff (hg : g ≠ "") (hdelta : delta ≠ 0) : (stats.setFolder g c).folders.lookup g
        = (fields.incrAll (folderDeltas g delta wasUnread)).decodeStats.folders.lookup g
      ↔ Plain g ∧ c.total = (stats.folder g).total + delta
        ∧ c.unread = if wasUnread then (stats.folder g).unread + delta
            else (stats.folder g).unread := by
  rw [lookup_setFolder, if_pos rfl, lookup_folderDeltas hdelta, folder_of_lookup h]
  by_cases hpl : Plain g
  · rw [if_pos ⟨rfl, hg, hpl⟩, Option.some.injEq, FolderCounts.mk.injEq]
    simp only [hpl, true_and]
  · rw [if_neg (by tauto), lookup_of_not_plain hpl]
    simp [hpl]

lemma setFolder_iff (hg : g ≠ "") (hdelta : delta ≠ 0) :
    (∀ f, (stats.setFolder g c).folders.lookup f
        = (fields.incrAll (folderDeltas g delta wasUnread)).decodeStats.folders.lookup f)
      ↔ Plain g ∧ c.total = (stats.folder g).total + delta
        ∧ c.unread = if wasUnread then (stats.folder g).unread + delta
            else (stats.folder g).unread := by
  rw [← lookup_folder_iff h hg hdelta]
  refine ⟨fun hall => hall g, fun hat f => ?_⟩
  by_cases hf : f = g
  · rw [hf, hat]
  · rw [lookup_setFolder, if_neg hf, lookup_folderDeltas hdelta, if_neg (by tauto), h f]

lemma countOut_iff : (∀ f, (countOut g wasUnread stats).folders.lookup f
        = (fields.incrAll (folderDeltas g (-1) wasUnread)).decodeStats.folders.lookup f)
      ↔ Spare g wasUnread stats := by
  by_cases hg : g = ""
  · simpa [countOut, folderDeltas, Spare, hg] using h
  · rw [countOut, if_pos hg, setFolder_iff h hg (by decide), spare_iff hg]
    exact ⟨fun hout => hout.2, fun hout =>
      ⟨plain_of_total_pos h ((spare_iff hg).mpr hout hg).1, hout⟩⟩

lemma countIn_iff : (∀ f, (countIn g wasUnread stats).folders.lookup f
        = (fields.incrAll (folderDeltas g 1 wasUnread)).decodeStats.folders.lookup f)
      ↔ (g ≠ "" → Plain g) := by
  by_cases hg : g = ""
  · simpa [countIn, folderDeltas, hg] using h
  · rw [countIn, if_pos hg, setFolder_iff h hg (by decide)]
    simp [hg]

lemma spare_of_same_folder (hg : g ≠ "")
    (hat : (countIn g wasUnread (countOut g wasUnread stats)).folders.lookup g
      = ((fields.incrAll (folderDeltas g (-1) wasUnread)).incrAll
          (folderDeltas g 1 wasUnread)).decodeStats.folders.lookup g) :
    Spare g wasUnread stats := by
  rw [countIn, if_pos hg, lookup_setFolder, if_pos rfl, countOut, if_pos hg,
    lookup_folderDeltas (by decide), folder_setFolder, if_pos rfl] at hat
  by_cases hpl : g = g ∧ g ≠ "" ∧ Plain g
  · have hfo : (fields.incrAll (folderDeltas g (-1) wasUnread)).decodeStats.folder g
        = ⟨(stats.folder g).total + -1,
          if wasUnread then (stats.folder g).unread + -1 else (stats.folder g).unread⟩ := by
      rw [MailboxStats.folder, lookup_folderDeltas (by decide), if_pos hpl, ← folder_of_lookup h]
      rfl
    rw [if_pos hpl, hfo] at hat
    simp only [Option.some.injEq, FolderCounts.mk.injEq, add_left_inj] at hat
    rw [spare_iff hg]
    refine ⟨hat.1, ?_⟩
    cases wasUnread with
    | false => rfl
    | true => simpa [sub_eq_add_neg] using eq_sub_of_add_eq hat.2
  · rw [if_neg hpl, lookup_of_not_plain (fun hpl' => hpl ⟨rfl, hg, hpl'⟩)] at hat
    cases hat

/-- A message that is moved leaves one folder and enters another, or the same again. -/
lemma moved_iff :
    (∀ f, (countIn toFolderID wasUnread (countOut fromFolderID wasUnread stats)).folders.lookup f
        = (fields.incrAll
            (movedDeltas fromFolderID toFolderID wasUnread)).decodeStats.folders.lookup f)
      ↔ Spare fromFolderID wasUnread stats ∧ (toFolderID ≠ "" → Plain toFolderID) := by
  rw [movedDeltas, incrAll_append]
  constructor
  · intro hall
    have hspare : Spare fromFolderID wasUnread stats := by
      intro hfrom
      refine (?_ : Spare fromFolderID wasUnread stats) hfrom
      by_cases hto : fromFolderID = toFolderID
      · subst hto
        exact spare_of_same_folder h hfrom (hall fromFolderID)
      · -- What enters the other folder does not show in this one.
        have hat := hall fromFolderID
        rw [lookup_folderDeltas (by decide), if_neg (by tauto)] at hat
        have hleft : (countOut fromFolderID wasUnread stats).folders.lookup fromFolderID
            = (fields.incrAll (folderDeltas fromFolderID (-1) wasUnread)).decodeStats.folders.lookup
                fromFolderID := by
          rw [← hat, lookup_countIn_ne hto]
        rw [countOut, if_pos hfrom, lookup_folder_iff h hfrom (by decide)] at hleft
        exact (spare_iff hfrom).mpr hleft.2
    exact ⟨hspare, (countIn_iff ((countOut_iff h).mpr hspare)).mp hall⟩
  · rintro ⟨hspare, hpl⟩
    exact (countIn_iff ((countOut_iff h).mpr hspare)).mpr hpl

/-- The folder of a message that is read.  Here a counter at zero is not even written, and a folder
that the hash does not decode stays out of both. -/
lemma countRead_iff : (∀ f, (countRead g stats).folders.lookup f = (fields.incrAll
            (if g ≠ "" then [(statsCacheFolderUnread g, -1)] else [])).decodeStats.folders.lookup
            f)
      ↔ (g ≠ "" → Plain g → 0 < (stats.folder g).unread) := by
  by_cases hg : g = ""
  · simpa [countRead, hg] using h
  have hrd : ∀ f, (countRead g stats).folders.lookup f
      = if 0 < (stats.folder g).unread ∧ f = g then
          some { stats.folder g with unread := (stats.folder g).unread - 1 }
        else stats.folders.lookup f := by
    intro f
    rw [countRead, if_pos hg]
    by_cases hpos : 0 < (stats.folder g).unread
    · show (if 0 < (stats.folder g).unread then _ else _ : MailboxStats).folders.lookup f = _
      rw [if_pos hpos, lookup_setFolder]
      simp [hpos]
      rfl
    · show (if 0 < (stats.folder g).unread then _ else _ : MailboxStats).folders.lookup f = _
      rw [if_neg hpos, if_neg (by tauto)]
  have hincr : ∀ f, (fields.incrAll [(statsCacheFolderUnread g, -1)]).decodeStats.folders.lookup f
      = if f = g ∧ Plain g then
          some { stats.folder g with unread := (stats.folder g).unread - 1 }
        else stats.folders.lookup f := by
    intro f
    rw [incrAll_cons, incrAll_nil, lookup_incrBy_folderUnread (by simp), h f, ← folder_of_lookup h]
    rfl
  simp only [hrd, if_pos hg, hincr]
  constructor
  · intro hall _ hpl
    by_contra hpos
    have hat := hall g
    rw [if_neg (by tauto), if_pos ⟨rfl, hpl⟩] at hat
    have hfo := congrArg (fun o => FolderCounts.unread (o.getD ⟨0, 0⟩)) hat
    have hsm : (stats.folder g).unread = (stats.folder g).unread - 1 := hfo
    omega
  · intro hpos f
    by_cases hpl : Plain g
    · simp [hpos hg hpl, hpl]
    · rw [if_neg (fun hrd => hpl (plain_of_unread_pos h hrd.1)), if_neg (by tauto)]

end Folders

variable (h : stats.Same fields.decodeStats)

include h

lemma lookup_of_same (total unread : ℤ) (f : String) :
    stats.folders.lookup f = (fields.incrMain total unread).decodeStats.folders.lookup f := by
  rw [lookup_incrMain, h.folders f]

lemma same_countIn (hf : Plain folderID) (isUnread : Bool) (unread : ℤ) :
    (countIn folderID isUnread { stats with
        totalMessages := stats.totalMessages + 1
        unreadCount := stats.unreadCount + unread }).Same
      ((fields.incrMain 1 unread).incrAll (folderDeltas folderID 1 isUnread)).decodeStats := by
  rw [same_iff (fun _ _ hk => value_folderDeltas hk) h]
  refine ⟨by simp, by simp, by simp, (countIn_iff ?_).mpr fun _ => hf⟩
  exact lookup_of_same h 1 unread

lemma same_sent : (countSent stats).Same (fields.incrAll sentDeltas).decodeStats := by
  have hcnt := same_countIn h (show Plain folderSent by decide) false 0
  rw [Int.add_zero] at hcnt
  simpa [sentDeltas, incrMain, folderDeltas, show folderSent ≠ "" by decide] using! hcnt

lemma same_received : (countReceived stats).Same (fields.incrAll receivedDeltas).decodeStats := by
  have hcnt := same_countIn h (show Plain folderInbox by decide) true 1
  simpa [receivedDeltas, incrMain, folderDeltas, show folderInbox ≠ "" by decide] using! hcnt

lemma same_read_iff :
    (countRead folderID stats).Same (fields.incrAll (readDeltas folderID)).decodeStats
      ↔ 0 < stats.unreadCount
        ∧ (folderID ≠ "" → Plain folderID → 0 < (stats.folder folderID).unread) := by
  have hdeltas : fields.incrAll (readDeltas folderID) = (fields.incrMain 0 (-1)).incrAll
          (if folderID ≠ "" then [(statsCacheFolderUnread folderID, -1)] else []) := by
    simp [readDeltas, incrMain]
  have hmain : ∀ (h : StatsHash), ∀ k ∈ [fieldTotal, fieldUnread, fieldDraft],
      (h.incrAll (if folderID ≠ "" then [(statsCacheFolderUnread folderID, -1)] else [])).value k
        = h.value k := by
    intro h k hk
    have hne : k ≠ statsCacheFolderUnread folderID := by
      rintro rfl
      exact (folder_not_main folderID).2 hk
    split_ifs <;> simp [hne]
  rw [hdeltas, same_iff hmain h, countRead_iff (lookup_of_same h 0 (-1))]
  simp [decrement_eq_iff]

lemma same_deleted_iff : (countDeleted folderID wasUnread stats).Same
        (fields.incrAll (deletedDeltas folderID wasUnread)).decodeStats
      ↔ 0 < stats.totalMessages ∧ (wasUnread → 0 < stats.unreadCount)
        ∧ Spare folderID wasUnread stats := by
  have hdeltas : fields.incrAll (deletedDeltas folderID wasUnread)
      = (fields.incrMain (-1) (if wasUnread then -1 else 0)).incrAll
          (folderDeltas folderID (-1) wasUnread) := by
    cases wasUnread <;> simp [deletedDeltas, incrMain]
  let less : MailboxStats := { stats with
    totalMessages := decrement stats.totalMessages
    unreadCount := if wasUnread then decrement stats.unreadCount else stats.unreadCount }
  have hcnt : countDeleted folderID wasUnread stats = countOut folderID wasUnread less := rfl
  have hless : ∀ f, less.folders.lookup f
      = (fields.incrMain (-1) (if wasUnread then -1 else 0)).decodeStats.folders.lookup f :=
    lookup_of_same h _ _
  rw [hdeltas, hcnt, same_iff (fun _ _ hk => value_folderDeltas hk) h, countOut_iff hless]
  have hspare : Spare folderID wasUnread less ↔ Spare folderID wasUnread stats := Iff.rfl
  rw [hspare]
  cases wasUnread <;> simp [less, decrement_eq_iff]

lemma same_moved_iff : (countIn toFolderID wasUnread (countOut fromFolderID wasUnread stats)).Same
        (fields.incrAll (movedDeltas fromFolderID toFolderID wasUnread)).decodeStats
      ↔ Spare fromFolderID wasUnread stats ∧ (toFolderID ≠ "" → Plain toFolderID) := by
  have hmain : ∀ (h : StatsHash), ∀ k ∈ [fieldTotal, fieldUnread, fieldDraft],
      (h.incrAll (movedDeltas fromFolderID toFolderID wasUnread)).value k = h.value k := by
    intro h k hk
    rw [movedDeltas, incrAll_append, value_folderDeltas hk, value_folderDeltas hk]
  have hzr : fields.incrMain 0 0 = fields := by simp [incrMain]
  rw [← hzr, same_iff hmain h, hzr, moved_iff h.folders]
  simp

/-- `MarkAllRead` leaves the hash alone, so it has to leave the snapshot as it is. -/
lemma same_allRead_iff {count : ℕ} (hcnt : 0 < count) :
    (countAllRead folderID count stats).Same fields.decodeStats
      ↔ stats.unreadCount = 0 ∧ ∃ c ∈ stats.folders.lookup folderID, c.unread = 0 := by
  have hsubtract : ∀ n : ℤ, subtract n count = n ↔ n = 0 := by
    intro n
    unfold subtract
    split_ifs <;> omega
  have hat : ∀ f, (countAllRead folderID count stats).folders.lookup f = if f = folderID then
          some ⟨(stats.folder folderID).total, subtract (stats.folder folderID).unread count⟩
        else stats.folders.lookup f := fun f => lookup_setFolder f folderID
  constructor
  · intro hsm
    have hur : subtract stats.unreadCount count = stats.unreadCount :=
      hsm.unread.trans h.unread.symm
    have hfo := hsm.folders folderID
    rw [hat, if_pos rfl, ← h.folders folderID] at hfo
    refine ⟨(hsubtract _).mp hur, _, hfo.symm, ?_⟩
    have hkp : (stats.folder folderID).unread
        = subtract (stats.folder folderID).unread count := by
      conv_lhs => rw [MailboxStats.folder, ← hfo]
      rfl
    rw [← hkp]
    exact (hsubtract _).mp hkp.symm
  · rintro ⟨hur, c, hc, hzr⟩
    have hfo : stats.folder folderID = c := by
      rw [MailboxStats.folder, Option.mem_def.mp hc]
      rfl
    refine ⟨h.total, ?_, h.draft, ?_⟩
    · exact ((hsubtract _).mpr hur).trans h.unread
    · intro f
      rw [hat, ← h.folders f]
      split_ifs with hf
      · rw [hf, Option.mem_def.mp hc, hfo, (hsubtract _).mpr hzr]
      · rfl

end Change

/-! ## One step -/

section Step

variable {levels : StatsLevels} {u : String}

lemma incrAll_entries_ne_nil (ds : List (String × ℤ)) (h : fields.entries ≠ []) :
    (fields.incrAll ds).entries ≠ [] := by
  induction ds generalizing fields with
  | nil => exact h
  | cons d ds ih =>
    refine ih ?_
    show (fields.incrBy d.1 d.2).entries ≠ []
    rw [incrBy]
    split_ifs
    · exact h
    · exact List.cons_ne_nil _ _

lemma agree_of (hcd : levels.inProcess.cached u = some stats)
    (hlk : levels.distributed.lookup u = some fields) (hne : fields.entries ≠ []) :
    levels.Agree u ↔ stats.Same fields.decodeStats := by
  have hg : levels.distributed.get u = some fields.decodeStats := by
    rw [DistCache.get, hlk]
    exact if_neg hne
  constructor
  · rintro ⟨stats', hss', dist, hdist, hsm⟩
    rw [hcd, Option.some.injEq] at hss'
    rw [hg, Option.some.injEq] at hdist
    rw [hss', hdist]
    exact hsm
  · intro hsm
    exact ⟨stats, hcd, _, hg, hsm⟩

lemma StatsLevels.Agree.exists (h : levels.Agree u) :
    ∃ stats fields, levels.inProcess.cached u = some stats
      ∧ levels.distributed.lookup u = some fields ∧ fields.entries ≠ []
      ∧ stats.Same fields.decodeStats := by
  obtain ⟨stats, hcd, dist, hg, hsm⟩ := h
  unfold DistCache.get at hg
  split at hg
  · cases hg
  · next fields hlk =>
      split_ifs at hg with hne
      cases hg
      exact ⟨stats, fields, hcd, hlk, hne, hsm⟩

/-- A change of one user's snapshot, and increments of the user's hash. -/
lemma agree_update_iff (levels' : StatsLevels) {userID : String} {fn : MailboxStats → MailboxStats}
    {P : MailboxStats → Prop} (h : levels.Agree u) (hcd' : levels'.inProcess.cached u
      = if u = userID then (levels.inProcess.cached u).map fn else levels.inProcess.cached u)
    (hlk' : levels'.distributed.lookup u
      = if u = userID then (levels.distributed.lookup u).map (incrAll ds)
        else levels.distributed.lookup u)
    (hchange : ∀ (stats : MailboxStats) (fields : StatsHash), stats.Same fields.decodeStats →
      ((fn stats).Same (fields.incrAll ds).decodeStats ↔ P stats)) :
    levels'.Agree u ↔ (userID = u → ∀ stats ∈ levels.inProcess.cached u, P stats) := by
  obtain ⟨stats, fields, hcd, hlk, hne, hsm⟩ := h.exists
  rw [hcd] at hcd'
  rw [hlk] at hlk'
  by_cases hu : u = userID
  · rw [if_pos hu] at hcd' hlk'
    rw [agree_of hcd' hlk' (incrAll_entries_ne_nil _ hne), hchange stats fields hsm]
    simp [hu.symm, hcd]
  · rw [if_neg hu] at hcd' hlk'
    rw [agree_of hcd' hlk' hne]
    exact ⟨fun _ huser => absurd huser.symm hu, fun _ => hsm⟩

/-- **One input keeps the two levels the same exactly when it is exact.** -/
theorem agree_handle_iff (h : levels.Agree u) (input : StatsInput) :
    (levels.handle input).Agree u ↔ input.Exact u levels := by
  obtain ⟨stats, fields, hcd, hlk, hne, hsm⟩ := h.exists
  cases input with
  | send e =>
    refine ⟨fun _ => trivial, fun _ => ?_⟩
    cases e with
    | messageReceived => exact h
    | messageSent messageID senderID recipientIDs =>
      have hrecv : ∀ (n : ℕ) (stats : MailboxStats) (fields : StatsHash),
          fields.entries ≠ [] → stats.Same fields.decodeStats →
          ((incrAll receivedDeltas)^[n] fields).entries ≠ [] ∧ (countReceived^[n] stats).Same
              ((incrAll receivedDeltas)^[n] fields).decodeStats := by
        intro n
        induction n with
        | zero => exact fun _ _ hne hsm => ⟨hne, hsm⟩
        | succ n ih =>
          intro stats fields hne hsm
          exact ih _ _ (incrAll_entries_ne_nil _ hne) (same_received hsm)
      have hboth : (if u = senderID then fields.incrAll sentDeltas else fields).entries ≠ []
          ∧ (if u = senderID then countSent stats else stats).Same
            (if u = senderID then fields.incrAll sentDeltas else fields).decodeStats := by
        split_ifs
        · exact ⟨incrAll_entries_ne_nil _ hne, same_sent hsm⟩
        · exact ⟨hne, hsm⟩
      obtain ⟨hne', hsm'⟩ := hrecv (recipientIDs.count u) _ _ hboth.1 hboth.2
      refine (agree_of ?_ ?_ hne').mpr hsm'
      · show (levels.inProcess.onMessageSent senderID recipientIDs).cached u = _
        rw [cached_onMessageSent, hcd]
        rfl
      · show (levels.distributed.onMessageSent senderID recipientIDs).lookup u = _
        rw [DistCache.onMessageSent,
          observe_foldl (AList.lookup u) (fun _ _ => DistCache.lookup_incrDistCache),
          DistCache.lookup_incrDistCache, hlk]
        split_ifs <;> rfl
  | mutation e =>
    cases e with
    | messageRead =>
      exact agree_update_iff _ h cached_updateCachedStats DistCache.lookup_incrDistCache
        fun _ _ hsm => same_read_iff hsm
    | messageDeleted =>
      exact agree_update_iff _ h cached_updateCachedStats DistCache.lookup_incrDistCache
        fun _ _ hsm => same_deleted_iff hsm
    | messageMoved =>
      exact agree_update_iff _ h cached_updateCachedStats DistCache.lookup_incrDistCache
        fun _ _ hsm => same_moved_iff hsm
    | markAllRead => exact ⟨fun _ _ _ _ => trivial, fun _ => h⟩
  | markAllRead userID folderID count =>
    simp only [StatsLevels.handle]
    by_cases hcnt : 0 < count
    · rw [if_pos hcnt]
      have hno : levels.distributed.lookup u
          = if u = userID then (levels.distributed.lookup u).map (incrAll [])
            else levels.distributed.lookup u := by
        have hid : incrAll [] = id := rfl
        rw [hid, Option.map_id, id_eq, ite_self]
      rw [agree_update_iff ⟨levels.inProcess.updateCachedStats userID (countAllRead folderID count),
        levels.distributed⟩ h cached_updateCachedStats hno
        fun _ _ hsm => same_allRead_iff hsm hcnt]
      simp [StatsInput.Exact, hcnt]
    · rw [if_neg hcnt]
      exact ⟨fun _ _ hpos => absurd hpos hcnt, fun _ => h⟩

end Step

/-! ## Runs -/

/-- **The two levels of the cache agree all along a run exactly when every input of it is exact**,
starting from equal snapshots of a user at both levels. -/
theorem stats_levels_agree_iff (u : String) (levels : StatsLevels) (h : levels.Agree u)
    (inputs : List StatsInput) : (∀ n, ((inputs.take n).foldl StatsLevels.handle levels).Agree u)
      ↔ ∀ e ∈ Machine.steps StatsLevels.handle inputs levels, e.2.Exact u e.1 :=
  Machine.always_iff (fun _ input hagree => agree_handle_iff hagree input) h

/-- Bob's mailbox: two messages in the inbox, one of them unread. -/
def bobsStats : MailboxStats := ⟨2, 1, 0, (∅ : AList _).insert folderInbox ⟨2, 1⟩⟩

/-- Both levels have it. -/
def bobsLevels : StatsLevels where
  inProcess := (∅ : StatsCache).insert "bob" ⟨some bobsStats, 0⟩
  distributed := (∅ : DistCache).insert "bob" (encodeStats bobsStats)

lemma bobsLevels_agree : bobsLevels.Agree "bob" := by
  have hlk : bobsLevels.distributed.lookup "bob" = some (hset bobsStats ∅) := rfl
  rw [agree_of rfl hlk (by decide), same_hset_iff]
  exact ⟨by decide, fun f ⟨_, h, _⟩ => by cases h⟩

theorem stats_levels_agree_one_read : bobsLevels.Agree "bob" ∧
      ∀ n, (([.mutation (.messageRead "m1" "bob" folderInbox 5)].take n).foldl StatsLevels.handle
        bobsLevels).Agree "bob" := by
  refine ⟨bobsLevels_agree, (stats_levels_agree_iff "bob" bobsLevels bobsLevels_agree _).mpr ?_⟩
  simp only [Machine.steps, List.forall_mem_singleton]
  rintro - stats ⟨⟩
  exact ⟨by decide, fun _ _ => by decide⟩

/-- Bob marks the inbox as read, and the distributed cache keeps the unread message; a second read
event makes its counter negative while the snapshot stays at zero; and a message moved to a folder
called `a:b` is never found again in the hash. -/
theorem stats_levels_drift : bobsLevels.Agree "bob"
      ∧ ¬ (bobsLevels.handle (.markAllRead "bob" folderInbox 1)).Agree "bob"
      ∧ ¬ ((bobsLevels.handle (.mutation (.messageRead "m1" "bob" folderInbox 5))).handle
          (.mutation (.messageRead "m1" "bob" folderInbox 6))).Agree "bob"
      ∧ ¬ (bobsLevels.handle
          (.mutation (.messageMoved "m1" "bob" folderInbox "a:b" true 5))).Agree "bob" := by
  refine ⟨bobsLevels_agree, ?_, ?_, ?_⟩
  · rw [agree_handle_iff bobsLevels_agree]
    intro hexact
    exact absurd (hexact rfl (by decide) bobsStats rfl).1 (by decide)
  · have hrd : (bobsLevels.handle (.mutation (.messageRead "m1" "bob" folderInbox 5))).Agree
        "bob" := by
      rw [agree_handle_iff bobsLevels_agree]
      rintro - stats ⟨⟩
      exact ⟨by decide, fun _ _ => by decide⟩
    rw [agree_handle_iff hrd]
    intro hexact
    exact absurd (hexact rfl _ rfl).1 (by decide)
  · rw [agree_handle_iff bobsLevels_agree]
    intro hexact
    exact absurd ((hexact rfl bobsStats rfl).2 (by decide)) (by decide)

end Mailbox.Service
