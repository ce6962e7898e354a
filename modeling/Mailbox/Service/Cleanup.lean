import Mailbox.Memory.Paging
import Mailbox.Service.Bulk
import Mailbox.Service.MemoryBackend

/-!
# Cleaning up expired messages

`cleanup.go` over the in-memory store, for a connected service and a context that is not cancelled.
Each cleanup — of the trash, of messages past their retention, of messages past their TTL — has two
paths.  Without an attachment manager, the store's own sweep deletes what has expired.  With one,
the service **scans** for expired messages page by page and keeps their attachments in mind,
**deletes** what it has scanned by ID, and **releases** the attachments of what it has deleted.

The three differ in what they look for (`Sweep`).  `Find`, which the scan uses, hides messages that
are scheduled for later; the sweep does not look at the schedule (`selects_filters`).  The two paths
do not differ otherwise, if the scan does not lose its place (`Steady`):
**`cleanup_paths_agree_iff`**.
-/

namespace Mailbox.Service

open Memory

/-! ## What a cleanup looks for -/

inductive Sweep where
  /-- In trash, and not updated since. -/
  | trash (cutoff : Time)
  /-- Created before. -/
  | retention (cutoff : Time)
  /-- Expired by now. -/
  | ttl (now : Time)

variable (sweep : Sweep)

namespace Sweep

def baseFilters : Sweep → List Filter
  | .trash _ => [inFolder folderTrash]
  | .retention _ => [isDraftFilter false]
  | .ttl _ => [((messageFilter "ExpiresAt").exists true).1]

def timeField : Sweep → String
  | .trash _ => "UpdatedAt"
  | .retention _ => "CreatedAt"
  | .ttl _ => "ExpiresAt"

def cutoff : Sweep → Time
  | .trash cutoff => cutoff
  | .retention cutoff => cutoff
  | .ttl now => now

/-- The filters of the scan. -/
def filters : List Filter :=
  sweep.baseFilters ++ [((messageFilter sweep.timeField).lessThan (.utc sweep.cutoff)).1]

/-- What the store's own sweep deletes. -/
def expired : Sweep → Message → Bool
  | .trash cutoff => Store.expiredTrash cutoff
  | .retention cutoff => Store.expiredMessage cutoff
  | .ttl now => Store.expiredTTL now

lemma matchesScalar_lt (t c : Time) (z z' : Zone) :
    matchesScalar (.time t z) .lt (.time c z') = decide (t < c) := by
  show (compare t c == .lt) = decide (t < c)
  rw [Bool.eq_iff_iff, beq_iff_eq, compare_lt_iff_lt, decide_eq_true_eq]

/-- The scan selects what the sweep deletes, if it is available. -/
lemma selects_filters (now : Time) (m : Message) :
    selects now sweep.filters m = (sweep.expired m && isAvailableNow now m) := by
  cases sweep with
  | trash cutoff =>
    have hfilters : matchesFilters m (trash cutoff).filters
        = (decide (m.folderID = folderTrash) && decide (m.updatedAt < cutoff)) := by
      show (goEq (.str m.folderID) (.str folderTrash) && (matchesScalar _ .lt _ && true)) = _
      rw [matchesScalar_lt, Bool.and_true]
      rfl
    rw [selects, hfilters, expired, Store.expiredTrash]
    cases m.isDraft <;> cases isAvailableNow now m <;> simp
  | retention cutoff =>
    have hfilters : matchesFilters m (retention cutoff).filters
        = ((m.isDraft == false) && decide (m.createdAt < cutoff)) := by
      show (goEq (.bool m.isDraft) (.bool false) && (matchesScalar _ .lt _ && true)) = _
      rw [matchesScalar_lt, Bool.and_true]
      rfl
    rw [selects, hfilters, expired, Store.expiredMessage]
    cases m.isDraft <;> cases isAvailableNow now m <;> simp
  | ttl expiry =>
    have hfilters : matchesFilters m (ttl expiry).filters
        = m.expiresAt.any fun expiresAt => decide (expiresAt < expiry) := by
      show (matchesTime m.expiresAt _ .exists _ && (matchesTime m.expiresAt _ .lt _ && true)) = _
      cases m.expiresAt with
      | none => rfl
      | some t =>
        show (true && (matchesScalar (.time t _) .lt (.utc expiry) && true)) = _
        rw [matchesScalar_lt, Bool.and_true, Bool.true_and]
        rfl
    rw [selects, hfilters, expired, Store.expiredTTL]
    cases m.isDraft <;> cases isAvailableNow now m <;> simp

end Sweep

/-! ## The attachment-aware path -/

/-- What a scan has found: the IDs, and the attachments of the messages that have any. -/
structure Scanned where
  scannedIDs : List String
  messageAttachments : AList fun _ : String => List String

namespace Scanned

def empty : Scanned := ⟨[], ∅⟩

variable (scanned : Scanned)

/-- The body of the loop over a page. -/
def add (msg : Message) : Scanned where
  scannedIDs := scanned.scannedIDs ++ [msg.id]
  messageAttachments :=
    let ids := msg.attachments.map Attachment.id
    if 0 < ids.length then scanned.messageAttachments.insert msg.id ids
    else scanned.messageAttachments

def addPage (page : List Message) : Scanned := page.foldl add scanned

lemma addPage_append (page page' : List Message) :
    scanned.addPage (page ++ page') = (scanned.addPage page).addPage page' :=
  List.foldl_append

@[simp] lemma scannedIDs_addPage (page : List Message) :
    (scanned.addPage page).scannedIDs = scanned.scannedIDs ++ page.map Message.id := by
  induction page generalizing scanned with
  | nil => exact (List.append_nil _).symm
  | cons msg page ih =>
    show ((scanned.add msg).addPage page).scannedIDs = _
    rw [ih]
    simp [add]

/-- `releaseAttachmentRefs`: the references to release, each with the message it is released for. -/
def toRelease (deletedIDs : List String) : List (String × String) :=
  deletedIDs.flatMap fun msgID =>
    ((scanned.messageAttachments.lookup msgID).getD []).map fun attachmentID =>
      (msgID, attachmentID)

end Scanned

/-- The cursor of the next page, if there is one. -/
def nextCursor (list : MessageList) : Option String :=
  if list.hasMore then list.messages.getLast?.map Message.id else none

def scanBatchSize : ℕ := 100

/-- `scanExpiredMessages`, from the page after `cursor` on.  `none` when the fuel runs out. -/
def scanExpiredMessages (now : Time) (filters : List Filter) (s : Store) :
    ℕ → Ranges → String → Scanned → Option Scanned
  | 0, _, _, _ => none
  | fuel + 1, ranges, cursor, scanned =>
    match s.find now (ranges 0) filters { limit := scanBatchSize, startAfter := cursor } with
    | none => none
    | some list =>
      match nextCursor list with
      | none => some (scanned.addPage list.messages)
      | some cursor =>
        scanExpiredMessages now filters s fuel (fun n => ranges (n + 1)) cursor
          (scanned.addPage list.messages)

variable (refs : List (String × String))

/-- `releaseAttachmentRefs` releases the references; a failure is logged and that is all. -/
def releaseRefs (w : World) : World :=
  refs.foldl (fun w ref => (MemoryBackend.removeRef ref.2 w).2) w

@[simp] lemma store_releaseRefs (w : World) : (releaseRefs refs w).store = w.store := by
  induction refs generalizing w with
  | nil => rfl
  | cons ref refs ih =>
    show (releaseRefs refs (MemoryBackend.removeRef ref.2 w).2).store = w.store
    rw [ih, MemoryBackend.removeRef]
    split <;> rfl

/-- Scan, delete, release: the shape of the three cleanups. -/
def Sweep.withAttachments (now : Time) (fuel : ℕ) (ranges : Ranges) (w : World) :
    Option (ℕ × World) :=
  match scanExpiredMessages now sweep.filters w.store fuel ranges "" .empty with
  | none => none
  | some scanned =>
    let (deletedIDs, store) := Store.deleteMessagesByIDs scanned.scannedIDs w.store
    some (deletedIDs.length, releaseRefs (scanned.toRelease deletedIDs) { w with store := store })

lemma Sweep.withAttachments_eq_some {sweep : Sweep} {now : Time} {fuel count : ℕ} {ranges : Ranges}
    {w w' : World} (h : sweep.withAttachments now fuel ranges w = some (count, w')) :
    ∃ found, scanExpiredMessages now sweep.filters w.store fuel ranges "" .empty = some found
      ∧ w' = releaseRefs (found.toRelease (Store.deleteMessagesByIDs found.scannedIDs w.store).1)
        { w with store := (Store.deleteMessagesByIDs found.scannedIDs w.store).2 } := by
  rw [Sweep.withAttachments] at h
  split at h
  · cases h
  · rename_i found hsc
    cases h
    exact ⟨found, hsc, rfl⟩

/-- The store's own sweep. -/
def Sweep.bulk (w : World) : ℕ × World :=
  let (deleted, store) := Store.deleteCollected sweep.expired w.store
  (deleted, { w with store := store })

section Calls

variable (now : Time) (fuel : ℕ)

def cleanupTrashWithAttachments (cutoff : Time) : Ranges → World → Option (ℕ × World) :=
  (Sweep.trash cutoff).withAttachments now fuel

def cleanupExpiredWithAttachments (cutoff : Time) : Ranges → World → Option (ℕ × World) :=
  (Sweep.retention cutoff).withAttachments now fuel

/-- When nothing is found, this one returns at once. -/
def cleanupTTLExpiredWithAttachments (ranges : Ranges) (w : World) : Option (ℕ × World) :=
  let sweep := Sweep.ttl now
  match scanExpiredMessages now sweep.filters w.store fuel ranges "" .empty with
  | none => none
  | some scanned =>
    if scanned.scannedIDs.length = 0 then some (0, w)
    else
      let (deletedIDs, store) := Store.deleteMessagesByIDs scanned.scannedIDs w.store
      some (deletedIDs.length, releaseRefs (scanned.toRelease deletedIDs) { w with store := store })

/-- `CleanupTrash`, with the number of messages deleted. -/
def cleanupTrash (managed : Bool) (trashRetention : ℤ) (ranges : Ranges) (w : World) :
    Option (ℕ × World) :=
  let cutoff := now - trashRetention
  if managed then cleanupTrashWithAttachments now fuel cutoff ranges w
  else some ((Sweep.trash cutoff).bulk w)

/-- The first half of `CleanupExpiredMessages`: retention. -/
def cleanupRetention (managed : Bool) (messageRetention : ℤ) (ranges : Ranges) (w : World) :
    Option (ℕ × World) :=
  if 0 < messageRetention then
    let cutoff := now - messageRetention
    if managed then cleanupExpiredWithAttachments now fuel cutoff ranges w
    else some ((Sweep.retention cutoff).bulk w)
  else some (0, w)

/-- `CleanupExpiredMessages`, with the number of messages deleted.  The two scans visit the map in
orders of their own. -/
def cleanupExpiredMessages (managed : Bool) (messageRetention : ℤ) (ranges ranges' : Ranges)
    (w : World) : Option (ℕ × World) := do
  let (deleted, w) ← cleanupRetention now fuel managed messageRetention ranges w
  let (ttlDeleted, w) ←
    if managed then cleanupTTLExpiredWithAttachments now fuel ranges' w
    else some ((Sweep.ttl now).bulk w)
  return (deleted + ttlDeleted, w)

end Calls

/-- The early return changes nothing. -/
lemma cleanupTTLExpiredWithAttachments_eq (now : Time) (fuel : ℕ) (ranges : Ranges) (w : World) :
    cleanupTTLExpiredWithAttachments now fuel ranges w
      = (Sweep.ttl now).withAttachments now fuel ranges w := by
  rw [cleanupTTLExpiredWithAttachments, Sweep.withAttachments]
  cases scanExpiredMessages now (Sweep.ttl now).filters w.store fuel ranges "" .empty with
  | none => rfl
  | some =>
    show ite _ _ _ = _
    split_ifs with hno
    · simp only [List.length_eq_zero_iff.mp hno]
      rfl
    · rfl

/-- With an attachment manager or without. -/
def Sweep.cleanup (now : Time) (fuel : ℕ) (managed : Bool) (ranges : Ranges) (w : World) :
    Option (ℕ × World) :=
  if managed then sweep.withAttachments now fuel ranges w else some (sweep.bulk w)

/-- What sweeps keep, the two halves of `CleanupExpiredMessages` keep. -/
lemma cleanupExpiredMessages_induction {P : World → Prop} {now : Time} {fuel : ℕ} {managed : Bool}
    {messageRetention : ℤ} {ranges ranges' : Ranges} {w : World} {r : ℕ × World}
    (h : cleanupExpiredMessages now fuel managed messageRetention ranges ranges' w = some r)
    (hsweep : ∀ (sweep : Sweep) order, order = ranges ∨ order = ranges' → ∀ w r,
      sweep.cleanup now fuel managed order w = some r → P w → P r.2) (hw : P w) : P r.2 := by
  simp only [cleanupExpiredMessages, Option.bind_eq_bind, Option.bind_eq_some_iff, Option.pure_def,
    cleanupTTLExpiredWithAttachments_eq] at h
  obtain ⟨r₁, h₁, h⟩ := h
  have hr₁ : P r₁.2 := by
    by_cases hretention : 0 < messageRetention
    · rw [cleanupRetention, if_pos hretention] at h₁
      exact hsweep (.retention _) ranges (.inl rfl) w r₁ h₁ hw
    · rw [cleanupRetention, if_neg hretention] at h₁
      cases h₁
      exact hw
  cases managed with
  | true =>
    obtain ⟨r₂, h₂, hr⟩ := Option.bind_eq_some_iff.mp h
    cases hr
    exact hsweep (.ttl now) ranges' (.inr rfl) r₁.2 r₂ h₂ hr₁
  | false =>
    cases h
    exact hsweep (.ttl now) ranges' (.inr rfl) r₁.2 ((Sweep.ttl now).bulk r₁.2) rfl hr₁

end Mailbox.Service
