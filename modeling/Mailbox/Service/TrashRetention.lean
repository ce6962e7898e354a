import Mailbox.Service.CleanupPaths
import Mailbox.Service.Edits

/-!
# How long a message stays in trash

`CleanupTrash` goes by the time of the last update: it deletes what is in trash and has not been
updated since the cutoff.  Moving a message to trash updates it, and so do most of the things that
can be done to it there — marking it, tagging it, a filter-based operation that comes across it, be
it only to move it to trash once more.  Each starts the retention period anew.

**`trash_retention_iff`** is about any calls after the move, in the order of time.
-/

namespace Mailbox.Service

open Memory List Sweep

/-! ## Histories -/

/-- One of the calls that change messages. -/
structure MailboxCall where
  mailbox : MemoryMailbox
  order : Ranges
  fuel : ℕ
  call : Mutation

namespace MailboxCall

def now (c : MailboxCall) : Time := c.mailbox.service.now

def next (i : Instance) (c : MailboxCall) : Instance :=
  (c.mailbox.mutate c.order c.fuel i c.call).state

/-- The call changes what is stored under the ID. -/
def Changes (id : String) (i : Instance) (c : MailboxCall) : Prop :=
  (c.next i).store.messages.load id ≠ i.store.messages.load id

lemma edits (c : MailboxCall) (i : Instance) : Edits c.now Set.univ i.store (c.next i).store :=
  edits_mutation c.mailbox i c.order c.fuel c.call

end MailboxCall

open MailboxCall

/-- The call moves the message under the ID to trash. -/
structure MovesToTrash (c : MailboxCall) (i : Instance) (id : String) : Prop where
  before : ∃ msg, i.store.messages.load id = some msg ∧ msg.folderID ≠ folderTrash
  after : ∃ msg, (c.next i).store.messages.load id = some msg ∧ msg.folderID = folderTrash

variable {id : String} {msg : Message} {calls : List MailboxCall}

section History

variable {i : Instance} {msg' : Message} {cutoff : Time}

lemma MovesToTrash.updatedAt {c : MailboxCall} (h : MovesToTrash c i id)
    (hld : (c.next i).store.messages.load id = some msg) : msg.updatedAt = c.now := by
  obtain ⟨orig, hor, hout⟩ := h.before
  obtain ⟨moved, hmoved, hin⟩ := h.after
  obtain rfl : moved = msg := Option.some.inj (hmoved.symm.trans hld)
  have hfa := (c.edits i).fate id
  rw [hor, hld] at hfa
  cases hfa with
  | same => exact absurd hin hout
  | edited _ hat => exact hat

lemma content_of_history (h : (calls.foldl next i).store.messages.load id = some msg') :
    ∃ msg, i.store.messages.load id = some msg ∧ contentOf msg' = contentOf msg := by
  induction calls generalizing i with
  | nil => exact ⟨msg', h, rfl⟩
  | cons c calls ih =>
    obtain ⟨msg₁, hld₁, hct₁⟩ := ih h
    obtain ⟨msg, hld, hct⟩ := (c.edits i).content hld₁
    exact ⟨msg, hld, hct₁.trans hct⟩

/-- **The time of the last update** is before the cutoff exactly if it was so at first, and every
change since was before the cutoff. -/
theorem updatedAt_lt_iff (hld : i.store.messages.load id = some msg)
    (hclock : (msg.updatedAt :: calls.map now).Pairwise (fun t t' => t ≤ t'))
    (hld' : (calls.foldl next i).store.messages.load id = some msg') :
    msg'.updatedAt < cutoff ↔ msg.updatedAt < cutoff
      ∧ ∀ e ∈ Machine.steps next calls i, e.2.Changes id e.1 → e.2.now < cutoff := by
  induction calls generalizing i msg with
  | nil =>
    obtain rfl : msg = msg' := Option.some.inj (hld.symm.trans hld')
    simp [Machine.steps]
  | cons c calls ih =>
    rw [foldl_cons] at hld'
    rw [map_cons, pairwise_cons, pairwise_cons] at hclock
    obtain ⟨hfst, hnow, hr⟩ := hclock
    obtain ⟨msg₁, hld₁, _⟩ := content_of_history hld'
    have hle : msg.updatedAt ≤ c.now := hfst c.now mem_cons_self
    rw [Machine.steps, forall_mem_cons]
    by_cases hchange : c.Changes id i
    · -- The call has noted its time.
      have hat : msg₁.updatedAt = c.now := by
        have hfa := (c.edits i).fate id
        rw [hld, hld₁] at hfa
        cases hfa with
        | same => exact absurd (hld₁.trans hld.symm) hchange
        | edited _ hat => exact hat
      rw [ih hld₁ (pairwise_cons.mpr ⟨by rwa [hat], hr⟩) hld', hat]
      constructor
      · rintro ⟨hlt, hall⟩
        exact ⟨Int.lt_of_le_of_lt hle hlt, fun _ => hlt, hall⟩
      · rintro ⟨_, hlt, hall⟩
        exact ⟨hlt hchange, hall⟩
    · have hsm : (c.next i).store.messages.load id = some msg :=
        (not_not.mp hchange).trans hld
      obtain rfl : msg = msg₁ := Option.some.inj (hsm.symm.trans hld₁)
      have hr' : ∀ t ∈ calls.map now, msg.updatedAt ≤ t := fun t ht =>
        hfst t (mem_cons_of_mem _ ht)
      rw [ih hld₁ (pairwise_cons.mpr ⟨hr', hr⟩) hld']
      simp [hchange]

end History

/-! ## The cleanup -/

/-- With enough fuel, `CleanupTrash` comes to its end, and the message is gone. -/
def CleanedUp (now : Time) (managed : Bool) (trashRetention : ℤ) (ranges : Ranges) (w : World)
    (id : String) : Prop :=
  ∃ enough, ∀ fuel ≥ enough, ∃ r, cleanupTrash now fuel managed trashRetention ranges w = some r
      ∧ r.2.store.messages.load id = none

lemma expired_trash (cutoff : Time) (hdr : msg.isDraft = false)
    (htrash : msg.folderID = folderTrash) :
    (trash cutoff).expired msg = decide (msg.updatedAt < cutoff) := by
  simp [expired, Store.expiredTrash, hdr, htrash]

/-- What the scan of the attachment-aware path goes by. -/
structure ScanReady (ranges : Ranges) (w : World) : Prop where
  ids : w.store.messages.Named
  ranges : ranges.Perm

section Cleanup

variable {now : Time} {managed : Bool} {trashRetention : ℤ} {ranges : Ranges} {w : World}
  (hscan : managed = true → ScanReady ranges w) (hld : w.store.messages.load id = some msg)
  (hdr : msg.isDraft = false) (htrash : msg.folderID = folderTrash)

include hscan hld hdr htrash

/-- Only what is due is cleaned up. -/
lemma CleanedUp.due (h : CleanedUp now managed trashRetention ranges w id) :
    msg.updatedAt < now - trashRetention ∧ (managed = true → isAvailableNow now msg = true) := by
  have hexp := expired_trash (now - trashRetention) hdr htrash
  obtain ⟨enough, hall⟩ := h
  obtain ⟨r, hr, hgone⟩ := hall enough le_rfl
  cases managed with
  | false =>
    cases hr
    rw [(swept_bulk (.trash (now - trashRetention)) w).load_eq_none_iff hld, hexp] at hgone
    simpa using hgone
  | true =>
    have hsel : selects now (trash (now - trashRetention)).filters msg = true := by
      by_contra hsel
      obtain ⟨hmem, rfl⟩ := Table.load_eq_some_iff.mp hld
      have hkept := mem_of_withAttachments _ (hscan rfl).ranges hr hmem (Bool.eq_false_iff.mpr hsel)
      rw [Table.load_of_mem hkept] at hgone
      cases hgone
    rw [selects_filters, hexp] at hsel
    simpa using hsel

/-- What is due is cleaned up, if the scan keeps its place. -/
lemma cleanedUp_of_due (hsteady : managed = true → Steady ranges
      (w.store.messages.all.filter (selects now (trash (now - trashRetention)).filters)))
    (hold : msg.updatedAt < now - trashRetention)
    (havail : managed = true → isAvailableNow now msg = true) :
    CleanedUp now managed trashRetention ranges w id := by
  have hexp := expired_trash (now - trashRetention) hdr htrash
  cases managed with
  | false =>
    refine ⟨0, fun _ _ => ⟨_, rfl, ?_⟩⟩
    rw [(swept_bulk (.trash (now - trashRetention)) w).load_eq_none_iff hld, hexp]
    exact decide_eq_true hold
  | true =>
    obtain ⟨r, hr, enough, hcln⟩ :=
      swept_selected _ (hscan rfl).ids (hscan rfl).ranges (hsteady rfl)
    refine ⟨enough, fun fuel hfuel => ⟨r, hcln fuel hfuel, ?_⟩⟩
    rw [hr.load_eq_none_iff hld, selects_filters, hexp, havail rfl]
    simpa using hold

end Cleanup

/-- **Retention in trash.**  A message is moved to trash, and stays there through any calls.  If a
cleanup deletes it just when it was *moved* before the cutoff, then it was not, or no call has
changed it since the cutoff and, with an attachment manager, the message is available.  If this is
so, and the scan keeps its place, the cleanup does. -/
theorem trash_retention_iff (move : MailboxCall) (calls : List MailboxCall) (i : Instance)
    (id : String) (hmove : MovesToTrash move i id) (hstays : ∀ n, ∃ msg,
      ((calls.take n).foldl MailboxCall.next (move.next i)).store.messages.load id = some msg
        ∧ msg.isDraft = false ∧ msg.folderID = folderTrash)
    (hclock : (move.now :: calls.map MailboxCall.now).Pairwise (fun t t' => t ≤ t'))
    (now : Time) (managed : Bool) (trashRetention : ℤ) (ranges : Ranges)
    (hscan : managed = true → ScanReady ranges (calls.foldl MailboxCall.next (move.next i)).world) :
    let w := (calls.foldl MailboxCall.next (move.next i)).world
    let retained := CleanedUp now managed trashRetention ranges w id
      ↔ move.now < now - trashRetention
    let undisturbed := move.now < now - trashRetention →
      (∀ e ∈ Machine.steps MailboxCall.next calls (move.next i),
        e.2.Changes id e.1 → e.2.now < now - trashRetention)
      ∧ (managed = true → ∀ msg, i.store.messages.load id = some msg →
        isAvailableNow now msg = true)
    (retained → undisturbed)
      ∧ ((managed = true → Steady ranges (w.store.messages.all.filter
          (selects now (Sweep.trash (now - trashRetention)).filters))) →
        undisturbed → retained) := by
  intro w retained undisturbed
  obtain ⟨msg, hld, _, _⟩ := hstays 0
  obtain ⟨msg', hld', hdr', htrash'⟩ := hstays calls.length
  rw [take_length] at hld'
  -- The schedule of a message is part of its content.
  have hwhole : ((move :: calls).foldl MailboxCall.next i).store.messages.load id = some msg' :=
    hld'
  obtain ⟨first, hfst, hct⟩ := content_of_history hwhole
  have hav : isAvailableNow now msg' = isAvailableNow now first :=
    eq_of_content (isAvailableNow now) (fun _ => rfl) hct
  have hat := hmove.updatedAt hld
  rw [← hat] at hclock
  have hlt : msg'.updatedAt < now - trashRetention ↔ _ := updatedAt_lt_iff hld hclock hld'
  rw [hat] at hlt
  constructor
  · intro hretained hmoved
    obtain ⟨hold, havail⟩ := (hretained.mpr hmoved).due hscan hld' hdr' htrash'
    refine ⟨(hlt.mp hold).2, fun hmanaged m hm => ?_⟩
    rw [← Option.some.inj (hfst.symm.trans hm), ← hav]
    exact havail hmanaged
  · intro hsteady hundisturbed
    constructor
    · exact fun h => (hlt.mp (h.due hscan hld' hdr' htrash').1).1
    · intro hmoved
      obtain ⟨hcalls, havail⟩ := hundisturbed hmoved
      exact cleanedUp_of_due hscan hld' hdr' htrash' hsteady (hlt.mpr ⟨hmoved, hcalls⟩)
        fun hmanaged => hav.trans (havail hmanaged first hfst)

/-! ## One message in trash -/

/-- A plain mailbox at a given time. -/
def mailboxAt (now : Time) (userID : String) : MemoryMailbox :=
  { plainMemoryMailbox userID with
    service :=
      { (plainMemoryMailbox userID).service with
        backend := memoryBackend unaryID now .none false
        now := now }
    backend_eq := rfl }

/-- A call of the only user. -/
def callAt (now : Time) (call : Mutation) : MailboxCall := ⟨mailboxAt now "u", inOrder, 0, call⟩

def oneLetter : Instance := freshInstance (Table.empty.put (letterTo "m" "u"))

/-- Moved to trash at time 1, and marked as read at the given time. -/
def trashedAndRead (now : Time) : Instance :=
  next (next oneLetter (callAt 1 (.delete "m")))
    (callAt now (.updateFlags "m" { read := some true }))

/-- Read before the cutoff, the message is deleted when its time has come. -/
theorem trash_retention_read_early : MovesToTrash (callAt 1 (.delete "m")) oneLetter "m"
      ∧ (CleanedUp 20 false 10 inOrder (trashedAndRead 2).world "m" ↔ (1 : Time) < 20 - 10) := by
  have hmv : MovesToTrash (callAt 1 (.delete "m")) oneLetter "m" :=
    ⟨⟨_, rfl, by decide⟩, ⟨_, rfl, by decide⟩⟩
  refine ⟨hmv, (trash_retention_iff (callAt 1 (.delete "m"))
    [callAt 2 (.updateFlags "m" { read := some true })] oneLetter "m" hmv ?_ (by decide) 20 false
    10 inOrder (by simp)).2 (by simp) fun _ => ⟨?_, by simp⟩⟩
  · intro n
    cases n with
    | zero => exact ⟨_, rfl, by decide, by decide⟩
    | succ =>
      rw [take_succ_cons, take_nil]
      exact ⟨_, rfl, by decide, by decide⟩
  · simp only [Machine.steps, forall_mem_cons]
    exact ⟨fun _ => by decide, by simp⟩

/-- Read after the cutoff, or moved to trash once more by a filter, the message stays, although it
was moved to trash long before. -/
theorem trash_retention_starts_anew : (1 : Time) < 20 - 10
      ∧ (cleanupTrash 20 1 false 10 inOrder (trashedAndRead 15).world).map
        (fun r => (r.1, r.2.store.messages.all.map Message.id)) = some (0, ["m"])
      ∧ (cleanupTrash 20 1 false 10 inOrder
          (MailboxCall.next (MailboxCall.next oneLetter (callAt 1 (.delete "m")))
            (callAt 15 (.deleteByFilter []))).world).map
        (fun r => (r.1, r.2.store.messages.all.map Message.id)) = some (0, ["m"]) := by
  decide

end Mailbox.Service
