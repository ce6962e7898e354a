import Mailbox.Memory.Tasks
import Mailbox.Service.Calls
import Mailbox.Service.CleanupPaths

/-!
# A message that is restored while the trash is being cleaned up

One `Restore` and one `CleanupTrash` over the in-memory store, step by step.  `Restore` reads the
message and then calls `MoveToFolder`, which holds the message's lock between its `Load` and its
`Store`.  `CleanupTrash` takes one of its two paths.  With an attachment manager it scans page by
page and deletes by ID; without, it calls `DeleteExpiredTrash`, which goes over the map and then
deletes by ID.  `Range` is not atomic: every visit of a key is a step.

Both paths select first and delete later, and neither looks at the folder again.  So it matters
whether the cleanup has the message already when it is moved (`Selected`):
**`restored_survives_iff`**.  Attachment references do not concern the messages and are left out
here.
-/

namespace Mailbox.Service

open Memory Pool List

/-! ## The steps -/

inductive Side where
  | restore
  | cleanup
  deriving DecidableEq

/-- The two calls. -/
structure Race where
  /-- `Restore`: by whom, of which message, and the clock when it is moved. -/
  userID : String
  messageID : String
  now : Time
  cutoff : Time
  /-- The keys that `Range` visits in each `Find`, with the clock at each of them. -/
  visits : ℕ → List (String × Time)

inductive RacePhase where
  /-- `Restore`, about to read the message -/
  | get
  /-- in a `Find` of the scan, with the keys still to visit and the matches so far -/
  | scan (cursor : String) (scanned : Scanned) (queries : ℕ) (keys : List (String × Time))
      (all : List Message)
  /-- in the first pass of `DeleteExpiredTrash`, with the keys still to visit -/
  | range (keys toDelete : List String)
  /-- in a call that changes the store -/
  | call (w : Worker)

def RacePhase.returned : RacePhase := .call ⟨.next [], []⟩

/-- `DeleteMessagesByIDs`, and the second pass of `DeleteExpiredTrash`. -/
def RacePhase.deleting (ids : List String) : RacePhase := .call ⟨.next (ids.map .loadAndDelete), []⟩

namespace Race

variable (r : Race) (messages : Messages) (cursor : String)

/-- `Restore`, up to its call of `MoveToFolder`. -/
def get : RacePhase :=
  match Store.get r.messageID (.of messages) with
  | .error _ => .returned
  | .ok msg =>
    if msg.ownerID ≠ r.userID then .returned
    else if msg.folderID ≠ folderTrash then .returned
    else
      .call ⟨.next ((Call.moveToFolder r.messageID (defaultFolderForMessage msg) {}).tasks r.now),
        []⟩

/-- One visit of `Find`. -/
def collect (all : List Message) (key : String × Time) : List Message :=
  match messages.load key.1 with
  | none => all
  | some m => if selects key.2 (Sweep.trash r.cutoff).filters m then all ++ [m] else all

/-- The page that `Find` returns. -/
def pageAfter (all : List Message) : Option MessageList :=
  page { limit := scanBatchSize, startAfter := cursor } (sortMessages "" .unset all)

/-- `Find` returns, and the scan goes on or is over. -/
def nextPage (scanned : Scanned) (queries : ℕ) (all : List Message) : RacePhase :=
  match pageAfter cursor all with
  | none => .returned
  | some list =>
    match nextCursor list with
    | some cursor =>
      .scan cursor (scanned.addPage list.messages) (queries + 1) (r.visits (queries + 1)) []
    | none => .deleting (scanned.addPage list.messages).scannedIDs

/-- One visit of the first pass of `DeleteExpiredTrash`. -/
def visit (key : String) (toDelete : List String) : List String :=
  match messages.load key with
  | none => toDelete
  | some m => if Store.expiredTrash r.cutoff m then toDelete ++ [key] else toDelete

end Race

def raceStep (r : Race) (side : Side) (s : Shared Side) : RacePhase → Shared Side × RacePhase
  | .get => (s, r.get s.messages)
  | .scan cursor scanned queries (key :: keys) all =>
    (s, .scan cursor scanned queries keys (r.collect s.messages all key))
  | .scan cursor scanned queries [] all => (s, r.nextPage cursor scanned queries all)
  | .range (key :: keys) toDelete => (s, .range keys (r.visit s.messages key toDelete))
  | .range [] toDelete => (s, .deleting toDelete)
  | .call w => ((taskStep side s w).1, .call (taskStep side s w).2)

/-- The two paths of `CleanupTrash`. -/
inductive CleanupPath where
  /-- `cleanupTrashWithAttachments` -/
  | scan
  /-- `DeleteExpiredTrash`, with the keys that `Range` visits -/
  | bulk (keys : List String)

def raceStart (r : Race) (path : CleanupPath) (messages : Messages) :
    Config Side (Shared Side) RacePhase where
  shared := ⟨messages, fun _ => none⟩
  loc
    | .restore => .get
    | .cleanup =>
      match path with
      | .scan => .scan "" .empty 0 (r.visits 0) []
      | .bulk keys => .range keys []

/-! ## The statement -/

/-- The call is about to `Store`. -/
def RacePhase.Storing : RacePhase → Prop
  | .call ⟨.store _ _, _⟩ => True
  | _ => False

/-- The call has returned. -/
def RacePhase.Finished : RacePhase → Prop
  | .call ⟨.next [], _⟩ => True
  | _ => False

instance (phase : RacePhase) : Decidable phase.Storing := by
  unfold RacePhase.Storing
  split <;> infer_instance

instance (phase : RacePhase) : Decidable phase.Finished := by
  unfold RacePhase.Finished
  split <;> infer_instance

/-- The cleanup has the message: it is among those it has scanned or collected and not come to
delete, or among those of the page that the `Find` in progress is going to return. -/
def Race.Selected (r : Race) (messages : Messages) : RacePhase → Prop
  | .scan cursor scanned _ keys all =>
    r.messageID ∈ scanned.scannedIDs
      ∨ ∃ list, Race.pageAfter cursor (keys.foldl (r.collect messages) all) = some list
        ∧ r.messageID ∈ list.messages.map Message.id
  | .range _ toDelete => r.messageID ∈ toDelete
  | .call ⟨.next tasks, _⟩ => Task.loadAndDelete r.messageID ∈ tasks
  | _ => False

section

variable (r : Race) (path : CleanupPath) (messages : Messages) (before after : List Side)

/-- Both calls run to their end, and in between `Restore` moves the message, which the cleanup has
not removed. -/
structure Moves : Prop where
  storing : ((run (raceStep r) before (raceStart r path messages)).loc .restore).Storing
  present : (run (raceStep r) before (raceStart r path messages)).shared.messages.load r.messageID
    ≠ none
  finished : ∀ side,
    ((run (raceStep r) (before ++ .restore :: after) (raceStart r path messages)).loc side).Finished

/-- In the end, the message is there and out of the trash. -/
def Survives : Prop :=
  ∃ m, (run (raceStep r) (before ++ .restore :: after)
      (raceStart r path messages)).shared.messages.load r.messageID = some m
    ∧ m.folderID ≠ folderTrash

end

/-! ## Where the two calls can be -/

/-- `Restore`, before its `Store`. -/
inductive Restoring (id : String) : RacePhase → Prop where
  | get : Restoring id .get
  | lock (now : Time) (folderID : String) (reported : List String) (h : folderID ≠ folderTrash) :
      Restoring id (.call ⟨.next [.locked id (.ofUpdate _
        (Update.keepsID_moveToFolder now folderID {}))], reported⟩)
  | load (now : Time) (folderID : String) (reported : List String) (h : folderID ≠ folderTrash) :
      Restoring id (.call ⟨.load id (.ofUpdate _
        (Update.keepsID_moveToFolder now folderID {})) [], reported⟩)
  | store (m : Message) (reported : List String) (hid : m.id = id) (h : m.folderID ≠ folderTrash) :
      Restoring id (.call ⟨.store m [], reported⟩)

/-- `Restore`, when there is nothing more it will change. -/
inductive Leaving : RacePhase → Prop where
  | unlock (id : String) (reported : List String) : Leaving (.call ⟨.unlock id [], reported⟩)
  | returned (reported : List String) : Leaving (.call ⟨.next [], reported⟩)

inductive CleaningUp : RacePhase → Prop where
  | scan (cursor : String) (scanned : Scanned) (queries : ℕ) (keys : List (String × Time))
      (all : List Message) : CleaningUp (.scan cursor scanned queries keys all)
  | range (keys toDelete : List String) : CleaningUp (.range keys toDelete)
  | deleting (ids reported : List String) :
      CleaningUp (.call ⟨.next (ids.map .loadAndDelete), reported⟩)

variable {r : Race} {s : Shared Side} {phase : RacePhase}

lemma defaultFolderForMessage_ne_trash (msg : Message) :
    defaultFolderForMessage msg ≠ folderTrash := by
  rw [defaultFolderForMessage]
  split_ifs <;> decide

lemma restoring_get (messages : Messages) :
    Restoring r.messageID (r.get messages) ∨ Leaving (r.get messages) := by
  rw [Race.get]
  split
  · exact .inr (.returned [])
  · rename_i msg _
    split_ifs
    · exact .inr (.returned [])
    · exact .inr (.returned [])
    · by_cases hid : r.messageID = ""
      · rw [Call.tasks, lockedTask, if_pos hid]
        exact .inr (.returned [])
      · rw [Call.tasks, lockedTask, if_neg hid]
        exact .inl (.lock _ _ _ (defaultFolderForMessage_ne_trash msg))

lemma Restoring.step (h : Restoring r.messageID phase) :
    Restoring r.messageID (raceStep r .restore s phase).2
      ∨ Leaving (raceStep r .restore s phase).2 := by
  cases h with
  | get => exact restoring_get _
  | lock now folderID reported hfo =>
    cases hlo : s.locks r.messageID with
    | some =>
      rw [raceStep, taskStep_blocked rfl hlo]
      exact .inl (.lock now folderID reported hfo)
    | none =>
      rw [raceStep, taskStep_lock rfl hlo]
      exact .inl (.load now folderID reported hfo)
  | load now folderID reported hfo =>
    rw [raceStep, taskStep_load rfl]
    cases hld : s.messages.load r.messageID with
    | none => exact .inr (.unlock _ reported)
    | some orig =>
      have hid : orig.id = r.messageID := Table.key_of_load hld
      cases hdr : orig.isDraft with
      | true =>
        simp only [afterLoad, Body.ofUpdate, hdr, if_true]
        exact .inr (.unlock _ reported)
      | false =>
        simp only [afterLoad, Body.ofUpdate, hdr, Update.moveToFolder, ne_eq,
          not_true_eq_false, false_and, if_false, Bool.false_eq_true]
        exact .inl (.store _ reported hid hfo)
  | store m reported => exact .inr (.unlock _ reported)

lemma Leaving.step (h : Leaving phase) (side : Side) :
    (raceStep r side s phase).1.messages = s.messages ∧ Leaving (raceStep r side s phase).2 := by
  cases h with
  | unlock id reported | returned reported => exact ⟨rfl, .returned reported⟩

lemma CleaningUp.step (h : CleaningUp phase) : CleaningUp (raceStep r .cleanup s phase).2 := by
  cases h with
  | scan cursor scanned queries keys all =>
    cases keys with
    | cons => exact .scan _ _ _ _ _
    | nil =>
      show CleaningUp (r.nextPage cursor scanned queries all)
      rw [Race.nextPage]
      split
      · exact .deleting [] []
      · split
        · exact .scan _ _ _ _ _
        · exact .deleting _ []
  | range keys =>
    cases keys with
    | cons => exact .range _ _
    | nil => exact .deleting _ []
  | deleting ids reported =>
    cases ids with
    | nil => exact .deleting [] reported
    | cons id ids =>
      cases hld : s.messages.load id with
      | none =>
        rw [raceStep, taskStep_nothing rfl hld]
        exact .deleting ids reported
      | some =>
        rw [raceStep, taskStep_loadAndDelete rfl hld]
        exact .deleting ids (id :: reported)

/-! ## What the cleanup does to the message -/

/-- A page of a limited number of messages is never out of range. -/
lemma exists_pageAfter (cursor : String) (all : List Message) :
    ∃ list, Race.pageAfter cursor all = some list := by
  have hpageOf : ∀ (start : ℕ) (l : List Message), start ≤ l.length →
      ∃ list, pageOf scanBatchSize start l = some list := by
    intro start l hst
    simp only [pageOf]
    rw [if_neg]
    · exact ⟨_, rfl⟩
    · simp only [scanBatchSize]
      split_ifs <;> omega
  rw [Race.pageAfter, page]
  split_ifs
  · exact hpageOf 0 _ (Nat.zero_le _)
  · split
    · rename_i i hi
      exact hpageOf (i + 1) _ (findIdx?_eq_some_iff_findIdx_eq.mp hi).1
    · exact ⟨_, rfl⟩

variable {m : Message} {messages : Messages}

/-- What a `Find` has collected from its start on is stored, and in trash. -/
lemma mem_foldl_collect (messages : Messages) (keys : List (String × Time)) {all : List Message}
    (hm : m ∈ keys.foldl (r.collect messages) all) :
    m ∈ all ∨ (messages.load m.id = some m ∧ m.folderID = folderTrash) := by
  induction keys generalizing all with
  | nil => exact .inl hm
  | cons key keys ih =>
    rcases ih hm with hcoll | hst
    · rw [Race.collect] at hcoll
      cases hld : messages.load key.1 with
      | none =>
        rw [hld] at hcoll
        exact .inl hcoll
      | some =>
        simp only [hld, Sweep.selects_filters, Sweep.expired] at hcoll
        split_ifs at hcoll with hsel
        · rcases mem_append.mp hcoll with hall | hw
          · exact .inl hall
          · obtain rfl := mem_singleton.mp hw
            have hk : m.id = key.1 := Table.key_of_load hld
            simp only [Store.expiredTrash, Bool.and_eq_true, decide_eq_true_eq] at hsel
            exact .inr ⟨by rw [hk, hld], hsel.1.1.2⟩
        · exact .inl hcoll
    · exact .inr hst

/-- A message that is out of the trash is on no page that a `Find` has yet to start on. -/
lemma not_mem_pageAfter (hld : messages.load r.messageID = some m) (hfo : m.folderID ≠ folderTrash)
    {cursor : String} {keys : List (String × Time)} {list : MessageList}
    (hls : Race.pageAfter cursor (keys.foldl (r.collect messages) []) = some list) :
    r.messageID ∉ list.messages.map Message.id := by
  intro hid
  obtain ⟨m', hm', hid'⟩ := mem_map.mp hid
  have hall := mem_of_mem_page hls hm'
  rw [sortMessages, (ExchangeSort.sort_perm _).mem_iff] at hall
  rcases mem_foldl_collect messages keys hall with hnil | ⟨hld', htrash⟩
  · exact absurd hnil not_mem_nil
  · rw [hid', hld, Option.some.injEq] at hld'
    rw [hld'] at hfo
    exact hfo htrash

lemma mem_map_loadAndDelete {id : String} {ids : List String} :
    Task.loadAndDelete id ∈ ids.map Task.loadAndDelete ↔ id ∈ ids := by
  simp

lemma CleaningUp.step_gone (h : CleaningUp phase) (hno : s.messages.load r.messageID = none) :
    (raceStep r .cleanup s phase).1.messages.load r.messageID = none := by
  cases h with
  | scan cursor scanned queries keys | range keys => cases keys <;> exact hno
  | deleting ids =>
    cases ids with
    | nil => exact hno
    | cons id =>
      cases hld : s.messages.load id with
      | none =>
        rw [raceStep, taskStep_nothing rfl hld]
        exact hno
      | some =>
        rw [raceStep, taskStep_loadAndDelete rfl hld]
        refine Option.eq_none_iff_forall_ne_some.mpr fun m' hm' => ?_
        rw [Table.load_of_load_delete hm'] at hno
        cases hno

/-- What is out of the trash, the cleanup deletes if it has it; and if it does not have it, it does
not get it. -/
lemma CleaningUp.step_out (h : CleaningUp phase)
    (hld : s.messages.load r.messageID = some m) (hfo : m.folderID ≠ folderTrash) :
    (raceStep r .cleanup s phase).1.messages.load r.messageID = none ∧ r.Selected s.messages phase
      ∨ (raceStep r .cleanup s phase).1.messages.load r.messageID = some m
        ∧ (r.Selected (raceStep r .cleanup s phase).1.messages (raceStep r .cleanup s phase).2
          ↔ r.Selected s.messages phase) := by
  cases h with
  | scan cursor scanned queries keys all =>
    refine .inr ⟨by cases keys <;> exact hld, ?_⟩
    cases keys with
    | cons => exact .rfl
    | nil =>
      obtain ⟨list, hls⟩ := exists_pageAfter cursor all
      have hi : r.messageID ∈ (scanned.addPage list.messages).scannedIDs
          ↔ r.Selected s.messages (.scan cursor scanned queries [] all) := by
        simp [Scanned.scannedIDs_addPage, Race.Selected, hls]
      rw [← hi]
      simp only [raceStep, Race.nextPage, hls]
      split
      · refine or_iff_left ?_
        rintro ⟨list', hls', hid⟩
        exact not_mem_pageAfter hld hfo hls' hid
      · exact mem_map_loadAndDelete
  | range keys toDelete =>
    refine .inr ⟨by cases keys <;> exact hld, ?_⟩
    cases keys with
    | nil => exact mem_map_loadAndDelete
    | cons key =>
      show r.messageID ∈ r.visit s.messages key toDelete ↔ r.messageID ∈ toDelete
      rw [Race.visit]
      split
      · rfl
      · rename_i m' hld'
        split_ifs with hexp
        · rw [mem_append, mem_singleton]
          refine or_iff_left ?_
          rintro rfl
          rw [hld, Option.some.injEq] at hld'
          subst hld'
          simp [Store.expiredTrash, hfo] at hexp
        · rfl
  | deleting ids =>
    cases ids with
    | nil => exact .inr ⟨hld, .rfl⟩
    | cons id =>
      cases hld' : s.messages.load id with
      | none =>
        have hne : r.messageID ≠ id := by
          rintro rfl
          cases hld.symm.trans hld'
        rw [raceStep, taskStep_nothing rfl hld']
        refine .inr ⟨hld, ?_⟩
        simp [Race.Selected, hne]
      | some =>
        rw [raceStep, taskStep_loadAndDelete rfl hld']
        by_cases hid : r.messageID = id
        · subst hid
          exact .inl ⟨Table.load_delete, mem_cons_self⟩
        · refine .inr ⟨(Table.load_delete_of_ne hid).trans hld, ?_⟩
          simp [Race.Selected, hid]

/-! ## The run up to the move, and after it -/

/-- Each call is where it can be. -/
def RaceInv (r : Race) (c : Config Side (Shared Side) RacePhase) : Prop :=
  (Restoring r.messageID (c.loc .restore) ∨ Leaving (c.loc .restore)) ∧ CleaningUp (c.loc .cleanup)

/-- `Restore` has done what it does.  The message is gone, which it is only if the cleanup has had
it, or it is out of the trash, and with the cleanup just if it has been before. -/
def Decided (r : Race) (m : Message) (selected : Prop) (c : Config Side (Shared Side) RacePhase) :
    Prop :=
  Leaving (c.loc .restore) ∧ CleaningUp (c.loc .cleanup)
    ∧ (c.shared.messages.load r.messageID = none ∧ selected
      ∨ c.shared.messages.load r.messageID = some m
        ∧ (r.Selected c.shared.messages (c.loc .cleanup) ↔ selected))

lemma raceInv_stepAt (c : Config Side (Shared Side) RacePhase) (side : Side) (h : RaceInv r c) :
    RaceInv r (stepAt (raceStep r) c side) := by
  cases side with
  | restore =>
    refine ⟨?_, h.2⟩
    rcases h.1 with hrestoring | hleaving
    · exact hrestoring.step
    · exact .inr (hleaving.step .restore).2
  | cleanup =>
    refine ⟨h.1, ?_⟩
    exact h.2.step

lemma decided_stepAt (hfo : m.folderID ≠ folderTrash) {selected : Prop}
    (c : Config Side (Shared Side) RacePhase) (side : Side) (h : Decided r m selected c) :
    Decided r m selected (stepAt (raceStep r) c side) := by
  obtain ⟨hleaving, hcleaning, hfa⟩ := h
  cases side with
  | restore =>
    obtain ⟨hms, hleaving'⟩ := hleaving.step (r := r) (s := c.shared) .restore
    refine ⟨?_, hcleaning, ?_⟩
    · rw [stepAt_loc_self]
      exact hleaving'
    · rw [stepAt_shared, hms]
      exact hfa
  | cleanup =>
    refine ⟨hleaving, ?_, ?_⟩
    · rw [stepAt_loc_self]
      exact hcleaning.step
    · rw [stepAt_loc_self, stepAt_shared]
      rcases hfa with ⟨hno, hsld⟩ | ⟨hld, hiff⟩
      · exact .inl ⟨hcleaning.step_gone hno, hsld⟩
      · rw [← hiff]
        exact hcleaning.step_out hld hfo

lemma not_selected_of_finished (h : phase.Finished) : ¬ r.Selected messages phase := by
  unfold RacePhase.Finished at h
  split at h
  · exact not_mem_nil
  · exact h.elim

/-- **A restored message survives if and only if the cleanup does not have it** when it is moved. -/
theorem restored_survives_iff {path : CleanupPath} {messages : Messages} {before after : List Side}
    (h : Moves r path messages before after) :
    Survives r path messages before after
      ↔ ¬ r.Selected
        (run (raceStep r) (before ++ [.restore]) (raceStart r path messages)).shared.messages
        ((run (raceStep r) (before ++ [.restore]) (raceStart r path messages)).loc .cleanup) := by
  have hst : RaceInv r (raceStart r path messages) := by
    refine ⟨.inl .get, ?_⟩
    cases path with
    | scan => exact .scan _ _ _ _ _
    | bulk keys => exact .range keys []
  obtain ⟨hrestore, hcleaning⟩ := run_induction before raceInv_stepAt hst
  have hstoring := h.storing
  have hfin := h.finished .cleanup
  simp only [Survives, run_append, run_cons, run_nil] at hfin ⊢
  generalize run (raceStep r) before (raceStart r path messages) = c at *
  -- The move.
  have hmoved : ∃ m, m.folderID ≠ folderTrash
      ∧ Leaving ((stepAt (raceStep r) c .restore).loc .restore)
      ∧ (stepAt (raceStep r) c .restore).shared.messages.load r.messageID = some m := by
    rw [stepAt_loc_self, stepAt_shared]
    generalize c.loc .restore = phase at *
    rcases hrestore with hrestoring | hleaving
    · cases hrestoring with
      | get | lock | load => exact hstoring.elim
      | store m reported hid hfo =>
        refine ⟨m, hfo, .unlock _ reported, ?_⟩
        rw [← hid]
        exact Table.load_put_self
    · cases hleaving <;> exact hstoring.elim
  obtain ⟨m, hfo, hleaving, hld⟩ := hmoved
  have hcleaning' : CleaningUp ((stepAt (raceStep r) c .restore).loc .cleanup) := hcleaning
  generalize stepAt (raceStep r) c .restore = c' at *
  obtain ⟨-, -, hfa⟩ :=
    run_induction after (decided_stepAt hfo) ⟨hleaving, hcleaning', .inr ⟨hld, .rfl⟩⟩
  have hover : ¬ r.Selected (run (raceStep r) after c').shared.messages
      ((run (raceStep r) after c').loc .cleanup) := not_selected_of_finished hfin
  rcases hfa with ⟨hno, hsld⟩ | ⟨hld', hiff⟩
  · refine iff_of_false ?_ (not_not.mpr hsld)
    rintro ⟨m', hld', -⟩
    cases hno.symm.trans hld'
  · exact iff_of_true ⟨m, hld', hfo⟩ (hiff.not.mp hover)

/-- User `u` restores a message that has been in trash for ten units of time, while what has been
there for more than five is cleaned up. -/
def restoreInTime : Race where
  userID := "u"
  messageID := "m"
  now := 10
  cutoff := 5
  visits _ := [("m", 10)]

theorem restored_survives_before_scan :
    Survives restoreInTime .scan (oneInTrash none).store.messages
      (replicate 3 .restore) (.restore :: replicate 2 .cleanup) :=
  (restored_survives_iff
    { storing := by decide +kernel
      present := by decide +kernel
      finished := by rintro (_ | _) <;> decide +kernel }).mpr (by
    rintro (hid | ⟨list, hls, hid⟩)
    · cases hid
    · exact not_mem_pageAfter rfl (by decide +kernel) hls hid)

/-- On either path, the cleanup selects the message, `Restore` moves it to the inbox and returns,
and the cleanup deletes it. -/
theorem restored_is_deleted : (Moves restoreInTime .scan (oneInTrash none).store.messages
        (replicate 3 .restore ++ replicate 2 .cleanup) [.restore, .cleanup]
      ∧ ¬ Survives restoreInTime .scan (oneInTrash none).store.messages
        (replicate 3 .restore ++ replicate 2 .cleanup) [.restore, .cleanup])
    ∧ Moves restoreInTime (.bulk ["m"]) (oneInTrash none).store.messages
        (replicate 3 .restore ++ replicate 2 .cleanup) [.restore, .cleanup]
      ∧ ¬ Survives restoreInTime (.bulk ["m"]) (oneInTrash none).store.messages
        (replicate 3 .restore ++ replicate 2 .cleanup) [.restore, .cleanup] := by
  have hgn : ∀ path, (run (raceStep restoreInTime)
        (replicate 3 .restore ++ replicate 2 .cleanup ++ [.restore, .restore, .cleanup])
        (raceStart restoreInTime path (oneInTrash none).store.messages)).shared.messages.load "m"
      = none → ¬ Survives restoreInTime path (oneInTrash none).store.messages
        (replicate 3 .restore ++ replicate 2 .cleanup) [.restore, .cleanup] := by
    rintro path hno ⟨m, hld, -⟩
    cases hno.symm.trans hld
  refine ⟨⟨⟨?_, ?_, ?_⟩, hgn _ ?_⟩, ⟨?_, ?_, ?_⟩, hgn _ ?_⟩
  · decide +kernel
  · decide +kernel
  · rintro (_ | _) <;> decide +kernel
  · decide +kernel
  · decide +kernel
  · decide +kernel
  · rintro (_ | _) <;> decide +kernel
  · decide +kernel

end Mailbox.Service
