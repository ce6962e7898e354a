import Mailbox.Lib.Pool
import Mailbox.Memory.Create

/-!
# The store's calls, step by step

The mutators and the deletes of the in-memory store, taken apart into atomic steps.  A mutator holds
the message's lock between its `Load` and its `Store`; so does `HardDelete` between its `Load` and
its `Delete`.  The maintenance deletes use `LoadAndDelete`, and take no lock.

Every call is a list of `Task`s: critical sections, and `LoadAndDelete`s.  The bulk operations and
the first pass of the expiry deletes go over what `Range` hands them, here an arbitrary list: it
need not be a state the map was ever in.
-/

namespace Mailbox.Memory

open Pool

/-! ## Calls -/

/-- What a critical section makes of the message it has loaded. -/
inductive Outcome where
  | leave
  | replace (m : Message)
  | remove

/-- The body of a critical section.  It stores a message under the ID it has loaded it from. -/
structure Body where
  act : Message → Outcome
  keepsID : ∀ orig m, act orig = .replace m → m.id = orig.id

inductive Task where
  | locked (id : String) (body : Body)
  | loadAndDelete (id : String)

namespace Body

variable (now : Time)

/-- The body of a mutator. -/
def ofUpdate (update : Update) (hupdate : update.KeepsID) : Body where
  act orig :=
    if orig.isDraft then .leave
    else
      match update orig with
      | .ok (some m) => .replace m
      | _ => .leave
  keepsID := by
    intro orig m h
    split_ifs at h
    split at h
    · cases h
      exact hupdate _ _ ‹_›
    · cases h

def hardDelete : Body where
  act m := if m.isDraft then .leave else .remove
  keepsID := by
    intro orig m h
    split_ifs at h

def iterateFiltered (ownerID : String) (filters : List Filter) (fn : Message → Message)
    (hfn : ∀ m, (fn m).id = m.id) : Body where
  act orig :=
    if orig.isDraft ∨ orig.ownerID ≠ ownerID then .leave
    else if isAvailableNow now orig = false then .leave
    else if matchesFilters orig filters = false then .leave
    else .replace { fn orig with updatedAt := now }
  keepsID := by
    intro orig m h
    split_ifs at h
    cases h
    exact hfn orig

def markAllRead (ownerID folderID : String) : Body where
  act orig :=
    if orig.isDraft = false ∧ orig.isRead = false ∧ orig.ownerID = ownerID
        ∧ orig.folderID = folderID then
      .replace { orig with isRead := true, readAt := some now, updatedAt := now }
    else .leave
  keepsID := by
    intro orig m h
    split_ifs at h
    cases h
    rfl

end Body

/-- The calls.  `range` is what `Range` hands out. -/
inductive Call where
  | markRead (id : String) (read : Bool)
  | moveToFolder (id folderID : String) (opts : MoveOptions)
  | addTag (id tagID : String)
  | removeTag (id tagID : String)
  | delete (id : String)
  | restore (id : String)
  | hardDelete (id : String)
  /-- `MarkReadByFilter`, `MoveByFilter`, `DeleteByFilter`, `AddTagByFilter` and
  `RemoveTagByFilter`, with what they do to each message. -/
  | byFilter (ownerID : String) (filters : List Filter) (fn : Message → Message)
      (hfn : ∀ m, (fn m).id = m.id) (range : List Message)
  | markAllRead (ownerID folderID : String) (range : List Message)
  | deleteMessagesByIDs (ids : List String)
  | deleteExpiredTrash (cutoff : Time) (range : List Message)
  | deleteExpiredMessages (cutoff : Time) (range : List Message)
  | deleteTTLExpiredMessages (now : Time) (range : List Message)

/-- A single-message call: an empty ID is refused. -/
def lockedTask (id : String) (body : Body) : List Task :=
  if id = "" then [] else [.locked id body]

/-- The second pass of the expiry deletes. -/
def collectedTasks (expired : Message → Bool) (range : List Message) : List Task :=
  (range.filter expired).map fun m => .loadAndDelete m.id

def Call.tasks (now : Time) : Call → List Task
  | .markRead id read => lockedTask id (.ofUpdate _ (Update.keepsID_markRead now read))
  | .moveToFolder id folderID opts =>
    if opts.fromFolderID ≠ "" ∧ isValidFolderID opts.fromFolderID = false then []
    else lockedTask id (.ofUpdate _ (Update.keepsID_moveToFolder now folderID opts))
  | .addTag id tagID => lockedTask id (.ofUpdate _ (Update.keepsID_addTag now tagID))
  | .removeTag id tagID => lockedTask id (.ofUpdate _ (Update.keepsID_removeTag now tagID))
  | .delete id => lockedTask id (.ofUpdate _ (Update.keepsID_delete now))
  | .restore id => lockedTask id (.ofUpdate _ (Update.keepsID_restore now))
  | .hardDelete id => lockedTask id .hardDelete
  | .byFilter ownerID filters fn hfn range =>
    (range.filter fun m => !m.isDraft && decide (m.ownerID = ownerID)).map fun m =>
      .locked m.id (.iterateFiltered now ownerID filters fn hfn)
  | .markAllRead ownerID folderID range =>
    (range.filter fun m => !m.isDraft && decide (m.ownerID = ownerID)
        && decide (m.folderID = folderID) && !m.isRead).map fun m =>
      .locked m.id (.markAllRead now ownerID folderID)
  | .deleteMessagesByIDs ids => ids.map .loadAndDelete
  | .deleteExpiredTrash cutoff range => collectedTasks (Store.expiredTrash cutoff) range
  | .deleteExpiredMessages cutoff range => collectedTasks (Store.expiredMessage cutoff) range
  | .deleteTTLExpiredMessages now range => collectedTasks (Store.expiredTTL now) range

/-! ## The atomic steps -/

variable {ι : Type}

/-- The message map, and who holds the lock of each message. -/
structure Shared (ι : Type) where
  messages : Messages
  locks : String → Option ι

inductive TaskPC where
  /-- about to `Lock`, or to `LoadAndDelete`; finished when no task is left -/
  | next (tasks : List Task)
  /-- has the lock, about to `Load` -/
  | load (id : String) (body : Body) (tasks : List Task)
  /-- about to `Store` the changed copy -/
  | store (m : Message) (tasks : List Task)
  /-- about to `Delete` -/
  | delete (id : String) (tasks : List Task)
  /-- about to `Unlock` -/
  | unlock (id : String) (tasks : List Task)

/-- A call in progress, with the IDs it has deleted and will report so. -/
structure Worker where
  pc : TaskPC
  reported : List String

/-- What follows the `Load` in a critical section. -/
def afterLoad (id : String) (body : Body) (tasks : List Task) : Option Message → TaskPC
  | none => .unlock id tasks
  | some orig =>
    match body.act orig with
    | .leave => .unlock id tasks
    | .replace m => .store m tasks
    | .remove => .delete id tasks

def taskStep (i : ι) (s : Shared ι) (w : Worker) : Shared ι × Worker :=
  match w.pc with
  | .next [] => (s, w)
  | .next (.locked id body :: tasks) =>
    match s.locks id with
    | some _ => (s, w)
    | none =>
      ({ s with locks := Function.update s.locks id (some i) },
        { w with pc := .load id body tasks })
  | .next (.loadAndDelete id :: tasks) =>
    match s.messages.load id with
    | none => (s, { w with pc := .next tasks })
    | some _ =>
      ({ s with messages := s.messages.delete id }, ⟨.next tasks, id :: w.reported⟩)
  | .load id body tasks => (s, { w with pc := afterLoad id body tasks (s.messages.load id) })
  | .store m tasks =>
    ({ s with messages := s.messages.put m }, { w with pc := .unlock m.id tasks })
  | .delete id tasks =>
    ({ s with messages := s.messages.delete id }, ⟨.unlock id tasks, id :: w.reported⟩)
  | .unlock id tasks =>
    ({ s with locks := Function.update s.locks id none }, { w with pc := .next tasks })

section Equations

variable {i : ι} {s : Shared ι} {w : Worker} {id : String} {body : Body} {m : Message}
  {tasks : List Task}

lemma taskStep_nil (h : w.pc = .next []) : taskStep i s w = (s, w) := by
  simp [taskStep, h]

lemma taskStep_blocked {j : ι} (h : w.pc = .next (.locked id body :: tasks))
    (hlo : s.locks id = some j) : taskStep i s w = (s, w) := by
  simp [taskStep, h, hlo]

lemma taskStep_lock (h : w.pc = .next (.locked id body :: tasks)) (hlo : s.locks id = none) :
    taskStep i s w = ({ s with locks := Function.update s.locks id (some i) },
        { w with pc := .load id body tasks }) := by
  simp [taskStep, h, hlo]

lemma taskStep_nothing (h : w.pc = .next (.loadAndDelete id :: tasks))
    (hld : s.messages.load id = none) : taskStep i s w = (s, { w with pc := .next tasks }) := by
  simp [taskStep, h, hld]

lemma taskStep_loadAndDelete (h : w.pc = .next (.loadAndDelete id :: tasks))
    (hld : s.messages.load id = some m) : taskStep i s w
      = ({ s with messages := s.messages.delete id }, ⟨.next tasks, id :: w.reported⟩) := by
  simp [taskStep, h, hld]

lemma taskStep_load (h : w.pc = .load id body tasks) :
    taskStep i s w = (s, { w with pc := afterLoad id body tasks (s.messages.load id) }) := by
  simp [taskStep, h]

lemma taskStep_store (h : w.pc = .store m tasks) : taskStep i s w
      = ({ s with messages := s.messages.put m }, { w with pc := .unlock m.id tasks }) := by
  simp [taskStep, h]

lemma taskStep_delete (h : w.pc = .delete id tasks) : taskStep i s w
      = ({ s with messages := s.messages.delete id }, ⟨.unlock id tasks, id :: w.reported⟩) := by
  simp [taskStep, h]

lemma taskStep_unlock (h : w.pc = .unlock id tasks) : taskStep i s w
      = ({ s with locks := Function.update s.locks id none }, { w with pc := .next tasks }) := by
  simp [taskStep, h]

end Equations

def allCalls (now : ι → Time) (calls : ι → Call) (messages : Messages) :
    Config ι (Shared ι) Worker where
  shared := ⟨messages, fun _ => none⟩
  loc i := ⟨.next ((calls i).tasks (now i)), []⟩

end Mailbox.Memory
