import Mailbox.Memory.Counts
import Mailbox.Service.Calls

/-!
# Listing the folders

`ListFolders` counts all folders at once where the store can do that, and with two `Count` queries
for each folder otherwise.  The queries ask for what is not deleted, so for nothing that is in the
trash; the batch does not (`count_folder`).
-/

namespace Mailbox

structure FolderInfo where
  id : String
  name : String
  isSystem : Bool
  messageCount : ℤ
  unreadCount : ℤ

/-- The standard system folders with their display names. -/
def systemFolders : List (String × String) :=
  [(folderInbox, "Inbox"), (folderSent, "Sent"), (folderArchived, "Archived"),
    (folderTrash, "Trash")]

def isSystemFolder (id : String) : Bool := (systemFolders.lookup id).isSome

open Memory List

/-- `ListDistinctFolders`; `range` is the order of the map in which the folders are collected. -/
def Memory.Store.listDistinctFolders (now : Time) (ownerID : String)
    (range : List String → List String) (s : Store) : List String :=
  range ((s.messages.all.filter (visible now ownerID)).map Message.folderID).dedup

namespace Service

variable (m : MemoryMailbox)

/-- `ListFolders` returns information about all folders for the current user.  The store may be a
`FolderLister` and a `FolderCounter`. -/
def MemoryMailbox.listFolders (lister counter : Bool) (range : List String → List String)
    (i : Instance) : Except Error (List FolderInfo) :=
  match m.checkAccess with
  | .error e => .error e
  | .ok _ =>
    let now := m.service.now
    let customFolderIDs :=
      if lister then
        (i.store.listDistinctFolders now m.userID range).filter (!isSystemFolder ·)
      else []
    let allFolderIDs := systemFolders.map Prod.fst ++ customFolderIDs
    if counter then
      let counts := i.store.countByFolders now m.userID allFolderIDs
      let info (id name : String) (isSystem : Bool) : FolderInfo :=
        let c := (counts.lookup id).getD ⟨0, 0⟩
        ⟨id, name, isSystem, c.total, c.unread⟩
      .ok (systemFolders.map (fun sf => info sf.1 sf.2 true)
        ++ customFolderIDs.map fun id => info id id false)
    else
      .ok (allFolderIDs.map fun id =>
        { id := id
          name := (systemFolders.lookup id).getD id
          isSystem := isSystemFolder id
          messageCount := i.store.count now [ownerIs m.userID, notDeleted, inFolder id]
          unreadCount :=
            i.store.count now [ownerIs m.userID, notDeleted, inFolder id, isReadFilter false] })

lemma count_folder (now : Time) (u id : String) (fs : List Filter) (s : Store) :
    (s.count now (ownerIs u :: notDeleted :: inFolder id :: fs) : ℤ) = if id = folderTrash then 0
        else tally now u (fun msg => decide (msg.folderID = id) && matchesFilters msg fs)
          s.messages := by
  rw [count_ownerIs]
  split_ifs with hid
  · refine Int.natCast_eq_zero.mpr (countP_eq_zero.mpr fun msg _ => ?_)
    simp only [matchesFilters, all_cons, Bool.and_eq_true,
      matchesFilter_notDeleted, matchesFilter_inFolder, hid]
    tauto
  · refine congrArg _ (countP_congr fun msg _ => ?_)
    simp only [matchesFilters, all_cons, Bool.and_eq_true,
      matchesFilter_notDeleted, matchesFilter_inFolder, decide_eq_true_eq]
    constructor
    · tauto
    · rintro ⟨hvis, rfl, hfs⟩
      exact ⟨hvis, hid, rfl, hfs⟩

/-- **Both ways of counting list the system folders alike** exactly if nothing is in the trash. -/
theorem listFolders_system_iff (lister lister' : Bool) (range range' : List String → List String)
    (i : Instance) : (m.listFolders lister true range i).map (·.filter FolderInfo.isSystem)
        = (m.listFolders lister' false range' i).map (·.filter FolderInfo.isSystem)
      ↔ (m.checkAccess = .ok () → ∀ msg ∈ i.store.messages.all,
          visible m.service.now m.userID msg = true → msg.folderID ≠ folderTrash) := by
  unfold MemoryMailbox.listFolders
  cases m.checkAccess with
  | error => simp [Except.map]
  | ok =>
    have hcustom : ∀ (lister : Bool) (l : List String),
        (if lister then l.filter (!isSystemFolder ·) else []).filter isSystemFolder = [] := by
      intro lister l
      cases lister <;> simp
    have hsystem : (systemFolders.map Prod.fst).filter isSystemFolder
        = systemFolders.map Prod.fst := by decide
    obtain ⟨-, -, hfo⟩ := mailboxStats_counters m.service.now m.userID i.store
    -- The entries of the two ways, folder by folder.
    simp only [Except.map, if_true, Bool.false_eq_true, if_false, Except.ok.injEq,
      filter_append, filter_map, Function.comp_def, filter_true, filter_false,
      map_nil, append_nil, hsystem, hcustom, map_map, map_inj_left,
      FolderInfo.mk.injEq, true_and, count_folder, forall_const]
    have hnames : ∀ sf ∈ systemFolders,
        sf.2 = (systemFolders.lookup sf.1).getD sf.1 ∧ true = isSystemFolder sf.1 := by decide
    have hcnts : ∀ sf ∈ systemFolders, ∀ ids, ((i.store.countByFolders m.service.now m.userID
        (systemFolders.map Prod.fst ++ ids)).lookup sf.1).getD ⟨0, 0⟩
          = (i.store.mailboxStats m.service.now m.userID).folder sf.1 := by
      intro sf hsf ids
      rw [lookup_countByFolders, if_pos (mem_append_left _ (mem_map_of_mem hsf))]
      rfl
    constructor
    · intro h msg hmsg hvis htrash
      obtain ⟨-, -, htot, -⟩ := h (folderTrash, "Trash") (by decide)
      rw [hcnts _ (by decide), (hfo _).1, if_pos rfl] at htot
      have hno := countP_eq_zero.mp (Int.natCast_eq_zero.mp htot) msg hmsg
      simp [hvis, htrash] at hno
    · intro h sf hsf
      have hemp : ∀ p : Message → Bool, (∀ msg, p msg = true → msg.folderID = folderTrash) →
          tally m.service.now m.userID p i.store.messages = 0 := by
        intro p hp
        refine Int.natCast_eq_zero.mpr (countP_eq_zero.mpr fun msg hmsg hcnt => ?_)
        rw [Bool.and_eq_true] at hcnt
        exact h msg hmsg hcnt.1 (hp msg hcnt.2)
      rw [hcnts sf hsf, (hfo _).1, (hfo _).2]
      refine ⟨(hnames sf hsf).1, (hnames sf hsf).2, ?_, ?_⟩
      · split_ifs with htrash
        · exact hemp _ (by simp [htrash])
        · simp [matchesFilters]
      · split_ifs with htrash
        · exact hemp _ (by simp +contextual [unreadIn, htrash])
        · refine congrArg _ (countP_congr fun msg _ => ?_)
          simp only [unreadIn, matchesFilters, all_cons, all_nil, Bool.and_eq_true,
            Bool.not_eq_true', matchesFilter_isReadFilter, and_true]

/-- One message, in the trash: the batch counts it, the query for the folder does not. -/
theorem listFolders_trash_differs :
    let i := freshInstance (Table.empty.put { letterTo "m" "ann" with folderID := folderTrash })
    ((plainMemoryMailbox "ann").listFolders true true id i).toOption.map (·.map (·.messageCount))
        = some [0, 0, 0, 1]
      ∧ ((plainMemoryMailbox "ann").listFolders false false id i).toOption.map
          (·.map (·.messageCount)) = some [0, 0, 0, 0] := by
  decide

end Service

end Mailbox
