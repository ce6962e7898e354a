import Mailbox.Memory.Write

/-!
# Bulk operations of a mailbox

The filter-based bulk operations and `MarkAllRead` of `mutate.go`, over the in-memory store.  Each
has two implementations.  The **native** one hands the scoped filters to the store's own bulk
operation.  The **fallback**, taken when the store hides its bulk interfaces, pages through
`Find` and calls the single-message operation on every message of a page.

The six fallbacks are one loop, `pageLoop`, over the single operation they call.  `Find` visits the
map in an unspecified order, a new one at every call (`ranges`).  The loop is not bounded; it is run
for a number of pages.
-/

namespace Mailbox.Service

open Memory

inductive BulkOp where
  /-- `UpdateByFilter` with `Read` set. -/
  | updateRead (read : Bool)
  /-- `MoveByFilter`. -/
  | move (folderID : String)
  /-- `DeleteByFilter`. -/
  | delete
  /-- `TagByFilter`. -/
  | tag (tagID : String)
  /-- `UntagByFilter`. -/
  | untag (tagID : String)
  /-- `MarkAllRead`, which takes a folder in place of filters. -/
  | markAllRead (folderID : String)

namespace BulkOp

variable (now : Time) (userID : String) (filters : List Filter)

/-- The filters the operation works on. -/
def scope : BulkOp → List Filter
  | .markAllRead folderID => [ownerIs userID, inFolder folderID, isReadFilter false]
  | _ => scopedFilters userID filters

/-- The store's native bulk operation, with the number of messages it changed. -/
def native : BulkOp → Store → ℕ × Store
  | .updateRead read => Store.markReadByFilter now userID (scopedFilters userID filters) read
  | .move folderID => Store.moveByFilter now userID (scopedFilters userID filters) folderID
  | .delete => Store.deleteByFilter now userID (scopedFilters userID filters)
  | .tag tagID => Store.addTagByFilter now userID (scopedFilters userID filters) tagID
  | .untag tagID => Store.removeTagByFilter now userID (scopedFilters userID filters) tagID
  | .markAllRead folderID => Store.markAllRead now userID folderID

/-- The single-message operation the fallback calls. -/
def single : BulkOp → String → StoreOp
  | .updateRead read, id => Store.markRead now id read
  | .move folderID, id => Store.moveToFolder now id folderID {}
  | .delete, id => Store.moveToFolder now id folderTrash {}
  | .tag tagID, id => Store.addTag now id tagID
  | .untag tagID, id => Store.removeTag now id tagID
  | .markAllRead _, id => Store.markRead now id true

end BulkOp

/-! ## The fallback loop -/

/-- One call per message of the page; the calls that return no error are counted. -/
def applyPage (single : String → StoreOp) : List Message → ℕ → Store → ℕ × Store
  | [], count, s => (count, s)
  | m :: ms, count, s =>
    match single m.id s with
    | (.ok _, s) => applyPage single ms (count + 1) s
    | (.error _, s) => applyPage single ms count s

def inOrder : Ranges := fun _ l => l

lemma inOrder_perm (n : ℕ) (l : List Message) : (inOrder n l).Perm l := List.Perm.refl l

/-- The paginated loop, from the page after `cursor` on and for at most `fuel` pages; the count is
`none` when it is not done by then, or a page's slice expression has panicked. -/
def pageLoop (now : Time) (filters : List Filter) (limit : ℤ) (single : String → StoreOp) :
    ℕ → Ranges → String → ℕ → Store → Option ℕ × Store
  | 0, _, _, _, s => (none, s)
  | fuel + 1, ranges, cursor, count, s =>
    match s.find now (ranges 0) filters { limit := limit, startAfter := cursor } with
    | none => (none, s)
    | some list =>
      let (count, s) := applyPage single list.messages count s
      match list.hasMore, list.messages.getLast? with
      | true, some last =>
        pageLoop now filters limit single fuel (fun n => ranges (n + 1)) last.id count s
      | _, _ => (some count, s)

def BulkOp.fallback (now : Time) (userID : String) (filters : List Filter) (limit : ℤ)
    (op : BulkOp) (fuel : ℕ) (ranges : Ranges) (s : Store) : Option (ℕ × Store) :=
  let (count, s) := pageLoop now (op.scope userID filters) limit (op.single now) fuel ranges "" 0 s
  count.map fun count => (count, s)

lemma BulkOp.fallback_eq_some_iff {now : Time} {userID : String} {filters : List Filter} {limit : ℤ}
    {op : BulkOp} {fuel : ℕ} {ranges : Ranges} {s t : Store} {count : ℕ} :
    op.fallback now userID filters limit fuel ranges s = some (count, t)
      ↔ pageLoop now (op.scope userID filters) limit (op.single now) fuel ranges "" 0 s
        = (some count, t) := by
  simp [fallback, Prod.ext_iff]

end Mailbox.Service
