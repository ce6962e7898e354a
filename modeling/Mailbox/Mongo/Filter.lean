import Mailbox.Mongo.Document

/-!
# The filter documents of the MongoDB store

`buildFilter` and `addAvailabilityFilter` of `store/mongo/query.go`, `bulkFilter` of
`store/mongo/write.go`, and the filter lists that `Stream` (`iterator.go`) and the bulk operations
(`mutate.go`) pass to them.

`buildFilter` folds the filters into one map, a slot per document field.  `filterEntry` is what
one filter writes there, so that `buildFilter_eq` can read the loop as a list of writes and hand
it to `LastWrite`.
-/

namespace Mailbox.Mongo

open LastWrite

/-! ## One filter -/

def hexDigit (c : Char) : Option ℕ :=
  if '0' ≤ c ∧ c ≤ '9' then some (c.toNat - '0'.toNat)
  else if 'a' ≤ c ∧ c ≤ 'f' then some (c.toNat - 'a'.toNat + 10)
  else if 'A' ≤ c ∧ c ≤ 'F' then some (c.toNat - 'A'.toNat + 10)
  else none

/-- `bson.ObjectIDFromHex`: 24 hexadecimal digits. -/
def objectIDFromHex (hex : String) : Option ObjectID :=
  if hex.length = 24 then
    (hex.toList.foldlM (fun n c => (hexDigit c).map (n * 16 + ·)) 0).map fun n =>
      ⟨BitVec.ofNat 96 n⟩
  else none

/-- A filter clause that never matches any document. -/
def matchNothing : Value := .doc [("$in", .list [])]

def idValue : Value → Option ObjectID
  | .str hex => objectIDFromHex hex
  | _ => none

/-- `idValues` converts a slice of hex id strings to ObjectIDs, dropping any that are not
convertible.  For anything but a slice it returns `nil`, which is encoded as `null`. -/
def idValues : Value → Value
  | .strs raw => .list ((raw.filterMap objectIDFromHex).map .oid)
  | .list vs => .list ((vs.filterMap idValue).map .oid)
  | _ => .nil

/-- The clause of an `_id` filter; `none` when the filter imposes no constraint. -/
def idCondition (op : Operator) (value : Value) : Option Value :=
  match op with
  | .eq => some ((idValue value).elim matchNothing .oid)
  | .gt | .gte | .lt | .lte =>
    some ((idValue value).elim matchNothing fun oid => .doc [("$" ++ op.name, .oid oid)])
  | .ne => (idValue value).map fun oid => .doc [("$ne", .oid oid)]
  | .isIn => some (.doc [("$in", idValues value)])
  | .nin => some (.doc [("$nin", idValues value)])
  | .exists | .contains => some matchNothing

/-- The clause of a filter on any other field. -/
def fieldCondition (op : Operator) (value : Value) : Value :=
  match op with
  | .eq | .contains => value
  | _ => .doc [("$" ++ op.name, value)]

/-- What one filter writes into the filter document. -/
def filterEntry : Filter → Option (String × Value)
  | .zero => none
  | .mk .id op value => (idCondition op value).map fun v => (mapKey .id, v)
  | .mk key op value => some (mapKey key, fieldCondition op value)

/-- `buildFilter` converts a slice of filters to a MongoDB filter document. -/
def buildFilter (filters : List Filter) : BsonM :=
  filters.foldl (fun result f =>
      match filterEntry f with
      | none => result
      | some (key, v) => result.insert key v)
    ∅

/-! ## What is added to it -/

variable (now : Time)

/-- The scheduled-delivery condition: `available_at` is null or missing, or not in the future. -/
def availCond : Value :=
  .doc [("$or", .list [ .doc [("available_at", .nil)],
    .doc [("available_at", .doc [("$exists", .bool false)])],
    .doc [("available_at", .doc [("$lte", .utc now)])]])]

/-- `addAvailabilityFilter` adds the availability condition to a filter, next to what `$and`
holds already. -/
def addAvailabilityFilter (filter : BsonM) : BsonM :=
  match filter.lookup "$and" with
  | some (.list existing) => filter.insert "$and" (.list (existing ++ [availCond now]))
  | _ => filter.insert "$and" (.list [availCond now])

def neTrue : Value := .doc [("$ne", .bool true)]

/-- The document a page starts after: its `created_at` and its `_id`. -/
structure Cursor where
  createdAt : Time
  id : ObjectID

/-- The keyset condition of a page in descending `created_at` order. -/
def keysetCondition (c : Cursor) : Value :=
  .list [ .doc [("created_at", .doc [("$lt", .utc c.createdAt)])],
    .doc [("created_at", .utc c.createdAt), ("_id", .doc [("$lt", .oid c.id)])]]

/-- The filter document `Find` hands to the collection, newest messages first. -/
def findFilter (cursor : Option Cursor) (filters : List Filter) : BsonM :=
  let filter := addAvailabilityFilter now ((buildFilter filters).insert "__is_draft" neTrue)
  match cursor with
  | none => filter
  | some c => filter.insert "$or" (keysetCondition c)

/-- The filter document `Find` counts with: the same without the keyset condition. -/
def countFilter (cursor : Option Cursor) (filters : List Filter) : BsonM :=
  (findFilter now cursor filters).erase "$or"

/-- `bulkFilter`: the entries of `buildFilter` are written over the owner and the draft marker. -/
def bulkFilter (ownerID : String) (filters : List Filter) : BsonM :=
  let scope : BsonM := ((∅ : BsonM).insert "owner_id" (.str ownerID)).insert "__is_draft" neTrue
  addAvailabilityFilter now (buildFilter filters ∪ scope)

end Mailbox.Mongo
