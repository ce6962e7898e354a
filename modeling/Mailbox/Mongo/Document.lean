import Mailbox.Lib.LastWrite
import Mailbox.Store.Message

/-!
# Message documents and how MongoDB reads a filter

`messageDoc` of `store/mongo/message.go` and the evaluation of a filter document on it.

What is used of MongoDB is the record `MongoDB`: how one condition is decided on the value of one
field, with the few documented laws that the proofs need.  That a filter document is the
**conjunction of its top-level entries**, and that `$and` and `$or` combine sub-documents, is the
definition of `filterMatches`.  `mongod` is one such evaluator, for concrete documents.

A document field that the struct tag marks `omitempty` is absent when it has its zero value; this
is why a message that is not a draft has no `__is_draft` at all.
-/

namespace Mailbox.Mongo

/-- `messageDoc`; no filter can name the fields at the end. -/
structure MessageDoc where
  id : ObjectID
  ownerID : String
  senderID : String
  recipientIDs : List String
  subject : String
  body : String
  status : String
  isRead : Bool
  folderID : String
  tags : Option (List String)
  createdAt : Time
  updatedAt : Time
  isDraft : Bool
  threadID : String
  replyToID : String
  externalID : String
  expiresAt : Option Time
  availableAt : Option Time
  headers : List (String × String) := []
  metadata : List (String × Value) := []
  readAt : Option Time := none
  attachments : List Attachment := []
  idempotencyKey : String := ""

/-- A string field marked `omitempty`. -/
def omitEmpty (s : String) : Option Value := if s = "" then none else some (.str s)

/-- A map or a slice marked `omitempty`. -/
def omitNil {α : Type} (l : List α) (v : Value) : Option Value := if l.isEmpty then none else some v

/-- `attachmentDoc`. -/
def attachmentDoc (a : Attachment) : Value :=
  .doc [("id", .str a.id), ("filename", .str a.filename), ("content_type", .str a.contentType),
    ("size", .int64 a.size), ("uri", .str a.uri), ("created_at", .utc a.createdAt)]

/-- The value of a field that filters can name, as the BSON tags of `messageDoc` lay it out. -/
def MessageDoc.get (d : MessageDoc) : FieldKey → Option Value
  | .id => some (.oid d.id)
  | .ownerID => some (.str d.ownerID)
  | .senderID => some (.str d.senderID)
  | .recipientIDs => some (.strs d.recipientIDs)
  | .subject => some (.str d.subject)
  | .body => some (.str d.body)
  | .status => some (.str d.status)
  | .isRead => some (.bool d.isRead)
  | .folderID => some (.str d.folderID)
  | .tags => d.tags.map .strs
  | .createdAt => some (.utc d.createdAt)
  | .updatedAt => some (.utc d.updatedAt)
  | .threadID => omitEmpty d.threadID
  | .replyToID => omitEmpty d.replyToID
  | .externalID => omitEmpty d.externalID
  | .isDraft => if d.isDraft then some (.bool true) else none
  | .expiresAt => d.expiresAt.map .utc
  | .availableAt => d.availableAt.map .utc

/-- `mapKey` maps store filter keys to the names of document fields. -/
def mapKey : FieldKey → String
  | .id => "_id"
  | .isDraft => "__is_draft"
  | key => key.name

/-- The filter key a document field stands for. -/
def fieldKey? (name : String) : Option FieldKey :=
  ((messageFieldKey name).toList ++ [FieldKey.id, .isDraft]).find? fun k => mapKey k = name

@[simp] lemma fieldKey?_mapKey (k : FieldKey) : fieldKey? (mapKey k) = some k := by
  cases k <;> rfl

lemma mapKey_of_fieldKey? {key : String} {k : FieldKey} (h : fieldKey? key = some k) :
    mapKey k = key := by
  simpa using List.find?_some h

lemma mapKey_injective : Function.Injective mapKey := by
  intro k k' h
  have hk : fieldKey? (mapKey k) = fieldKey? (mapKey k') := by rw [h]
  simpa using hk

def MessageDoc.getOther (d : MessageDoc) : String → Option Value
  | "headers" => omitNil d.headers (.strMap d.headers)
  | "metadata" => omitNil d.metadata (.doc d.metadata)
  | "read_at" => d.readAt.map .utc
  | "attachments" => omitNil d.attachments (.list (d.attachments.map attachmentDoc))
  | "idempotency_key" => omitEmpty d.idempotencyKey
  | _ => none

/-- BSON arrays. -/
def elems? : Value → Option (List Value)
  | .strs l => some (l.map .str)
  | .list l => some l
  | _ => none

/-- What the rest of a path leads to: in an array a position, or a name in one of its documents. -/
def follow : List String → Value → Option Value
  | [], v => some v
  | name :: path, .doc d => (d.lookup name).bind (follow path)
  | name :: path, .strMap m => (m.lookup name).bind fun s => follow path (.str s)
  | name :: path, v => (elems? v).bind fun vs =>
    let found := (name.toNat?.bind (vs[·]?)).toList.filterMap (follow path)
      ++ vs.filterMap fun
        | .doc d => (d.lookup name).bind (follow path)
        | _ => none
    omitNil found (.list found)

/-- The value of a field that filters can name, under its name. -/
def MessageDoc.named (d : MessageDoc) (key : String) : Option Value :=
  (fieldKey? key).bind d.get

/-- The value a document has at a path, the names of which are separated by dots. -/
def MessageDoc.field (d : MessageDoc) (path : String) : Option Value :=
  match (path.toList.splitOn '.').map String.ofList with
  | [] => none
  | name :: path => ((d.named name).or (d.getOther name)).bind (follow path)

@[simp] lemma MessageDoc.named_mapKey (d : MessageDoc) (k : FieldKey) :
    d.named (mapKey k) = d.get k := by
  simp [named]

@[simp] lemma MessageDoc.field_mapKey (d : MessageDoc) (k : FieldKey) :
    d.field (mapKey k) = d.get k := by
  have hpath : ((mapKey k).toList.splitOn '.').map String.ofList = [mapKey k] := by
    cases k <;> rfl
  have hother : d.getOther (mapKey k) = none := by
    cases k <;> rfl
  simp [field, hpath, hother, follow]

/-- `d` with the field `k` taken from `d'`. -/
def MessageDoc.exchange (d d' : MessageDoc) : FieldKey → MessageDoc
  | .id => { d with id := d'.id }
  | .ownerID => { d with ownerID := d'.ownerID }
  | .senderID => { d with senderID := d'.senderID }
  | .recipientIDs => { d with recipientIDs := d'.recipientIDs }
  | .subject => { d with subject := d'.subject }
  | .body => { d with body := d'.body }
  | .status => { d with status := d'.status }
  | .isRead => { d with isRead := d'.isRead }
  | .folderID => { d with folderID := d'.folderID }
  | .tags => { d with tags := d'.tags }
  | .createdAt => { d with createdAt := d'.createdAt }
  | .updatedAt => { d with updatedAt := d'.updatedAt }
  | .threadID => { d with threadID := d'.threadID }
  | .replyToID => { d with replyToID := d'.replyToID }
  | .externalID => { d with externalID := d'.externalID }
  | .isDraft => { d with isDraft := d'.isDraft }
  | .expiresAt => { d with expiresAt := d'.expiresAt }
  | .availableAt => { d with availableAt := d'.availableAt }

lemma MessageDoc.get_exchange_self (d d' : MessageDoc) (k : FieldKey) :
    (d.exchange d' k).get k = d'.get k := by
  cases k <;> rfl

lemma MessageDoc.get_exchange_of_ne (d d' : MessageDoc) {k k' : FieldKey} (h : k' ≠ k) :
    (d.exchange d' k).get k' = d.get k' := by
  cases k <;> cases k' <;> first | rfl | exact absurd rfl h

/-! ## The evaluator -/

/-- What the development assumes of MongoDB: how a condition is decided on the value of a field
(`none` when the document has no such field), and its documented behaviour for plain strings and
booleans, for `null`, and for `$ne` with a plain string or boolean. -/
structure MongoDB where
  fieldMatches : Value → Option Value → Bool
  eq_str : ∀ s t, fieldMatches (.str s) (some (.str t)) = (s == t)
  eq_bool : ∀ b c, fieldMatches (.bool b) (some (.bool c)) = (b == c)
  eq_bool_missing : ∀ b, fieldMatches (.bool b) none = false
  eq_nil_missing : fieldMatches .nil none = true
  ne_str : ∀ s x, fieldMatches (.doc [("$ne", .str s)]) x = !fieldMatches (.str s) x
  ne_bool : ∀ b x, fieldMatches (.doc [("$ne", .bool b)]) x = !fieldMatches (.bool b) x

mutual

/-- One entry of a filter document. -/
def entryMatches (db : MongoDB) (d : MessageDoc) : String × Value → Bool
  | (key, v) =>
    if key = "$and" then allMatch db d v
    else if key = "$or" then anyMatch db d v
    else db.fieldMatches v (d.field key)

/-- The operand of `$and`: every sub-document matches. -/
def allMatch (db : MongoDB) (d : MessageDoc) : Value → Bool
  | .list qs => docsAllMatch db d qs
  | _ => false

/-- The operand of `$or`: some sub-document matches. -/
def anyMatch (db : MongoDB) (d : MessageDoc) : Value → Bool
  | .list qs => docsAnyMatch db d qs
  | _ => false

def docsAllMatch (db : MongoDB) (d : MessageDoc) : List Value → Bool
  | [] => true
  | q :: qs => docMatches db d q && docsAllMatch db d qs

def docsAnyMatch (db : MongoDB) (d : MessageDoc) : List Value → Bool
  | [] => false
  | q :: qs => docMatches db d q || docsAnyMatch db d qs

/-- A sub-document: the conjunction of its entries. -/
def docMatches (db : MongoDB) (d : MessageDoc) : Value → Bool
  | .doc es => entriesMatch db d es
  | _ => false

def entriesMatch (db : MongoDB) (d : MessageDoc) : List (String × Value) → Bool
  | [] => true
  | e :: es => entryMatches db d e && entriesMatch db d es

end

/-- A `bson.M`: a map from keys to values. -/
abbrev BsonM := AList fun _ : String => Value

/-- A filter document matches when all its top-level entries do. -/
def filterMatches (db : MongoDB) (filter : BsonM) (d : MessageDoc) : Bool :=
  filter.entries.all fun e => entryMatches db d (e.1, e.2)

/-- The condition at one field of the document. -/
def FieldSem (db : MongoDB) (key : String) (v : Value) (d : MessageDoc) : Prop :=
  db.fieldMatches v (d.named key) = true

lemma mapKey_ne_operator (k : FieldKey) : mapKey k ≠ "$and" ∧ mapKey k ≠ "$or" := by
  cases k <;> decide

lemma entryMatches_mapKey (db : MongoDB) (d : MessageDoc) (k : FieldKey) (v : Value) :
    entryMatches db d (mapKey k, v) = true ↔ FieldSem db (mapKey k) v d := by
  rw [entryMatches, if_neg (mapKey_ne_operator k).1, if_neg (mapKey_ne_operator k).2, FieldSem,
    d.field_mapKey, d.named_mapKey]

/-- A filter document is the conjunction of its top-level entries, entry by entry. -/
theorem filterMatches_iff (db : MongoDB) (filter : BsonM) (d : MessageDoc) :
    filterMatches db filter d = true
      ↔ ∀ key v, filter.lookup key = some v → entryMatches db d (key, v) = true := by
  rw [filterMatches, List.all_eq_true]
  constructor
  · intro h key v hv
    exact h ⟨key, v⟩ (AList.mem_lookup_iff.mp hv)
  · rintro h ⟨key, v⟩ he
    exact h key v (AList.mem_lookup_iff.mpr he)

/-- Conditions on different fields are independent: any field can be exchanged alone. -/
lemma fieldwise_fieldSem (db : MongoDB) : LastWrite.Fieldwise (FieldSem db) := by
  intro key d d'
  cases hkey : fieldKey? key with
  | none => exact ⟨d, by simp [FieldSem, MessageDoc.named, hkey], by simp⟩
  | some k =>
    obtain rfl := mapKey_of_fieldKey? hkey
    refine ⟨d.exchange d' k, fun v => ?_, fun key' v hne => ?_⟩
    · simp only [FieldSem, MessageDoc.named_mapKey, MessageDoc.get_exchange_self]
    · cases hkey' : fieldKey? key' with
      | none => simp [FieldSem, MessageDoc.named, hkey']
      | some k' =>
        obtain rfl := mapKey_of_fieldKey? hkey'
        have hk : k' ≠ k := fun h => hne (congrArg mapKey h)
        simp only [FieldSem, MessageDoc.named_mapKey, MessageDoc.get_exchange_of_ne d d' hk]

/-! ## A computable evaluator -/

/-- BSON strings; a `store.MessageStatus` is encoded as one. -/
def text? : Value → Option String
  | .str s => some s
  | .status s => some s.name
  | _ => none

/-- BSON integers, whatever their width. -/
def number? : Value → Option ℤ
  | .int i => some i
  | .int64 i => some i
  | _ => none

/-- The order within one BSON type; values of different types are not compared. -/
def compareScalar : Value → Value → Option Ordering
  | .nil, .nil => some .eq
  | .bool a, .bool b => some (compare a b)
  | .time a _, .time b _ => some (compare a b)
  | .oid a, .oid b => some (compare a.bytes.toNat b.bytes.toNat)
  | a, b =>
    match text? a, text? b with
    | some s, some t => some (compare s t)
    | _, _ =>
      match number? a, number? b with
      | some i, some j => some (compare i j)
      | _, _ => none

def eqScalar (a b : Value) : Bool := compareScalar a b == some .eq

/-- `{field: v}`: equality with the field, or with one of its elements when it is an array.
`null` also matches an absent field. -/
def eqField (v : Value) : Option Value → Bool
  | none => eqScalar v .nil
  | some x =>
    match elems? x with
    | none => eqScalar v x
    | some xs =>
      xs.any (eqScalar v) ||
        match elems? v with
        | none => false
        | some vs => vs.length == xs.length && (vs.zip xs).all fun p => eqScalar p.1 p.2

/-- `$gt` and its kin: the field, or one of its elements, stands in the given order to `v`. -/
def cmpField (accept : Ordering → Bool) (v : Value) : Option Value → Bool
  | none => false
  | some x => ((elems? x).getD [x]).any fun y => ((compareScalar y v).map accept).getD false

/-- One operator of an operator document.  An operand MongoDB refuses selects nothing. -/
def evalOperator (op : String) (arg : Value) (x : Option Value) : Bool :=
  if op = "$eq" then eqField arg x
  else if op = "$ne" then !eqField arg x
  else if op = "$gt" then cmpField (· == .gt) arg x
  else if op = "$gte" then cmpField (· != .lt) arg x
  else if op = "$lt" then cmpField (· == .lt) arg x
  else if op = "$lte" then cmpField (· != .gt) arg x
  else if op = "$in" then ((elems? arg).map fun vs => vs.any fun v => eqField v x).getD false
  else if op = "$nin" then ((elems? arg).map fun vs => vs.all fun v => !eqField v x).getD false
  else if op = "$exists" then
    match arg with
    | .bool b => b == x.isSome
    | _ => x.isSome
  else false

/-- An evaluator for plain values and operator documents. -/
def mongodMatches (v : Value) (x : Option Value) : Bool :=
  match v with
  | .doc ops => ops.all fun e => evalOperator e.1 e.2 x
  | v => eqField v x

/-- The computable evaluator meets the assumptions. -/
def mongod : MongoDB where
  fieldMatches := mongodMatches
  eq_str s t := by
    rw [Bool.eq_iff_iff]
    simp [mongodMatches, eqField, eqScalar, compareScalar, text?, elems?]
  eq_bool b c := by
    cases b <;> cases c <;> rfl
  eq_bool_missing b := by
    cases b <;> rfl
  eq_nil_missing := rfl
  ne_str s x := by
    simp [mongodMatches, evalOperator]
  ne_bool b x := by
    simp [mongodMatches, evalOperator]

end Mailbox.Mongo
