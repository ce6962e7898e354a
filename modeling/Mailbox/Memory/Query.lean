import Mathlib.Data.List.Infix
import Mailbox.Lib.ExchangeSort
import Mailbox.Memory.Store

/-!
# Queries of the in-memory store

`matchesFilter` and `sortMessages` of `store/memory/helpers.go` and `Find`, `Count` and `Search` of
`store/memory/query.go`.

A filter value is a Go `any`, so comparisons look at the dynamic type first: `goEq` is `==` on
interface values, and `compareValues` answers `0` for types it does not know.  `Find` collects the
matches by `Range`, whose order is unspecified; the order of one call is the argument `range`, a
rearrangement of the map's content.
-/

namespace Mailbox.Memory

/-! ## Filters -/

/-- `==` on interface values: the same dynamic type and the same value.  Slices are never equal
to the scalars the code compares them with. -/
def goEq : Value → Value → Bool
  | .nil, .nil => true
  | .str a, .str b => a == b
  | .status a, .status b => a == b
  | .bool a, .bool b => a == b
  | .int a, .int b => a == b
  | .int64 a, .int64 b => a == b
  | .time a z, .time b z' => a == b && z == z'
  | .oid a, .oid b => a == b
  | _, _ => false

/-- `compareValues`: the order of two strings, integers or times, `0` for anything else. -/
def compareValues : Value → Value → Ordering
  | .str a, .str b => compare a b
  | .int a, .int b => compare a b
  | .int64 a, .int64 b => compare a b
  | .time a _, .time b _ => compare a b
  | _, _ => .eq

/-- `value.(bool)`, `false` for any other type. -/
def boolValue : Value → Bool
  | .bool b => b
  | _ => false

/-- `valueInSet` checks if a scalar value is in a set (slice) of values. -/
def valueInSet (fieldValue : Value) : Value → Bool
  | .strs l => l.any fun v => goEq (.str v) fieldValue
  | .list l => l.any fun v => goEq v fieldValue
  | _ => false

/-- `matchesSliceFilter` handles filter operations on slice fields. -/
def matchesSliceFilter (slice : List String) (op : Operator) (value : Value) : Bool :=
  match op with
  | .contains =>
    match value with
    | .str s => slice.contains s
    | _ => false
  | .exists => boolValue value == !slice.isEmpty
  | .eq =>
    match value with
    | .strs other => slice == other
    | _ => false
  | _ => true

/-- The operators on a scalar field value. -/
def matchesScalar (fieldValue : Value) (op : Operator) (value : Value) : Bool :=
  match op with
  | .eq => goEq fieldValue value
  | .ne => !goEq fieldValue value
  | .lt => compareValues fieldValue value == .lt
  | .lte => compareValues fieldValue value != .gt
  | .gt => compareValues fieldValue value == .gt
  | .gte => compareValues fieldValue value != .lt
  | .exists => boolValue value != (goEq fieldValue (.str "") || goEq fieldValue .nil)
  | .isIn => valueInSet fieldValue value
  | .nin => !valueInSet fieldValue value
  | .contains => true

/-- A time field that may be unset: no comparison matches `nil`. -/
def matchesTime (field : Option Time) (zone : Zone) (op : Operator) (value : Value) : Bool :=
  match field with
  | some t => matchesScalar (.time t zone) op value
  | none =>
    match op with
    | .exists => !boolValue value
    | _ => false

/-- `matchesFilter`.  The body is not among the fields it knows, so a filter on it is skipped, as
is the zero filter. -/
def matchesFilter (m : Message) : Filter → Bool
  | .zero => true
  | .mk .tags op value => matchesSliceFilter m.tags op value
  | .mk .recipientIDs op value => matchesSliceFilter m.recipientIDs op value
  | .mk .id op value => matchesScalar (.str m.id) op value
  | .mk .ownerID op value => matchesScalar (.str m.ownerID) op value
  | .mk .senderID op value => matchesScalar (.str m.senderID) op value
  | .mk .subject op value => matchesScalar (.str m.subject) op value
  | .mk .folderID op value => matchesScalar (.str m.folderID) op value
  | .mk .isRead op value => matchesScalar (.bool m.isRead) op value
  | .mk .status op value => matchesScalar (.status m.status) op value
  | .mk .threadID op value => matchesScalar (.str m.threadID) op value
  | .mk .replyToID op value => matchesScalar (.str m.replyToID) op value
  | .mk .externalID op value => matchesScalar (.str m.externalID) op value
  | .mk .createdAt op value => matchesScalar (.utc m.createdAt) op value
  | .mk .updatedAt op value => matchesScalar (.utc m.updatedAt) op value
  | .mk .isDraft op value => matchesScalar (.bool m.isDraft) op value
  | .mk .expiresAt op value => matchesTime m.expiresAt m.expiresZone op value
  | .mk .availableAt op value => matchesTime m.availableAt m.availableZone op value
  | .mk .body _ _ => true

def matchesFilters (m : Message) (filters : List Filter) : Bool := filters.all (matchesFilter m)

@[simp] lemma matchesFilter_ownerIs (m : Message) (u : String) :
    matchesFilter m (ownerIs u) = true ↔ m.ownerID = u := by
  simp [matchesFilter, matchesScalar, goEq]

@[simp] lemma matchesFilter_isDraftFilter (m : Message) (b : Bool) :
    matchesFilter m (isDraftFilter b) = true ↔ m.isDraft = b := by
  simp [matchesFilter, matchesScalar, goEq]

@[simp] lemma matchesFilter_inFolder (m : Message) (folderID : String) :
    matchesFilter m (inFolder folderID) = true ↔ m.folderID = folderID := by
  simp [matchesFilter, matchesScalar, goEq]

lemma matchesFilter_notDeleted (m : Message) :
    matchesFilter m notDeleted = true ↔ m.folderID ≠ folderTrash := by
  simp [notDeleted, matchesFilter, matchesScalar, goEq]

@[simp] lemma matchesFilter_isReadFilter (m : Message) (b : Bool) :
    matchesFilter m (isReadFilter b) = true ↔ m.isRead = b := by
  simp [matchesFilter, matchesScalar, goEq]

/-! ## Sorting -/

/-- `store.SortOrder`; the zero value means the default. -/
inductive SortOrder where
  | unset
  | asc
  | desc
  deriving DecidableEq, Repr

/-- Whether `sortMessages` swaps two messages. -/
def shouldSwap (sortBy : String) (asc : Bool) (a b : Message) : Bool :=
  if sortBy = "created_at" then
    if asc then decide (b.createdAt < a.createdAt) else decide (a.createdAt < b.createdAt)
  else if sortBy = "updated_at" then
    if asc then decide (b.updatedAt < a.updatedAt) else decide (a.updatedAt < b.updatedAt)
  else if sortBy = "subject" then
    if asc then decide (b.subject < a.subject) else decide (a.subject < b.subject)
  else false

def sortMessages (sortBy : String) (order : SortOrder) (msgs : List Message) : List Message :=
  let sortBy := if sortBy = "" then "created_at" else sortBy
  ExchangeSort.sort (shouldSwap sortBy (order == .asc)) msgs

/-! ## Find and Count -/

/-- `store.ListOptions`, the offset apart: `Find` of this store does not read it. -/
structure ListOptions where
  limit : ℤ
  sortBy : String := ""
  sortOrder : SortOrder := .unset
  startAfter : String := ""

/-- `store.MessageList`. -/
structure MessageList where
  messages : List Message
  total : ℕ
  hasMore : Bool

/-- `isAvailableNow`: messages with a future `availableAt` are hidden. -/
def isAvailableNow (now : Time) (m : Message) : Bool :=
  match m.availableAt with
  | none => true
  | some t => !decide (now < t)

variable {m : Message}

lemma isAvailableNow_mono {now now' : Time} (h : now ≤ now')
    (hm : isAvailableNow now m = true) : isAvailableNow now' m = true := by
  unfold isAvailableNow at hm ⊢
  cases hat : m.availableAt with
  | none => rfl
  | some =>
    simp only [hat, Bool.not_eq_true', decide_eq_false_iff_not] at hm ⊢
    exact fun hlt => hm (Int.lt_of_le_of_lt h hlt)

/-- What a query selects. -/
def selects (now : Time) (filters : List Filter) (m : Message) : Bool :=
  !m.isDraft && isAvailableNow now m && matchesFilters m filters

/-- A message of a user's that is not a draft. -/
def countsFor (userID : String) (m : Message) : Bool := !m.isDraft && decide (m.ownerID = userID)

lemma selects_ownerIs (now : Time) (userID : String) (m : Message) :
    selects now [ownerIs userID] m = (isAvailableNow now m && countsFor userID m) := by
  rw [Bool.eq_iff_iff]
  simp only [selects, countsFor, matchesFilters, List.all_cons, List.all_nil, Bool.and_eq_true,
    matchesFilter_ownerIs, decide_eq_true_eq, and_true]
  exact and_assoc.trans and_left_comm

/-- The slice expression `all[start:end]` of a page; `none` where it panics. -/
def pageOf (limit : ℤ) (start : ℕ) (all : List Message) : Option MessageList :=
  let len : ℤ := all.length
  let stop : ℤ := if limit = 0 then len else start + limit
  let stop : ℤ := if len < stop then len else stop
  if stop < start then none
  else
    some {
      messages := (all.drop start).take (stop - start).toNat
      total := all.length
      hasMore := decide (stop < len) }

/-- The page a query asks for of everything it selects, in order. -/
def page (opts : ListOptions) (all : List Message) : Option MessageList :=
  if opts.startAfter = "" then pageOf opts.limit 0 all
  else
    match all.findIdx? fun m => decide (m.id = opts.startAfter) with
    | some i => pageOf opts.limit (i + 1) all
    -- The cursor is gone: the page boundary is unknown.
    | none => some ⟨[], all.length, false⟩

/-- The order in which a call of `Find` visits the map. -/
abbrev Range := List Message → List Message

/-- The orders of successive calls. -/
abbrev Ranges := ℕ → Range

/-- Each call visits every message once. -/
abbrev Ranges.Perm (ranges : Ranges) : Prop := ∀ n l, (ranges n l).Perm l

namespace Store

variable (now : Time)

/-- `Find` retrieves messages matching the filters, visiting the map in the order of `range`.
`none` where the page's slice expression panics. -/
def find (range : Range) (filters : List Filter) (opts : ListOptions)
    (s : Store) : Option MessageList :=
  page opts (sortMessages opts.sortBy opts.sortOrder
    ((range s.messages.all).filter (selects now filters)))

/-- `Count` returns the count of messages matching the filters. -/
def count (filters : List Filter) (s : Store) : ℕ := s.messages.all.countP (selects now filters)

def findWithCount (range : Range) (filters : List Filter)
    (opts : ListOptions) (s : Store) : Option (MessageList × ℕ) :=
  (s.find now range filters opts).map fun list => (list, s.count now filters)

end Store

/-! ## Search -/

/-- `store.SearchQuery`, the field names apart: `Search` of this store does not read them. -/
structure SearchQuery where
  ownerID : String := ""
  query : String := ""
  tags : List String := []
  filters : List Filter := []
  options : ListOptions

def hasAllTags (m : Message) (tags : List String) : Bool := tags.all m.tags.contains

/-- `strings.Contains`. -/
def containsText (text term : String) : Bool := decide (term.toList <:+: text.toList)

/-- What a search selects.  `toLower` is `strings.ToLower`. -/
def searches (toLower : String → String) (now : Time) (query : SearchQuery) (m : Message) : Bool :=
  let searchTerm := toLower query.query
  !m.isDraft && isAvailableNow now m
    && (decide (query.ownerID = "") || decide (m.ownerID = query.ownerID))
    && matchesFilters m query.filters
    && (query.tags.isEmpty || hasAllTags m query.tags)
    && (decide (searchTerm = "") || containsText (toLower m.subject) searchTerm
      || containsText (toLower m.body) searchTerm)

def Store.search (now : Time) (toLower : String → String) (range : Range)
    (query : SearchQuery) (s : Store) : Option MessageList :=
  page query.options (sortMessages query.options.sortBy query.options.sortOrder
    ((range s.messages.all).filter (searches toLower now query)))

variable {all : List Message} {list : MessageList}

lemma mem_of_mem_pageOf {limit : ℤ} {start : ℕ}
    (h : pageOf limit start all = some list) (hm : m ∈ list.messages) : m ∈ all := by
  unfold pageOf at h
  extract_lets len stop stop' at h
  split_ifs at h
  cases h
  exact List.mem_of_mem_drop (List.mem_of_mem_take hm)

lemma mem_of_mem_page {opts : ListOptions}
    (h : page opts all = some list) (hm : m ∈ list.messages) : m ∈ all := by
  unfold page at h
  split_ifs at h
  · exact mem_of_mem_pageOf h hm
  · split at h
    · exact mem_of_mem_pageOf h hm
    · cases h
      cases hm

end Mailbox.Memory
