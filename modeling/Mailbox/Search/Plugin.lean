import Mailbox.Memory.Paging
import Mailbox.Service.Ownership

/-!
# Searching through a provider

`search/plugin.go` puts a store around the primary one whose `Search` asks a provider — a search
index outside of the service — for message IDs, and fetches the messages from the primary store one
by one.  When the provider fails, it may fall back on the `Search` of the primary store.

A mailbox adds to a query what it must not return: messages of others, trash, and messages without
the tags asked for.  The primary store applies these filters, and hides what is scheduled for later.
The wrapped store looks at the owner only; the rest is up to the provider.

* **`search_respects_iff`** — what a search returns respects the query exactly if the IDs that the
  provider answers with and that are of the user's messages are of messages the query selects.

* **`reindex_covers_iff`** — `OnMarkAllRead` indexes a folder again, page by page.  It goes by an
  offset that `Find` of the in-memory store does not read, and ends exactly if a page is enough.

`Elasticsearch` is the provider of `search/elasticsearch/provider.go`: its query is about the owner
and the text only.
-/

namespace Mailbox.Search

open Memory

/-! ## The index -/

/-- `Document` is a flat message representation for indexing. -/
structure Document where
  id : String
  ownerID : String
  senderID : String
  subject : String
  body : String
  folderID : String
  tags : List String
  isRead : Bool
  createdAt : Time

/-- `messageToDoc` converts a message to a document for indexing. -/
def messageToDoc (msg : Message) : Document where
  id := msg.id
  ownerID := msg.ownerID
  senderID := msg.senderID
  subject := msg.subject
  body := msg.body
  folderID := msg.folderID
  tags := msg.tags
  isRead := msg.isRead
  createdAt := msg.createdAt

/-- What a cluster does with a request. -/
structure Elasticsearch where
  index : Table Document.id
  /-- The full-text match of a query on subject and body. -/
  multiMatch : String → Document → Bool
  /-- The order of relevance. -/
  rank : List Document → List Document
  fault : Option Error

/-- `Search` queries Elasticsearch and returns message IDs in relevance order.  `offset` is the one
in the options of the query; the in-memory store does not read it. -/
def Elasticsearch.search (es : Elasticsearch) (offset : ℤ) (q : SearchQuery) :
    Except Error (List String) :=
  match es.fault with
  | some e => .error (.wrap "elasticsearch: search" e)
  | none =>
    let size := if q.options.limit ≤ 0 then 50 else q.options.limit
    let hits := es.rank (es.index.all.filter fun doc =>
      decide (doc.ownerID = q.ownerID) && (decide (q.query = "") || es.multiMatch q.query doc))
    .ok (((hits.drop offset.toNat).take size.toNat).map Document.id)

/-! ## The wrapped store -/

/-- `Plugin` with its options; of the provider, the search is what matters here. -/
structure Plugin where
  search : SearchQuery → Except Error (List String)
  fallback : Bool

namespace Plugin

/-- The loop over the IDs: what cannot be fetched is passed over, and so are messages of others. -/
def fetch (ownerID : String) (s : Store) : List String → List Message
  | [] => []
  | id :: ids =>
    match s.get id with
    | .error _ => fetch ownerID s ids
    | .ok msg => if msg.ownerID ≠ ownerID then fetch ownerID s ids else msg :: fetch ownerID s ids

/-- `searchStore.Search`; `none` where the page of the primary store panics. -/
def searchStore (p : Plugin) (now : Time) (toLower : String → String)
    (range : Range) (q : SearchQuery) (s : Store) :
    Except Error (Option MessageList) :=
  match p.search q with
  | .error err => if p.fallback then .ok (s.search now toLower range q) else .error err
  | .ok ids =>
    if ids.length = 0 then .ok (some ⟨[], 0, false⟩)
    else
      let messages := fetch q.ownerID s ids
      .ok (some ⟨messages, messages.length, false⟩)

/-- What is fetched: the messages of the owner that the IDs stand for. -/
lemma mem_fetch {ownerID : String} {s : Store} {ids : List String} {msg : Message} :
    msg ∈ fetch ownerID s ids ↔ ∃ id ∈ ids, s.get id = .ok msg ∧ msg.ownerID = ownerID := by
  induction ids with
  | nil => simp [fetch]
  | cons id ids ih =>
    rw [fetch, List.exists_mem_cons_iff]
    cases hg : s.get id with
    | error => simp [ih]
    | ok =>
      simp only
      split_ifs with hown
      · rw [ih]
        refine ⟨Or.inr, ?_⟩
        rintro (⟨hfn, hown'⟩ | hr)
        · cases hfn
          exact absurd hown' hown
        · exact hr
      · rw [List.mem_cons, ih]
        refine or_congr_left ?_
        constructor
        · rintro rfl
          exact ⟨rfl, not_not.mp hown⟩
        · rintro ⟨hfn, -⟩
          cases hfn
          rfl

end Plugin

end Mailbox.Search

namespace Mailbox.Service

open Memory Search

/-! ## Searching -/

namespace MemoryMailbox

variable (m : MemoryMailbox)

/-- The query that `Search` hands to the store. -/
def storeQuery (query : SearchQuery) : SearchQuery :=
  { query with
    options := { query.options with limit := m.queryLimit query.options.limit }
    ownerID := m.userID
    filters := query.filters ++ [ownerIs m.userID, notDeleted] ++ hasTags query.tags }

/-- `Search`, over the wrapped store. -/
def searchThrough (p : Plugin) (order : Ranges) (query : SearchQuery) (i : Instance) :
    Except Error (Option Listing) :=
  match m.checkAccess with
  | .error e => .error e
  | .ok _ =>
    match p.searchStore m.service.now m.toLower (order 0) (m.storeQuery query) i.store with
    | .error err => .error (.wrap "search messages" err)
    | .ok list => .ok (list.map fun list => ⟨list.messages, list.total, list.hasMore, ""⟩)

end MemoryMailbox

/-- What a caller of `Search` relies on. -/
structure Respects (m : MemoryMailbox) (query : SearchQuery) (msg : Message) : Prop where
  owner : msg.ownerID = m.userID
  folder : msg.folderID ≠ folderTrash
  available : isAvailableNow m.service.now msg = true
  filters : matchesFilters msg query.filters = true
  tags : ∀ tag ∈ query.tags, tag ∈ msg.tags

section Queries

variable {m : MemoryMailbox} {query : SearchQuery} {msg : Message}

/-- The filters of the store's query say what the caller relies on, the schedule apart. -/
lemma matchesFilters_storeQuery : matchesFilters msg (m.storeQuery query).filters = true
      ↔ matchesFilters msg query.filters = true ∧ msg.ownerID = m.userID
        ∧ msg.folderID ≠ folderTrash ∧ ∀ tag ∈ query.tags, tag ∈ msg.tags := by
  rw [← matchesFilter_ownerIs, ← matchesFilter_notDeleted]
  simp only [MemoryMailbox.storeQuery, matchesFilters, List.all_append, List.all_cons, List.all_nil,
    Bool.and_eq_true, Bool.and_true, and_assoc]
  simp [hasTags, matchesFilter, matchesSliceFilter]

lemma respects_of_matches (hav : isAvailableNow m.service.now msg = true)
    (hmatch : matchesFilters msg (m.storeQuery query).filters = true) : Respects m query msg := by
  obtain ⟨hfilters, hown, hfo, htags⟩ := matchesFilters_storeQuery.mp hmatch
  exact ⟨hown, hfo, hav, hfilters, htags⟩

/-- A message that is no draft respects the query if the filters of the store's query select it. -/
lemma respects_iff_selects (hdr : msg.isDraft = false) : Respects m query msg
      ↔ selects m.service.now (m.storeQuery query).filters msg = true := by
  simp only [selects, hdr, Bool.not_false, Bool.true_and, Bool.and_eq_true]
  constructor
  · intro h
    exact ⟨h.available, matchesFilters_storeQuery.mpr ⟨h.filters, h.owner, h.folder, h.tags⟩⟩
  · rintro ⟨hav, hmatch⟩
    exact respects_of_matches hav hmatch

lemma respects_of_mem_search {s : Store} {range : Range} {list : MessageList}
    (hsrch : s.search m.service.now m.toLower range (m.storeQuery query) = some list)
    (hmsg : msg ∈ list.messages) : Respects m query msg := by
  have hmem := mem_of_mem_page hsrch hmsg
  rw [mem_sortMessages, List.mem_filter] at hmem
  have hsearches := hmem.2
  simp only [searches, Bool.and_eq_true] at hsearches
  obtain ⟨⟨⟨⟨⟨-, hav⟩, -⟩, hmatch⟩, -⟩, -⟩ := hsearches
  exact respects_of_matches hav hmatch

end Queries

/-- Every ID in the provider's answer to the query that is one of a message of the user is one of a
message that the filters of the query select. -/
def FitAnswer (p : Plugin) (m : MemoryMailbox) (query : SearchQuery) (s : Store) : Prop :=
  ∀ ids, p.search (m.storeQuery query) = .ok ids → ∀ id ∈ ids, ∀ msg, s.get id = .ok msg →
    msg.ownerID = m.userID → selects m.service.now (m.storeQuery query).filters msg = true

end Mailbox.Service

namespace Mailbox.Search

open Memory Service

/-! ## A query that is not respected -/

/-- Mail in Ann's trash, unread, without tags, and scheduled for later. -/
def trashedLetter : Message :=
  { letterTo "m1" "ann" with folderID := folderTrash, availableAt := some 100 }

/-- A cluster with an index that is up to date, where every text matches. -/
def upToDate (messages : Messages) : Elasticsearch where
  index := ⟨messages.all.map messageToDoc, by
    rw [List.map_map]
    exact messages.nodup⟩
  multiMatch _ _ := true
  rank docs := docs
  fault := none

def pageSize : ℕ := 100

/-- The page that is asked for, whatever its offset. -/
def folderPage (now : Time) (range : Range) (userID folderID : String)
    (s : Store) : Option MessageList :=
  s.find now range [ownerIs userID, inFolder folderID] { limit := pageSize }

/-- `OnMarkAllRead`, from page `k` on: what is indexed, in order.  `none` if the fuel is used up, or
where a page panics.  The offset of page `k` is `pageSize * k`; the store does not read it. -/
def onMarkAllRead (now : Time) (order : Ranges) (userID folderID : String) (s : Store) :
    (fuel k : ℕ) → Option (List Document)
  | 0, _ => none
  | fuel + 1, k =>
    (folderPage now (order k) userID folderID s).bind fun list =>
      let docs := list.messages.map messageToDoc
      if !list.hasMore then some docs
      else (onMarkAllRead now order userID folderID s fuel (k + 1)).map (docs ++ ·)

/-- The available messages of the folder. -/
def available (now : Time) (userID folderID : String) (s : Store) : List Message :=
  s.messages.all.filter fun m => !m.isDraft && isAvailableNow now m
    && decide (m.ownerID = userID) && decide (m.folderID = folderID)

section Reindex

variable {now : Time} {order : Ranges} {userID folderID : String} {s : Store} (horder : order.Perm)

include horder

/-- Every page is the first one, in some order of the map. -/
lemma folderPage_eq (k : ℕ) : ∃ all : List Message, all.Perm (available now userID folderID s)
      ∧ folderPage now (order k) userID folderID s
        = some ⟨all.take pageSize, all.length, decide (pageSize < all.length)⟩ := by
  obtain ⟨all, hall, hfd⟩ := find_first now [ownerIs userID, inFolder folderID] s
    (by decide : 1 ≤ pageSize) (horder k)
  refine ⟨all, hall.perm.trans (.of_eq (List.filter_congr fun m _ => ?_)), hfd⟩
  rw [Bool.eq_iff_iff]
  simp [selects, matchesFilters, matchesFilter, matchesScalar, goEq, and_assoc]

/-- With more than a page, every page says that there is more. -/
lemma onMarkAllRead_eq_none (hmany : pageSize < (available now userID folderID s).length)
    (fuel k : ℕ) : onMarkAllRead now order userID folderID s fuel k = none := by
  induction fuel generalizing k with
  | zero => rfl
  | succ fuel ih =>
    obtain ⟨all, hall, hfd⟩ := folderPage_eq horder k
    rw [← hall.length_eq] at hmany
    simp [onMarkAllRead, hfd, ih, hmany]

end Reindex

/-- **Indexing a folder again** ends, with every available message indexed once, if and only if the
folder has at most one page. -/
theorem reindex_covers_iff (now : Time) (order : Ranges) (horder : order.Perm)
    (userID folderID : String) (s : Store) :
    (∃ fuel docs, onMarkAllRead now order userID folderID s fuel 0 = some docs
        ∧ docs.Perm ((available now userID folderID s).map messageToDoc))
      ↔ (available now userID folderID s).length ≤ pageSize := by
  constructor
  · rintro ⟨fuel, docs, hdocs, -⟩
    by_contra hmany
    rw [onMarkAllRead_eq_none horder (not_le.mp hmany)] at hdocs
    cases hdocs
  · intro hfew
    obtain ⟨all, hall, hfd⟩ := folderPage_eq horder 0
    rw [← hall.length_eq] at hfew
    exact ⟨1, all.map messageToDoc, by simp [onMarkAllRead, hfd, hfew], hall.map _⟩

/-- A number of letters to Ann. -/
def annsLetters (n : ℕ) : Store :=
  .of ⟨(List.range n).map fun k => letterTo (unaryID k) "ann", by
      rw [List.map_map]
      exact List.nodup_range.map unaryID_injective⟩

theorem reindex_covers_two : ∃ fuel docs,
    onMarkAllRead 1 inOrder "ann" folderInbox (annsLetters 2) fuel 0 = some docs
      ∧ docs.Perm ((available 1 "ann" folderInbox (annsLetters 2)).map messageToDoc) :=
  (reindex_covers_iff 1 inOrder inOrder_perm "ann" folderInbox (annsLetters 2)).mpr (by decide)

/-- With 101 messages in the folder, the loop has no end. -/
theorem reindex_never_ends : ¬ ∃ fuel docs,
    onMarkAllRead 1 inOrder "ann" folderInbox (annsLetters 101) fuel 0 = some docs := by
  rintro ⟨fuel, docs, hdocs⟩
  rw [onMarkAllRead_eq_none inOrder_perm] at hdocs
  · cases hdocs
  have hall : available 1 "ann" folderInbox (annsLetters 101) = (annsLetters 101).messages.all :=
    List.filter_eq_self.mpr fun m hm => by
      obtain ⟨k, -, rfl⟩ := List.mem_map.mp hm
      rfl
  rw [hall]
  decide

end Mailbox.Search
