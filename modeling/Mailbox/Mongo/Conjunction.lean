import Mailbox.Mongo.Filter

/-!
# When a filter document is the conjunction of its filters

The callers of `buildFilter` read a filter list as a conjunction — `HasTags` returns one filter
per tag and promises the messages that have *all* of them.  The document has one slot per field,
so only the last filter on each field is left in it (`lookup_buildFilter`).

**`buildFilter_conjunction_iff`** says when the document still means the conjunction.  One filter
per field is safe, two tags are not (`hasTags_matches_without_first`).
-/

namespace Mailbox.Mongo

open LastWrite

/-- What the filters write, in order. -/
def filterEntries (filters : List Filter) : List (String × Value) := filters.filterMap filterEntry

lemma filterEntries_append (fs gs : List Filter) :
    filterEntries (fs ++ gs) = filterEntries fs ++ filterEntries gs :=
  List.filterMap_append

/-- The loop of `buildFilter` is a list of writes. -/
lemma buildFilter_eq (fs : List Filter) : buildFilter fs = writeAll (filterEntries fs) ∅ := by
  rw [buildFilter, filterEntries, writeAll]
  -- The accumulator is arbitrary, for the induction.
  generalize (∅ : BsonM) = acc
  induction fs generalizing acc with
  | nil => rfl
  | cons f fs ih =>
    cases hf : filterEntry f with
    | none | some => simp [hf, ih]

/-- **Only the last filter on a field is left in the document.** -/
theorem lookup_buildFilter (fs : List Filter) (key : String) :
    (buildFilter fs).lookup key = lastWrite key (filterEntries fs) := by
  rw [buildFilter_eq, lookup_writeAll]
  simp

lemma exists_mapKey_of_filterEntry {f : Filter} {e : String × Value} (h : filterEntry f = some e) :
    ∃ k op v, f = .mk k op v ∧ e.1 = mapKey k := by
  unfold filterEntry at h
  split at h
  · cases h
  · rw [Option.map_eq_some_iff] at h
    obtain ⟨v, _, rfl⟩ := h
    exact ⟨.id, _, _, rfl, rfl⟩
  · cases h
    exact ⟨_, _, _, rfl, rfl⟩

lemma exists_mapKey_of_lastWrite {fs : List Filter} {key : String} {v : Value}
    (h : lastWrite key (filterEntries fs) = some v) : ∃ k, key = mapKey k := by
  obtain ⟨f, _, hf⟩ := List.mem_filterMap.mp (mem_of_lastWrite h)
  obtain ⟨k, _, _, _, hk⟩ := exists_mapKey_of_filterEntry hf
  exact ⟨k, hk⟩

/-- A document of `buildFilter` is met when the last filter on each field is. -/
lemma filterMatches_buildFilter (db : MongoDB) (fs : List Filter) (d : MessageDoc) :
    filterMatches db (buildFilter fs) d = true
      ↔ Holds (FieldSem db) (writeAll (filterEntries fs) ∅) d := by
  rw [filterMatches_iff, holds_writeAll_empty]
  simp only [lookup_buildFilter]
  refine forall_congr' fun key => forall_congr' fun v => imp_congr_right fun h => ?_
  obtain ⟨k, rfl⟩ := exists_mapKey_of_lastWrite h
  exact entryMatches_mapKey db d k v

/-- The filters, each taken alone, are the conditions they write. -/
lemma forall_filterMatches_singleton (db : MongoDB) (fs : List Filter) (d : MessageDoc) :
    (∀ f ∈ fs, filterMatches db (buildFilter [f]) d = true)
      ↔ ∀ e ∈ filterEntries fs, FieldSem db e.1 e.2 d := by
  have hal : ∀ f, filterMatches db (buildFilter [f]) d = true
      ↔ ∀ e, filterEntry f = some e → FieldSem db e.1 e.2 d := by
    intro f
    rw [filterMatches_buildFilter, holds_writeAll_empty]
    cases hf : filterEntry f with
    | none | some => simp [filterEntries, hf, lastWrite]
  simp only [hal, filterEntries, List.mem_filterMap]
  constructor
  · rintro h e ⟨f, hf, he⟩
    exact h f hf e he
  · intro h f hf e he
    exact h e ⟨f, hf, he⟩

instance : Nonempty MessageDoc :=
  ⟨⟨⟨0⟩, "", "", [], "", "", "", false, "", none, 0, 0, false, "", "", "", none, none, [], [],
    none, [], ""⟩⟩

/-- **When the filters of a list are a conjunction.**  The document `buildFilter` builds matches
exactly the messages that every filter of the list matches on its own if and only if the last
filter on each field implies the earlier ones on that field — or the last filter on some field is
met by no message, so that nothing matches either way. -/
theorem buildFilter_conjunction_iff (db : MongoDB) (fs : List Filter) :
    (∀ d, filterMatches db (buildFilter fs) d = true
        ↔ ∀ f ∈ fs, filterMatches db (buildFilter [f]) d = true)
      ↔ Faithful (FieldSem db) (filterEntries fs) := by
  rw [← holds_writeAll_iff_forall (fieldwise_fieldSem db)]
  refine forall_congr' fun d => ?_
  rw [filterMatches_buildFilter, forall_filterMatches_singleton]

/-- A message whose only tag is the last one asked for. -/
def taggedB : MessageDoc where
  id := ⟨1⟩
  ownerID := "u"
  senderID := "v"
  recipientIDs := ["u"]
  subject := "s"
  body := ""
  status := "delivered"
  isRead := false
  folderID := folderInbox
  tags := some ["b"]
  createdAt := 0
  updatedAt := 0
  isDraft := false
  threadID := ""
  replyToID := ""
  externalID := ""
  expiresAt := none
  availableAt := none

/-- Asking for two tags returns messages that have only the second. -/
theorem hasTags_matches_without_first :
    filterMatches mongod (buildFilter (hasTags ["a", "b"])) taggedB = true
      ∧ hasTag "a" ∈ hasTags ["a", "b"]
      ∧ filterMatches mongod (buildFilter [hasTag "a"]) taggedB = false := by
  refine ⟨by decide, ?_, by decide⟩
  simp [hasTags]

end Mailbox.Mongo
