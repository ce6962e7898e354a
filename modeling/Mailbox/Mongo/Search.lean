import Mathlib.Data.Int.Order.Basic
import Mailbox.Memory.Query
import Mailbox.Mongo.Isolation

/-!
# The filter document of a search

`Search` of `store/mongo/query.go` writes the availability condition into `$and`, and the text of a
regex search into `$or`.  A page after the first needs `$or` for its keyset condition; where the
text is there already, both are moved into `$and`, and what `$and` has held is lost.

Which text a pattern matches, and how `$text` is decided, plays no role; a pattern matches nothing
but text, though.
-/

namespace Mailbox.Mongo

open Memory AList

/-- The regex metacharacters that need escaping. -/
def regexMetaChars : List Char := "\\^$.|?*+()[]\x7b\x7d".toList

/-- `escapeRegex` escapes regex metacharacters in a string. -/
def escapeRegex (s : String) : String :=
  String.join (s.toList.map fun c =>
    if c ∈ regexMetaChars then "\\" ++ c.toString else c.toString)

/-- A pattern, in upper or lower case. -/
def regex (pattern : String) : Value :=
  .doc [("$regex", .str pattern), ("$options", .str "i")]

/-- The text in one of the fields. -/
def textCondition (fields : List String) (text : String) : Value :=
  .list ((if fields = [] then ["subject", "body"] else fields).map fun field =>
    .doc [(field, regex (escapeRegex text))])

/-- Text search: native, or by regex; `none` is `ErrRegexSearchDisabled`. -/
def addText (enableFTS enableRegex : Bool) (fields : List String) (text : String)
    (filter : BsonM) : Option BsonM :=
  if text = "" then some filter
  else if enableFTS then some (filter.insert "$text" (.doc [("$search", .str text)]))
  else if enableRegex then some (filter.insert "$or" (textCondition fields text))
  else none

/-- The keyset condition of a page after the first. -/
def addKeyset : Option Cursor → BsonM → BsonM
  | none, filter => filter
  | some c, filter =>
    match filter.lookup "$or" with
    | some existingOr => (filter.erase "$or").insert "$and"
        (.list [.doc [("$or", existingOr)], .doc [("$or", keysetCondition c)]])
    | none => filter.insert "$or" (keysetCondition c)

def addOwner (ownerID : String) (filter : BsonM) : BsonM :=
  if ownerID = "" then filter else filter.insert "owner_id" (.str ownerID)

def addTags (tags : List String) (filter : BsonM) : BsonM :=
  if tags = [] then filter else filter.insert "tags" (.doc [("$all", .strs tags)])

/-- The filter document `Search` hands to the collection. -/
def searchFilter (now : Time) (enableFTS enableRegex : Bool) (fields : List String)
    (cursor : Option Cursor) (query : SearchQuery) : Option BsonM :=
  (addText enableFTS enableRegex fields query.query (addOwner query.ownerID
    (addAvailabilityFilter now ((buildFilter query.filters).insert "__is_draft" neTrue)))).map
      fun filter => addKeyset cursor (addTags query.tags filter)

/-- What a search asks of the fields of a document. -/
def fieldFilter (query : SearchQuery) : BsonM :=
  addTags query.tags (addOwner query.ownerID
    ((buildFilter query.filters).insert "__is_draft" neTrue))

section Search

variable {now : Time} {enableFTS enableRegex : Bool} {fields : List String}
  {cursor : Option Cursor} {query : SearchQuery} {q : BsonM} (filter : BsonM) (key : String)

lemma lookup_addOwner (ownerID : String) : (addOwner ownerID filter).lookup key
      = if ownerID ≠ "" ∧ key = "owner_id" then some (.str ownerID) else filter.lookup key := by
  grind [addOwner, lookup_insert, lookup_insert_ne]

lemma lookup_addTags (tags : List String) : (addTags tags filter).lookup key
      = if tags ≠ [] ∧ key = "tags" then some (.doc [("$all", .strs tags)])
        else filter.lookup key := by
  grind [addTags, lookup_insert, lookup_insert_ne]

/-- The filters take no operator's slot. -/
lemma lookup_draftFilter (fs : List Filter) {key : String} (h : ∀ k, mapKey k ≠ key) :
    ((buildFilter fs).insert "__is_draft" neTrue).lookup key = none := by
  have hdr : key ≠ "__is_draft" := (h .isDraft).symm
  rw [lookup_insert_ne hdr, lookup_buildFilter]
  by_contra hsome
  obtain ⟨v, hv⟩ := Option.ne_none_iff_exists'.mp hsome
  obtain ⟨k, hk⟩ := exists_mapKey_of_lastWrite hv
  exact h k hk.symm

/-- The availability condition is lost when `$or` is taken twice. -/
lemma lookup_searchFilter
    (h : searchFilter now enableFTS enableRegex fields cursor query = some q) :
    if query.query ≠ "" ∧ enableFTS = false ∧ cursor.isSome then
      ∃ c, cursor = some c ∧ ∀ key, q.lookup key = if key = "$and" then
          some (.list [.doc [("$or", textCondition fields query.query)],
            .doc [("$or", keysetCondition c)]])
        else if key = "$or" then none else (fieldFilter query).lookup key
    else q.lookup "$and" = some (.list [availCond now]) := by
  have hor := lookup_draftFilter query.filters fun k => (mapKey_ne_operator k).2
  rw [searchFilter, addAvailabilityFilter,
    lookup_draftFilter query.filters fun k => (mapKey_ne_operator k).1] at h
  obtain ⟨filter, htext, rfl⟩ := Option.map_eq_some_iff.mp h
  unfold addText at htext
  split_ifs at htext with hemp hfts hregex <;> cases htext
  · cases cursor <;> simp [hemp, addKeyset, lookup_addTags, lookup_addOwner, hor]
  · cases cursor <;> simp [hfts, addKeyset, lookup_addTags, lookup_addOwner, hor]
  · cases cursor with
    | none => simp [addKeyset, lookup_addTags, lookup_addOwner]
    | some c =>
      simp only [ne_eq, hemp, not_false_eq_true, hfts, Option.isSome_some, and_self, if_true]
      refine ⟨c, rfl, fun key => ?_⟩
      grind [addKeyset, lookup_addTags, lookup_addOwner, fieldFilter, lookup_insert,
        lookup_insert_ne, lookup_erase, lookup_erase_ne]

/-- What a search rests on besides: how times are compared, and that no pattern matches one. -/
structure MongoDB.Searches (db : MongoDB) : Prop where
  eq_nil_time : ∀ t, db.fieldMatches .nil (some (.utc t)) = false
  exists_time : ∀ t, db.fieldMatches (.doc [("$exists", .bool false)]) (some (.utc t)) = false
  lte_time : ∀ t now, db.fieldMatches (.doc [("$lte", .utc now)]) (some (.utc t)) = decide (t ≤ now)
  regex_missing : ∀ pattern, db.fieldMatches (regex pattern) none = false
  regex_time : ∀ pattern t, db.fieldMatches (regex pattern) (some (.utc t)) = false

variable {db : MongoDB} (hdb : db.Searches) {d : MessageDoc} {t : Time}

include hdb in
lemma le_of_available (h : Available db now d) (ht : d.availableAt = some t) : t ≤ now := by
  have hfield : d.field "available_at" = some (.utc t) :=
    (d.field_mapKey .availableAt).trans (by simp [MessageDoc.get, ht])
  simpa [Available, availCond, docMatches, entriesMatch, entryMatches, anyMatch, docsAnyMatch,
    hfield, hdb.eq_nil_time, hdb.exists_time, hdb.lte_time] using h

/-! ## Rescheduling a document -/

/-- No path but that to the time itself notices when a document becomes available, and that does not
lead to text. -/
lemma field_reschedule (d : MessageDoc) (t : Time) (path : String) :
    let d' := { d with availableAt := some t }
    d'.field path = d.field path
      ∨ ∀ d₀ ∈ [d, d'], d₀.field path = none ∨ ∃ t, d₀.field path = some (.utc t) := by
  intro d'
  simp only [MessageDoc.field]
  rcases (path.toList.splitOn '.').map String.ofList with _ | ⟨name, rest⟩
  · exact .inl rfl
  by_cases hname : name = "available_at"
  · subst hname
    refine .inr fun d₀ _ => ?_
    have htime : (d₀.named "available_at").or (d₀.getOther "available_at")
        = d₀.availableAt.map .utc := by
      show (d₀.availableAt.map Value.utc).or none = _
      rw [Option.or_none]
    simp only [htime]
    rcases d₀.availableAt with _ | t
    · exact .inl rfl
    · rcases rest with _ | _
      · exact .inr ⟨t, rfl⟩
      · exact .inl rfl
  · have hnamed : d'.named name = d.named name := by
      rw [MessageDoc.named, MessageDoc.named]
      cases hkey : fieldKey? name with
      | none => rfl
      | some k =>
        have hk : k ≠ .availableAt := by
          rintro rfl
          exact hname (mapKey_of_fieldKey? hkey).symm
        exact d.get_exchange_of_ne d' hk
    have hother : d'.getOther name = d.getOther name := rfl
    exact .inl (by simp only [hnamed, hother])

include hdb in
/-- So neither does a pattern in a field. -/
lemma docMatches_regex (t : Time) (field pattern : String) :
    docMatches db { d with availableAt := some t } (.doc [(field, regex pattern)])
      = docMatches db d (.doc [(field, regex pattern)]) := by
  have huntext : ∀ x, (x = none ∨ ∃ t, x = some (.utc t)) →
      db.fieldMatches (regex pattern) x = false := by
    rintro x (rfl | ⟨t, rfl⟩)
    · exact hdb.regex_missing pattern
    · exact hdb.regex_time pattern t
  simp only [docMatches, entriesMatch, entryMatches, Bool.and_true]
  split_ifs
  · rfl
  · rfl
  · rcases field_reschedule d t field with hsame | huntexted
    · rw [hsame]
    · rw [huntext _ (huntexted _ (by simp)), huntext _ (huntexted d (by simp))]

include hdb in
lemma anyMatch_textCondition (t : Time) (text : String) :
    anyMatch db { d with availableAt := some t } (textCondition fields text)
      = anyMatch db d (textCondition fields text) := by
  simp only [textCondition, anyMatch]
  induction (if fields = [] then ["subject", "body"] else fields) with
  | nil => rfl
  | cons field fields ih => simp only [List.map_cons, docsAnyMatch, docMatches_regex hdb, ih]

/-- The fields a search names, apart from those for its text. -/
lemma fieldFilter_key (hfilters : ∀ op v, .mk .availableAt op v ∉ query.filters) {key : String}
    {v : Value} (hv : (fieldFilter query).lookup key = some v) :
    ∃ k ≠ FieldKey.availableAt, key = mapKey k := by
  rw [fieldFilter, lookup_addTags, lookup_addOwner] at hv
  split_ifs at hv with htags howner
  · exact ⟨.tags, by simp, htags.2⟩
  · exact ⟨.ownerID, by simp, howner.2⟩
  · by_cases hdraft : key = "__is_draft"
    · exact ⟨.isDraft, by simp, hdraft⟩
    · rw [lookup_insert_ne hdraft, lookup_buildFilter] at hv
      obtain ⟨f, hf, hentry⟩ := List.mem_filterMap.mp (LastWrite.mem_of_lastWrite hv)
      obtain ⟨k, op, w, rfl, hk⟩ := exists_mapKey_of_filterEntry hentry
      refine ⟨k, ?_, hk⟩
      rintro rfl
      exact hfilters op w hf

/-- Everything a search asks for but availability. -/
def MeetsRest (db : MongoDB) (fields : List String) (cursor : Option Cursor) (query : SearchQuery)
    (d : MessageDoc) : Prop :=
  filterMatches db (fieldFilter query) d = true
    ∧ anyMatch db d (textCondition fields query.query) = true
    ∧ ∀ c, cursor = some c → anyMatch db d (keysetCondition c) = true

include hdb in
lemma MeetsRest.reschedule (hfilters : ∀ op v, .mk .availableAt op v ∉ query.filters)
    (h : MeetsRest db fields cursor query d) (t : Time) :
    MeetsRest db fields cursor query { d with availableAt := some t } := by
  obtain ⟨hfields, htext, hkeyset⟩ := h
  refine ⟨?_, (anyMatch_textCondition hdb t _).trans htext, fun c hc => hkeyset c hc⟩
  rw [filterMatches_iff] at hfields ⊢
  intro key v hv
  obtain ⟨k, hk, rfl⟩ := fieldFilter_key hfilters hv
  have hmatch := (entryMatches_mapKey _ d k v).mp (hfields _ v hv)
  rw [entryMatches_mapKey, FieldSem, MessageDoc.named_mapKey]
  rw [FieldSem, MessageDoc.named_mapKey, ← d.get_exchange_of_ne { d with availableAt := some t } hk]
    at hmatch
  exact hmatch

/-- **Search and scheduled messages.**  A search matches nothing before its time, unless it is a
regex search for a text and for a page after the first; then it matches whatever meets its other
conditions, and something does so before its time if anything does at all. -/
theorem search_available_iff (db : MongoDB) (hdb : db.Searches)
    (hfilters : ∀ op v, .mk .availableAt op v ∉ query.filters)
    (h : searchFilter now enableFTS enableRegex fields cursor query = some q) :
    (∀ d, filterMatches db q d = true → ∀ t, d.availableAt = some t → t ≤ now)
      ↔ ¬ (query.query ≠ "" ∧ enableFTS = false ∧ cursor.isSome)
        ∨ ¬ ∃ d, MeetsRest db fields cursor query d := by
  have hlk := lookup_searchFilter h
  split_ifs at hlk with hlost
  · obtain ⟨c, rfl, hq⟩ := hlk
    have hflds : ∀ key v, (fieldFilter query).lookup key = some v → key ≠ "$and" ∧ key ≠ "$or" := by
      intro key v hv
      obtain ⟨k, -, rfl⟩ := fieldFilter_key hfilters hv
      exact mapKey_ne_operator k
    have hmatch : ∀ d, filterMatches db q d = true
        ↔ MeetsRest db fields (some c) query d := by
      intro d
      have hpair : entryMatches db d ("$and",
            .list [.doc [("$or", textCondition fields query.query)],
              .doc [("$or", keysetCondition c)]])
          = (anyMatch db d (textCondition fields query.query)
            && anyMatch db d (keysetCondition c)) := by
        simp [entryMatches, allMatch, docsAllMatch, docMatches, entriesMatch]
      simp only [MeetsRest, Option.some.injEq, forall_eq']
      rw [filterMatches_iff, filterMatches_iff, ← Bool.and_eq_true, ← hpair]
      grind
    rw [or_iff_right (not_not.mpr hlost)]
    constructor
    · rintro hall ⟨d, hd⟩
      have hle := hall _ ((hmatch _).mpr (hd.reschedule hdb hfilters (now + 1))) _ rfl
      exact absurd hle (Int.not_le.mpr (Int.lt_succ now))
    · intro hnone d hd
      exact absurd ⟨d, (hmatch d).mp hd⟩ hnone
  · refine iff_of_true (fun d hd t ht => ?_) (.inl hlost)
    have havail := (available_iff db now d).mp ((filterMatches_iff _ q d).mp hd _ _ hlk)
    exact le_of_available hdb havail ht

/-- `mongod`, with patterns that have no metacharacters and no letters in the other case. -/
def regexd : MongoDB :=
  { mongod with
    fieldMatches := fun v x =>
      match v with
      | .doc [("$regex", .str pattern), ("$options", .str "i")] =>
        x.any fun field => (text? field).any (containsText · pattern)
      | v => mongodMatches v x }

lemma searches_regexd : regexd.Searches where
  eq_nil_time _ := rfl
  exists_time _ := rfl
  lte_time t now := by
    rw [Bool.eq_iff_iff, decide_eq_true_eq]
    simpa [regexd, mongodMatches, evalOperator, cmpField, elems?, compareScalar]
      using compare_le_iff_le (a := t) (b := now)
  regex_missing _ := rfl
  regex_time _ _ := rfl

theorem search_available_iff_first :
    let query : SearchQuery := { query := "lunch", options := { limit := 10 } }
    ∃ q, searchFilter 5 false true [] none query = some q
      ∧ ∀ d, filterMatches regexd q d = true → ∀ t, d.availableAt = some t → t ≤ 5 := by
  intro query
  have h : searchFilter 5 false true [] none query = some _ := rfl
  exact ⟨_, h, (search_available_iff regexd searches_regexd (by simp [query]) h).mpr
    (.inl fun hlost => by cases hlost.2.2)⟩

/-- The second page shows a message that is scheduled for later. -/
theorem search_shows_scheduled :
    let d : MessageDoc := { taggedB with subject := "lunch", createdAt := 1, availableAt := some 9 }
    let query : SearchQuery := { query := "lunch", options := { limit := 10 } }
    ∃ q, searchFilter 5 false true [] (some ⟨2, ⟨0⟩⟩) query = some q
      ∧ filterMatches regexd q d = true ∧ d.availableAt = some 9 := by
  exact ⟨_, rfl, by decide, rfl⟩

end Search

end Mailbox.Mongo
