import Mailbox.Mongo.Conjunction

/-!
# Whose documents a query can reach

`Stream` and the bulk operations scope a query to its user by *prepending* filters — the owner, and
for the bulk operations the draft marker — to the filters of the caller.  All go into one map, where
a later filter on the same field replaces them.

A query document is characterised by what it has at each field (`IsQuery`): one condition per field,
next to the availability condition.  `exists_filterMatches` builds a matching document out of one
witness per field, and `filterMatches_exchange` changes one field of a matching document.
**`handed_isolated_iff`** says when a user's queries stay within the user's non-draft documents.
-/

namespace Mailbox.Mongo

open LastWrite Option AList

/-! ## The query documents of a user -/

/-- The query documents that `Stream` and `UpdateByFilter`, `MoveByFilter`, `DeleteByFilter`,
`TagByFilter` and `UntagByFilter` hand to MongoDB for the caller's filters. -/
inductive Handed (userID : String) (filters : List Filter) : BsonM → Prop where
  | streamFind (now : Time) (cursor : Option Cursor) :
      Handed userID filters (findFilter now cursor (streamFilters userID filters))
  | streamCount (now : Time) (cursor : Option Cursor) :
      Handed userID filters (countFilter now cursor (streamFilters userID filters))
  | bulk (now : Time) :
      Handed userID filters (bulkFilter now userID (scopedFilters userID filters))
  -- `UpdateByFilter` without a read flag takes the paginated path.
  | updateFind (now : Time) (cursor : Option Cursor) :
      Handed userID filters (findFilter now cursor (scopedFilters userID filters))
  | updateCount (now : Time) (cursor : Option Cursor) :
      Handed userID filters (countFilter now cursor (scopedFilters userID filters))

/-- Nothing but the user's own non-draft documents matches. -/
def Isolated (db : MongoDB) (userID : String) (q : BsonM) : Prop :=
  ∀ d, filterMatches db q d = true → d.ownerID = userID ∧ d.isDraft = false

/-- The last filter on `k`, if there is one, admits only documents with the property. -/
def LastAdmitsOnly (db : MongoDB) (filters : List Filter) (k : FieldKey)
    (p : MessageDoc → Prop) : Prop :=
  ∀ v, lastWrite (mapKey k) (filterEntries filters) = some v → ∀ d, FieldSem db (mapKey k) v d → p d

/-- Whether the document is available at the time `now`. -/
def Available (db : MongoDB) (now : Time) (d : MessageDoc) : Prop :=
  docMatches db d (availCond now) = true

/-- The last filter on some field other than the draft marker is met by no available document. -/
def Unsatisfiable (db : MongoDB) (filters : List Filter) : Prop :=
  ∃ k v, k ≠ FieldKey.isDraft ∧ lastWrite (mapKey k) (filterEntries filters) = some v ∧
    ∀ now d, Available db now d → ¬ FieldSem db (mapKey k) v d

/-! ## Query documents, field by field -/

/-- `q` has the conditions `cond`, one per field, and the availability condition. -/
structure IsQuery (now : Time) (cond : FieldKey → Option Value) (q : BsonM) : Prop where
  and : q.lookup "$and" = some (.list [availCond now])
  or : q.lookup "$or" = none
  field : ∀ k, q.lookup (mapKey k) = cond k
  only : ∀ key v, q.lookup key = some v → key = "$and" ∨ ∃ k, key = mapKey k

lemma available_iff (db : MongoDB) (now : Time) (d : MessageDoc) :
    entryMatches db d ("$and", .list [availCond now]) = true ↔ Available db now d := by
  simp [entryMatches, allMatch, docsAllMatch, Available]

variable {d d' : MessageDoc}

lemma available_congr (db : MongoDB) (now : Time) (h : d.get .availableAt = d'.get .availableAt)
    : Available db now d ↔ Available db now d' := by
  have hfield : d.field "available_at" = d'.field "available_at" :=
    ((d.field_mapKey .availableAt).trans h).trans (d'.field_mapKey .availableAt).symm
  simp [Available, availCond, docMatches, entriesMatch, entryMatches, anyMatch, docsAnyMatch,
    hfield]

lemma available_of_none (db : MongoDB) (now : Time) (h : d.availableAt = none) :
    Available db now d := by
  have hfield : d.field "available_at" = none :=
    (d.field_mapKey .availableAt).trans (by simp [MessageDoc.get, h])
  simp [Available, availCond, docMatches, entriesMatch, entryMatches, anyMatch, docsAnyMatch,
    hfield, db.eq_nil_missing]

variable {db : MongoDB} {now : Time} {cond : FieldKey → Option Value} {q : BsonM} {k : FieldKey}

/-- A query document is met by the available documents that meet the condition at each field. -/
lemma IsQuery.filterMatches_iff (hq : IsQuery now cond q) (d : MessageDoc) :
    filterMatches db q d = true
      ↔ Available db now d ∧ ∀ k v, cond k = some v → FieldSem db (mapKey k) v d := by
  rw [Mongo.filterMatches_iff]
  constructor
  · intro h
    refine ⟨(available_iff db now d).mp (h _ _ hq.and), fun k v hv => ?_⟩
    exact (entryMatches_mapKey db d k v).mp (h _ _ ((hq.field k).trans hv))
  · rintro ⟨hav, hc⟩ key v hv
    rcases hq.only key v hv with rfl | ⟨k, rfl⟩
    · rw [hq.and, some.injEq] at hv
      rw [← hv]
      exact (available_iff db now d).mpr hav
    · exact (entryMatches_mapKey db d k v).mpr (hc k v ((hq.field k).symm.trans hv))

/-- One field of a matching document can be changed to any other value that meets the condition
on that field. -/
lemma IsQuery.filterMatches_exchange (hq : IsQuery now cond q) (hd : filterMatches db q d = true)
    (hk : k ≠ .availableAt) (hd' : ∀ v, cond k = some v → FieldSem db (mapKey k) v d') :
    filterMatches db q (d.exchange d' k) = true := by
  rw [hq.filterMatches_iff] at hd ⊢
  refine ⟨(available_congr db now (d.get_exchange_of_ne d' hk.symm)).mpr hd.1, fun k' v hv => ?_⟩
  by_cases hkk : k' = k
  · subst hkk
    rw [FieldSem, MessageDoc.named_mapKey, d.get_exchange_self]
    simpa [FieldSem] using hd' v hv
  · rw [FieldSem, MessageDoc.named_mapKey, d.get_exchange_of_ne d' hkk]
    simpa [FieldSem] using hd.2 k' v hv

/-- Conditions that are met one at a time are met together, also with the availability
condition. -/
lemma IsQuery.exists_filterMatches (hq : IsQuery now cond q)
    (hsat : ∀ k v, cond k = some v → ∃ d, FieldSem db (mapKey k) v d)
    (havail : ∀ v, cond .availableAt = some v →
      ∃ d, Available db now d ∧ FieldSem db (mapKey .availableAt) v d) :
    ∃ d, filterMatches db q d = true := by
  -- Without the availability condition the fields are independent.
  obtain ⟨d, hd⟩ := exists_holds (fieldwise_fieldSem db) (q.erase "$and") (by
    intro key v hv
    have hne : key ≠ "$and" := by
      rintro rfl
      rw [lookup_erase] at hv
      cases hv
    rw [lookup_erase_ne hne] at hv
    rcases hq.only key v hv with rfl | ⟨k, rfl⟩
    · exact absurd rfl hne
    · exact hsat k v ((hq.field k).symm.trans hv))
  have hcond : ∀ k v, cond k = some v → FieldSem db (mapKey k) v d := by
    intro k v hv
    refine hd (mapKey k) v ?_
    rw [lookup_erase_ne (mapKey_ne_operator k).1, hq.field, hv]
  -- The availability field is then taken from a document that is available.
  obtain ⟨a, ha, hav⟩ : ∃ a, Available db now a ∧
      ∀ v, cond .availableAt = some v → FieldSem db (mapKey .availableAt) v a := by
    cases hc : cond .availableAt with
    | none =>
      refine ⟨{ d with availableAt := none }, available_of_none db now rfl, ?_⟩
      intro v hv
      cases hv
    | some v =>
      obtain ⟨a, ha, hav⟩ := havail v hc
      refine ⟨a, ha, ?_⟩
      rintro v ⟨⟩
      exact hav
  refine ⟨d.exchange a .availableAt, hq.filterMatches_iff _ |>.mpr ⟨?_, fun k v hv => ?_⟩⟩
  · exact (available_congr db now (d.get_exchange_self a .availableAt)).mpr ha
  · by_cases hk : k = .availableAt
    · subst hk
      rw [FieldSem, MessageDoc.named_mapKey, d.get_exchange_self]
      simpa [FieldSem] using hav v hv
    · rw [FieldSem, MessageDoc.named_mapKey, d.get_exchange_of_ne a hk]
      simpa [FieldSem] using hcond k v hv

/-! ## The documents of `Find` and of the bulk operations -/

lemma isQuery_addAvailabilityFilter (now : Time) {m : BsonM}
    (hm : ∀ key v, m.lookup key = some v → ∃ k, key = mapKey k) :
    IsQuery now (fun k => m.lookup (mapKey k)) (addAvailabilityFilter now m) := by
  have hno : ∀ key, (∀ k, key ≠ mapKey k) → m.lookup key = none := by
    intro key hkey
    cases h : m.lookup key with
    | none => rfl
    | some v =>
      obtain ⟨k, hk⟩ := hm key v h
      exact absurd hk (hkey k)
  have hand : m.lookup "$and" = none := hno _ fun k => (mapKey_ne_operator k).1.symm
  have hinsert : addAvailabilityFilter now m = m.insert "$and" (.list [availCond now]) := by
    rw [addAvailabilityFilter, hand]
  rw [hinsert]
  refine ⟨lookup_insert m, ?_, fun k => ?_, fun key v hv => ?_⟩
  · rw [lookup_insert_ne (by decide)]
    exact hno _ fun k => (mapKey_ne_operator k).2.symm
  · exact lookup_insert_ne (mapKey_ne_operator k).1
  · by_cases hkey : key = "$and"
    · exact .inl hkey
    · rw [lookup_insert_ne hkey] at hv
      exact .inr (hm key v hv)

/-- `Find` keeps the last filter on each field, and decides the draft marker itself. -/
lemma isQuery_findFilter (now : Time) (fs : List Filter) : IsQuery now
      (fun k => if k = .isDraft then some neTrue
        else lastWrite (mapKey k) (filterEntries fs))
      (findFilter now none fs) := by
  have hquery := isQuery_addAvailabilityFilter now
    (m := (buildFilter fs).insert (mapKey .isDraft) neTrue) (by
      intro key v hv
      by_cases hkey : key = mapKey .isDraft
      · exact ⟨_, hkey⟩
      · rw [lookup_insert_ne hkey, lookup_buildFilter] at hv
        exact exists_mapKey_of_lastWrite hv)
  have hc : (fun k => if k = .isDraft then some neTrue
        else lastWrite (mapKey k) (filterEntries fs))
      = fun k => ((buildFilter fs).insert (mapKey .isDraft) neTrue).lookup (mapKey k) := by
    funext k
    split_ifs with hk
    · subst hk
      rw [lookup_insert]
    · rw [lookup_insert_ne (fun h => hk (mapKey_injective h)), lookup_buildFilter]
  rw [hc]
  exact hquery

lemma lookup_union (key : String) (s t : BsonM) :
    (s ∪ t).lookup key = (s.lookup key).or (t.lookup key) := by
  by_cases h : key ∈ s
  · obtain ⟨v, hv⟩ := isSome_iff_exists.mp (lookup_isSome.mpr h)
    rw [lookup_union_left h, hv]
    rfl
  · rw [lookup_union_right h, lookup_eq_none.mpr h]
    rfl

/-- `bulkFilter` falls back on the owner and the draft marker at fields without a filter. -/
lemma isQuery_bulkFilter (now : Time) (u : String) (fs : List Filter) : IsQuery now
      (fun k => (lastWrite (mapKey k) (filterEntries fs)).or
        (if k = .isDraft then some neTrue else if k = .ownerID then some (.str u) else none))
      (bulkFilter now u fs) := by
  have hquery := isQuery_addAvailabilityFilter now
    (m := buildFilter fs ∪ ((∅ : BsonM).insert (mapKey .ownerID) (.str u)).insert
      (mapKey .isDraft) neTrue) (by
      intro key v hv
      rw [lookup_union, or_eq_some_iff, lookup_buildFilter] at hv
      rcases hv with hv | ⟨_, hv⟩
      · exact exists_mapKey_of_lastWrite hv
      · by_cases hdr : key = mapKey .isDraft
        · exact ⟨_, hdr⟩
        · rw [lookup_insert_ne hdr] at hv
          by_cases hown : key = mapKey .ownerID
          · exact ⟨_, hown⟩
          · rw [lookup_insert_ne hown] at hv
            simp at hv)
  have hc : (fun k => (lastWrite (mapKey k) (filterEntries fs)).or
        (if k = .isDraft then some neTrue else if k = .ownerID then some (.str u) else none))
      = fun k => (buildFilter fs ∪ ((∅ : BsonM).insert (mapKey .ownerID) (.str u)).insert
          (mapKey .isDraft) neTrue).lookup (mapKey k) := by
    funext k
    rw [lookup_union, lookup_buildFilter]
    cases k <;> rfl
  rw [hc]
  exact hquery

/-- What a query document of a page matches, the query without the page's cursor matches. -/
lemma filterMatches_of_lookup_le {q' : BsonM}
    (h : ∀ key v, q.lookup key = some v → q'.lookup key = some v)
    (hd : filterMatches db q' d = true) : filterMatches db q d = true := by
  rw [filterMatches_iff] at hd ⊢
  intro key v hv
  exact hd key v (h key v hv)

variable {key : String}

lemma lookup_findFilter_of_ne (now : Time) (cursor : Option Cursor) (fs : List Filter)
    (h : key ≠ "$or") :
    (findFilter now cursor fs).lookup key = (findFilter now none fs).lookup key := by
  cases cursor with
  | none => rfl
  | some => exact lookup_insert_ne h

variable {fs : List Filter} {v : Value}

lemma ne_or_of_lookup (h : (findFilter now none fs).lookup key = some v) : key ≠ "$or" := by
  rintro rfl
  rw [(isQuery_findFilter now fs).or] at h
  cases h

variable {cursor : Option Cursor}

lemma filterMatches_findFilter_none (hd : filterMatches db (findFilter now cursor fs) d = true) :
    filterMatches db (findFilter now none fs) d = true := by
  refine filterMatches_of_lookup_le (fun key v hv => ?_) hd
  rw [lookup_findFilter_of_ne now cursor fs (ne_or_of_lookup hv), hv]

lemma filterMatches_countFilter_none (hd : filterMatches db (countFilter now cursor fs) d = true) :
    filterMatches db (findFilter now none fs) d = true := by
  refine filterMatches_of_lookup_le (fun key v hv => ?_) hd
  have hne := ne_or_of_lookup hv
  rw [countFilter, lookup_erase_ne hne, lookup_findFilter_of_ne now cursor fs hne, hv]

/-! ## Isolation -/

variable {base : List Filter}

section Isolation

variable {u : String} {fs : List Filter}

lemma fieldSem_ownerIs : FieldSem db (mapKey .ownerID) (.str u) d ↔ u = d.ownerID := by
  simp [FieldSem, MessageDoc.get, db.eq_str]

lemma fieldSem_neTrue : FieldSem db (mapKey .isDraft) neTrue d ↔ d.isDraft = false := by
  cases h : d.isDraft <;> simp [FieldSem, MessageDoc.get, neTrue, db.ne_bool, db.eq_bool,
    db.eq_bool_missing, h]

/-- The caller's filters come after those of the service. -/
lemma lastWrite_append_filters (base : List Filter) (k : FieldKey) :
    lastWrite (mapKey k) (filterEntries (base ++ fs)) = (lastWrite (mapKey k) (filterEntries fs)).or
          (lastWrite (mapKey k) (filterEntries base)) := by
  rw [filterEntries_append, lastWrite_append]

/-- The conditions of a query that lets the caller's filters have the last word, the draft marker
apart, and falls back on the user's documents. -/
structure Scoped (u : String) (fs : List Filter) (cond : FieldKey → Option Value) : Prop where
  caller : ∀ k v, k ≠ .isDraft → lastWrite (mapKey k) (filterEntries fs) = some v → cond k = some v
  owner : lastWrite (mapKey .ownerID) (filterEntries fs) = none → cond .ownerID = some (.str u)

section

variable (hs : Scoped u fs cond) (hq : IsQuery now cond q)

include hs hq

/-- An unsatisfiable filter of the caller is part of every query. -/
lemma Scoped.not_filterMatches (h : Unsatisfiable db fs) : ¬ filterMatches db q d = true := by
  intro hd
  obtain ⟨k, v, hk, hv, hnever⟩ := h
  obtain ⟨hav, hc⟩ := (hq.filterMatches_iff d).mp hd
  exact hnever now d hav (hc k v (hs.caller k v hk hv))

lemma Scoped.ownerID_eq (hown : LastAdmitsOnly db fs .ownerID (·.ownerID = u))
    (hd : filterMatches db q d = true) : d.ownerID = u := by
  have hc := ((hq.filterMatches_iff d).mp hd).2 .ownerID
  cases hl : lastWrite (mapKey .ownerID) (filterEntries fs) with
  | none => exact (fieldSem_ownerIs.mp (hc _ (hs.owner hl))).symm
  | some v => exact hown v hl d (hc v (hs.caller _ v (by decide) hl))

/-- The scope is only as good as the caller's last filter on the owner. -/
lemma Scoped.lastAdmitsOnly_ownerID (hd : filterMatches db q d = true) (h : Isolated db u q) :
    LastAdmitsOnly db fs .ownerID (·.ownerID = u) := by
  intro v hv d' hd'
  have hc : cond .ownerID = some v := hs.caller _ v (by decide) hv
  have hmatch : filterMatches db q (d.exchange d' .ownerID) = true := by
    refine hq.filterMatches_exchange hd (by decide) fun w hw => ?_
    rw [hc, some.injEq] at hw
    rw [← hw]
    exact hd'
  exact (h _ hmatch).1

end

/-- A query of satisfiable filters matches something, at some time. -/
lemma exists_filterMatches_of_satisfiable {query : Time → BsonM}
    (hq : ∀ now, IsQuery now cond (query now)) (hc : ∀ k v, k ≠ .isDraft → cond k = some v →
      lastWrite (mapKey k) (filterEntries fs) = some v
        ∨ (k ≠ .availableAt ∧ ∃ d, FieldSem db (mapKey k) v d))
    (hdr : ∀ v, cond .isDraft = some v → ∃ d, FieldSem db (mapKey .isDraft) v d)
    (h : ¬ Unsatisfiable db fs) : ∃ now d, filterMatches db (query now) d = true := by
  have hcaller : ∀ k v, k ≠ .isDraft → lastWrite (mapKey k) (filterEntries fs) = some v →
      ∃ now d, Available db now d ∧ FieldSem db (mapKey k) v d := by
    intro k v hk hv
    by_contra hno
    exact h ⟨k, v, hk, hv, fun now d ha hd => hno ⟨now, d, ha, hd⟩⟩
  have hsat : ∀ k v, cond k = some v → ∃ d, FieldSem db (mapKey k) v d := by
    intro k v hv
    by_cases hk : k = .isDraft
    · subst hk
      exact hdr v hv
    · rcases hc k v hk hv with hl | ⟨_, hd⟩
      · obtain ⟨_, d, _, hd⟩ := hcaller k v hk hl
        exact ⟨d, hd⟩
      · exact hd
  cases hav : cond .availableAt with
  | none =>
    refine ⟨0, (hq 0).exists_filterMatches hsat ?_⟩
    intro v hv
    rw [hav] at hv
    cases hv
  | some w =>
    rcases hc _ w (by decide) hav with hl | ⟨hne, _⟩
    · obtain ⟨now, d, ha, hd⟩ := hcaller _ w (by decide) hl
      refine ⟨now, (hq now).exists_filterMatches hsat ?_⟩
      intro v hv
      rw [hav, some.injEq] at hv
      subst hv
      exact ⟨d, ha, hd⟩
    · exact absurd rfl hne

lemma exists_fieldSem_ownerIs (db : MongoDB) (u : String) :
    ∃ d, FieldSem db (mapKey .ownerID) (.str u) d := by
  obtain ⟨d⟩ : Nonempty MessageDoc := inferInstance
  exact ⟨{ d with ownerID := u }, fieldSem_ownerIs.mpr rfl⟩

lemma exists_fieldSem_stream
    (h : lastWrite (mapKey k) (filterEntries [ownerIs u, notDeleted]) = some v) :
    k ≠ .availableAt ∧ ∃ d, FieldSem db (mapKey k) v d := by
  have hmem : (mapKey k, v) ∈ [(mapKey .ownerID, .str u),
      (mapKey .folderID, .doc [("$ne", .str folderTrash)])] := mem_of_lastWrite h
  simp only [List.mem_cons, Prod.mk.injEq, List.not_mem_nil, or_false] at hmem
  rcases hmem with ⟨hk, rfl⟩ | ⟨hk, rfl⟩
  · obtain rfl := mapKey_injective hk
    exact ⟨by decide, exists_fieldSem_ownerIs db u⟩
  · obtain rfl := mapKey_injective hk
    obtain ⟨d⟩ : Nonempty MessageDoc := inferInstance
    refine ⟨by decide, { d with folderID := "" }, ?_⟩
    simp [FieldSem, MessageDoc.get, db.ne_str, db.eq_str, folderTrash]

/-- The conditions of a paginated query, at the service's filters `base`. -/
lemma scoped_findFilter (hbase : lastWrite (mapKey .ownerID) (filterEntries base) = some (.str u)) :
    Scoped u fs (fun k => if k = .isDraft then some neTrue
      else lastWrite (mapKey k) (filterEntries (base ++ fs))) := by
  refine ⟨fun k v hk hv => ?_, fun hno => ?_⟩
  · rw [if_neg hk, lastWrite_append_filters, hv]
    rfl
  · rw [if_neg (by decide), lastWrite_append_filters, hno, hbase]
    rfl

/-- The conditions of a bulk query. -/
def bulkCond (u : String) (fs : List Filter) (k : FieldKey) : Option Value :=
  (lastWrite (mapKey k) (filterEntries fs)).or
    (if k = .isDraft then some (.bool false) else if k = .ownerID then some (.str u) else none)

lemma isQuery_bulk (now : Time) (u : String) (fs : List Filter) :
    IsQuery now (bulkCond u fs) (bulkFilter now u (scopedFilters u fs)) := by
  have hc : bulkCond u fs = fun k =>
      (lastWrite (mapKey k) (filterEntries (scopedFilters u fs))).or
        (if k = .isDraft then some neTrue else if k = .ownerID then some (.str u) else none) := by
    funext k
    rw [scopedFilters, lastWrite_append_filters, Option.or_assoc, bulkCond]
    congr 1
    cases k <;> rfl
  rw [hc]
  exact isQuery_bulkFilter now u (scopedFilters u fs)

lemma scoped_bulk : Scoped u fs (bulkCond u fs) := by
  refine ⟨fun k v _ hv => ?_, fun hno => ?_⟩
  · rw [bulkCond, hv]
    rfl
  · rw [bulkCond, hno]
    rfl

lemma exists_streamed (h : ¬ Unsatisfiable db fs) :
    ∃ now d, filterMatches db (findFilter now none (streamFilters u fs)) d = true := by
  refine exists_filterMatches_of_satisfiable
    (fun now => isQuery_findFilter now (streamFilters u fs)) (fun k v hk hv => ?_) ?_ h
  · rw [if_neg hk, streamFilters, lastWrite_append_filters, or_eq_some_iff] at hv
    exact hv.imp id fun hv => exists_fieldSem_stream hv.2
  · intro v hv
    rw [if_pos rfl, some.injEq] at hv
    subst hv
    obtain ⟨d⟩ : Nonempty MessageDoc := inferInstance
    exact ⟨{ d with isDraft := false }, fieldSem_neTrue.mpr rfl⟩

/-- Satisfiable filters select something in bulk, once the caller filters on the draft marker. -/
lemma exists_bulk (hv : bulkCond u fs .isDraft = some v)
    (hd : FieldSem db (mapKey .isDraft) v d) (h : ¬ Unsatisfiable db fs) :
    ∃ now d, filterMatches db (bulkFilter now u (scopedFilters u fs)) d = true := by
  refine exists_filterMatches_of_satisfiable (fun now => isQuery_bulk now u fs)
    (fun k w hk hw => ?_) ?_ h
  · rw [bulkCond, if_neg hk, or_eq_some_iff] at hw
    refine hw.imp id fun hw => ?_
    obtain ⟨_, hw⟩ := hw
    split_ifs at hw with hown
    rw [some.injEq] at hw
    subst hw hown
    exact ⟨by decide, exists_fieldSem_ownerIs db u⟩
  · intro w hw
    rw [hv, some.injEq] at hw
    subst hw
    exact ⟨d, hd⟩

/-- A bulk operation is only as good as the caller's last filter on the draft marker. -/
lemma lastAdmitsOnly_isDraft (hsat : ¬ Unsatisfiable db fs)
    (h : ∀ now, Isolated db u (bulkFilter now u (scopedFilters u fs))) :
    LastAdmitsOnly db fs .isDraft (·.isDraft = false) := by
  intro v hv d' hd'
  have hc : bulkCond u fs .isDraft = some v := by
    rw [bulkCond, hv]
    rfl
  obtain ⟨now, d, hd⟩ := exists_bulk hc hd' hsat
  have hmatch : filterMatches db (bulkFilter now u (scopedFilters u fs))
      (d.exchange d' .isDraft) = true := by
    refine (isQuery_bulk now u fs).filterMatches_exchange hd (by decide) fun w hw => ?_
    rw [hc, some.injEq] at hw
    subst hw
    exact hd'
  exact (h now _ hmatch).2

/-- `Find` never returns drafts, and respects the owner as far as the caller's filters do. -/
lemma isolated_findFilter (hbase : lastWrite (mapKey .ownerID) (filterEntries base) = some (.str u))
    (h : LastAdmitsOnly db fs .ownerID (·.ownerID = u) ∨ Unsatisfiable db fs) :
    Isolated db u (findFilter now none (base ++ fs)) := by
  intro d hd
  have hs : Scoped u fs _ := scoped_findFilter hbase
  have hq := isQuery_findFilter now (base ++ fs)
  rcases h with hown | hunsat
  · refine ⟨hs.ownerID_eq hq hown hd, ?_⟩
    exact fieldSem_neTrue.mp (((hq.filterMatches_iff d).mp hd).2 .isDraft neTrue rfl)
  · exact absurd hd (hs.not_filterMatches hq hunsat)

lemma isolated_bulk (h : (LastAdmitsOnly db fs .ownerID (·.ownerID = u)
      ∧ LastAdmitsOnly db fs .isDraft (·.isDraft = false)) ∨ Unsatisfiable db fs) :
    Isolated db u (bulkFilter now u (scopedFilters u fs)) := by
  intro d hd
  have hq := isQuery_bulk now u fs
  rcases h with ⟨hown, hdr⟩ | hunsat
  · refine ⟨scoped_bulk.ownerID_eq hq hown hd, ?_⟩
    have hc := ((hq.filterMatches_iff d).mp hd).2 .isDraft
    cases hl : lastWrite (mapKey .isDraft) (filterEntries fs) with
    | none =>
      have hfalse : bulkCond u fs .isDraft = some (.bool false) := by
        rw [bulkCond, hl]
        rfl
      -- No document stores the draft marker as `false`: a message that is not a draft has none.
      have hfield := hc _ hfalse
      cases h : d.isDraft <;>
        simp [FieldSem, MessageDoc.get, db.eq_bool, db.eq_bool_missing, h] at hfield
    | some v =>
      have hv : bulkCond u fs .isDraft = some v := by
        rw [bulkCond, hl]
        rfl
      exact hdr v hl d (hc v hv)
  · exact absurd hd (scoped_bulk.not_filterMatches hq hunsat)

end Isolation

/-- **Isolation of a user's queries.**  Every query document that `Stream` and the bulk operations
hand to MongoDB matches only the user's own non-draft documents if and only if

* the caller's last filter on the owner, if any, admits no other owner, and the caller's last
  filter on the draft marker, if any, admits no draft;
* or the caller's last filter on some other field is met by no available document. -/
theorem handed_isolated_iff (db : MongoDB) (u : String) (fs : List Filter) :
    (∀ q, Handed u fs q → Isolated db u q) ↔ (LastAdmitsOnly db fs .ownerID (·.ownerID = u)
          ∧ LastAdmitsOnly db fs .isDraft (·.isDraft = false))
        ∨ Unsatisfiable db fs := by
  constructor
  · intro h
    by_cases hsat : Unsatisfiable db fs
    · exact .inr hsat
    · obtain ⟨now, d, hd⟩ := exists_streamed (u := u) hsat
      have hown : LastAdmitsOnly db fs .ownerID (·.ownerID = u) :=
        (scoped_findFilter rfl).lastAdmitsOnly_ownerID (isQuery_findFilter now _) hd
          (h _ (.streamFind now none))
      exact .inl ⟨hown, lastAdmitsOnly_isDraft hsat fun now => h _ (.bulk now)⟩
  · intro h q hq d hd
    have hown : LastAdmitsOnly db fs .ownerID (·.ownerID = u) ∨ Unsatisfiable db fs :=
      h.imp And.left id
    cases hq with
    | streamFind | updateFind =>
      exact isolated_findFilter rfl hown d (filterMatches_findFilter_none hd)
    | streamCount | updateCount =>
      exact isolated_findFilter rfl hown d (filterMatches_countFilter_none hd)
    | bulk => exact isolated_bulk h d hd

def victimMessage : MessageDoc := { taggedB with ownerID := "victim" }

def victimDraft : MessageDoc := { victimMessage with isDraft := true }

/-- A caller who filters on another owner streams that owner's messages; filtering on the draft
marker as well, a bulk operation changes that owner's drafts. -/
theorem handed_reaches_victim :
    Handed "u" [ownerIs "victim"] (findFilter 0 none (streamFilters "u" [ownerIs "victim"]))
      ∧ filterMatches mongod (findFilter 0 none (streamFilters "u" [ownerIs "victim"]))
          victimMessage = true
      ∧ victimMessage.ownerID ≠ "u"
      ∧ Handed "u" [ownerIs "victim", isDraftFilter true]
          (bulkFilter 0 "u" (scopedFilters "u" [ownerIs "victim", isDraftFilter true]))
      ∧ filterMatches mongod
          (bulkFilter 0 "u" (scopedFilters "u" [ownerIs "victim", isDraftFilter true]))
          victimDraft = true
      ∧ victimDraft.ownerID ≠ "u" ∧ victimDraft.isDraft = true :=
  ⟨.streamFind 0 none, by decide, by decide, .bulk 0, by decide, by decide, by decide⟩

end Mailbox.Mongo
