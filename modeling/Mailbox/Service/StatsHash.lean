import Mailbox.Lib.LastWrite
import Mailbox.Service.StatsCache

/-!
# The distributed cache of mailbox statistics

`stats_cache.go` and `statscache/redis/cache.go`: behind the cache of each instance stands one that
all instances share.  A user's statistics are a Redis hash of numbered fields — `total`, `unread`,
`draft`, and `folder:<id>:total` and `folder:<id>:unread` for every folder — so that an event can
increment a single counter.  `Get` puts them together again from the names of the fields.

* `parseField` — `decodeStats` takes a field name apart at its colons, into three parts.  A folder
  whose ID contains a colon (`Plain` says that it does not) has a field name of more parts, and
  **its counters are skipped**.
* `lookup_decodeStats` — what `decodeStats` makes of a hash, folder by folder.
* `lookup_incrBy_folderTotal`, `lookup_incrBy_folderUnread` — an increment of a folder's field
  increments the decoded counter when the folder is plain, and is not seen otherwise.
* **`same_hset_iff`** — when a snapshot survives `Set` and `Get`.
-/

namespace Mailbox

/-- The counters are the same and the same folders are there. -/
structure MailboxStats.Same (a b : MailboxStats) : Prop where
  total : a.totalMessages = b.totalMessages
  unread : a.unreadCount = b.unreadCount
  draft : a.draftCount = b.draftCount
  folders : ∀ f, a.folders.lookup f = b.folders.lookup f

namespace Service

open List

/-! ## Field names -/

def fieldTotal : String := "total"
def fieldUnread : String := "unread"
def fieldDraft : String := "draft"

variable (folderID : String)

def statsCacheFolderTotal : String := "folder:" ++ folderID ++ ":total"

def statsCacheFolderUnread : String := "folder:" ++ folderID ++ ":unread"

/-- A folder ID without a colon. -/
def Plain : Prop := ':' ∉ folderID.toList

instance (folderID : String) : Decidable (Plain folderID) := inferInstanceAs (Decidable (¬ _))

/-- The folder and the kind of counter that `decodeStats` reads in a field name. -/
def parseField (k : String) : Option (String × String) :=
  if "folder:".toList.isPrefixOf k.toList then
    match k.toList.splitOn ':' with
    | [_, folderID, kind] => some (String.ofList folderID, String.ofList kind)
    | _ => none
  else none

/-! ## Hashes -/

/-- The fields of one user's hash.  Redis keeps the numbers as text that it can increment. -/
abbrev StatsHash := AList fun _ : String => ℤ

namespace StatsHash

/-- A counter, zero when the field is not there. -/
def value (fields : StatsHash) (k : String) : ℤ := (fields.lookup k).getD 0

/-- `HINCRBY`, which `IncrBy` and `incrDistCache` skip for a zero delta. -/
def incrBy (field : String) (delta : ℤ) (fields : StatsHash) : StatsHash :=
  if delta = 0 then fields else fields.insert field (fields.value field + delta)

/-- A run of increments. -/
def incrAll (deltas : List (String × ℤ)) (fields : StatsHash) : StatsHash :=
  deltas.foldl (fun fields d => fields.incrBy d.1 d.2) fields

/-- The entries that `encodeStats` writes, one after the other. -/
def encodedFields (s : MailboxStats) : List (String × ℤ) :=
  [(fieldTotal, s.totalMessages), (fieldUnread, s.unreadCount), (fieldDraft, s.draftCount)] ++
    s.folders.entries.flatMap fun e =>
      [(statsCacheFolderTotal e.1, e.2.total), (statsCacheFolderUnread e.1, e.2.unread)]

/-- `encodeStats` serializes `MailboxStats` into a flat map. -/
def encodeStats (s : MailboxStats) : StatsHash := LastWrite.writeAll (encodedFields s) ∅

/-- The `switch parts[2]` of `decodeStats`. -/
def setCount (kind : String) (n : ℤ) (counts : FolderCounts) : FolderCounts :=
  if kind = "total" then { counts with total := n }
  else if kind = "unread" then { counts with unread := n }
  else counts

/-- What `decodeStats` does with a field it visits. -/
def decodeField (folders : AList fun _ : String => FolderCounts) (k : String) (n : ℤ) :
    AList fun _ : String => FolderCounts :=
  match parseField k with
  | none => folders
  | some (folderID, kind) =>
    folders.insert folderID (setCount kind n ((folders.lookup folderID).getD ⟨0, 0⟩))

/-- `decodeStats` deserializes a Redis hash into `MailboxStats`. -/
def decodeStats (fields : StatsHash) : MailboxStats where
  folders := fields.entries.foldl (fun folders e => decodeField folders e.1 e.2) ∅
  totalMessages := fields.value fieldTotal
  unreadCount := fields.value fieldUnread
  draftCount := fields.value fieldDraft

end StatsHash

/-! ## The cache -/

/-- The hashes by owner.  A hash exists as long as it has fields. -/
abbrev DistCache := AList fun _ : String => StatsHash

namespace DistCache

def get (dist : DistCache) (ownerID : String) : Option MailboxStats :=
  match dist.lookup ownerID with
  | none => none
  | some fields => if fields.entries = [] then none else some fields.decodeStats

/-- `incrDistCache`, one call after the other for the same user.  The script behind `IncrBy` does
nothing for a user without a hash. -/
def incrDistCache (ownerID : String) (deltas : List (String × ℤ)) (dist : DistCache) : DistCache :=
  match dist.lookup ownerID with
  | none => dist
  | some fields => dist.insert ownerID (fields.incrAll deltas)

@[simp] lemma lookup_incrDistCache {dist : DistCache} {ownerID u : String}
    {deltas : List (String × ℤ)} : (dist.incrDistCache ownerID deltas).lookup u
      = if u = ownerID then (dist.lookup u).map (StatsHash.incrAll deltas) else dist.lookup u := by
  unfold incrDistCache
  split_ifs with hu
  · subst hu
    cases hlk : dist.lookup u with
    | none => simp [hlk]
    | some => simp
  · cases dist.lookup ownerID with
    | none => rfl
    | some => exact AList.lookup_insert_ne hu

end DistCache

/-! ## What a field name says -/

/-- The pieces between the separators of a list do not contain the separator. -/
lemma not_mem_of_mem_splitOn {α : Type} [DecidableEq α] {a : α} {xs piece : List α}
    (h : piece ∈ xs.splitOn a) : a ∉ piece := by
  induction xs generalizing piece with
  | nil =>
    rw [splitOn_nil, mem_singleton] at h
    simp [h]
  | cons x xs ih =>
    rw [splitOn_cons_eq_if_modifyHead] at h
    split_ifs at h with hx
    · rcases mem_cons.mp h with rfl | h
      · simp
      · exact ih h
    · cases hspl : xs.splitOn a with
      | nil => simp [hspl] at h
      | cons =>
        rw [hspl] at h ih
        rcases mem_cons.mp h with rfl | h
        · have hhd := ih (mem_cons_self)
          simp only [beq_iff_eq] at hx
          simpa [hhd] using fun heq => hx heq.symm
        · exact ih (mem_cons_of_mem _ h)

variable {folderID kind : String}

lemma parseField_folder (hfo : Plain folderID) (hkind : Plain kind) :
    parseField ("folder:" ++ folderID ++ ":" ++ kind) = some (folderID, kind) := by
  have hname : ("folder:" ++ folderID ++ ":" ++ kind).toList
      = [':'].intercalate ["folder".toList, folderID.toList, kind.toList] := by
    simp [intercalate, String.toList_append]
  have hspl : ("folder:" ++ folderID ++ ":" ++ kind).toList.splitOn ':'
      = ["folder".toList, folderID.toList, kind.toList] := by
    rw [hname]
    refine splitOn_intercalate ':' ?_ (by simp)
    intro piece hpiece
    simp only [mem_cons, not_mem_nil, or_false] at hpiece
    rcases hpiece with rfl | rfl | rfl
    · decide
    · exact hfo
    · exact hkind
  unfold parseField
  rw [hspl, if_pos]
  · simp
  · simp [String.toList_append]

variable {k : String}

lemma parseField_eq_some (h : parseField k = some (folderID, kind)) :
    k = "folder:" ++ folderID ++ ":" ++ kind ∧ Plain folderID ∧ Plain kind := by
  unfold parseField at h
  split_ifs at h with hprefix
  split at h
  case h_2 => cases h
  case h_1 head id rest hspl =>
    obtain ⟨rfl, rfl⟩ := h
    have hpl : ∀ piece ∈ [head, id, rest], ':' ∉ piece := by
      intro piece hpiece
      rw [← hspl] at hpiece
      exact not_mem_of_mem_splitOn hpiece
    have hk : k.toList = head ++ ':' :: (id ++ ':' :: rest) := by
      have hjoin : [':'].intercalate (k.toList.splitOn ':') = k.toList :=
        intercalate_splitOn ':'
      rw [hspl] at hjoin
      simpa [intercalate] using hjoin.symm
    -- The name starts with `folder:`, and the first piece ends at the first colon.
    have hhd : head = "folder".toList := by
      have hprefix' : "folder".toList ++ [':'] <+: k.toList := by
        simpa using isPrefixOf_iff_prefix.mp hprefix
      obtain ⟨tail, htl⟩ := hprefix'
      have hpieces := congrArg (splitOn ':') (htl.trans hk)
      rw [append_assoc, singleton_append, splitOn_append_cons_self_of_not_mem (by decide),
        splitOn_append_cons_self_of_not_mem (hpl head (by simp))] at hpieces
      exact (cons.inj hpieces).1.symm
    refine ⟨?_, ?_, ?_⟩
    · rw [← String.toList_inj, hk, hhd]
      simp [String.toList_append]
    · simpa [Plain] using hpl id (by simp)
    · simpa [Plain] using hpl rest (by simp)

variable {g f : String}

/-- A field named after a folder is read back exactly when the folder is plain. -/
lemma parseField_folder_iff {kind' : String} (hkind : Plain kind) :
    parseField ("folder:" ++ g ++ ":" ++ kind) = some (f, kind')
      ↔ Plain g ∧ f = g ∧ kind' = kind := by
  constructor
  · intro h
    have hg : Plain g := by
      obtain ⟨hname, hf, hkind'⟩ := parseField_eq_some h
      have hcolons := congrArg (fun name => name.toList.count ':') hname
      simp only [String.toList_append, count_append, count_eq_zero_of_not_mem hf,
        count_eq_zero_of_not_mem hkind, count_eq_zero_of_not_mem hkind'] at hcolons
      exact count_eq_zero.mp (by omega)
    rw [parseField_folder hg hkind] at h
    simp only [Option.some.injEq, Prod.mk.injEq] at h
    exact ⟨hg, h.1.symm, h.2.symm⟩
  · rintro ⟨hg, rfl, rfl⟩
    exact parseField_folder hg hkind

lemma statsCacheFolderTotal_eq (g : String) :
    statsCacheFolderTotal g = "folder:" ++ g ++ ":" ++ "total" := by
  rw [statsCacheFolderTotal, ← String.toList_inj]
  simp [String.toList_append]

lemma statsCacheFolderUnread_eq (g : String) :
    statsCacheFolderUnread g = "folder:" ++ g ++ ":" ++ "unread" := by
  rw [statsCacheFolderUnread, ← String.toList_inj]
  simp [String.toList_append]

@[simp] lemma parseField_folderTotal :
    parseField (statsCacheFolderTotal g) = some (f, kind) ↔ Plain g ∧ f = g ∧ kind = "total" := by
  rw [statsCacheFolderTotal_eq]
  exact parseField_folder_iff (by decide)

@[simp] lemma parseField_folderUnread :
    parseField (statsCacheFolderUnread g) = some (f, kind) ↔ Plain g ∧ f = g ∧ kind = "unread" := by
  rw [statsCacheFolderUnread_eq]
  exact parseField_folder_iff (by decide)

/-! Different counters have different names. -/

@[simp] lemma statsCacheFolderTotal_inj :
    statsCacheFolderTotal f = statsCacheFolderTotal g ↔ f = g := by
  simp [statsCacheFolderTotal, ← String.toList_inj, String.toList_append]

@[simp] lemma statsCacheFolderUnread_inj :
    statsCacheFolderUnread f = statsCacheFolderUnread g ↔ f = g := by
  simp [statsCacheFolderUnread, ← String.toList_inj, String.toList_append]

@[simp] lemma statsCacheFolderTotal_ne_folderUnread (f g : String) :
    statsCacheFolderTotal f ≠ statsCacheFolderUnread g := by
  intro h
  have hl := congrArg (fun name => name.toList.reverse.head?) h
  simp [statsCacheFolderTotal, statsCacheFolderUnread, String.toList_append] at hl

@[simp] lemma statsCacheFolderUnread_ne_folderTotal (f g : String) :
    statsCacheFolderUnread f ≠ statsCacheFolderTotal g :=
  (statsCacheFolderTotal_ne_folderUnread g f).symm

/-- The three counters of the whole mailbox are not taken for a folder's. -/
lemma parseField_main (hk : k ∈ [fieldTotal, fieldUnread, fieldDraft]) : parseField k = none := by
  simp only [mem_cons, not_mem_nil, or_false] at hk
  rcases hk with rfl | rfl | rfl <;> decide

lemma folder_not_main (g : String) : statsCacheFolderTotal g ∉ [fieldTotal, fieldUnread, fieldDraft]
      ∧ statsCacheFolderUnread g ∉ [fieldTotal, fieldUnread, fieldDraft] := by
  constructor <;>
  · intro h
    simp only [mem_cons, not_mem_nil, or_false] at h
    rcases h with h | h | h <;>
      · have hhd := congrArg (fun name => name.toList.take 3) h
        simp [statsCacheFolderTotal, statsCacheFolderUnread, fieldTotal, fieldUnread, fieldDraft,
          String.toList_append] at hhd

/-! ## What is decoded -/

namespace StatsHash

variable {fields : StatsHash} {f g k : String} {delta n : ℤ}

section DecodeField

variable {folders : AList fun _ : String => FolderCounts}

lemma lookup_decodeField_ne (h : ∀ kind, parseField k ≠ some (f, kind)) :
    (decodeField folders k n).lookup f = folders.lookup f := by
  unfold decodeField
  split
  · rfl
  · next folderID kind hparse =>
      refine AList.lookup_insert_ne ?_
      rintro rfl
      exact h kind hparse

end DecodeField

/-- Some field of the list names the folder. -/
def Names (f : String) (l : List (Sigma fun _ : String => ℤ)) : Prop :=
  ∃ e ∈ l, ∃ kind, parseField e.1 = some (f, kind)

variable {l : List (Sigma fun _ : String => ℤ)}

lemma Names.plain (h : Names f l) : Plain f := by
  obtain ⟨e, -, kind, hparse⟩ := h
  exact (parseField_eq_some hparse).2.1

lemma names_iff : Names f fields.entries ↔ ∃ k ∈ fields, ∃ kind, parseField k = some (f, kind) := by
  constructor
  · rintro ⟨e, he, hparse⟩
    exact ⟨e.1, mem_keys_of_mem he, hparse⟩
  · rintro ⟨k, hk, hparse⟩
    obtain ⟨n, hn⟩ := exists_of_mem_keys hk
    exact ⟨⟨k, n⟩, hn, hparse⟩

lemma dlookup_eq_none_of_not_names (kind : String)
    (hk : parseField k = some (f, kind)) (h : ¬ Names f l) : l.dlookup k = none := by
  rw [dlookup_eq_none]
  intro hmem
  obtain ⟨n, hn⟩ := exists_of_mem_keys hmem
  exact h ⟨⟨k, n⟩, hn, kind, hk⟩

lemma ne_of_parseField (hk : ¬ ∃ kind, parseField k = some (f, kind)) {field : String}
    (kind : String) (hfield : parseField field = some (f, kind)) : field ≠ k := by
  rintro rfl
  exact hk ⟨kind, hfield⟩

open Classical in
/-- **The folders that a list of fields decodes to**: those that a field names, each with the two
counters that have its name and with what was there before for a counter that has no field. -/
lemma lookup_foldl_decodeField (l : List (Sigma fun _ : String => ℤ)) (hl : l.NodupKeys)
    (folders : AList fun _ : String => FolderCounts) :
    (l.foldl (fun folders e => decodeField folders e.1 e.2) folders).lookup f = if Names f l then
          some ⟨(l.dlookup (statsCacheFolderTotal f)).getD ((folders.lookup f).getD ⟨0, 0⟩).total,
            (l.dlookup (statsCacheFolderUnread f)).getD ((folders.lookup f).getD ⟨0, 0⟩).unread⟩
        else folders.lookup f := by
  induction l generalizing folders with
  | nil => simp [Names]
  | cons e l ih =>
    obtain ⟨k, n⟩ := e
    rw [nodupKeys_cons] at hl
    have hcons : Names f (⟨k, n⟩ :: l) ↔ (∃ kind, parseField k = some (f, kind)) ∨ Names f l := by
      simp [Names]
    rw [foldl_cons, ih hl.2]
    by_cases hk : ∃ kind, parseField k = some (f, kind)
    · rw [if_pos (hcons.mpr (.inl hk))]
      obtain ⟨kind, hparse⟩ := hk
      have hf := (parseField_eq_some hparse).2.1
      have hfn : (decodeField folders k n).lookup f
          = some (setCount kind n ((folders.lookup f).getD ⟨0, 0⟩)) := by
        rw [decodeField, hparse]
        exact AList.lookup_insert _
      rw [hfn, Option.getD_some]
      generalize (folders.lookup f).getD ⟨0, 0⟩ = old
      -- The new field is one of the two, and then no later field is; or it is neither.
      have hcnt : ∀ field kind', parseField field = some (f, kind') →
          (kind = kind' → k = field) → ∀ m m' : ℤ, m' = (if kind = kind' then n else m) →
          (l.dlookup field).getD m' = ((⟨k, n⟩ :: l : List _).dlookup field).getD m := by
        intro field kind' hfield hname m m' hm
        by_cases hkind : kind = kind'
        · obtain rfl := hname hkind
          rw [dlookup_cons_eq, dlookup_eq_none.mpr hl.1, hm, if_pos hkind]
          rfl
        · have hne : field ≠ k := by
            rintro rfl
            rw [hfield] at hparse
            simp only [Option.some.injEq, Prod.mk.injEq] at hparse
            exact hkind hparse.2.symm
          rw [dlookup_cons_ne _ _ hne, hm, if_neg hkind]
      have hname : k = "folder:" ++ f ++ ":" ++ kind := (parseField_eq_some hparse).1
      have htot := hcnt (statsCacheFolderTotal f) "total" (by simp [hf])
        (by rintro rfl; rw [hname, statsCacheFolderTotal_eq])
        old.total (setCount kind n old).total (by unfold setCount; split_ifs <;> simp_all)
      have hur := hcnt (statsCacheFolderUnread f) "unread" (by simp [hf])
        (by rintro rfl; rw [hname, statsCacheFolderUnread_eq])
        old.unread (setCount kind n old).unread (by unfold setCount; split_ifs <;> simp_all)
      rw [← htot, ← hur]
      split_ifs with hnames
      · rfl
      · rw [dlookup_eq_none_of_not_names "total" (by simp [hf]) hnames,
          dlookup_eq_none_of_not_names "unread" (by simp [hf]) hnames]
        rfl
    · rw [lookup_decodeField_ne (by simpa using hk)]
      by_cases hnames : Names f l
      · have hf := hnames.plain
        rw [if_pos hnames, if_pos (hcons.mpr (.inr hnames)),
          dlookup_cons_ne _ _ (ne_of_parseField hk "total" (by simp [hf])),
          dlookup_cons_ne _ _ (ne_of_parseField hk "unread" (by simp [hf]))]
      · rw [if_neg hnames, if_neg (by rw [hcons]; exact fun h => h.elim hk hnames)]

open Classical in
lemma lookup_decodeStats : fields.decodeStats.folders.lookup f = if Names f fields.entries then
          some ⟨fields.value (statsCacheFolderTotal f), fields.value (statsCacheFolderUnread f)⟩
        else none :=
  lookup_foldl_decodeField fields.entries fields.nodupKeys ∅

lemma folder_decodeStats (hf : Plain f) : fields.decodeStats.folder f
      = ⟨fields.value (statsCacheFolderTotal f), fields.value (statsCacheFolderUnread f)⟩ := by
  rw [MailboxStats.folder, lookup_decodeStats]
  split_ifs with hnames
  · rfl
  · have htot := dlookup_eq_none_of_not_names "total"
      (show parseField (statsCacheFolderTotal f) = _ by simp [hf]) hnames
    have hur := dlookup_eq_none_of_not_names "unread"
      (show parseField (statsCacheFolderUnread f) = _ by simp [hf]) hnames
    rw [value, value, AList.lookup, AList.lookup, htot, hur]
    rfl

@[simp] lemma totalMessages_decodeStats :
    fields.decodeStats.totalMessages = fields.value fieldTotal := rfl

@[simp] lemma unreadCount_decodeStats :
    fields.decodeStats.unreadCount = fields.value fieldUnread := rfl

@[simp] lemma draftCount_decodeStats :
    fields.decodeStats.draftCount = fields.value fieldDraft := rfl

/-! ## Increments -/

@[simp] lemma value_incrBy :
    (fields.incrBy k delta).value f = if f = k then fields.value f + delta else fields.value f := by
  unfold incrBy
  split_ifs with hdelta hf hf
  · rw [hdelta, add_zero]
  · rfl
  · rw [value, hf, AList.lookup_insert, Option.getD_some]
  · rw [value, AList.lookup_insert_ne hf]
    rfl

section

variable (hdelta : delta ≠ 0)

include hdelta

lemma names_incrBy : Names f (fields.incrBy k delta).entries
      ↔ Names f fields.entries ∨ ∃ kind, parseField k = some (f, kind) := by
  simp only [names_iff, incrBy, if_neg hdelta, AList.mem_insert, or_and_right, exists_or,
    exists_eq_left]
  exact or_comm

open Classical in
/-- An increment is seen in the folder that its field names, and in no other. -/
lemma lookup_decodeStats_incrBy : (fields.incrBy k delta).decodeStats.folders.lookup f
      = if ∃ kind, parseField k = some (f, kind) then
          some ⟨(fields.incrBy k delta).value (statsCacheFolderTotal f),
            (fields.incrBy k delta).value (statsCacheFolderUnread f)⟩
        else fields.decodeStats.folders.lookup f := by
  rw [lookup_decodeStats, lookup_decodeStats]
  by_cases hk : ∃ kind, parseField k = some (f, kind)
  · rw [if_pos ((names_incrBy hdelta).mpr (.inr hk)), if_pos hk]
  · rw [if_neg hk]
    by_cases hnames : Names f fields.entries
    · have hf := hnames.plain
      rw [if_pos ((names_incrBy hdelta).mpr (.inl hnames)), if_pos hnames, value_incrBy,
        value_incrBy, if_neg (ne_of_parseField hk "total" (by simp [hf])),
        if_neg (ne_of_parseField hk "unread" (by simp [hf]))]
    · rw [if_neg hnames, if_neg (by rw [names_incrBy hdelta]; exact fun h => h.elim hnames hk)]

lemma lookup_incrBy_folder
    (hk : ∀ f kind', parseField k = some (f, kind') ↔ Plain g ∧ f = g ∧ kind' = kind) :
    (fields.incrBy k delta).decodeStats.folders.lookup f
      = if f = g ∧ Plain g then some ((fields.incrBy k delta).decodeStats.folder g)
        else fields.decodeStats.folders.lookup f := by
  classical
  rw [lookup_decodeStats_incrBy hdelta]
  simp only [hk]
  by_cases h : f = g ∧ Plain g
  · obtain ⟨rfl, hf⟩ := h
    rw [if_pos ⟨kind, hf, rfl, rfl⟩, if_pos ⟨rfl, hf⟩, folder_decodeStats hf]
  · rw [if_neg (by rintro ⟨kind, hg, hf, -⟩; exact h ⟨hf, hg⟩), if_neg h]

lemma lookup_incrBy_folderTotal :
    (fields.incrBy (statsCacheFolderTotal g) delta).decodeStats.folders.lookup f
      = if f = g ∧ Plain g then
          some { fields.decodeStats.folder g with
            total := (fields.decodeStats.folder g).total + delta }
        else fields.decodeStats.folders.lookup f := by
  rw [lookup_incrBy_folder hdelta fun _ _ => parseField_folderTotal]
  split_ifs with h
  · simp [folder_decodeStats h.2]
  · rfl

lemma lookup_incrBy_folderUnread :
    (fields.incrBy (statsCacheFolderUnread g) delta).decodeStats.folders.lookup f
      = if f = g ∧ Plain g then
          some { fields.decodeStats.folder g with
            unread := (fields.decodeStats.folder g).unread + delta }
        else fields.decodeStats.folders.lookup f := by
  rw [lookup_incrBy_folder hdelta fun _ _ => parseField_folderUnread]
  split_ifs with h
  · simp [folder_decodeStats h.2]
  · rfl

end

/-! ## The round trip -/

section RoundTrip

variable {s : MailboxStats}

lemma mem_encodedFields : (k, n) ∈ encodedFields s
      ↔ (k = fieldTotal ∧ n = s.totalMessages) ∨ (k = fieldUnread ∧ n = s.unreadCount)
        ∨ (k = fieldDraft ∧ n = s.draftCount)
        ∨ ∃ g, ∃ c ∈ s.folders.lookup g, (k = statsCacheFolderTotal g ∧ n = c.total)
          ∨ (k = statsCacheFolderUnread g ∧ n = c.unread) := by
  have hent : ∀ g c, (⟨g, c⟩ : Sigma fun _ : String => FolderCounts) ∈ s.folders.entries
      ↔ c ∈ s.folders.lookup g := fun g c => (mem_dlookup_iff s.folders.nodupKeys).symm
  simp only [encodedFields, mem_append, mem_cons, Prod.mk.injEq, not_mem_nil,
    or_false, mem_flatMap, Sigma.exists, hent, or_assoc]

lemma lookup_encodeStats : (encodeStats s).lookup k = some n ↔ (k, n) ∈ encodedFields s := by
  refine LastWrite.lookup_writeAll_empty_iff ?_
  intro k n n' hn hn'
  -- Each name is written once: what was written there can be read off the name.
  have hmain := folder_not_main
  simp only [mem_cons, not_mem_nil, or_false, not_or] at hmain
  have hnames : fieldTotal ≠ fieldUnread ∧ fieldTotal ≠ fieldDraft ∧ fieldUnread ≠ fieldDraft := by
    decide
  rw [mem_encodedFields] at hn hn'
  rcases hn with ⟨rfl, rfl⟩ | ⟨rfl, rfl⟩ | ⟨rfl, rfl⟩ | ⟨g, c, hc, ⟨rfl, rfl⟩ | ⟨rfl, rfl⟩⟩
  · grind
  · grind
  · grind
  · simp only [hmain, statsCacheFolderTotal_inj, statsCacheFolderTotal_ne_folderUnread, false_and,
      false_or, or_false] at hn'
    obtain ⟨_, c', hc', rfl, rfl⟩ := hn'
    rw [Option.mem_unique hc hc']
  · simp only [hmain, statsCacheFolderUnread_inj, statsCacheFolderUnread_ne_folderTotal, false_and,
      false_or] at hn'
    obtain ⟨_, c', hc', rfl, rfl⟩ := hn'
    rw [Option.mem_unique hc hc']

/-- `HSET` of encoded statistics.  Fields that they do not have are kept. -/
def hset (s : MailboxStats) (fields : StatsHash) : StatsHash :=
  LastWrite.writeAll (encodedFields s) fields

lemma lookup_hset : (hset s fields).lookup k = ((encodeStats s).lookup k).or (fields.lookup k) := by
  rw [hset, encodeStats, LastWrite.lookup_writeAll, LastWrite.lookup_writeAll, AList.lookup_empty,
    Option.or_none]

lemma mem_hset : k ∈ hset s fields ↔ (∃ n, (k, n) ∈ encodedFields s) ∨ k ∈ fields := by
  simp only [← AList.lookup_isSome, lookup_hset, Option.isSome_or, Bool.or_eq_true,
    Option.isSome_iff_exists, lookup_encodeStats]

lemma value_hset (h : (k, n) ∈ encodedFields s) : (hset s fields).value k = n := by
  rw [value, lookup_hset, lookup_encodeStats.mpr h]
  rfl

lemma names_hset :
    Names f (hset s fields).entries ↔ (Plain f ∧ f ∈ s.folders) ∨ Names f fields.entries := by
  simp only [names_iff, mem_hset, or_and_right, exists_or]
  refine or_congr_left ?_
  have hfo : f ∈ s.folders ↔ ∃ c, c ∈ s.folders.lookup f := by
    rw [← AList.lookup_isSome, Option.isSome_iff_exists]
    rfl
  rw [hfo]
  constructor
  · rintro ⟨k, ⟨n, hn⟩, kind, hparse⟩
    rw [mem_encodedFields] at hn
    rcases hn with ⟨rfl, -⟩ | ⟨rfl, -⟩ | ⟨rfl, -⟩ | ⟨g, c, hc, ⟨rfl, -⟩ | ⟨rfl, -⟩⟩
    · rw [parseField_main (by decide)] at hparse
      cases hparse
    · rw [parseField_main (by decide)] at hparse
      cases hparse
    · rw [parseField_main (by decide)] at hparse
      cases hparse
    · obtain ⟨hg, rfl, -⟩ := parseField_folderTotal.mp hparse
      exact ⟨hg, c, hc⟩
    · obtain ⟨hg, rfl, -⟩ := parseField_folderUnread.mp hparse
      exact ⟨hg, c, hc⟩
  · rintro ⟨hf, c, hc⟩
    refine ⟨statsCacheFolderTotal f, ⟨c.total, ?_⟩, "total", by simp [hf]⟩
    rw [mem_encodedFields]
    exact .inr (.inr (.inr ⟨f, c, hc, .inl ⟨rfl, rfl⟩⟩))

/-- **A snapshot survives `Set` and `Get` exactly when none of its folders has a colon in its ID**,
and the hash has no fields left of other folders. -/
theorem same_hset_iff : s.Same (hset s fields).decodeStats
      ↔ (∀ f ∈ s.folders.keys, Plain f) ∧ ∀ f, Names f fields.entries → f ∈ s.folders := by
  constructor
  · intro hsm
    refine ⟨fun f hf => ?_, fun f hf => ?_⟩ <;> have hlk := hsm.folders f <;>
      rw [lookup_decodeStats] at hlk
    · by_contra hpl
      rw [if_neg fun h => hpl h.plain] at hlk
      exact absurd (AList.mem_keys.mpr hf) (by rw [← AList.lookup_eq_none]; exact hlk)
    · rw [if_pos (names_hset.mpr (.inr hf))] at hlk
      exact AList.lookup_isSome.mp (by rw [hlk]; rfl)
  · rintro ⟨hpl, hstale⟩
    have hmain : ∀ k n, (k, n) ∈ encodedFields s → n = (hset s fields).value k :=
      fun k n h => (value_hset h).symm
    refine ⟨hmain _ _ ?_, hmain _ _ ?_, hmain _ _ ?_, ?_⟩
    · simp [encodedFields]
    · simp [encodedFields]
    · simp [encodedFields]
    · intro f
      rw [lookup_decodeStats]
      cases hlk : s.folders.lookup f with
      | none =>
        rw [if_neg]
        rw [names_hset]
        have hf := AList.lookup_eq_none.mp hlk
        exact fun h => hf (h.elim And.right (hstale f))
      | some c =>
        have hf : f ∈ s.folders := AList.lookup_isSome.mp (by rw [hlk]; rfl)
        rw [if_pos (names_hset.mpr (.inl ⟨hpl f (AList.mem_keys.mp hf), hf⟩))]
        have hfield : ∀ k n, (k = statsCacheFolderTotal f ∧ n = c.total)
            ∨ (k = statsCacheFolderUnread f ∧ n = c.unread) → (k, n) ∈ encodedFields s := by
          intro k n h
          rw [mem_encodedFields]
          exact .inr (.inr (.inr ⟨f, c, hlk, h⟩))
        rw [value_hset (hfield _ _ (.inl ⟨rfl, rfl⟩)), value_hset (hfield _ _ (.inr ⟨rfl, rfl⟩))]

end RoundTrip

end StatsHash

end Service

end Mailbox
