import Mailbox.Lib.RefBooks
import Mailbox.Service.MemoryBackend

/-!
# Attachments and their files

`attachment.go` with the file store: the metadata of an attachment has a reference count and the URI
of its file, and `RemoveRef` deletes the file when it has deleted the metadata.  `World` counts
references only; a `Shelf` has the files as well.

Files are deleted by `RemoveRef` and by nothing else here, so what happens to the file of an
attachment can be read off the counts: **`mem_files_after`** says that after any calls of `AddRef`
and `RemoveRef` the file is there exactly if the metadata is, provided that no other attachment has
the same file.
-/

namespace Mailbox.Service

open RefCount MemoryBackend

/-- The reference counts of the attachments whose metadata is stored, and the URIs of the files. -/
structure Shelf where
  counts : Counts String
  files : List String

inductive RefCall where
  | addRef (id : String)
  | removeRef (id : String)

namespace Shelf

variable (uri : String → String)

/-- The calls of the attachment manager; `uri` is what the metadata says. -/
def call (s : Shelf) : RefCall → Shelf
  | .addRef id =>
    match increment id s.counts with
    | none => s
    | some counts => { s with counts := counts }
  | .removeRef id =>
    match decrement id s.counts with
    | none => s
    | some counts =>
      let deleted := (counts.lookup id).isNone
      if deleted ∧ uri id ≠ "" then ⟨counts, s.files.filter fun file => decide (file ≠ uri id)⟩
      else ⟨counts, s.files⟩

def after (calls : List RefCall) (s : Shelf) : Shelf := calls.foldl (call uri) s

variable {uri} {s : Shelf} {a : String}

lemma counts_removeRef (id : String) (s : Shelf) :
    (s.call uri (.removeRef id)).counts = (decrement id s.counts).getD s.counts := by
  simp only [call]
  cases decrement id s.counts with
  | none => rfl
  | some =>
    simp only
    split_ifs <;> rfl

/-- As far as the counts go, these are the calls of the manager in `MemoryBackend`. -/
theorem counts_call (id : String) (w : World) (files : List String) :
    (call uri ⟨w.refs, files⟩ (.addRef id)).counts = (addRef Faults.none id w).2.refs
      ∧ (call uri ⟨w.refs, files⟩ (.removeRef id)).counts = (removeRef id w).2.refs := by
  rw [counts_removeRef]
  simp only [call, addRef, removeRef, Faults.none]
  constructor
  · cases increment id w.refs with
    | none | some => rfl
  · cases decrement id w.refs with
    | none | some => rfl

lemma known_of_call {c : RefCall} (h : (s.call uri c).counts.lookup a ≠ none) :
    s.counts.lookup a ≠ none := by
  cases c with
  | addRef id =>
    simp only [call] at h
    cases hincr : increment id s.counts with
    | none => rwa [hincr] at h
    | some =>
      simp only [hincr, lookup_increment hincr] at h
      simpa using h
  | removeRef =>
    rw [counts_removeRef, lookup_decrement] at h
    intro hno
    exact h (by rw [hno, released_none])

lemma known_of_after {calls : List RefCall} (h : (s.after uri calls).counts.lookup a ≠ none) :
    s.counts.lookup a ≠ none := by
  induction calls generalizing s with
  | nil => exact h
  | cons c calls ih => exact known_of_call (ih h)

lemma files_call_subset (c : RefCall) : (s.call uri c).files ⊆ s.files := by
  cases c with
  | addRef id =>
    simp only [call]
    cases increment id s.counts <;> exact List.Subset.refl _
  | removeRef id =>
    simp only [call]
    cases decrement id s.counts with
    | none => exact List.Subset.refl _
    | some =>
      simp only
      split_ifs
      · exact List.filter_sublist.subset
      · exact List.Subset.refl _

lemma files_after_subset (calls : List RefCall) : (s.after uri calls).files ⊆ s.files := by
  induction calls generalizing s with
  | nil => exact List.Subset.refl _
  | cons c calls ih => exact List.Subset.trans ih (files_call_subset c)

section File

variable (hknown : s.counts.lookup a ≠ none) (huri : uri a ≠ "")
  (hown : ∀ b, s.counts.lookup b ≠ none → uri b = uri a → b = a)

include hknown huri hown

lemma mem_files_call (c : RefCall) :
    uri a ∈ (s.call uri c).files ↔ uri a ∈ s.files ∧ (s.call uri c).counts.lookup a ≠ none := by
  cases c with
  | addRef id =>
    simp only [call]
    cases hincr : increment id s.counts with
    | none => simp [hknown]
    | some => simp [lookup_increment hincr, hknown]
  | removeRef id =>
    have hcnts : ((decrement id s.counts).getD s.counts).lookup a
        = released ([id].count a) (s.counts.lookup a) := lookup_decrement id a
    simp only [call]
    cases hdecr : decrement id s.counts with
    | none => simp [hknown]
    | some counts =>
      rw [hdecr, Option.getD_some] at hcnts
      by_cases ha : a = id
      · subst ha
        cases hlk : counts.lookup a with
        | none => simp [hlk, huri]
        | some => simp [hlk]
      · have hoth : counts.lookup a = s.counts.lookup a := by
          rw [hcnts, List.count_singleton, if_neg (by simpa using Ne.symm ha), released_zero]
        have hne : uri a ≠ uri id := by
          intro heq
          refine ha (hown id ?_ heq.symm).symm
          intro hno
          rw [decrement, hno] at hdecr
          cases hdecr
        simp only
        split_ifs
        · simp [hoth, hknown, hne]
        · simp [hoth, hknown]

/-- **The file of an attachment is there as long as its metadata.** -/
theorem mem_files_after (calls : List RefCall) : uri a ∈ (s.after uri calls).files
      ↔ uri a ∈ s.files ∧ (s.after uri calls).counts.lookup a ≠ none := by
  induction calls generalizing s with
  | nil => exact ⟨fun h => ⟨h, hknown⟩, And.left⟩
  | cons c calls ih =>
    have hcl := mem_files_call hknown huri hown c
    show uri a ∈ ((s.call uri c).after uri calls).files
      ↔ _ ∧ ((s.call uri c).after uri calls).counts.lookup a ≠ none
    by_cases hkp : (s.call uri c).counts.lookup a = none
    · -- Deleted, and for good.
      have hgn : uri a ∉ (s.call uri c).files := fun h => (hcl.mp h).2 hkp
      refine iff_of_false (fun h => hgn (files_after_subset calls h)) fun h => ?_
      exact known_of_after h.2 hkp
    · rw [ih hkp fun b hb => hown b (known_of_call hb), hcl]
      exact and_congr_left fun _ => and_iff_left hkp

end File

/-! ## The calls of a move -/

lemma counts_after_removeRef (ids : List String) (s : Shelf) :
    (s.after uri (ids.map .removeRef)).counts = releaseAll ids s.counts := by
  induction ids generalizing s with
  | nil => rfl
  | cons id ids ih =>
    show ((s.call uri (.removeRef id)).after uri (ids.map .removeRef)).counts = _
    rw [ih, counts_removeRef]
    rfl

lemma lookup_after_addRef {ids : List String} (hi : ∀ a ∈ ids, s.counts.lookup a ≠ none)
    (k : String) : (s.after uri (ids.map .addRef)).counts.lookup k
      = (s.counts.lookup k).map (· + ids.count k) := by
  induction ids generalizing s with
  | nil => simp [after]
  | cons id ids ih =>
    rw [List.forall_mem_cons] at hi
    obtain ⟨counts, hincr⟩ : ∃ counts, increment id s.counts = some counts := by
      obtain ⟨c, hc⟩ := Option.ne_none_iff_exists'.mp hi.1
      exact ⟨_, by rw [increment, hc]; rfl⟩
    have hcl : s.call uri (.addRef id) = { s with counts := counts } := by
      simp only [call, hincr]
    have hcnt : (id :: ids).count k = [id].count k + ids.count k := by
      rw [← List.count_append, List.singleton_append]
    show ((s.call uri (.addRef id)).after uri (ids.map .addRef)).counts.lookup k = _
    rw [hcl, ih fun a ha => by simpa [lookup_increment hincr] using hi.2 a ha]
    simp only [lookup_increment hincr, Option.map_map, hcnt]
    congr 1
    funext c
    simp only [Function.comp_apply]
    omega

/-- Every move of the books is made by calls of the manager. -/
lemma exists_calls_of_move {b b' : Books String} (h : Books.Move b b') :
    ∃ calls : List RefCall, ∀ (uri : String → String) (files : List String) (k : String),
      (after uri calls ⟨b.counts, files⟩).counts.lookup k = b'.counts.lookup k := by
  cases h with
  | @claim ids h =>
    refine ⟨ids.map .addRef, fun uri files k => ?_⟩
    rw [lookup_after_addRef h.known, h.counts]
  | @release ids h =>
    refine ⟨ids.map .removeRef, fun uri files k => ?_⟩
    rw [counts_after_removeRef, lookup_releaseAll, h.counts]

end Shelf

end Mailbox.Service
