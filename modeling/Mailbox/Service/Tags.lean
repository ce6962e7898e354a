import Mathlib.Data.Finset.Basic
import Mailbox.Memory.Edits
import Mailbox.Service.BulkSpec

/-!
# Tags

A message lists its tags.  `AddTag` and `RemoveTag` search the list and splice it, and so do their
filter-based variants; what is meant is a **set** (`TagEdit.onSet`).  The list represents the set as
long as no tag stands in it twice (`Tagged`), and every call keeps it that way.
-/

namespace Mailbox.Service

open Memory

inductive TagEdit where
  | add (tagID : String)
  | remove (tagID : String)

/-- `AddTag` or `RemoveTag`, or `AddTagByFilter` or `RemoveTagByFilter`. -/
inductive TagCall where
  | one (id : String) (edit : TagEdit)
  | byFilter (ownerID : String) (filters : List Filter) (edit : TagEdit)

/-- What is meant by an edit. -/
def TagEdit.onSet : TagEdit → Finset String → Finset String
  | .add tagID, tags => insert tagID tags
  | .remove tagID, tags => tags.erase tagID

def TagEdit.op : TagEdit → BulkOp
  | .add tagID => .tag tagID
  | .remove tagID => .untag tagID

namespace TagCall

def edit : TagCall → TagEdit
  | .one _ edit | .byFilter _ _ edit => edit

def run (now : Time) : TagCall → Store → Store
  | .one id (.add tagID), s => (s.addTag now id tagID).2
  | .one id (.remove tagID), s => (s.removeTag now id tagID).2
  | .byFilter ownerID filters (.add tagID), s => (s.addTagByFilter now ownerID filters tagID).2
  | .byFilter ownerID filters (.remove tagID), s =>
    (s.removeTagByFilter now ownerID filters tagID).2

/-- Whether the call is about a message. -/
def reaches (now : Time) (m : Message) : TagCall → Bool
  | .one id _ => decide (m.id = id)
  | .byFilter ownerID filters _ => decide (m.ownerID = ownerID) && selects now filters m

end TagCall

/-- The store after some calls, each at its time. -/
def runTags (calls : List (Time × TagCall)) (s : Store) : Store :=
  calls.foldl (fun s call => call.2.run call.1 s) s

/-- The set of a message's tags after some calls: the calls that reach the message edit it. -/
def tagsAfter (id : String) : List (Time × TagCall) → Store → Finset String → Finset String
  | [], _, tags => tags
  | (now, call) :: calls, s, tags =>
    tagsAfter id calls (call.run now s)
      (if (s.messages.load id).any (call.reaches now) then call.edit.onSet tags else tags)

/-- The store shows a message with these tags, none of them twice. -/
def Tagged (id : String) (tags : Finset String) (s : Store) : Prop :=
  ∃ m, s.get id = .ok m ∧ m.tags.Nodup ∧ m.tags.toFinset = tags

section Tags

variable (now : Time) {id : String} {s : Store} {m : Message}

lemma TagCall.run_load (call : TagCall) (h : s.get id = .ok m) :
    ∃ m', (call.run now s).messages.load id = some m' ∧ forgetTimes m'
      = forgetTimes (if call.reaches now m then call.edit.op.effect now m else m) := by
  obtain ⟨hid, hld, hdr⟩ := Store.get_eq_ok.mp h
  obtain ⟨hmem, rfl⟩ := Table.load_eq_some_iff.mp hld
  cases call with
  | one id' edit =>
    have hrun : (one id' edit).run now s = (edit.op.single now id' s).2 := by cases edit <;> rfl
    rw [hrun]
    by_cases heq : m.id = id'
    · subst heq
      obtain ⟨t, hone, hchg⟩ := single_changed now edit.op hmem hid hdr
      rw [hone]
      exact ⟨_, hchg.load (BulkOp.effect_id now _) hld, by simp [reaches, TagCall.edit]⟩
    · refine ⟨m, ?_, by simp [reaches, heq]⟩
      cases edit with
      | add tagID =>
        exact ((Store.edits_mutate (Update.editsAt_addTag tagID) id').frame _ heq).trans hld
      | remove tagID =>
        exact ((Store.edits_mutate (Update.editsAt_removeTag tagID) id').frame _ heq).trans hld
  | byFilter ownerID filters edit =>
    have hrun : ∃ t, (byFilter ownerID filters edit).run now s = { s with messages := t }
        ∧ Table.Changed (edit.op.nativeEffect now) ((s.messages.all.filter fun m =>
          decide (m.ownerID = ownerID) && selects now filters m).map Message.id) s.messages t := by
      cases edit with
      | add tagID =>
        obtain ⟨t, hrun, hchg⟩ := iterateFiltered_spec now ownerID filters
          (fun m => if tagID ∈ m.tags then m else { m with tags := m.tags ++ [tagID] })
          (fun m => by split_ifs <;> rfl) s
        exact ⟨t, congrArg Prod.snd hrun, hchg⟩
      | remove tagID =>
        obtain ⟨t, hrun, hchg⟩ := iterateFiltered_spec now ownerID filters
          (fun m => { m with tags := m.tags.erase tagID }) (fun _ => rfl) s
        exact ⟨t, congrArg Prod.snd hrun, hchg⟩
    obtain ⟨t, hrun, hchg⟩ := hrun
    rw [hrun]
    refine ⟨_, hchg.load (BulkOp.nativeEffect_id now _) hld, ?_⟩
    simp only [Table.mem_keys_filter _ hmem, reaches, TagCall.edit]
    by_cases hreach : (decide (m.ownerID = ownerID) && selects now filters m) = true <;>
      simp [hreach, forgetTimes_effect]

lemma TagEdit.effect_tags (edit : TagEdit) (hnd : m.tags.Nodup) :
    (edit.op.effect now m).isDraft = m.isDraft ∧ (edit.op.effect now m).tags.Nodup
      ∧ (edit.op.effect now m).tags.toFinset = edit.onSet m.tags.toFinset := by
  cases edit with
  | add tagID =>
    simp only [op, BulkOp.effect, onSet]
    split_ifs with hmem
    · exact ⟨rfl, hnd, (Finset.insert_eq_of_mem (List.mem_toFinset.mpr hmem)).symm⟩
    · refine ⟨rfl, by grind, Finset.ext fun t => ?_⟩
      rw [List.mem_toFinset, List.mem_append, List.mem_singleton, Finset.mem_insert,
        List.mem_toFinset]
      exact or_comm
  | remove tagID =>
    simp only [op, BulkOp.effect, onSet]
    split_ifs with hmem
    · refine ⟨rfl, hnd.erase tagID, Finset.ext fun t => ?_⟩
      simp [hnd.mem_erase_iff]
    · exact ⟨rfl, hnd, (Finset.erase_eq_of_notMem (by simpa using hmem)).symm⟩

lemma tagged_run (call : TagCall) (h : s.get id = .ok m) (hnd : m.tags.Nodup) :
    Tagged id (if call.reaches now m then call.edit.onSet m.tags.toFinset else m.tags.toFinset)
      (call.run now s) := by
  obtain ⟨hid, _, hdr⟩ := Store.get_eq_ok.mp h
  obtain ⟨m', hld, htm⟩ := call.run_load now h
  have htags := congrArg Message.tags htm
  have hdr' := congrArg Message.isDraft htm
  simp only [forgetTimes] at htags hdr'
  obtain ⟨hkp, hspliced⟩ := call.edit.effect_tags now hnd
  refine ⟨m', Store.get_eq_ok.mpr ⟨hid, hld, ?_⟩, ?_⟩
  · rw [hdr']
    split_ifs
    · exact hkp.trans hdr
    · exact hdr
  · rw [htags]
    split_ifs
    · exact hspliced
    · exact ⟨hnd, rfl⟩

/-- **Tags are a set.**  Whatever calls are made, on a message or on others, the message that was
stored with no tag twice lists the tags of the set that the calls on it have edited, none of them
twice; and a call of `RemoveTag` removes the tag. -/
theorem tags_refine_set (hget : s.get id = .ok m) (hnodup : m.tags.Nodup)
    (calls : List (Time × TagCall)) :
    Tagged id (tagsAfter id calls s m.tags.toFinset) (runTags calls s)
      ∧ ∀ now tagID, ∃ m', ((runTags calls s).removeTag now id tagID).2.get id = .ok m'
        ∧ tagID ∉ m'.tags := by
  induction calls generalizing s m with
  | nil =>
    refine ⟨⟨m, hget, hnodup, rfl⟩, fun now tagID => ?_⟩
    obtain ⟨m', hget', _, hset⟩ := tagged_run now (.one id (.remove tagID)) hget hnodup
    refine ⟨m', hget', fun hmem => ?_⟩
    have hk := Table.key_of_load (Store.get_eq_ok.mp hget).2.1
    have : tagID ∈ m'.tags.toFinset := List.mem_toFinset.mpr hmem
    rw [hset] at this
    simp [TagCall.reaches, hk, TagCall.edit, TagEdit.onSet] at this
  | cons call calls ih =>
    obtain ⟨m', hget', hnodup', hset⟩ := tagged_run call.1 call.2 hget hnodup
    have hld := (Store.get_eq_ok.mp hget).2.1
    have := ih hget' hnodup'
    rw [hset] at this
    simpa [tagsAfter, runTags, hld] using this

/-- A message with two tags, one of which is removed. -/
theorem tags_refine_set_removed :
    let m := { Store.newDraft 0 "ann" with id := "1", isDraft := false, tags := ["x", "y"] }
    let s := Store.of (Table.empty.put m)
    let calls := [(1, TagCall.byFilter "ann" [hasTag "y"] (.remove "x"))]
    tagsAfter "1" calls s m.tags.toFinset = {"y"} ∧ Tagged "1" {"y"} (runTags calls s) :=
  ⟨by decide, (tags_refine_set (m := { Store.newDraft 0 "ann" with
    id := "1", isDraft := false, tags := ["x", "y"] }) rfl (by decide) _).1⟩

end Tags

end Mailbox.Service
