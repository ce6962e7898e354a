import Mailbox.Service.Writes

/-!
# The calls of a mailbox as edits

Every call of `mutate.go` is an edit at the time of the call: one for a single message edits that
message, and the bulk calls edit what they come to.  Nothing is assumed about how the call ends —
whether it is refused, fails half way, or its event is not published.

`load_native` says more about the bulk calls that the store does itself: what is stored under an ID
afterwards.
-/

namespace Mailbox.Service

open Memory MemoryMailbox

lemma Writes.edits {now : Time} {id : String} {s t : Store} (h : Writes now id s t) :
    Edits now {id} s t := by
  induction h with
  | none => exact .refl
  | move _ opts => exact Store.edits_moveToFolder id _ opts
  | mark read => exact Store.edits_mutate (Update.editsAt_markRead read) id
  | addTag => exact Store.edits_mutate (Update.editsAt_addTag _) id
  | removeTag tagID => exact Store.edits_mutate (Update.editsAt_removeTag tagID) id
  | remove => exact Store.edits_hardDelete id
  | trans _ _ ih ih' => exact ih.trans ih'

/-! ## Bulk calls -/

section Bulk

variable {now : Time} {u : String} {fs : List Filter} {s : Store}

lemma content_nativeEffect (op : BulkOp) (msg : Message) :
    contentOf (op.nativeEffect now msg) = contentOf msg := by
  cases op with
  | tag =>
    simp only [BulkOp.nativeEffect]
    split_ifs <;> rfl
  | _ => rfl

lemma updatedAt_nativeEffect (op : BulkOp) (msg : Message) :
    (op.nativeEffect now msg).updatedAt = now := by
  cases op <;> rfl

/-- What is stored under an ID after a bulk operation of the store. -/
theorem load_native (op : BulkOp) (id : String) :
    (op.native now u fs s).2.messages.load id = (s.messages.load id).map fun orig =>
      if op.hits now u fs orig then op.nativeEffect now orig else orig := by
  have hid : ∀ orig : Message,
      (if op.hits now u fs orig then op.nativeEffect now orig else orig).id = orig.id := by
    intro orig
    split_ifs
    · exact op.nativeEffect_id now orig
    · rfl
  cases hld : s.messages.load id with
  | none =>
    rw [Option.map_none, Table.load_eq_none_iff]
    intro msg hmsg
    obtain ⟨orig, hor, rfl⟩ := (mem_native op).mp hmsg
    rw [hid]
    exact Table.load_eq_none_iff.mp hld orig hor
  | some orig =>
    obtain ⟨hor, hk⟩ := Table.load_eq_some_iff.mp hld
    rw [Option.map_some, Table.load_eq_some_iff]
    exact ⟨(mem_native op).mpr ⟨orig, hor, rfl⟩, (hid orig).trans hk⟩

lemma edits_native (op : BulkOp) : Edits now Set.univ s (op.native now u fs s).2 where
  fate id := by
    rw [load_native]
    cases s.messages.load id with
    | none => exact .same _
    | some orig =>
      simp only [Option.map_some]
      split_ifs
      · exact .edited (content_nativeEffect op orig) (updatedAt_nativeEffect op orig)
      · exact .same _
  frame id hid := absurd trivial hid
  drawn := by
    obtain ⟨t, hnat, _⟩ := native_spec now u fs op s
    rw [hnat]

variable (m : MemoryMailbox) (i : Instance)

/-- **Every call of a mailbox that changes messages is an edit.** -/
theorem edits_mutation (order : Ranges) (fuel : ℕ) (c : Mutation) :
    Edits m.service.now Set.univ i.store (m.mutate order fuel i c).state.store :=
  mutate_induction .refl (fun hw h => h.trans (hw.edits.mono (Set.subset_univ _)))
    (fun op _ _ => edits_native op) order fuel

end Bulk

end Mailbox.Service
