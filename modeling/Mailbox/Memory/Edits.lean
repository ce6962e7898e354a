import Mathlib.Data.Set.Insert
import Mailbox.Memory.Create

/-!
# Edits

Once a message is stored, the store's operations file it, mark it, tag it or remove it.  The rest
is its content (`contentOf`), which they leave alone.

An **edit** of some messages at a time leaves each of them as it is, changes it and notes the time,
or removes it (`Fate`); all other messages it leaves alone (`Edits`).  Edits at one time compose.
-/

namespace Mailbox.Memory

/-- All of a message but the folder, the read state, the tags and the time of the last update. -/
def contentOf (m : Message) : Message :=
  { m with folderID := "", isRead := false, readAt := none, tags := [], updatedAt := 0 }

variable {m m' : Message}

/-- Messages with the same content agree in all that is read off the content. -/
lemma eq_of_content {α : Type} (f : Message → α) (hf : ∀ m, f (contentOf m) = f m)
    (h : contentOf m = contentOf m') : f m = f m' := by
  rw [← hf m, h, hf m']

lemma id_eq_of_content (h : contentOf m = contentOf m') : m.id = m'.id :=
  eq_of_content Message.id (fun _ => rfl) h

/-- What becomes of the entry for an ID when it is edited. -/
inductive Fate (now : Time) : Option Message → Option Message → Prop where
  | same (entry : Option Message) : Fate now entry entry
  | edited {orig msg : Message} (hcontent : contentOf msg = contentOf orig)
      (hat : msg.updatedAt = now) : Fate now (some orig) (some msg)
  | removed (orig : Message) : Fate now (some orig) none

variable {now : Time} {entry : Option Message}

lemma Fate.trans {entry' entry'' : Option Message} (h : Fate now entry entry')
    (h' : Fate now entry' entry'') : Fate now entry entry'' := by
  cases h with
  | same => exact h'
  | edited hct hat =>
    cases h' with
    | same => exact .edited hct hat
    | edited hct' hat' => exact .edited (hct'.trans hct) hat'
    | removed => exact .removed _
  | removed =>
    cases h' with
    | same => exact .removed _

variable {msg : Message}

lemma Fate.content (h : Fate now entry (some msg)) :
    ∃ orig, entry = some orig ∧ contentOf msg = contentOf orig := by
  cases h with
  | same => exact ⟨msg, rfl, rfl⟩
  | edited hct => exact ⟨_, rfl, hct⟩

/-- The second store is the first one after an edit of the given messages. -/
structure Edits (now : Time) (ids : Set String) (s t : Store) : Prop where
  fate : ∀ id, Fate now (s.messages.load id) (t.messages.load id)
  frame : ∀ id, id ∉ ids → t.messages.load id = s.messages.load id
  drawn : t.drawn = s.drawn

section Edits

variable {ids ids' : Set String} {s t t' : Store} {id : String} {orig : Message}

lemma Edits.refl : Edits now ids s s := ⟨fun _ => .same _, fun _ _ => rfl, rfl⟩

lemma Edits.trans (h : Edits now ids s t) (h' : Edits now ids t t') : Edits now ids s t' where
  fate id := (h.fate id).trans (h'.fate id)
  frame id hid := (h'.frame id hid).trans (h.frame id hid)
  drawn := h'.drawn.trans h.drawn

lemma Edits.mono (h : Edits now ids s t) (hsub : ids ⊆ ids') : Edits now ids' s t :=
  ⟨h.fate, fun id hid => h.frame id fun hmem => hid (hsub hmem), h.drawn⟩

lemma Edits.content (h : Edits now ids s t) (hld : t.messages.load id = some msg) :
    ∃ orig, s.messages.load id = some orig ∧ contentOf msg = contentOf orig := by
  have hfa := h.fate id
  rw [hld] at hfa
  exact hfa.content

lemma edits_put (hld : s.messages.load id = some orig) (hct : contentOf msg = contentOf orig)
    (hat : msg.updatedAt = now) : Edits now {id} s (s.put msg) := by
  have hid : msg.id = id := (id_eq_of_content hct).trans (Table.key_of_load hld)
  have hframe : ∀ id', id' ≠ id → (s.messages.put msg).load id' = s.messages.load id' :=
    fun id' hne => Table.load_put_of_ne (by rwa [hid])
  refine ⟨fun id' => ?_, fun id' hne => hframe id' hne, rfl⟩
  by_cases heq : id' = id
  · subst heq
    have hself : (s.messages.put msg).load msg.id = some msg := Table.load_put_self
    rw [hid] at hself
    simp only [hld, hself]
    exact .edited hct hat
  · simp only [hframe id' heq]
    exact .same _

lemma edits_of_removed {store : Store} (hld : ∀ id, store.messages.load id = s.messages.load id
      ∨ id ∈ ids ∧ store.messages.load id = none)
    (hdrw : store.drawn = s.drawn) : Edits now ids s store where
  fate id := by
    rcases hld id with heq | ⟨_, hno⟩
    · rw [heq]
      exact .same _
    · rw [hno]
      cases s.messages.load id with
      | none => exact .same _
      | some orig => exact .removed orig
  frame id hid := (hld id).resolve_right fun h => hid h.1
  drawn := hdrw

lemma edits_delete : Edits now {id} s (s.remove id) := by
  refine edits_of_removed (fun id' => ?_) rfl
  by_cases heq : id' = id
  · exact .inr ⟨heq, heq ▸ Table.load_delete⟩
  · exact .inl (Table.load_delete_of_ne heq)

end Edits

/-! ## Updates -/

namespace Update

/-- An update that edits its message at the given time. -/
def EditsAt (now : Time) (u : Update) : Prop :=
  ∀ orig msg, u orig = .ok (some msg) → contentOf msg = contentOf orig ∧ msg.updatedAt = now

variable {now : Time}

lemma editsAt_markRead (read : Bool) : EditsAt now (markRead now read) := by
  rintro orig msg ⟨⟩
  exact ⟨rfl, rfl⟩

lemma editsAt_moveToFolder (folderID : String) (opts : MoveOptions) :
    EditsAt now (moveToFolder now folderID opts) := by
  intro orig msg h
  unfold moveToFolder at h
  split_ifs at h
  cases h
  exact ⟨rfl, rfl⟩

lemma editsAt_addTag (tagID : String) : EditsAt now (addTag now tagID) := by
  intro orig msg h
  unfold addTag at h
  split_ifs at h <;> cases h
  exact ⟨rfl, rfl⟩

lemma editsAt_removeTag (tagID : String) : EditsAt now (removeTag now tagID) := by
  intro orig msg h
  unfold removeTag at h
  split_ifs at h <;> cases h
  exact ⟨rfl, rfl⟩

lemma editsAt_delete : EditsAt now (delete now) := by
  rintro orig msg ⟨⟩
  exact ⟨rfl, rfl⟩

end Update

/-! ## The operations on one message -/

namespace Store

variable {now : Time} {s : Store}

lemma edits_mutate {u : Update} (hu : u.EditsAt now) (id : String) :
    Edits now {id} s (mutate u id s).2 := by
  unfold mutate
  split_ifs
  · exact .refl
  · cases hld : s.messages.load id with
    | none => exact .refl
    | some orig =>
      simp only
      split_ifs
      · exact .refl
      · cases hupd : u orig with
        | error => exact .refl
        | ok changed =>
          cases changed with
          | none => exact .refl
          | some msg =>
            obtain ⟨hct, hat⟩ := hu orig msg hupd
            exact edits_put hld hct hat

lemma edits_moveToFolder (id folderID : String) (opts : MoveOptions) :
    Edits now {id} s (moveToFolder now id folderID opts s).2 := by
  unfold moveToFolder
  split_ifs
  · exact .refl
  · exact .refl
  · exact edits_mutate (Update.editsAt_moveToFolder folderID opts) id

lemma edits_hardDelete (id : String) : Edits now {id} s (hardDelete id s).2 := by
  unfold hardDelete
  split_ifs
  · exact .refl
  · cases s.messages.load id with
    | none => exact .refl
    | some =>
      simp only
      split_ifs
      · exact .refl
      · exact edits_delete

lemma edits_deleteDraft (id : String) : Edits now {id} s (deleteDraft id s).2 := by
  unfold deleteDraft
  split_ifs
  · exact .refl
  · cases s.messages.load id with
    | none => exact .refl
    | some =>
      simp only
      split_ifs
      · exact edits_delete
      · exact .refl

lemma edits_deleteMessagesByIDs (ids : List String) :
    Edits now {id | id ∈ ids} s (deleteMessagesByIDs ids s).2 := by
  induction ids generalizing s with
  | nil => exact .refl
  | cons id ids ih =>
    have htl : {id' | id' ∈ ids} ⊆ {id' | id' ∈ id :: ids} := fun id' h =>
      List.mem_cons_of_mem id h
    rw [deleteMessagesByIDs]
    cases s.messages.load id with
    | none => exact ih.mono htl
    | some =>
      have hhd : ({id} : Set String) ⊆ {id' | id' ∈ id :: ids} := by
        rintro id' rfl
        exact List.mem_cons_self
      exact (edits_delete.mono hhd).trans (ih.mono htl)

end Store

end Mailbox.Memory
