import Mailbox.Service.OwnerIsolation

/-!
# What the calls for one message write

Every call of `mutate.go` for a single message comes down to a few writes of that message, whether
it is refused, fails half way, or its event is not published: it is moved to a folder that has been
checked, or that the service has chosen; it is marked; a tag that has been checked is added, or one
is removed; or it is deleted for good.
-/

namespace Mailbox.Service

open Memory MemoryMailbox

/-- A few writes of one message. -/
inductive Writes (now : Time) (id : String) : Store → Store → Prop where
  | none {s : Store} : Writes now id s s
  | move {s : Store} {folderID : String} (hvalid : isValidFolderID folderID = true)
      (opts : MoveOptions) : Writes now id s (Store.moveToFolder now id folderID opts s).2
  | mark {s : Store} (read : Bool) : Writes now id s (Store.mutate (.markRead now read) id s).2
  | addTag {s : Store} {tagID : String} (hvalid : checkTagID tagID = .ok ()) :
      Writes now id s (Store.mutate (.addTag now tagID) id s).2
  | removeTag {s : Store} (tagID : String) :
      Writes now id s (Store.mutate (.removeTag now tagID) id s).2
  | remove {s : Store} : Writes now id s (Store.hardDelete id s).2
  | trans {s t t' : Store} (h : Writes now id s t) (h' : Writes now id t t') : Writes now id s t'

/-! ## The parts of a call -/

section Parts

variable {m : MemoryMailbox} {i : Instance} {now : Time} {id : String}

lemma writes_guarded {r : Reply Result} (h : Writes now id i.store r.state.store) :
    Writes now id i.store (m.guarded i r).state.store := by
  unfold guarded
  split
  · exact .none
  · exact h

lemma writes_verified {k : Message → Reply Result}
    (h : ∀ msg, Writes now id i.store (k msg).state.store) :
    Writes now id i.store (m.verified id i k).state.store := by
  unfold verified
  split
  · exact .none
  · exact h _

lemma writes_opAndPublish {event : MutationEvent} {op : StoreOp}
    (h : Writes now id i.store (op i.store).2) :
    Writes now id i.store (m.opAndPublish event op i).state.store := by
  show Writes now id i.store (Service.opAndPublish _ _ _ op i.store).2
  rwa [opAndPublish_state]

lemma writes_moveAndPublish (fromFolderID : String) {toFolderID : String}
    (hval : isValidFolderID toFolderID = true) (wasUnread : Bool) (opts : MoveOptions) :
    Writes m.service.now id i.store
      (m.moveAndPublish id fromFolderID toFolderID wasUnread opts i).state.store := by
  unfold MemoryMailbox.moveAndPublish Service.moveAndPublish
  split_ifs
  · exact .none
  · exact writes_opAndPublish (.move hval opts)

lemma isValidFolderID_defaultFolder (msg : Message) :
    isValidFolderID (defaultFolderForMessage msg) = true := by
  rw [defaultFolderForMessage]
  split_ifs <;> decide

lemma isValidFolderID_flaggedFolder (msg : Message) (archived : Bool) :
    isValidFolderID (flaggedFolder msg (some archived)) = true := by
  cases archived with
  | true => exact (by decide : isValidFolderID folderArchived = true)
  | false => exact isValidFolderID_defaultFolder msg

lemma writes_applyArchived (msg : Message) (archived : Option Bool) :
    Writes m.service.now id i.store (m.applyArchived id msg archived i).state.store := by
  cases archived with
  | none => exact .none
  | some b => exact writes_moveAndPublish _ (isValidFolderID_flaggedFolder msg b) _ _

lemma writes_applyRead (currentFolderID : String) (read : Option Bool) :
    Writes m.service.now id i.store (m.applyRead id currentFolderID read i).state.store := by
  match read with
  | none => exact .none
  | some true => exact writes_opAndPublish (.mark true)
  | some false => exact .mark false

end Parts

/-! ## The calls -/

section Calls

variable (m : MemoryMailbox) (i : Instance) (id : String)

lemma writes_updateFlags (flags : Flags) :
    Writes m.service.now id i.store (m.updateFlags id flags i).state.store := by
  refine writes_guarded ?_
  split_ifs
  · exact .none
  · refine writes_verified fun msg => ?_
    have harchived : Writes m.service.now id i.store
        (m.applyArchived id msg flags.archived i).state.store :=
      writes_applyArchived msg flags.archived
    unfold Reply.andThen
    split
    · exact harchived
    · exact harchived.trans (writes_applyRead _ flags.read)

lemma writes_delete : Writes m.service.now id i.store (m.delete id i).state.store := by
  refine writes_guarded (writes_verified fun msg => ?_)
  split_ifs
  · exact .none
  · exact writes_moveAndPublish _ (by decide : isValidFolderID folderTrash = true) _ _

lemma writes_restore : Writes m.service.now id i.store (m.restore id i).state.store := by
  refine writes_guarded (writes_verified fun msg => ?_)
  split_ifs
  · exact .none
  · exact writes_moveAndPublish _ (isValidFolderID_defaultFolder msg) _ _

lemma writes_permanentlyDelete :
    Writes m.service.now id i.store (m.permanentlyDelete id i).state.store := by
  refine writes_guarded (writes_verified fun msg => ?_)
  split_ifs
  · exact .none
  · have hdeleted : Writes m.service.now id i.store (m.opAndPublish
        (.messageDeleted id m.userID msg.folderID (!msg.isRead) m.service.now)
        (Store.hardDelete id) i).state.store := writes_opAndPublish .remove
    simp only
    split
    · exact hdeleted
    · show Writes m.service.now id i.store (m.releaseAttachmentRefs msg _).2.store
      rw [releaseAttachmentRefs_store]
      exact hdeleted

lemma writes_moveToFolder (folderID : String) (opts : MoveOptions) :
    Writes m.service.now id i.store (m.moveToFolder id folderID opts i).state.store := by
  refine writes_guarded ?_
  split_ifs with hval
  · exact .none
  · exact .none
  · exact writes_verified fun msg => writes_moveAndPublish _ (by simpa using hval) _ opts

lemma writes_changeTag {update : Update} (context tagID : String) (h : checkTagID tagID = .ok () →
      Writes m.service.now id i.store (Store.mutate update id i.store).2) :
    Writes m.service.now id i.store
      (m.changeTag context id tagID (Store.mutate update id) i).state.store := by
  refine writes_guarded ?_
  cases hcheck : checkTagID tagID with
  | error => exact .none
  | ok => exact writes_verified fun _ => h hcheck

/-- **The calls for one message** write that message, a few times. -/
theorem writes_mutation (order : Ranges) (fuel : ℕ) (c : Mutation) :
    ∀ id ∈ c.messageID, Writes m.service.now id i.store (m.mutate order fuel i c).state.store := by
  cases c <;> rintro id ⟨⟩
  · exact writes_updateFlags m i _ _
  · exact writes_delete m i _
  · exact writes_restore m i _
  · exact writes_permanentlyDelete m i _
  · exact writes_moveToFolder m i _ _ _
  · exact writes_changeTag m i _ "add tag" _ .addTag
  · exact writes_changeTag m i _ "remove tag" _ fun _ => .removeTag _

/-- What a bulk call hands to the store. -/
def Mutation.native : Mutation → Option BulkOp
  | .markAllRead folderID => some (.markAllRead folderID)
  | .updateByFilter _ flags => flags.read.map .updateRead
  | .moveByFilter _ folderID => some (.move folderID)
  | .deleteByFilter _ => some .delete
  | .tagByFilter _ tagID => some (.tag tagID)
  | .untagByFilter _ tagID => some (.untag tagID)
  | _ => none

variable {m i}

/-- **All calls** keep what writes keep, and the bulk operations of the store. -/
theorem mutate_induction {P : Store → Prop} (hi : P i.store)
    (hwrites : ∀ {id s t}, Writes m.service.now id s t → P s → P t) {c : Mutation}
    (hnative : ∀ op ∈ c.native, ∀ fs, P (op.native m.service.now m.userID fs i.store).2)
    (order : Ranges) (fuel : ℕ) : P (m.mutate order fuel i c).state.store := by
  have hbulk : ∀ op ∈ c.native, ∀ fs, P (m.bulk op fs i).state.store := by
    intro op hop fs
    unfold bulk
    cases m.checkAccess with
    | error => exact hi
    | ok => exact hnative op hop fs
  cases c with
  | markAllRead folderID =>
    show P (m.markAllRead folderID i).state.store
    unfold markAllRead
    cases m.checkAccess with
    | error => exact hi
    | ok =>
      simp only
      split_ifs
      · exact hnative _ rfl []
      · rw [publishMutation_state]
        exact hnative _ rfl []
  | updateByFilter fs flags =>
    show P (m.updateByFilter order fuel fs flags i).state.store
    unfold updateByFilter updateByFilterOn
    cases hread : flags.read with
    | some read => exact hbulk _ (by simp [Mutation.native, hread]) fs
    | none =>
      cases m.checkAccess with
      | error => exact hi
      | ok =>
        have hmark : ∀ (s : Store) (id : String), P s → True →
            P ((BulkOp.updateRead false).single m.service.now id s).2 :=
          fun s id h _ => hwrites (.mark false) h
        exact pageLoop_induction hmark (fun _ _ _ _ _ _ _ _ => trivial) fuel "" 0 hi
  | moveByFilter fs | deleteByFilter fs | tagByFilter fs | untagByFilter fs => exact hbulk _ rfl fs
  | _ => exact hwrites (writes_mutation m i order fuel _ _ rfl) hi

end Calls

end Mailbox.Service
