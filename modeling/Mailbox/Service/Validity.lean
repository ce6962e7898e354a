import Mailbox.Rules.Engine
import Mailbox.Service.BulkCalls
import Mailbox.Service.Compose
import Mailbox.Service.Writes

/-!
# Folders and tags that pass their checks

`MoveToFolder` refuses a folder that is not valid, `AddTag` a tag that is empty, too long or has
characters that are not allowed.  A message is *well filed* if its folder and its tags would pass.
Which calls keep all messages of the store well filed?

* The sends, the calls on single messages and their bulk versions do: the folder is a fixed one, or
  it has been checked, and so has the tag.
* `MoveByFilter` and `TagByFilter`, and the actions `set_folder` and `add_tag` of a rule, hand their
  argument to the store, which does not look at it.  They do exactly if the argument would have
  passed the check, or there is no message to apply it to.

**`well_filed_iff`**: a run keeps them so exactly if all its steps are `Checked`.
-/

namespace Mailbox.Service

open Memory MemoryMailbox

instance decidableOk {ε : Type} : (r : Except ε Unit) → Decidable (r = .ok ())
  | .ok () => isTrue rfl
  | .error _ => isFalse nofun

/-- The folder and the tags of a message would pass the checks.  Drafts have no folder. -/
def WellFiled (msg : Message) : Prop :=
  msg.isDraft = false →
    isValidFolderID msg.folderID = true ∧ ∀ tag ∈ msg.tags, checkTagID tag = .ok ()

instance : DecidablePred WellFiled := fun _ => inferInstanceAs (Decidable (_ → _))

/-! ## Updates of one message -/

variable {now : Time} {s : Store}

section Updates

variable {folderID tagID : String}

lemma wellFiled_moveToFolder (hval : isValidFolderID folderID = true) (opts : MoveOptions) :
    (Update.moveToFolder now folderID opts).Keeps WellFiled := by
  intro orig msg hdr h hupd
  rw [Update.moveToFolder] at hupd
  split_ifs at hupd
  cases hupd
  intro _
  exact ⟨hval, (h hdr).2⟩

lemma wellFiled_addTag (hval : checkTagID tagID = .ok ()) :
    (Update.addTag now tagID).Keeps WellFiled := by
  intro orig msg hdr h hupd
  rw [Update.addTag] at hupd
  split_ifs at hupd
  · cases hupd
  · cases hupd
    intro _
    refine ⟨(h hdr).1, fun tag htag => ?_⟩
    rcases List.mem_append.mp htag with htag | htag
    · exact (h hdr).2 tag htag
    · rw [List.mem_singleton.mp htag]
      exact hval

lemma wellFiled_removeTag (tagID : String) : (Update.removeTag now tagID).Keeps WellFiled := by
  intro orig msg hdr h hupd
  rw [Update.removeTag] at hupd
  split_ifs at hupd
  · cases hupd
    intro _
    exact ⟨(h hdr).1, fun tag htag => (h hdr).2 tag (List.mem_of_mem_erase htag)⟩
  · cases hupd

lemma wellFiled_markRead (read : Bool) : (Update.markRead now read).Keeps WellFiled := by
  rintro orig msg - h ⟨⟩
  exact h

lemma wellFiled_delete : (Update.delete now).Keeps WellFiled := by
  rintro orig msg hdr h ⟨⟩
  intro _
  exact ⟨(by decide : isValidFolderID folderTrash = true), (h hdr).2⟩

variable (h : s.Every WellFiled)

include h

lemma every_moveToFolder_iff (id : String) :
    (Store.moveToFolder now id folderID {} s).2.Every WellFiled
      ↔ isValidFolderID folderID = true ∨ (s.get id).isOk = false := by
  have hmutate : (Store.moveToFolder now id folderID {} s).2
      = (Store.mutate (.moveToFolder now folderID {}) id s).2 := by
    unfold Store.moveToFolder Store.mutate
    split_ifs with hid hfrom
    · rfl
    · exact absurd rfl hfrom.1
    · rfl
  rw [hmutate]
  rcases Store.get_cases id s with ⟨e, hg, hno⟩ | ⟨msg, hg, hid, hld, hdr⟩
  · rw [hno, hg]
    exact ⟨fun _ => .inr rfl, fun _ => h⟩
  · rw [Store.mutate_of_load hid hld hdr, hg]
    have hupd : Update.moveToFolder now folderID {} msg
        = .ok (some { msg with folderID := folderID, updatedAt := now }) := rfl
    simp only [hupd]
    rw [h.put_iff]
    constructor
    · intro hfil
      exact .inl (hfil hdr).1
    · rintro (hval | hmiss)
      · exact wellFiled_moveToFolder hval {} msg _ hdr (h.of_load hld) hupd
      · cases hmiss

lemma every_addTag_iff (id : String) : (Store.addTag now id tagID s).2.Every WellFiled
      ↔ checkTagID tagID = .ok () ∨ (s.get id).isOk = false := by
  rw [Store.addTag]
  rcases Store.get_cases id s with ⟨e, hg, hno⟩ | ⟨msg, hg, hid, hld, hdr⟩
  · rw [hno, hg]
    exact ⟨fun _ => .inr rfl, fun _ => h⟩
  · rw [hg]
    constructor
    · intro haft
      refine .inl ?_
      rw [Store.mutate_of_load hid hld hdr, Update.addTag] at haft
      split_ifs at haft with htag
      · exact (h.of_load hld hdr).2 tagID htag
      · rw [h.put_iff] at haft
        exact (haft hdr).2 tagID (by simp)
    · rintro (hval | hmiss)
      · exact h.mutate (wellFiled_addTag hval) id
      · cases hmiss

end Updates

lemma Writes.every {id : String} {t : Store} (h : Writes now id s t) :
    s.Every WellFiled → t.Every WellFiled := by
  induction h with
  | none => exact fun hs => hs
  | move hval opts => exact fun hs => hs.moveToFolder (wellFiled_moveToFolder hval opts) id
  | mark read => exact fun hs => hs.mutate (wellFiled_markRead read) id
  | addTag hval => exact fun hs => hs.mutate (wellFiled_addTag hval) id
  | removeTag tagID => exact fun hs => hs.mutate (wellFiled_removeTag tagID) id
  | remove => exact fun hs => hs.hardDelete id
  | trans _ _ ih ih' => exact fun hs => ih' (ih hs)

/-! ## Bulk calls -/

section Bulk

variable {m : MemoryMailbox} {i : Instance}

/-- A bulk operation keeps the messages well filed if it does so for those it changes. -/
lemma every_native_iff {u : String} {fs : List Filter} (h : s.Every WellFiled) (op : BulkOp) :
    (op.native now u fs s).2.Every WellFiled ↔ ∀ msg ∈ s.messages.all, op.hits now u fs msg = true →
        WellFiled (op.nativeEffect now msg) := by
  constructor
  · intro haft msg hmsg hhit
    refine haft _ ((mem_native op).mpr ⟨msg, hmsg, ?_⟩)
    rw [if_pos hhit]
  · intro hhits msg hmsg
    obtain ⟨orig, hor, rfl⟩ := (mem_native op).mp hmsg
    split_ifs with hhit
    · exact hhits orig hor hhit
    · exact h orig hor

/-- The operations that set neither a folder nor a tag of the caller's choice. -/
def BulkOp.Fixed : BulkOp → Prop
  | .move _ => False
  | .tag _ => False
  | _ => True

lemma every_native_fixed (h : s.Every WellFiled) (now : Time) (u : String) (fs : List Filter)
    (op : BulkOp) (hop : op.Fixed) : (op.native now u fs s).2.Every WellFiled := by
  rw [every_native_iff h]
  intro msg hmsg _
  have hfil := h msg hmsg
  cases op with
  | updateRead | markAllRead => exact hfil
  | delete =>
    intro hdr
    exact ⟨(by decide : isValidFolderID folderTrash = true), (hfil hdr).2⟩
  | untag =>
    intro hdr
    exact ⟨(hfil hdr).1, fun tag htag => (hfil hdr).2 tag (List.mem_of_mem_erase htag)⟩
  | move | tag => exact hop.elim

/-- The bulk call is let in, and there is a message it changes. -/
def MemoryMailbox.Reaches (m : MemoryMailbox) (filters : List Filter) (i : Instance) : Prop :=
  m.checkAccess = .ok () ∧ ∃ msg ∈ i.store.messages.all,
        selects m.service.now (scopedFilters m.userID filters) msg = true

section

variable (hi : i.store.Every WellFiled)

include hi

/-- For a bulk operation that puts into every message what is well filed exactly if `ok` holds. -/
lemma every_bulk_iff (op : BulkOp) (filters : List Filter) {ok : Prop}
    (hhits : ∀ msg, op.hits m.service.now m.userID filters msg
      = selects m.service.now (scopedFilters m.userID filters) msg)
    (hok : ∀ msg, msg.isDraft = false → WellFiled msg →
      (WellFiled (op.nativeEffect m.service.now msg) ↔ ok)) :
    (m.bulk op filters i).state.store.Every WellFiled ↔ ok ∨ ¬ m.Reaches filters i := by
  unfold MemoryMailbox.Reaches bulk
  cases m.checkAccess with
  | error => exact ⟨fun _ => .inr fun hreach => (nomatch hreach.1), fun _ => hi⟩
  | ok =>
    refine (every_native_iff hi op).trans ?_
    constructor
    · intro haft
      refine or_iff_not_imp_right.mpr fun hreach => ?_
      obtain ⟨-, msg, hmsg, hsel⟩ := not_not.mp hreach
      have hdr : msg.isDraft = false := by
        simp only [selects, Bool.and_eq_true, Bool.not_eq_true'] at hsel
        exact hsel.1.1
      rw [← hhits] at hsel
      exact (hok msg hdr (hi msg hmsg)).mp (haft msg hmsg hsel)
    · rintro h msg hmsg hhit
      rw [hhits] at hhit
      have hdr : msg.isDraft = false := by
        simp only [selects, Bool.and_eq_true, Bool.not_eq_true'] at hhit
        exact hhit.1.1
      rcases h with hok' | hno
      · exact (hok msg hdr (hi msg hmsg)).mpr hok'
      · exact absurd ⟨rfl, msg, hmsg, hhit⟩ hno

lemma every_moveByFilter_iff (filters : List Filter) (folderID : String) :
    (m.bulk (.move folderID) filters i).state.store.Every WellFiled
      ↔ isValidFolderID folderID = true ∨ ¬ m.Reaches filters i := by
  refine every_bulk_iff hi _ filters (fun _ => rfl) fun msg hdr hfil => ?_
  constructor
  · intro haft
    exact (haft hdr).1
  · intro hval _
    exact ⟨hval, (hfil hdr).2⟩

lemma every_tagByFilter_iff (filters : List Filter) (tagID : String) :
    (m.bulk (.tag tagID) filters i).state.store.Every WellFiled
      ↔ checkTagID tagID = .ok () ∨ ¬ m.Reaches filters i := by
  refine every_bulk_iff hi _ filters (fun _ => rfl) fun msg hdr hfil => ?_
  rw [BulkOp.nativeEffect]
  split_ifs with htag
  · exact ⟨fun _ => (hfil hdr).2 tagID htag, fun _ => hfil⟩
  · constructor
    · intro haft
      exact (haft hdr).2 tagID (by simp)
    · intro hval _
      refine ⟨(hfil hdr).1, fun tag hmem => ?_⟩
      rcases List.mem_append.mp hmem with hmem | hmem
      · exact (hfil hdr).2 tag hmem
      · rw [List.mem_singleton.mp hmem]
        exact hval

end

end Bulk

/-! ## Runs of calls and actions -/

/-- What is done to the messages: the calls of a mailbox, those that take a list of IDs, what
happens to drafts, and the actions of a rules engine. -/
inductive Operation where
  | send (m : MemoryMailbox) (draft : Message) (threadID replyToID externalID : String) (ttl : ℤ)
      (scheduleAt : Option Time) (deliverTo : List String)
  | mutate (m : MemoryMailbox) (order : Ranges) (fuel : ℕ) (c : Mutation)
  | bulk (m : MemoryMailbox) (c : BulkCall) (ctxErr : ℕ → Option Error) (messageIDs : List String)
  | saveDraft (m : MemoryMailbox) (d : Draft)
  | deleteDraft (d : Draft)
  | action (e : Rules.Engine) (now : Time) (messageID : String) (a : Rules.Action)

def Operation.apply (i : Instance) : Operation → Instance
  | .send m draft threadID replyToID externalID ttl scheduleAt deliverTo =>
    { i with
      world := (m.sendDraft draft threadID replyToID externalID ttl scheduleAt deliverTo
        i.world).state }
  | .mutate m order fuel c => (m.mutate order fuel i c).state
  | .bulk m c ctxErr messageIDs => (m.bulkOp c ctxErr messageIDs i).state
  | .saveDraft m d => { i with world := (d.save m i.world).2.2 }
  | .deleteDraft d => { i with world := (d.delete i.world).2 }
  | .action e now messageID a => i.setStore (e.applyAction now messageID a i.store).2

/-- The argument of a bulk call would have passed the check of the single call, or is not used. -/
def Mutation.Checked (m : MemoryMailbox) (i : Instance) : Mutation → Prop
  | .moveByFilter filters folderID => isValidFolderID folderID = true ∨ ¬ m.Reaches filters i
  | .tagByFilter filters tagID => checkTagID tagID = .ok () ∨ ¬ m.Reaches filters i
  | _ => True

/-- The value of an action would have passed the check of the call. -/
def ValueChecked (a : Rules.Action) : Prop :=
  match a.type with
  | .setFolder => isValidFolderID a.value = true
  | .addTag => checkTagID a.value = .ok ()
  | _ => True

/-- The value of an action would have passed the check, or there is no message. -/
def ActionChecked (messageID : String) (a : Rules.Action) (s : Store) : Prop :=
  ValueChecked a ∨ (s.get messageID).isOk = false

/-- The condition, in the state that the operation finds. -/
def Operation.Checked (i : Instance) : Operation → Prop
  | .mutate m _ _ c => c.Checked m i
  | .action _ _ messageID a => ActionChecked messageID a i.store
  | _ => True

/-! ## Rules -/

section Rules

variable {e : Rules.Engine}

lemma every_applyAction_iff (h : s.Every WellFiled) (messageID : String) (a : Rules.Action) :
    (e.applyAction now messageID a s).2.Every WellFiled ↔ ActionChecked messageID a s := by
  unfold Rules.Engine.applyAction ActionChecked ValueChecked
  cases a.type with
  | setFolder => exact every_moveToFolder_iff h messageID
  | addTag => exact every_addTag_iff h messageID
  | removeTag =>
    exact iff_of_true (h.mutate (wellFiled_removeTag a.value) messageID) (.inl trivial)
  | markRead => exact iff_of_true (h.mutate (wellFiled_markRead true) messageID) (.inl trivial)
  | delete => exact iff_of_true (h.mutate wellFiled_delete messageID) (.inl trivial)
  | hardDelete => exact iff_of_true (h.hardDelete messageID) (.inl trivial)
  | archive | spam =>
    exact iff_of_true (h.moveToFolder (wellFiled_moveToFolder (by decide) {}) messageID)
      (.inl trivial)
  | webhook => exact iff_of_true h (.inl trivial)
  | forward =>
    simp only
    split <;> exact iff_of_true h (.inl trivial)
  | other =>
    split_ifs <;> exact iff_of_true h (.inl trivial)

end Rules

/-! ## What one operation keeps -/

section Step

variable {i : Instance} (hi : i.store.Every WellFiled)

include hi

variable (m : MemoryMailbox)

lemma every_send (draft : Message) (threadID replyToID externalID : String)
    (ttl : ℤ) (scheduleAt : Option Time) (deliverTo : List String) :
    (m.sendDraft draft threadID replyToID externalID ttl scheduleAt deliverTo
      i.world).state.store.Every WellFiled := by
  -- New messages are in the outbox or in an inbox, without tags.
  have hkeeps : m.service.backend.Keeps (fun w => w.store.Every WellFiled)
      fun data => isValidFolderID data.folderID = true ∧ data.tags = [] := by
    rw [m.backend_eq]
    refine memoryBackend_keeps m.managed ?_ (wellFiled_moveToFolder (by decide) {})
    rintro data id ⟨hfo, htags⟩ _
    refine ⟨hfo, fun tag htag => ?_⟩
    have htag' : tag ∈ data.tags := htag
    simp [htags] at htag'
  exact UserMailbox.sendDraft_keeps hkeeps
    (fun _ _ => ⟨(by decide : isValidFolderID folderOutbox = true), rfl⟩)
    (fun _ _ _ _ => ⟨(by decide : isValidFolderID folderInbox = true), rfl⟩)
    draft threadID replyToID externalID ttl scheduleAt deliverTo hi

lemma every_mutate_iff (order : Ranges) (fuel : ℕ) (c : Mutation) :
    (m.mutate order fuel i c).state.store.Every WellFiled ↔ c.Checked m i := by
  have hfixed : (∀ op ∈ c.native, op.Fixed) →
      (m.mutate order fuel i c).state.store.Every WellFiled := fun hops =>
    mutate_induction hi (fun hw => hw.every)
      (fun op hop fs => every_native_fixed hi _ _ fs op (hops op hop)) order fuel
  cases c with
  | moveByFilter filters folderID => exact every_moveByFilter_iff hi filters folderID
  | tagByFilter filters tagID => exact every_tagByFilter_iff hi filters tagID
  | updateByFilter =>
    refine iff_of_true (hfixed fun op hop => ?_) trivial
    obtain ⟨_, _, rfl⟩ := Option.map_eq_some_iff.mp hop
    trivial
  | _ => exact iff_of_true (hfixed (by rintro _ ⟨⟩ <;> trivial)) trivial

/-- The bulk versions of the single calls make no use of the two calls that do not check. -/
lemma every_bulkOp (c : BulkCall) (ctxErr : ℕ → Option Error) (messageIDs : List String) :
    (m.bulkOp c ctxErr messageIDs i).state.store.Every WellFiled := by
  refine bulkOp_induction (P := fun i => i.store.Every WellFiled) hi c (fun i id hi => ?_) ctxErr
    messageIDs
  have hchecked : (c.mutation id).Checked m i := by cases c <;> trivial
  exact (every_mutate_iff hi m inOrder 0 _).mpr hchecked

lemma every_saveDraft (d : Draft) : (d.save m i.world).2.2.store.Every WellFiled := by
  unfold Draft.save saveDraft
  cases m.checkDraft (d.mirrored m.service.now) with
  | error => exact hi
  | ok => exact Store.Every.saveDraft hi nofun

lemma every_deleteDraft (d : Draft) : (d.delete i.world).2.store.Every WellFiled := by
  unfold Draft.delete
  split_ifs
  · exact hi
  · exact Store.Every.deleteDraft hi d.message.id

/-- **One operation** leaves the messages well filed exactly if it is checked. -/
theorem every_apply_iff (op : Operation) : (op.apply i).store.Every WellFiled ↔ op.Checked i := by
  cases op with
  | send m draft threadID replyToID externalID ttl scheduleAt deliverTo =>
    exact iff_of_true
      (every_send hi m draft threadID replyToID externalID ttl scheduleAt deliverTo) trivial
  | mutate m order fuel c => exact every_mutate_iff hi m order fuel c
  | bulk m c ctxErr messageIDs => exact iff_of_true (every_bulkOp hi m c ctxErr messageIDs) trivial
  | saveDraft m d => exact iff_of_true (every_saveDraft hi m d) trivial
  | deleteDraft d => exact iff_of_true (every_deleteDraft hi d) trivial
  | action e now messageID a => exact every_applyAction_iff hi messageID a

end Step

/-- **Folders and tags in a run.**  From a store whose messages are all well filed: every state of a
run is well filed exactly if every operation of the run is checked in the state it finds. -/
theorem well_filed_iff (operations : List Operation) (i : Instance)
    (hstart : i.store.Every WellFiled) :
    (∀ n, ((operations.take n).foldl Operation.apply i).store.Every WellFiled)
      ↔ ∀ e ∈ Machine.steps Operation.apply operations i, e.2.Checked e.1 := by
  have hstep : ∀ (i : Instance) (op : Operation), i.store.Every WellFiled →
      ((op.apply i).store.Every WellFiled ↔ op.Checked i) := fun i op hi => every_apply_iff hi op
  exact Machine.always_iff hstep hstart

/-! ## What is not checked -/

/-- One message in Ann's inbox. -/
def annsInbox : Instance := freshInstance (Table.empty.put (letterTo "m1" "ann"))

/-- Calls and actions with folders and tags that pass the checks, and one without a message. -/
def annsOperations : List Operation :=
  [.mutate (plainMemoryMailbox "ann") inOrder 0 (.moveByFilter [] "work"),
    .action Rules.noRules 2 "m1" ⟨.setFolder, "clients"⟩,
    .mutate (plainMemoryMailbox "ann") inOrder 0 (.tagByFilter [] "urgent"),
    .action Rules.noRules 3 "m2" ⟨.addTag, ""⟩]

theorem well_filed_ann : annsInbox.store.Every WellFiled
      ∧ ∀ n, ((annsOperations.take n).foldl Operation.apply annsInbox).store.Every WellFiled := by
  have hst : annsInbox.store.Every WellFiled := by decide
  refine ⟨hst, (well_filed_iff annsOperations annsInbox hst).mpr ?_⟩
  simp only [annsOperations, Machine.steps, List.forall_mem_cons]
  refine ⟨.inl (by decide), .inl (by decide : isValidFolderID "clients" = true),
    .inl (by decide), .inr (by decide), by simp⟩

/-- Bulk calls and actions put a message into a folder that no single call would move it to, and
give it a tag that no single call would add. -/
theorem unchecked_folder_and_tag : annsInbox.store.Every WellFiled
      ∧ ¬ (Operation.apply annsInbox (.mutate (plainMemoryMailbox "ann") inOrder 0
        (.moveByFilter [] ""))).store.Every WellFiled
      ∧ ¬ (Operation.apply annsInbox (.mutate (plainMemoryMailbox "ann") inOrder 0
        (.tagByFilter [] "a/b"))).store.Every WellFiled
      ∧ ¬ (Operation.apply annsInbox
        (.action Rules.noRules 2 "m1" ⟨.setFolder, "__nowhere"⟩)).store.Every WellFiled
      ∧ ¬ (Operation.apply annsInbox
        (.action Rules.noRules 2 "m1" ⟨.addTag, ""⟩)).store.Every WellFiled := by
  decide

end Mailbox.Service
