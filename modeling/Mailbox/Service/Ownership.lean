import Mailbox.Memory.Edits
import Mailbox.Service.BulkSpec
import Mailbox.Service.Calls
import Mailbox.Service.Transmission

/-!
# What a call may do to the messages of others

Every entry point of a mailbox enforces ownership in its own way: the single-message calls verify
the owner after `Get`, the listings and iterators put an owner filter before or after the caller's
filters, the bulk operations hand the owner to the store.

`Untouched` is what a call leaves of everybody else's messages.  `Agree u s t` says that two stores
hold the same messages of `u`; calls on agreeing stores are to end in agreeing stores, with the same
result.  The single-message calls share the argument for both: `Confined` is what the part of a
call after the check has to satisfy, `isolated_verified` adds the check.
-/

namespace Mailbox.Service

open Memory List Table Store

/-! ## Whose messages -/

def owned (u : String) (msg : Message) : Bool := decide (msg.ownerID = u)

/-- The two stores hold the same messages of the user. -/
def Agree (u : String) (s t : Store) : Prop :=
  ∀ msg, msg.ownerID = u → (msg ∈ s.messages.all ↔ msg ∈ t.messages.all)

/-- Everybody else's messages are as they were. -/
def Untouched (u : String) (s s' : Store) : Prop :=
  ∀ msg, msg.ownerID ≠ u → (msg ∈ s'.messages.all ↔ msg ∈ s.messages.all)

/-- The ID is that of a message of the user. -/
def Owns (u id : String) (s : Store) (msg : Message) : Prop :=
  s.messages.load id = some msg ∧ msg.ownerID = u ∧ msg.isDraft = false

/-- The ID is that of somebody else's message. -/
def Foreign (u id : String) (s : Store) : Prop :=
  ∃ msg, s.messages.load id = some msg ∧ msg.ownerID ≠ u

variable {p : Message → Bool} {u id : String} {s t : Store} {msg : Message}

section Basics

variable {s' s'' : Store}

lemma Untouched.refl (u : String) (s : Store) : Untouched u s s := fun _ _ => Iff.rfl

lemma Untouched.trans (h : Untouched u s s') (h' : Untouched u s' s'') : Untouched u s s'' :=
  fun msg hmsg => (h' msg hmsg).trans (h msg hmsg)

section

variable (h : Agree u s t)

include h

lemma Agree.load (hld : s.messages.load id = some msg)
    (hown : msg.ownerID = u) : t.messages.load id = some msg := by
  rw [load_eq_some_iff] at hld ⊢
  exact ⟨(h msg hown).mp hld.1, hld.2⟩

lemma Agree.symm : Agree u t s := fun msg hmsg => (h msg hmsg).symm

lemma Agree.owns (hon : Owns u id s msg) : Owns u id t msg :=
  ⟨h.load hon.1 hon.2.1, hon.2⟩

lemma Agree.perm : (s.messages.all.filter (owned u)).Perm (t.messages.all.filter (owned u)) := by
  refine (perm_ext_iff_of_nodup (s.messages.nodup_all.filter _)
    (t.messages.nodup_all.filter _)).mpr fun msg => ?_
  simp only [List.mem_filter, owned, decide_eq_true_eq]
  constructor
  · rintro ⟨hmem, hown⟩
    exact ⟨(h msg hown).mp hmem, hown⟩
  · rintro ⟨hmem, hown⟩
    exact ⟨(h msg hown).mpr hmem, hown⟩

lemma Agree.countP (hp : ∀ m, p m = true → owned u m = true) :
    s.messages.all.countP p = t.messages.all.countP p := by
  have hown : ∀ l : List Message, l.countP p = (l.filter (owned u)).countP p := by
    intro l
    rw [countP_filter]
    refine countP_congr fun m _ => ?_
    simpa using hp m
  rw [hown, hown t.messages.all, h.perm.countP_eq]

end

lemma untouched_put (hon : Owns u id s msg) {m : Message} (hid : m.id = id)
    (hown : m.ownerID = u) : Untouched u s (s.put m) := by
  intro other hoth
  rw [mem_put]
  constructor
  · rintro (rfl | ⟨hmem, _⟩)
    · exact absurd hown hoth
    · exact hmem
  · intro hmem
    refine .inr ⟨hmem, fun hk => hoth ?_⟩
    have hld : s.messages.load id = some other := load_eq_some_iff.mpr ⟨hmem, hk.trans hid⟩
    rw [hon.1] at hld
    cases hld
    exact hon.2.1

lemma agree_put (h : Agree u s t) (m : Message) :
    Agree u (s.put m) (t.put m) := by
  intro other hoth
  rw [mem_put, mem_put, h other hoth]

lemma untouched_delete (hon : Owns u id s msg) :
    Untouched u s (s.remove id) := by
  intro other hoth
  rw [mem_delete]
  refine ⟨fun h => h.1, fun hmem => ⟨hmem, fun hk => hoth ?_⟩⟩
  have hld : s.messages.load id = some other := load_eq_some_iff.mpr ⟨hmem, hk⟩
  rw [hon.1] at hld
  cases hld
  exact hon.2.1

end Basics

/-! ## What is known of an operation on a message of the user -/

/-- A store operation stays with the user's message. -/
structure StoreConfined (u id : String) (op : StoreOp) : Prop where
  untouched : ∀ {s msg}, Owns u id s msg → Untouched u s (op s).2
  agree : ∀ {s t msg}, Owns u id s msg → Agree u s t →
    (op s).1 = (op t).1 ∧ Agree u (op s).2 (op t).2

/-- The part of a call that comes after the check stays with the user's message. -/
structure Confined (u id : String) (f : Instance → Reply Result) : Prop where
  untouched : ∀ {i msg}, Owns u id i.store msg → Untouched u i.store (f i).state.store
  agree : ∀ {i j msg}, Owns u id i.store msg → Agree u i.store j.store →
    (f i).result = (f j).result ∧ Agree u (f i).state.store (f j).state.store

/-- An update that stays with the message's owner. -/
def KeepsOwner (update : Update) : Prop :=
  ∀ orig m, update orig = .ok (some m) → m.ownerID = orig.ownerID ∧ m.isDraft = orig.isDraft

variable {now : Time} {update : Update}

lemma keepsOwner_of (h : update.EditsAt now) : KeepsOwner update := by
  intro orig m hm
  have hcont := (h orig m hm).1
  exact ⟨eq_of_content Message.ownerID (fun _ => rfl) hcont,
    eq_of_content Message.isDraft (fun _ => rfl) hcont⟩

lemma storeConfined_mutate (hu : update.EditsAt now) : StoreConfined u id (mutate update id) where
  untouched {s msg} hon := by
    by_cases hemp : id = ""
    · simp only [mutate, if_pos hemp]
      exact .refl u s
    · rw [mutate_of_load hemp hon.1 hon.2.2]
      cases hupd : update msg with
      | error => exact .refl u s
      | ok changed =>
        cases changed with
        | none => exact .refl u s
        | some =>
          exact untouched_put hon ((id_eq_of_content (hu _ _ hupd).1).trans (key_of_load hon.1))
            ((keepsOwner_of hu _ _ hupd).1.trans hon.2.1)
  agree {s t msg} hon h := by
    by_cases hemp : id = ""
    · simp only [mutate, if_pos hemp]
      exact ⟨trivial, h⟩
    · rw [mutate_of_load hemp hon.1 hon.2.2, mutate_of_load hemp (h.owns hon).1 hon.2.2]
      cases update msg with
      | error => exact ⟨rfl, h⟩
      | ok changed =>
        cases changed with
        | none => exact ⟨rfl, h⟩
        | some m => exact ⟨rfl, agree_put h m⟩

lemma owns_mutate (hu : update.EditsAt now) {id' : String}
    (hon : Owns u id' s msg) : ∃ msg', Owns u id' (mutate update id s).2 msg' := by
  unfold mutate
  split_ifs
  · exact ⟨msg, hon⟩
  split
  · exact ⟨msg, hon⟩
  · rename_i orig hld
    split_ifs with hdr
    · exact ⟨msg, hon⟩
    split
    · exact ⟨msg, hon⟩
    · exact ⟨msg, hon⟩
    · rename_i m hupd
      have hm : m.id = id := (id_eq_of_content (hu _ _ hupd).1).trans (key_of_load hld)
      by_cases hsm : id' = id
      · subst hsm
        have hor : orig = msg := Option.some.inj (hld.symm.trans hon.1)
        subst hor
        obtain ⟨hown, hisDraft⟩ := keepsOwner_of hu _ _ hupd
        refine ⟨m, ?_, hown.trans hon.2.1, hisDraft.trans hon.2.2⟩
        rw [← hm]
        exact load_put_self
      · refine ⟨msg, ?_, hon.2⟩
        rw [load_put_of_ne (by rw [hm]; exact hsm)]
        exact hon.1

lemma storeConfined_moveToFolder (folderID : String) (opts : MoveOptions) :
    StoreConfined u id (moveToFolder now id folderID opts) := by
  have hmutate : StoreConfined u id (mutate (.moveToFolder now folderID opts) id) :=
    storeConfined_mutate (Update.editsAt_moveToFolder folderID opts)
  refine ⟨fun {s msg} hon => ?_, fun {s t msg} hon h => ?_⟩
  · unfold moveToFolder
    split_ifs
    · exact .refl u s
    · exact .refl u s
    · exact hmutate.untouched hon
  · unfold moveToFolder
    split_ifs
    · exact ⟨rfl, h⟩
    · exact ⟨rfl, h⟩
    · exact hmutate.agree hon h

lemma owns_moveToFolder {folderID : String} {opts : MoveOptions} (hon : Owns u id s msg) :
    ∃ msg', Owns u id (moveToFolder now id folderID opts s).2 msg' := by
  unfold moveToFolder
  split_ifs
  · exact ⟨msg, hon⟩
  · exact ⟨msg, hon⟩
  · exact owns_mutate (Update.editsAt_moveToFolder folderID opts) hon

lemma storeConfined_hardDelete : StoreConfined u id (hardDelete id) where
  untouched {s msg} hon := by
    by_cases hemp : id = ""
    · simp only [hardDelete, if_pos hemp]
      exact .refl u s
    · rw [hardDelete_of_load hemp hon.1 hon.2.2]
      exact untouched_delete hon
  agree {s t msg} hon h := by
    by_cases hemp : id = ""
    · simp only [hardDelete, if_pos hemp]
      exact ⟨trivial, h⟩
    · rw [hardDelete_of_load hemp hon.1 hon.2.2, hardDelete_of_load hemp (h.owns hon).1 hon.2.2]
      refine ⟨rfl, fun other hoth => ?_⟩
      rw [mem_delete, mem_delete, h other hoth]

/-! ## The parts of a call -/

variable {op : StoreOp}
  {m : MemoryMailbox} {f : Instance → Reply Result}

lemma confined_done : Confined u id Reply.done where
  untouched _ := .refl u _
  agree _ h := ⟨rfl, h⟩

lemma confined_refuse (e : Error) : Confined u id (Reply.refuse e) where
  untouched _ := .refl u _
  agree _ h := ⟨rfl, h⟩

lemma Confined.wrap (h : Confined u id f) (context : String) :
    Confined u id fun i => (f i).wrap context where
  untouched := h.untouched
  agree hon hagr := by
    obtain ⟨hres, hst⟩ := h.agree hon hagr
    exact ⟨by simp only [Reply.wrap, hres], hst⟩

lemma confined_op (h : StoreConfined u id op) (context : String) : Confined u id fun i =>
      let (result, s) := op i.store
      ⟨wrapError context result, i.setStore s, []⟩ where
  untouched hon := h.untouched hon
  agree hon hagr := by
    obtain ⟨hres, hst⟩ := h.agree hon hagr
    exact ⟨congrArg (wrapError context) hres, hst⟩

lemma opAndPublish_state (publish : Publish) (eventName messageID : String)
    (op : StoreOp) (s : Store) :
    (Service.opAndPublish publish eventName messageID op s).2 = (op s).2 := by
  unfold Service.opAndPublish
  cases op s with
  | mk result =>
    cases result with
    | error => rfl
    | ok =>
      cases publish.err with
      | none => rfl
      | some =>
        split_ifs <;> rfl

lemma opAndPublish_result (publish : Publish) (eventName messageID : String)
    (h : (op s).1 = (op t).1) : (Service.opAndPublish publish eventName messageID op s).1
      = (Service.opAndPublish publish eventName messageID op t).1 := by
  unfold Service.opAndPublish
  cases hs : op s with
  | mk result =>
    cases ht : op t with
    | mk result' =>
      rw [hs, ht] at h
      obtain rfl : result = result' := h
      cases result with
      | error => rfl
      | ok =>
        cases publish.err with
        | none => rfl
        | some =>
          split_ifs <;> rfl

lemma confined_opAndPublish (event : MutationEvent)
    (h : StoreConfined u id op) : Confined u id (m.opAndPublish event op) where
  untouched {i msg} hon := by
    show Untouched u i.store (Service.opAndPublish _ _ _ op i.store).2
    rw [opAndPublish_state]
    exact h.untouched hon
  agree {i j msg} hon hagr := by
    obtain ⟨hres, hst⟩ := h.agree hon hagr
    refine ⟨opAndPublish_result _ _ _ hres, ?_⟩
    show Agree u (Service.opAndPublish _ _ _ op i.store).2 (Service.opAndPublish _ _ _ op j.store).2
    rw [opAndPublish_state, opAndPublish_state]
    exact hst

lemma confined_moveAndPublish (fromFolderID toFolderID : String) (wasUnread : Bool)
    (opts : MoveOptions) :
    Confined u id (m.moveAndPublish id fromFolderID toFolderID wasUnread opts) := by
  unfold MemoryMailbox.moveAndPublish Service.moveAndPublish
  split_ifs
  · exact confined_done
  · exact confined_opAndPublish _ (storeConfined_moveToFolder toFolderID opts)

lemma confined_applyArchived (msg : Message) (archived : Option Bool) :
    Confined u id (m.applyArchived id msg archived) := by
  cases archived with
  | none => exact confined_done
  | some => exact (confined_moveAndPublish _ _ _ _).wrap _

lemma owns_applyArchived {archived : Option Bool} {i : Instance} {orig : Message}
    (hon : Owns u id i.store orig) :
    ∃ msg', Owns u id (m.applyArchived id msg archived i).state.store msg' := by
  cases archived with
  | none => exact ⟨orig, hon⟩
  | some =>
    show ∃ msg', Owns u id (m.moveAndPublish id _ _ _ _ i).state.store msg'
    unfold MemoryMailbox.moveAndPublish Service.moveAndPublish
    split_ifs
    · exact ⟨orig, hon⟩
    · show ∃ msg', Owns u id (Service.opAndPublish _ _ _ _ i.store).2 msg'
      rw [opAndPublish_state]
      exact owns_moveToFolder hon

lemma confined_applyRead (currentFolderID : String) (read : Option Bool) :
    Confined u id (m.applyRead id currentFolderID read) := by
  have hmark : ∀ b, StoreConfined u id (markRead m.service.now id b) := fun b =>
    storeConfined_mutate (Update.editsAt_markRead b)
  cases read with
  | none => exact confined_done
  | some b =>
    cases b with
    | true => exact (confined_opAndPublish _ (hmark true)).wrap _
    | false => exact confined_op (hmark false) _

lemma Confined.andThen {g : Instance → Reply Result} (hf : Confined u id f) (hg : Confined u id g)
    (hon : ∀ {i msg}, Owns u id i.store msg → ∃ msg', Owns u id (f i).state.store msg') :
    Confined u id fun i => (f i).andThen g where
  untouched {i msg} h := by
    obtain ⟨msg', h'⟩ := hon h
    unfold Reply.andThen
    cases (f i).result with
    | error => exact hf.untouched h
    | ok => exact (hf.untouched h).trans (hg.untouched h')
  agree {i j msg} h hagr := by
    obtain ⟨hres, hst⟩ := hf.agree h hagr
    obtain ⟨msg', h'⟩ := hon h
    unfold Reply.andThen
    rw [hres]
    cases hj : (f j).result with
    | error =>
      rw [hj] at hres
      exact ⟨hres.trans hj.symm, hst⟩
    | ok => exact hg.agree h' hst

lemma releaseAttachmentRefs_store (m : MemoryMailbox) (msg : Message) (w : World) :
    (m.releaseAttachmentRefs msg w).2.store = w.store :=
  UserMailbox.releaseAttachmentRefs_frame m.backend_eq msg w

lemma confined_permanentlyDelete (msg : Message) : Confined u id fun i =>
      let r := m.opAndPublish (.messageDeleted id m.userID msg.folderID (!msg.isRead) m.service.now)
        (hardDelete id) i
      match r.result with
      | .error _ => r.wrap "hard delete message"
      | .ok _ =>
        let (_, w) := m.releaseAttachmentRefs msg r.state.world
        { r with state := { r.state with world := w } } := by
  have hop : Confined u id (m.opAndPublish
      (.messageDeleted id m.userID msg.folderID (!msg.isRead) m.service.now)
      (hardDelete id)) := confined_opAndPublish _ storeConfined_hardDelete
  refine ⟨fun {i orig} hon => ?_, fun {i j orig} hon hagr => ?_⟩
  · have h := hop.untouched hon
    dsimp only
    split
    · exact h
    · show Untouched u i.store (m.releaseAttachmentRefs msg _).2.store
      rw [releaseAttachmentRefs_store]
      exact h
  · obtain ⟨hres, hst⟩ := hop.agree hon hagr
    dsimp only
    split
    · rename_i e he
      rw [← hres, he]
      exact ⟨by simp only [Reply.wrap, ← hres], hst⟩
    · rename_i he
      rw [← hres, he]
      refine ⟨rfl, ?_⟩
      show Agree u (m.releaseAttachmentRefs msg _).2.store (m.releaseAttachmentRefs msg _).2.store
      rw [releaseAttachmentRefs_store, releaseAttachmentRefs_store]
      exact hst

/-! ## The check -/

/-- One of the two says that the message is somebody else's, the other that there is none. -/
def DeniedEither (e e' : Error) : Prop :=
  (e.is .unauthorized = true ∧ e'.is .notFound = true)
    ∨ (e.is .notFound = true ∧ e'.is .unauthorized = true)

/-- Two results of a call that names a message. -/
def ResultsAlike (u id : String) (s t : Store) (r r' : Result) : Prop :=
  r = r' ∨ ((Foreign u id s ∨ Foreign u id t)
    ∧ ∃ e e', r = .error e ∧ r' = .error e' ∧ DeniedEither e e')

section Check

variable {u id : String} {s : Store}

/-- What `Get` and the check make of an ID. -/
inductive Lookup (u id : String) (s : Store) : Prop where
  | invalid (h : id = "")
  | unknown (h : id ≠ "") (hload : ∀ msg, s.messages.load id = some msg → msg.isDraft = true)
  | foreign (h : id ≠ "") (msg : Message) (hload : s.messages.load id = some msg)
      (howner : msg.ownerID ≠ u) (hdraft : msg.isDraft = false)
  | own (h : id ≠ "") (msg : Message) (howns : Owns u id s msg)

lemma lookup_cases (u id : String) (s : Store) : Lookup u id s := by
  by_cases hid : id = ""
  · exact .invalid hid
  cases hld : s.messages.load id with
  | none => exact .unknown hid (by simp [hld])
  | some msg =>
    cases hdr : msg.isDraft with
    | true => exact .unknown hid (by simp [hld, hdr])
    | false =>
      by_cases hown : msg.ownerID = u
      · exact .own hid msg ⟨hld, hown, hdr⟩
      · exact .foreign hid msg hld hown hdr

lemma get_unknown (h : id ≠ "") (hld : ∀ msg, s.messages.load id = some msg → msg.isDraft = true) :
    s.get id = .error (.sentinel .notFound) := by
  unfold Store.get
  rw [if_neg h]
  cases hmsg : s.messages.load id with
  | none => rfl
  | some msg => simp [hld msg hmsg]

lemma get_of_load (h : id ≠ "") (hld : s.messages.load id = some msg)
    (hdr : msg.isDraft = false) : s.get id = .ok msg :=
  get_eq_ok.mpr ⟨h, hld, hdr⟩

variable (id) in
/-- What the check says of an ID, in two stores that agree on the user's messages. -/
lemma getAndVerify_alike (h : Agree u s t) :
    (∃ msg, Owns u id s msg ∧ getAndVerify u id s = .ok msg ∧ getAndVerify u id t = .ok msg)
      ∨ ∃ e e', getAndVerify u id s = .error e ∧ getAndVerify u id t = .error e'
        ∧ (e = e' ∨ ((Foreign u id s ∨ Foreign u id t)
          ∧ (e = .sentinel .unauthorized ∧ e' = .wrap "get message" (.sentinel .notFound)
            ∨ e = .wrap "get message" (.sentinel .notFound) ∧ e' = .sentinel .unauthorized))) := by
  have hunauth : ∀ {s : Store} {msg : Message}, id ≠ "" → s.messages.load id = some msg →
      msg.ownerID ≠ u → msg.isDraft = false →
      getAndVerify u id s = .error (.sentinel .unauthorized) := by
    intro s msg hid hld hown hdr
    simp [getAndVerify, get_of_load hid hld hdr, hown]
  have hunk : ∀ {s : Store}, id ≠ "" → (∀ msg, s.messages.load id = some msg → msg.isDraft = true) →
      getAndVerify u id s = .error (.wrap "get message" (.sentinel .notFound)) := by
    intro s hid hld
    simp [getAndVerify, get_unknown hid hld]
  cases lookup_cases u id s with
  | invalid hid =>
    have hinvalid : ∀ s, getAndVerify u id s
        = .error (.wrap "get message" (.sentinel .invalidID)) := by
      intro s
      simp only [getAndVerify, Store.get, if_pos hid]
    exact .inr ⟨_, _, hinvalid s, hinvalid t, .inl rfl⟩
  | own hid msg hon =>
    refine .inl ⟨msg, hon, ?_, ?_⟩
    · simp [getAndVerify, get_of_load hid hon.1 hon.2.2, hon.2.1]
    · simp [getAndVerify, get_of_load hid (h.owns hon).1 hon.2.2, hon.2.1]
  | unknown hid hld =>
    cases lookup_cases u id t with
    | invalid hid' => exact absurd hid' hid
    | own _ msg hon =>
      have hdr := hld msg (h.symm.owns hon).1
      rw [hon.2.2] at hdr
      cases hdr
    | unknown _ hld' => exact .inr ⟨_, _, hunk hid hld, hunk hid hld', .inl rfl⟩
    | foreign _ msg hld' hown hdr =>
      refine .inr ⟨_, _, hunk hid hld, hunauth hid hld' hown hdr,
        .inr ⟨.inr ⟨msg, hld', hown⟩, .inr ⟨rfl, rfl⟩⟩⟩
  | foreign hid msg hld hown hdr =>
    cases lookup_cases u id t with
    | invalid hid' => exact absurd hid' hid
    | own _ msg' hon =>
      have hld' := (h.symm.owns hon).1
      rw [hld] at hld'
      cases hld'
      exact absurd hon.2.1 hown
    | unknown _ hld' =>
      exact .inr ⟨_, _, hunauth hid hld hown hdr, hunk hid hld',
        .inr ⟨.inl ⟨msg, hld, hown⟩, .inl ⟨rfl, rfl⟩⟩⟩
    | foreign _ msg' hld' hown' hdr' =>
      exact .inr ⟨_, _, hunauth hid hld hown hdr, hunauth hid hld' hown' hdr', .inl rfl⟩

end Check

/-! ## The single-message calls -/

/-- What is to be shown of a call that names a message. -/
structure Isolated (u id : String) (f : Instance → Reply Result) : Prop where
  untouched : ∀ i, Untouched u i.store (f i).state.store
  alike : ∀ {i j}, Agree u i.store j.store →
    ResultsAlike u id i.store j.store (f i).result (f j).result
      ∧ Agree u (f i).state.store (f j).state.store

lemma isolated_refuse (e : Error) : Isolated u id (Reply.refuse e) where
  untouched i := .refl u i.store
  alike h := ⟨.inl rfl, h⟩

lemma isolated_done : Isolated u id Reply.done where
  untouched i := .refl u i.store
  alike h := ⟨.inl rfl, h⟩

lemma Isolated.guarded (h : Isolated u id f) : Isolated u id fun i => m.guarded i (f i) := by
  unfold MemoryMailbox.guarded
  cases m.checkAccess with
  | error e => exact isolated_refuse e
  | ok => exact h

section

variable (hm : m.userID = u)

include hm

/-- The check, and then the part that stays with the user's message. -/
lemma isolated_verified {k : Instance → Message → Reply Result}
    (hk : ∀ msg, Confined u id fun i => k i msg) :
    Isolated u id fun i => m.verified id i (k i) where
  untouched i := by
    unfold MemoryMailbox.verified
    rw [hm]
    have hself : Agree u i.store i.store := fun _ _ => .rfl
    rcases getAndVerify_alike id hself with
      ⟨msg, hon, hg, _⟩ | ⟨e, _, hg, _⟩
    · rw [hg]
      exact (hk msg).untouched hon
    · rw [hg]
      exact .refl u i.store
  alike {i j} h := by
    unfold MemoryMailbox.verified
    rw [hm]
    rcases getAndVerify_alike id h with
      ⟨msg, hon, hg, hg'⟩ | ⟨e, e', hg, hg', he⟩
    · rw [hg, hg']
      obtain ⟨hres, hst⟩ := (hk msg).agree hon h
      exact ⟨.inl hres, hst⟩
    · rw [hg, hg']
      refine ⟨?_, h⟩
      rcases he with rfl | ⟨hforeign, ⟨rfl, rfl⟩ | ⟨rfl, rfl⟩⟩
      · exact .inl rfl
      · exact .inr ⟨hforeign, _, _, rfl, rfl, .inl ⟨rfl, rfl⟩⟩
      · exact .inr ⟨hforeign, _, _, rfl, rfl, .inr ⟨rfl, rfl⟩⟩

lemma isolated_updateFlags (flags : Flags) : Isolated u id (m.updateFlags id flags) := by
  refine Isolated.guarded ?_
  split_ifs
  · exact isolated_done
  · refine isolated_verified hm fun msg => ?_
    exact (confined_applyArchived msg flags.archived).andThen (confined_applyRead _ flags.read)
      owns_applyArchived

lemma isolated_delete : Isolated u id (m.delete id) := by
  refine Isolated.guarded (isolated_verified hm fun msg => ?_)
  split_ifs
  · exact confined_refuse _
  · exact (confined_moveAndPublish _ _ _ _).wrap _

lemma isolated_restore : Isolated u id (m.restore id) := by
  refine Isolated.guarded (isolated_verified hm fun msg => ?_)
  split_ifs
  · exact confined_refuse _
  · exact (confined_moveAndPublish _ _ _ _).wrap _

lemma isolated_permanentlyDelete : Isolated u id (m.permanentlyDelete id) := by
  refine Isolated.guarded (isolated_verified hm fun msg => ?_)
  split_ifs
  · exact confined_refuse _
  · exact confined_permanentlyDelete msg

lemma isolated_moveToFolder (folderID : String) (opts : MoveOptions) :
    Isolated u id (m.moveToFolder id folderID opts) := by
  refine Isolated.guarded ?_
  split_ifs
  · exact isolated_refuse _
  · exact isolated_refuse _
  · exact isolated_verified hm fun msg => confined_moveAndPublish _ _ _ _

lemma isolated_changeTag (context tagID : String) (hop : StoreConfined u id op) :
    Isolated u id (m.changeTag context id tagID op) := by
  refine Isolated.guarded ?_
  cases checkTagID tagID with
  | error e => exact isolated_refuse e
  | ok => exact isolated_verified hm fun _ => confined_op hop context

end

/-! ## The bulk calls -/

section Bulk

variable {fs : List Filter}

lemma owned_of_hits {op : BulkOp} (h : op.hits now u fs msg = true) : owned u msg = true := by
  have hscoped : selects now (scopedFilters u fs) msg = true → owned u msg = true := by
    intro hsel
    simp only [selects, Bool.and_eq_true] at hsel
    simpa [owned] using ((matchesFilters_scopedFilters u fs msg).mp hsel.2).1
  cases op with
  | markAllRead =>
    simp only [BulkOp.hits, Bool.and_eq_true] at h
    exact h.1.2
  | _ => exact hscoped h

lemma nativeEffect_ownerID (op : BulkOp) (msg : Message) :
    (op.nativeEffect now msg).ownerID = msg.ownerID := by
  cases op with
  | tag =>
    simp only [BulkOp.nativeEffect]
    split_ifs <;> rfl
  | _ => rfl

lemma mem_native (op : BulkOp) : msg ∈ (op.native now u fs s).2.messages.all
      ↔ ∃ orig ∈ s.messages.all,
        (if op.hits now u fs orig then op.nativeEffect now orig else orig) = msg := by
  obtain ⟨t, hnat, hchg⟩ := native_spec now u fs op s
  rw [hnat]
  refine hchg.mem_iff.trans (exists_congr fun orig => and_congr_right fun hor => ?_)
  -- An ID is among the changed ones exactly if its message is a hit.
  simp only [mem_keys_filter (op.hits now u fs) hor]

variable (now fs) in
lemma native_untouched (op : BulkOp) : Untouched u s (op.native now u fs s).2 := by
  intro msg hmsg
  have hn : ∀ {orig : Message}, orig.ownerID ≠ u → op.hits now u fs orig = false := by
    intro orig hor
    rw [Bool.eq_false_iff]
    intro hhit
    exact hor (by simpa [owned] using owned_of_hits hhit)
  rw [mem_native]
  constructor
  · rintro ⟨orig, hor, rfl⟩
    have hown : orig.ownerID ≠ u := by
      split_ifs at hmsg
      · rwa [nativeEffect_ownerID] at hmsg
      · exact hmsg
    rw [hn hown]
    exact hor
  · intro hmem
    exact ⟨msg, hmem, by simp [hn hmsg]⟩

variable (now fs) in
lemma native_agree (op : BulkOp) (h : Agree u s t) :
    (op.native now u fs s).1 = (op.native now u fs t).1
      ∧ Agree u (op.native now u fs s).2 (op.native now u fs t).2 := by
  constructor
  · obtain ⟨_, hs, _⟩ := native_spec now u fs op s
    obtain ⟨_, ht, _⟩ := native_spec now u fs op t
    rw [hs, ht]
    exact h.countP fun _ => owned_of_hits
  · -- The change leaves the owner alone, so what comes out of a message of the user is one.
    have hone : ∀ {s t : Store}, Agree u s t → ∀ msg, msg.ownerID = u →
        msg ∈ (op.native now u fs s).2.messages.all →
          msg ∈ (op.native now u fs t).2.messages.all := by
      intro s t h msg hmsg hmem
      rw [mem_native] at hmem ⊢
      obtain ⟨orig, hor, rfl⟩ := hmem
      have hown : orig.ownerID = u := by
        split_ifs at hmsg
        · rwa [nativeEffect_ownerID] at hmsg
        · exact hmsg
      exact ⟨orig, (h orig hown).mp hor, rfl⟩
    exact fun msg hmsg => ⟨hone h msg hmsg, hone h.symm msg hmsg⟩

end Bulk

/-! ## Orders in which the map is visited -/

/-- Two sequences of orders that visit the messages of the user alike. -/
structure SameOrder (u : String) (o o' : Ranges) : Prop where
  perm : o.Perm
  perm' : o'.Perm
  agree : ∀ n l l', (l.map Message.id).Nodup → (l'.map Message.id).Nodup →
    (l.filter (owned u)).Perm (l'.filter (owned u)) →
    (o n l).filter (owned u) = (o' n l').filter (owned u)

variable {o o' : Ranges}

lemma SameOrder.tail (h : SameOrder u o o') :
    SameOrder u (fun n => o (n + 1)) (fun n => o' (n + 1)) :=
  ⟨fun n => h.perm (n + 1), fun n => h.perm' (n + 1), fun n => h.agree (n + 1)⟩

variable {range : Range} {list : MessageList} {filters : List Filter}

section Orders

variable {opts : ListOptions} {toLower : String → String} {query : SearchQuery}

lemma SameOrder.filter_eq (ho : SameOrder u o o') (h : Agree u s t) (n : ℕ)
    (hp : ∀ m, p m = true → owned u m = true) :
    (o n s.messages.all).filter p = (o' n t.messages.all).filter p := by
  have hown : ∀ l : List Message, l.filter p = (l.filter (owned u)).filter p := by
    intro l
    rw [filter_filter]
    refine filter_congr fun m _ => ?_
    cases hm : p m with
    | false => rfl
    | true => simp [hp m hm]
  rw [hown, hown (o' n t.messages.all), ho.agree n _ _ s.messages.nodup t.messages.nodup h.perm]

lemma owned_of_selects (hf : ownerIs u ∈ filters) (h : selects now filters msg = true) : owned u msg
    = true := by
  simp only [selects, matchesFilters, Bool.and_eq_true, all_eq_true] at h
  simpa [owned] using (matchesFilter_ownerIs msg u).mp (h.2 _ hf)

lemma owned_of_searches (hf : ownerIs u ∈ query.filters)
    (h : searches toLower now query msg = true) : owned u msg = true := by
  simp only [searches, matchesFilters, Bool.and_eq_true, all_eq_true] at h
  simpa [owned] using (matchesFilter_ownerIs msg u).mp (h.1.1.2 _ hf)

lemma find_same (ho : SameOrder u o o') (h : Agree u s t) (hf : ownerIs u ∈ filters) (n : ℕ) :
    s.find now (o n) filters opts = t.find now (o' n) filters opts := by
  rw [find, find, ho.filter_eq h n fun _ => owned_of_selects hf]

lemma search_same (ho : SameOrder u o o') (h : Agree u s t) (hf : ownerIs u ∈ query.filters)
    (n : ℕ) : s.search now toLower (o n) query = t.search now toLower (o' n) query := by
  rw [search, search, ho.filter_eq h n fun _ => owned_of_searches hf]

lemma mem_sortMessages {sortBy : String} {order : SortOrder} {l : List Message} :
    msg ∈ sortMessages sortBy order l ↔ msg ∈ l :=
  (ExchangeSort.sort_perm l).mem_iff

lemma owned_of_mem_find (hf : ownerIs u ∈ filters) (h : s.find now range filters opts = some list)
    (hmsg : msg ∈ list.messages) : msg.ownerID = u := by
  have hmem := mem_of_mem_page h hmsg
  rw [mem_sortMessages, List.mem_filter] at hmem
  simpa [owned] using owned_of_selects hf hmem.2

lemma owned_of_mem_search (hf : ownerIs u ∈ query.filters)
    (h : s.search now toLower range query = some list) (hmsg : msg ∈ list.messages) : msg.ownerID =
    u := by
  have hmem := mem_of_mem_page h hmsg
  rw [mem_sortMessages, List.mem_filter] at hmem
  simpa [owned] using owned_of_searches hf hmem.2

lemma owns_of_mem_find (hf : ownerIs u ∈ filters) (hpm : ∀ l, (o 0 l).Perm l)
    (h : s.find now (o 0) filters opts = some list) (hmsg : msg ∈ list.messages) : Owns u msg.id s
    msg := by
  have hown := owned_of_mem_find hf h hmsg
  have hmem := mem_of_mem_page h hmsg
  rw [mem_sortMessages, List.mem_filter, (hpm _).mem_iff] at hmem
  refine ⟨load_of_mem hmem.1, hown, ?_⟩
  have hsel := hmem.2
  simp only [selects, Bool.and_eq_true, Bool.not_eq_true'] at hsel
  exact hsel.1.1

end Orders

/-! ## The paginated loop -/

lemma applyPage_isolated (hu : update.EditsAt now) (page : List Message) :
    ∀ (count : ℕ) (s : Store), (∀ msg ∈ page, ∃ msg', Owns u msg.id s msg') →
      let single := fun id => mutate update id
      Untouched u s (applyPage single page count s).2
        ∧ ∀ t, Agree u s t → (applyPage single page count s).1 = (applyPage single page count t).1
          ∧ Agree u (applyPage single page count s).2 (applyPage single page count t).2 := by
  induction page with
  | nil =>
    intro count s _
    exact ⟨.refl u s, fun t h => ⟨rfl, h⟩⟩
  | cons msg page ih =>
    intro count s hpg single
    obtain ⟨orig, hon⟩ := hpg msg mem_cons_self
    have hconfined : StoreConfined u msg.id (mutate update msg.id) := storeConfined_mutate hu
    have hr : ∀ msg' ∈ page, ∃ m, Owns u msg'.id (single msg.id s).2 m := by
      intro msg' hmsg'
      obtain ⟨m, hm⟩ := hpg msg' (mem_cons_of_mem _ hmsg')
      exact owns_mutate hu hm
    have hnx : ∀ t, applyPage single (msg :: page) count t
        = applyPage single page (if (single msg.id t).1.isOk then count + 1 else count)
            (single msg.id t).2 := by
      intro t
      rw [applyPage]
      cases single msg.id t with
      | mk result => cases result <;> rfl
    have hstep := ih (if (single msg.id s).1.isOk then count + 1 else count) (single msg.id s).2 hr
    refine ⟨?_, fun t h => ?_⟩
    · rw [hnx]
      exact (hconfined.untouched hon).trans hstep.1
    · obtain ⟨hres, hst⟩ := hconfined.agree hon h
      rw [hnx, hnx t]
      have hres' : (single msg.id t).1 = (single msg.id s).1 := hres.symm
      rw [hres']
      exact hstep.2 _ hst

variable (now) in
lemma pageLoop_isolated (hu : update.EditsAt now)
    (hf : ownerIs u ∈ filters) (limit : ℤ) (fuel : ℕ) :
    ∀ (o : Ranges) (cursor : String) (count : ℕ) (s : Store), o.Perm →
      let pages := pageLoop now filters limit (fun id => mutate update id) fuel
      Untouched u s (pages o cursor count s).2 ∧ ∀ o' t, SameOrder u o o' → Agree u s t →
          (pages o cursor count s).1 = (pages o' cursor count t).1
            ∧ Agree u (pages o cursor count s).2 (pages o' cursor count t).2 := by
  induction fuel with
  | zero =>
    intro o cursor count s _
    exact ⟨.refl u s, fun o' t _ h => ⟨rfl, h⟩⟩
  | succ fuel ih =>
    intro o cursor count s hpm
    simp only [pageLoop]
    cases hfd : s.find now (o 0) filters { limit := limit, startAfter := cursor } with
    | none =>
      refine ⟨.refl u s, fun o' t ho h => ?_⟩
      rw [← find_same ho h hf, hfd]
      exact ⟨rfl, h⟩
    | some list =>
      have hpg : ∀ msg ∈ list.messages, ∃ msg', Owns u msg.id s msg' := fun msg hmsg =>
        ⟨msg, owns_of_mem_find hf (hpm 0) hfd hmsg⟩
      obtain ⟨hunt, hagr⟩ := applyPage_isolated hu list.messages count s hpg
      constructor
      · dsimp only
        cases list.hasMore with
        | false => exact hunt
        | true =>
          cases list.messages.getLast? with
          | none => exact hunt
          | some last =>
            exact hunt.trans (ih _ last.id _ _ fun n => hpm (n + 1)).1
      · intro o' t ho h
        obtain ⟨hcnt, hst⟩ := hagr t h
        rw [← find_same ho h hf, hfd]
        dsimp only at hcnt ⊢
        rw [← hcnt]
        cases list.hasMore with
        | false => exact ⟨rfl, hst⟩
        | true =>
          cases list.messages.getLast? with
          | none => exact ⟨rfl, hst⟩
          | some last =>
            exact (ih _ last.id _ _ fun n => hpm (n + 1)).2 _ _ ho.tail hst

end Mailbox.Service
