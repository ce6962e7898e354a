import Mathlib.Data.List.Chain
import Mailbox.Service.AttachmentFiles
import Mailbox.Service.CleanupPaths
import Mailbox.Service.Occurrences
import Mailbox.Service.QuotaEnforce

/-!
# Attachment references are conserved

Everything that creates and removes messages, one call after the other and without faults: sends,
`Delete` and `Restore`, `PermanentlyDelete`, the two cleanups with an attachment manager, and the
enforcement of quotas.  Each releases references in a way of its own.

**One call.**  Whatever the order inside, a call makes moves of the books (`World.books`): a send
makes the three moves of `sendDraft_moves`, and every other call one release, of what the messages
that it has removed had listed.

**A run.**  `passed` are the states that a run passes through, with those between the moves of its
sends.  **`references_conserved`** is about all of them.
-/

namespace Mailbox.Service

open Memory UserMailbox RefCount List Option Table Store Prod

/-! ## Calls on one message -/

section Calls

variable {m : MemoryMailbox} {i : Instance} {id : String}

/-- Nothing is claimed or released, and no ID is used up. -/
structure Quiet (uuid : ℕ → String) (i i' : Instance) : Prop where
  books : Books.Releases [] i.world.books i'.world.books
  fresh : FreshIDs uuid i.store → FreshIDs uuid i'.store

variable {uuid : ℕ → String}

lemma Quiet.refl (i : Instance) : Quiet uuid i i := ⟨.refl _, fun h => h⟩

lemma quiet_moveAndPublish {msg : Message} (hid : id ≠ "") (hon : Owns m.userID id i.store msg)
    (fromFolderID toFolderID : String) (wasUnread : Bool) (opts : MoveOptions) :
    Quiet uuid i (m.moveAndPublish id fromFolderID toFolderID wasUnread opts i).state := by
  unfold MemoryMailbox.moveAndPublish Service.moveAndPublish
  split_ifs
  · exact .refl i
  · have hst : (m.opAndPublish (.messageMoved id m.userID fromFolderID toFolderID wasUnread
        m.service.now) (moveToFolder m.service.now id toFolderID opts) i).state
        = i.setStore (moveToFolder m.service.now id toFolderID opts i.store).2 :=
      congrArg (i.setStore ·) (opAndPublish_state _ _ _ _ i.store)
    rw [hst]
    rcases moveToFolder_cases hid hon m.service.now toFolderID opts with ⟨e, heq⟩ | heq
    · rw [heq]
      exact .refl i
    · have hk : msg.id = id := key_of_load hon.1
      have hld : i.store.messages.load msg.id = some msg := by
        rw [hk]
        exact hon.1
      rw [heq]
      refine ⟨⟨fun k => rfl, fun a => ?_⟩, fun hfr => hfr.of_ids rfl fun msg' hmsg' => ?_⟩
      · have hput : occurrences (i.store.messages.put
            { msg with folderID := toFolderID, updatedAt := m.service.now }) a = _ :=
          occurrences_put a
        exact (occurrences_delete hld a).trans hput.symm
      · rcases mem_put.mp hmsg' with rfl | ⟨hmem, _⟩
        · exact ⟨msg, (load_eq_some_iff.mp hld).1, rfl⟩
        · exact ⟨msg', hmem, rfl⟩

variable (m id i) in
lemma quiet_delete : Quiet uuid i (m.delete id i).state := by
  refine owned_elim (p := (Quiet uuid i ·.state)) (fun _ => .refl i) fun msg hid hon => ?_
  split_ifs
  · exact .refl i
  · exact quiet_moveAndPublish hid hon _ _ _ _

variable (m id i) in
lemma quiet_restore : Quiet uuid i (m.restore id i).state := by
  refine owned_elim (p := (Quiet uuid i ·.state)) (fun _ => .refl i) fun msg hid hon => ?_
  split_ifs
  · exact .refl i
  · exact quiet_moveAndPublish hid hon _ _ _ _

/-- References are released, and no ID is used up. -/
def Released (uuid : ℕ → String) (w w' : World) : Prop :=
  FreshIDs uuid w'.store ∧ ∃ ids, Books.Releases ids w.books w'.books

lemma permanentlyDelete_releases (hpub : ∀ event, m.publishFault event = none)
    (hmanaged : m.managed = true) (id : String) (hfr : FreshIDs uuid i.store) :
    Released uuid i.world (m.permanentlyDelete id i).state.world := by
  have hsm : Released uuid i.world i.world := ⟨hfr, [], .refl _⟩
  refine owned_elim (p := (Released uuid i.world ·.state.world)) (fun _ => hsm)
    fun msg hid hon => ?_
  split_ifs
  · exact hsm
  · obtain ⟨hst, _, hres⟩ := opAndPublish_effect hpub
      (.messageDeleted id m.userID msg.folderID (!msg.isRead) m.service.now)
      (hardDelete id) i
    rw [hardDelete_of_load hid hon.1 hon.2.2] at hst hres
    have hbackend := m.backend_eq
    rw [hmanaged] at hbackend
    have hk : msg.id = id := key_of_load hon.1
    simp only [hres, hst, releaseAttachmentRefs_managed hbackend]
    refine ⟨hfr.delete rfl rfl, attachmentIDs msg, releases_delete ?_ hon.2.2 ?_ rfl⟩
    · rw [hk]
      exact hon.1
    · rw [hk]
      rfl

end Calls

/-! ## Cleanups -/

variable {scanned : Scanned} {fuel : ℕ}
  {uuid : ℕ → String} {w w' : World} {ranges : Ranges} {now : Time} {t : Messages}

lemma releaseRefs_eq (refs : List (String × String)) (w : World) :
    releaseRefs refs w = { w with refs := releaseAll (refs.map snd) w.refs } := by
  induction refs generalizing w with
  | nil => rfl
  | cons ref refs ih =>
    show releaseRefs refs (MemoryBackend.removeRef ref.2 w).2 = _
    rw [ih, MemoryBackend.removeRef]
    cases hdecr : decrement ref.2 w.refs with
    | none | some => simp [releaseAll, hdecr]

lemma drawn_deleteMessagesByIDs (ids : List String) (s : Store) :
    (deleteMessagesByIDs ids s).2.drawn = s.drawn := by
  induction ids generalizing s with
  | nil => rfl
  | cons id ids ih =>
    rw [deleteMessagesByIDs]
    cases s.messages.load id with
    | none => exact ih s
    | some => exact ih _

/-- What a scan knows: the attachments of what it has found, and that it has found no drafts. -/
structure Scanned.Good (t : Messages) (scanned : Scanned) : Prop extends scanned.Right t where
  posted : ∀ msg ∈ t.all, msg.id ∈ scanned.scannedIDs → msg.isDraft = false

lemma Scanned.Good.addPage (h : scanned.Good t)
    {page : List Message} (hpg : ∀ msg ∈ page, msg ∈ t.all ∧ msg.isDraft = false) :
    (scanned.addPage page).Good t := by
  refine ⟨h.toRight.addPage fun msg hmsg => (hpg msg hmsg).1, fun msg hmsg hid => ?_⟩
  rw [Scanned.scannedIDs_addPage, List.mem_append, List.mem_map] at hid
  rcases hid with hid | ⟨msg', hmsg', hid⟩
  · exact h.posted msg hmsg hid
  · obtain ⟨hmem, hdr⟩ := hpg msg' hmsg'
    rwa [← inj_on_of_nodup_map t.nodup hmem hmsg hid]

/-- What the deleted messages have listed is what is released for them. -/
lemma occurrences_deleteMessagesByIDs (hgood : scanned.Good t)
    {ids : List String} (hi : ∀ id ∈ ids, id ∈ scanned.scannedIDs) {s : Store}
    (hs : ∀ msg ∈ s.messages.all, msg ∈ t.all) (a : String) :
    occurrences s.messages a = occurrences (deleteMessagesByIDs ids s).2.messages a
        + ((scanned.toRelease (deleteMessagesByIDs ids s).1).map snd).count a := by
  induction ids generalizing s with
  | nil => rfl
  | cons id ids ih =>
    rw [forall_mem_cons] at hi
    rw [deleteMessagesByIDs]
    cases hld : s.messages.load id with
    | none => exact ih hi.2 hs
    | some msg =>
      obtain ⟨hmem, hk⟩ := load_eq_some_iff.mp hld
      have hsc : msg.id ∈ scanned.scannedIDs := by
        rw [hk]
        exact hi.1
      have hlst : (scanned.messageAttachments.lookup id).getD [] = attachmentIDs msg := by
        rw [← hk]
        exact hgood.known msg (hs msg hmem) hsc
      have hr := ih hi.2 (s := s.remove id)
        fun msg' hmsg' => hs msg' (mem_delete.mp hmsg').1
      have hhd :
          ((scanned.toRelease (id :: (deleteMessagesByIDs ids (s.remove id)).1)).map snd).count a
          = (attachmentIDs msg).count a
            + ((scanned.toRelease (deleteMessagesByIDs ids (s.remove id)).1).map snd).count a := by
        rw [Scanned.toRelease, List.flatMap_cons, hlst, List.map_append, List.map_map, count_append]
        simp [Scanned.toRelease, Function.comp_def]
      simp only
      rw [hhd, occurrences_delete hld, listedBy_of_not_draft (hgood.posted msg (hs msg hmem) hsc)]
      simp only at hr
      omega

section

variable {count : ℕ} (hranges : ranges.Perm)

include hranges

/-- A sweep releases what the messages that it deletes have listed. -/
lemma Sweep.withAttachments_releases {sweep : Sweep}
    (h : sweep.withAttachments now fuel ranges w = some (count, w'))
    (hfr : FreshIDs uuid w.store) : Released uuid w w' := by
  obtain ⟨found, hsc, rfl⟩ := Sweep.withAttachments_eq_some h
  have hgood : found.Good w.store.messages := by
    refine scan_induction (p := Scanned.Good w.store.messages) hranges ?_ hsc
      ⟨Scanned.right_empty, fun msg _ hid => by cases hid⟩
    intro scanned page hpg hscanned
    refine hscanned.addPage fun msg hmsg => ?_
    obtain ⟨hmem, hsel⟩ := hpg msg hmsg
    rw [selects, Bool.and_eq_true, Bool.and_eq_true, Bool.not_eq_true'] at hsel
    exact ⟨hmem, hsel.1.1⟩
  rw [releaseRefs_eq]
  refine ⟨hfr.of_ids (drawn_deleteMessagesByIDs _ _) fun msg hmsg => ⟨msg, ?_, rfl⟩,
    _, fun k => lookup_releaseAll _ _ k, fun a => ?_⟩
  · have hmem : msg ∈ (deleteMessagesByIDs found.scannedIDs w.store).2.messages.all :=
      hmsg
    rw [all_deleteMessagesByIDs] at hmem
    exact (List.mem_filter.mp hmem).1
  · exact occurrences_deleteMessagesByIDs hgood (fun id hid => hid) (fun msg hmsg => hmsg) a

lemma cleanupExpiredMessages_releases {messageRetention : ℤ} {ranges' : Ranges}
    (hranges' : ranges'.Perm)
    (h : cleanupExpiredMessages now fuel true messageRetention ranges ranges' w = some (count, w'))
    (hfr : FreshIDs uuid w.store) : Released uuid w w' := by
  refine cleanupExpiredMessages_induction (P := Released uuid w) h ?_ ⟨hfr, [], .refl _⟩
  rintro sweep order horder w₁ ⟨_, w₂⟩ hsweep ⟨hfr₁, ids, hrels⟩
  have hperm : order.Perm := by rcases horder with rfl | rfl <;> assumption
  obtain ⟨hfr₂, ids', hrels'⟩ := Sweep.withAttachments_releases hperm hsweep hfr₁
  exact ⟨hfr₂, _, hrels.trans hrels'⟩

end

/-! ## Quotas -/

/-- What an enforcement run finds when the in-memory store is behind it, and nothing fails. -/
def memorySurroundings (userID : String) (quota : Except Error (Option EnforcedPolicy)) (now : Time)
    (ranges : Ranges) : Surroundings Unit where
  userID := userID
  getQuota _ := quota
  now _ := now
  count _ filters t := .ok (Store.count now filters (.of t))
  find _ n := memoryFinder now (ranges n)
  hardDeleteFault _ _ := none
  ctxErr _ _ := none

/-- `enforceUserQuota` in a world, for a number of steps; `none` if that is not the end. -/
def enforceUserQuota (env : Surroundings Unit) (fuel : ℕ) (w : World) : Option World :=
  let c := Pool.run (enforcerStep env) (List.replicate fuel ()) (allEnforcers w.store.messages)
  if (c.loc ()).Returned then
    some (releaseRefs c.shared.released
      { w with store := { w.store with messages := c.shared.messages } })
  else none

section Quotas

/-- What the message in hand lists, and what of it is still to be released. -/
def EnforcePhase.inHand (phase : EnforcePhase) (a : String) : ℕ × ℕ :=
  match phase.hand with
  | none => (0, 0)
  | some (msg, refs) => ((attachmentIDs msg).count a, refs.count a)

/-- A run that is alone: the messages it is going to get to are stored, each is there once, and what
has been removed and what has been released balance, up to the message in hand. -/
structure Enforcing (t : Messages) (s : Depot) (phase : EnforcePhase) : Prop where
  stored : ∀ msg ∈ s.messages.all, msg ∈ t.all
  ahead : ∀ msg ∈ phase.ahead, s.messages.load msg.id = some msg ∧ msg.isDraft = false
  nodup : (phase.ahead.map Message.id).Nodup
  hand : ∀ msg refs, phase.hand = some (msg, refs) → s.messages.load msg.id = some msg
    ∧ msg.isDraft = false ∧ msg.id ∉ phase.ahead.map Message.id
  books : ∀ a, occurrences t a + (phase.inHand a).1
    = occurrences s.messages a + (s.released.map Prod.snd).count a + (phase.inHand a).2

variable {s : Depot} {phase phase' : EnforcePhase}

section

variable (h : Enforcing t s phase) (hhand : phase.hand = none) (hhand' : phase'.hand = none)

include h hhand hhand'

/-- Between messages, a run may go on to a new page. -/
lemma Enforcing.turn
    (hahead : ∀ msg ∈ phase'.ahead, s.messages.load msg.id = some msg ∧ msg.isDraft = false)
    (hnd : (phase'.ahead.map Message.id).Nodup) : Enforcing t s phase' where
  stored := h.stored
  ahead := hahead
  nodup := hnd
  hand msg refs hmsg := by
    rw [hhand'] at hmsg
    cases hmsg
  books a := by
    have hbooks := h.books a
    simp only [EnforcePhase.inHand, hhand, hhand'] at hbooks ⊢
    exact hbooks

lemma Enforcing.stop (hahead : phase'.ahead = []) : Enforcing t s phase' :=
  h.turn hhand hhand' (fun msg hmsg => by rw [hahead] at hmsg; cases hmsg)
    (by rw [hahead]; exact .nil)

end

variable {userID : String} {quota : Except Error (Option EnforcedPolicy)}

lemma Enforcing.step (hranges : ranges.Perm) (hi : t.Named)
    (ticks : ℕ) (h : Enforcing t s phase) :
    let r := enforcerPhase (memorySurroundings userID quota now ranges) () ticks s phase
    Enforcing t r.1 r.2 := by
  cases phase with
  | start =>
    obtain ⟨hhand, hahead⟩ :=
      beginEnforcement_quiet (memorySurroundings userID quota now ranges) () s.messages
    exact h.stop rfl hhand hahead
  | query p =>
    obtain ⟨hhand, hahead⟩ :=
      fetchPage_quiet (memorySurroundings userID quota now ranges) () ticks p s.messages
    rcases hahead with hnil | ⟨filters, opts, list, hls, hpg⟩
    · exact h.stop rfl hhand hnil
    · have hfd : find now (ranges ticks) filters opts
          { new with messages := s.messages } = some list := by
        simp only [memorySurroundings, memoryFinder] at hls
        split at hls
        · cases hls
        · cases hls
          assumption
      have hproper := proper_memoryFinder now (hranges ticks) filters opts s.messages list hls
      refine h.turn rfl hhand (fun msg hmsg => ?_) ?_
      · have hmem : msg ∈ (fetchPage (memorySurroundings userID quota now ranges) () ticks p
          s.messages).ahead := hmsg
        rw [hpg] at hmem
        exact ⟨load_of_mem (hproper msg hmem).1, (hproper msg hmem).2⟩
      · show ((fetchPage (memorySurroundings userID quota now ranges) () ticks p
          s.messages).ahead.map Message.id).Nodup
        rw [hpg]
        exact nodup_find (hranges ticks) hfd
  | page p msgs =>
    cases msgs with
    | nil =>
      simp only [enforcerPhase]
      split_ifs
      · exact h.stop rfl rfl rfl
      · exact h.stop rfl rfl rfl
    | cons msg msgs =>
      have hnd : msg.id ∉ msgs.map Message.id ∧ (msgs.map Message.id).Nodup := nodup_cons.mp h.nodup
      obtain ⟨hld, hdr⟩ := h.ahead msg mem_cons_self
      refine ⟨h.stored, fun msg' hmsg' => h.ahead msg' (mem_cons_of_mem _ hmsg'), hnd.2,
        ?_, fun a => ?_⟩
      · rintro _ _ ⟨⟩
        exact ⟨hld, hdr, hnd.1⟩
      · have hbooks : occurrences t a + 0 = occurrences s.messages a
          + (s.released.map snd).count a + 0 := h.books a
        show occurrences t a + (attachmentIDs msg).count a = occurrences s.messages a
          + (s.released.map snd).count a + (attachmentIDs msg).count a
        omega
  | message p msg refs =>
    obtain ⟨hld, hdr, hn⟩ := h.hand msg refs rfl
    cases refs with
    | cons a refs =>
      refine ⟨h.stored, h.ahead, h.nodup, ?_, fun b => ?_⟩
      · rintro _ _ ⟨⟩
        exact ⟨hld, hdr, hn⟩
      · have hbooks : occurrences t b + (attachmentIDs msg).count b = occurrences s.messages b
          + (s.released.map snd).count b + (a :: refs).count b := h.books b
        have hcnt : (a :: refs).count b = [a].count b + refs.count b := by
          rw [← count_append, singleton_append]
        show occurrences t b + (attachmentIDs msg).count b = occurrences s.messages b
          + ((s.released ++ [(msg.id, a)]).map snd).count b + refs.count b
        rw [List.map_append, count_append]
        show _ = _ + (_ + [a].count b) + _
        omega
    | nil =>
      have hmem := h.stored msg (load_eq_some_iff.mp hld).1
      have hdel : hardDelete msg.id { new with messages := s.messages } = _ :=
        hardDelete_of_load (hi msg hmem) hld hdr
      have hflt : (memorySurroundings userID quota now ranges).hardDeleteFault () ticks
          = none := rfl
      simp only [enforcerPhase, hflt, hdel]
      refine ⟨fun msg' hmsg' => h.stored msg' (mem_delete.mp hmsg').1,
        fun msg' hmsg' => ?_, h.nodup, fun msg' refs hmsg' => by (cases hmsg'), fun a => ?_⟩
      · -- The next ones are other messages.
        obtain ⟨hld', hdr'⟩ := h.ahead msg' hmsg'
        refine ⟨?_, hdr'⟩
        rw [load_delete_of_ne, hld']
        exact fun heq => hn (heq ▸ mem_map_of_mem hmsg')
      · have hbooks : occurrences t a + (attachmentIDs msg).count a = occurrences s.messages a
          + (s.released.map snd).count a + 0 := h.books a
        rw [occurrences_delete hld, listedBy_of_not_draft hdr] at hbooks
        show occurrences t a + 0 = occurrences (s.messages.delete msg.id) a
          + (s.released.map snd).count a + 0
        omega
  | returned => exact h

lemma enforceUserQuota_releases (hranges : ranges.Perm)
    (h : enforceUserQuota (memorySurroundings userID quota now ranges) fuel w = some w')
    (hfr : FreshIDs uuid w.store) : Released uuid w w' := by
  have hi : w.store.messages.Named := fun msg hmsg =>
    hfr.named msg.id (by simp [load_of_mem hmsg])
  let enforcing (c : Pool.Config Unit Depot Enforcer) : Prop :=
    Enforcing w.store.messages c.shared (c.loc ()).phase
  have hstep : ∀ c i, enforcing c →
      enforcing (Pool.stepAt (enforcerStep (memorySurroundings userID quota now ranges)) c i) := by
    intro c i hc
    exact hc.step hranges hi _
  have hst : enforcing (allEnforcers w.store.messages) :=
    ⟨fun msg hmsg => hmsg, fun msg hmsg => by (cases hmsg), .nil,
      fun msg refs hmsg => by (cases hmsg), fun a => rfl⟩
  have hrun := Pool.run_induction (replicate fuel ()) hstep hst
  rw [enforceUserQuota] at h
  generalize Pool.run (enforcerStep (memorySurroundings userID quota now ranges))
    (replicate fuel ()) (allEnforcers w.store.messages) = c at h hrun
  split_ifs at h with hret
  rw [Option.some.injEq, releaseRefs_eq] at h
  rw [← h]
  refine ⟨hfr.of_ids rfl fun msg hmsg => ⟨msg, hrun.stored msg hmsg, rfl⟩, _,
    fun k => lookup_releaseAll _ _ k, fun a => ?_⟩
  have hbooks := hrun.books a
  simp only [EnforcePhase.inHand, hret.hand] at hbooks
  exact hbooks

end Quotas

/-! ## Runs -/

/-- What is done to the messages. -/
inductive Activity where
  | send (m : MemoryMailbox) (draft : Message) (threadID replyToID externalID : String) (ttl : ℤ)
      (scheduleAt : Option Time) (deliverTo : List String)
  | delete (m : MemoryMailbox) (messageID : String)
  | restore (m : MemoryMailbox) (messageID : String)
  | permanentlyDelete (m : MemoryMailbox) (messageID : String)
  | cleanupTrash (now : Time) (fuel : ℕ) (trashRetention : ℤ) (ranges : Ranges)
  | cleanupExpiredMessages (now : Time) (fuel : ℕ) (messageRetention : ℤ) (ranges ranges' : Ranges)
  | enforceUserQuota (userID : String) (quota : Except Error (Option EnforcedPolicy)) (now : Time)
      (ranges : Ranges) (fuel : ℕ)

namespace Activity

/-- The world after a call that does not involve a mailbox; `none` when it has not come to its
end. -/
def maintained (w : World) : Activity → Option World
  | .cleanupTrash now fuel trashRetention ranges =>
    (Service.cleanupTrash now fuel true trashRetention ranges w).map Prod.snd
  | .cleanupExpiredMessages now fuel messageRetention ranges ranges' =>
    (Service.cleanupExpiredMessages now fuel true messageRetention ranges ranges' w).map Prod.snd
  | .enforceUserQuota userID quota now ranges fuel =>
    Service.enforceUserQuota (memorySurroundings userID quota now ranges) fuel w
  | _ => some w

def next (i : Instance) : Activity → Instance
  | .send m draft threadID replyToID externalID ttl scheduleAt deliverTo =>
    { i with world :=
        (m.sendDraft draft threadID replyToID externalID ttl scheduleAt deliverTo i.world).state }
  | .delete m messageID => (m.delete messageID i).state
  | .restore m messageID => (m.restore messageID i).state
  | .permanentlyDelete m messageID => (m.permanentlyDelete messageID i).state
  | activity => { i with world := (activity.maintained i.world).getD i.world }

/-- The states in the course of it: those between the moves of a send. -/
def between (i : Instance) : Activity → List World
  | .send m draft threadID replyToID externalID ttl scheduleAt deliverTo =>
    m.sendMoments draft threadID replyToID externalID ttl scheduleAt deliverTo i.world
  | _ => []

/-- It goes without faults and comes to its end; and what is sent — the draft as the hooks have left
it — has attachments that exist. -/
def Fair (uuid : ℕ → String) (i : Instance) : Activity → Prop
  | .send m draft _ _ _ _ _ deliverTo =>
    (m.uuid = uuid ∧ m.faults = Faults.none ∧ m.managed = true)
      ∧ ∀ targets hooked, m.Ready draft deliverTo targets hooked →
        ∀ a ∈ attachmentIDs hooked, i.world.refs.lookup a ≠ none
  | .delete _ _ => True
  | .restore _ _ => True
  | .permanentlyDelete m _ => m.managed = true ∧ ∀ event, m.publishFault event = none
  | .cleanupTrash now fuel trashRetention ranges =>
    ranges.Perm
      ∧ (cleanupTrash now fuel trashRetention ranges).maintained i.world ≠ none
  | .cleanupExpiredMessages now fuel messageRetention ranges ranges' =>
    (ranges.Perm ∧ ranges'.Perm)
      ∧ (cleanupExpiredMessages now fuel messageRetention ranges ranges').maintained i.world ≠ none
  | .enforceUserQuota userID quota now ranges fuel =>
    ranges.Perm
      ∧ (enforceUserQuota userID quota now ranges fuel).maintained i.world ≠ none

end Activity

/-- The states that a run passes through after the first one. -/
def passed : List Activity → Instance → List World
  | [], _ => []
  | activity :: activities, i =>
    activity.between i ++ (activity.next i).world :: passed activities (activity.next i)

section Runs

variable {i : Instance}

lemma Released.chain (h : Released uuid w w') : FreshIDs uuid w'.store
      ∧ List.IsChain (fun w w' : World => Books.Move w.books w'.books) (w :: ([] ++ [w'])) := by
  obtain ⟨hfr, ids, hrels⟩ := h
  exact ⟨hfr, by simpa using Books.Move.release hrels⟩

lemma Quiet.released {i' : Instance} (h : Quiet uuid i i') (hfr : FreshIDs uuid i.store) :
    Released uuid i.world i'.world :=
  ⟨h.fresh hfr, [], h.books⟩

lemma released_maintained {activity : Activity} (hsome : activity.maintained i.world ≠ none)
    (h : ∀ w', activity.maintained i.world = some w' → Released uuid i.world w') :
    Released uuid i.world ((activity.maintained i.world).getD i.world) := by
  obtain ⟨w', hw'⟩ := ne_none_iff_exists'.mp hsome
  rw [hw']
  exact h w' hw'

/-- **The step.**  Every activity makes moves of the books. -/
theorem Activity.moves (hinj : Function.Injective uuid) (hne : ∀ n, uuid n ≠ "")
    (activity : Activity) (hfr : FreshIDs uuid i.store) (hfair : activity.Fair uuid i) :
    FreshIDs uuid (activity.next i).store
      ∧ List.IsChain (fun w w' : World => Books.Move w.books w'.books)
        (i.world :: (activity.between i ++ [(activity.next i).world])) := by
  cases activity with
  | send m draft threadID replyToID externalID ttl scheduleAt deliverTo =>
    obtain ⟨⟨rfl, hfaults, hmanaged⟩, hkn⟩ := hfair
    have hbackend := m.backend_eq
    rw [hfaults, hmanaged] at hbackend
    exact sendDraft_moves hbackend hinj hne hfr threadID replyToID externalID ttl scheduleAt
      deliverTo hkn
  | delete m messageID => exact ((quiet_delete m i messageID).released hfr).chain
  | restore m messageID => exact ((quiet_restore m i messageID).released hfr).chain
  | permanentlyDelete m messageID =>
    exact (permanentlyDelete_releases hfair.2 hfair.1 messageID hfr).chain
  | cleanupTrash =>
    refine (released_maintained hfair.2 fun w' hw' => ?_).chain
    obtain ⟨⟨count, w'⟩, hcln, rfl⟩ := map_eq_some_iff.mp hw'
    exact Sweep.withAttachments_releases hfair.1 hcln hfr
  | cleanupExpiredMessages =>
    refine (released_maintained hfair.2 fun w' hw' => ?_).chain
    obtain ⟨⟨count, w'⟩, hcln, rfl⟩ := map_eq_some_iff.mp hw'
    exact cleanupExpiredMessages_releases hfair.1.1 hfair.1.2 hcln hfr
  | enforceUserQuota =>
    refine (released_maintained hfair.2 fun w' hw' => ?_).chain
    exact enforceUserQuota_releases hfair.1 hw' hfr

lemma passed_moves (hinj : Function.Injective uuid) (hne : ∀ n, uuid n ≠ "")
    {activities : List Activity} (hfr : FreshIDs uuid i.store)
    (hfair : ∀ e ∈ Machine.steps Activity.next activities i, e.2.Fair uuid e.1) :
    List.IsChain (fun w w' : World => Books.Move w.books w'.books)
      (i.world :: passed activities i) := by
  induction activities generalizing i with
  | nil => exact .singleton _
  | cons activity activities ih =>
    rw [Machine.steps, forall_mem_cons] at hfair
    obtain ⟨hfr', hchain⟩ := activity.moves hinj hne hfr hfair.1
    rw [passed, isChain_cons_split]
    exact ⟨hchain, ih hfr' hfair.2⟩

lemma reached_mem_passed (activities : List Activity) (i : Instance) (n : ℕ) :
    ((activities.take n).foldl Activity.next i).world ∈ i.world :: passed activities i := by
  induction activities generalizing i n with
  | nil => simp
  | cons activity activities ih =>
    cases n with
    | zero => exact mem_cons_self
    | succ n =>
      refine mem_cons_of_mem _ (mem_append_right _ ?_)
      exact ih (activity.next i) n

/-- From one state to the next, the metadata and the file of an attachment are deleted exactly when
its last occurrence is removed.  The file: by any calls of `AddRef` and `RemoveRef` that lead from
the one state's counts to the other's, of which there are some. -/
structure DeletedWithLast (a : String) (w w' : World) : Prop where
  metadata : (w.refs.lookup a ≠ none ∧ w'.refs.lookup a = none)
    ↔ 0 < occurrences w.store.messages a ∧ occurrences w'.store.messages a = 0
  calls : ∃ calls, ∀ uri files k,
    (Shelf.after uri calls ⟨w.refs, files⟩).counts.lookup k = w'.refs.lookup k
  file : ∀ (uri : String → String) (files : List String) (calls : List RefCall),
    w.refs.lookup a ≠ none → uri a ≠ "" →
    (∀ b, w.refs.lookup b ≠ none → uri b = uri a → b = a) → uri a ∈ files →
    (∀ k, (Shelf.after uri calls ⟨w.refs, files⟩).counts.lookup k = w'.refs.lookup k) →
    (uri a ∉ (Shelf.after uri calls ⟨w.refs, files⟩).files
      ↔ 0 < occurrences w.store.messages a ∧ occurrences w'.store.messages a = 0)

lemma deletedWithLast_of_move {a : String} (h : Books.Move w.books w'.books)
    (hbal : w.books.Balanced a) : DeletedWithLast a w w' := by
  have hforgotten : (w.refs.lookup a ≠ none ∧ w'.refs.lookup a = none)
      ↔ 0 < occurrences w.store.messages a ∧ occurrences w'.store.messages a = 0 :=
    h.forgotten_iff hbal
  refine ⟨hforgotten, Shelf.exists_calls_of_move h, ?_⟩
  intro uri files calls hkn huri hown hfile hcalls
  rw [Shelf.mem_files_after (s := ⟨w.refs, files⟩) hkn huri hown, hcalls, ← hforgotten]
  simp [hkn, hfile]

/-- **Attachment references are conserved.**  In every run without faults, in which attachments
exist when they are sent, the reference count of an attachment stays the number of its occurrences
in the messages that are no drafts; and its metadata and its file are deleted exactly when its last
occurrence is removed. -/
theorem references_conserved (hinj : Function.Injective uuid) (hne : ∀ n, uuid n ≠ "")
    (activities : List Activity) (i : Instance) (hfresh : FreshIDs uuid i.store)
    (hfair : ∀ e ∈ Machine.steps Activity.next activities i, e.2.Fair uuid e.1) (a : String)
    (hstart : count i.world.refs a = occurrences i.store.messages a) :
    (∀ n, let i' := (activities.take n).foldl Activity.next i
      count i'.world.refs a = occurrences i'.store.messages a)
    ∧ (∀ w ∈ i.world :: passed activities i, count w.refs a = occurrences w.store.messages a)
    ∧ List.IsChain (DeletedWithLast a) (i.world :: passed activities i) := by
  have hmoves := passed_moves hinj hne hfresh hfair
  have hbal : ∀ w ∈ i.world :: passed activities i, w.books.Balanced a :=
    hmoves.induction _ _ (fun _ _ hmv => hmv.balanced) fun _ => hstart
  refine ⟨fun n => ?_, hbal, ?_⟩
  · exact hbal _ (reached_mem_passed activities i n)
  · refine List.IsChain.imp_of_mem_imp (fun w w' hw _ hmv => ?_) hmoves
    exact deletedWithLast_of_move hmv (hbal w hw)

end Runs

/-! ## An attachment that comes and goes -/

/-- A mailbox of a service with an attachment manager. -/
def managedMailbox (userID : String) : MemoryMailbox :=
  { plainMemoryMailbox userID with
    service :=
      { (plainMemoryMailbox userID).service with backend := memoryBackend unaryID 1 .none true }
    managed := true
    backend_eq := rfl }

/-- A draft that lists its attachment twice. -/
def twiceAttached : Message :=
  { draftWithAttachment with
    attachments := draftWithAttachment.attachments ++ draftWithAttachment.attachments }

/-- It is sent; then the recipient's copy and the sender's are deleted for good. -/
def sentAndDeleted : List Activity :=
  [.send (managedMailbox "u") twiceAttached "" "" "" 0 none [],
    .delete (managedMailbox "v") (unaryID 1), .permanentlyDelete (managedMailbox "v") (unaryID 1),
    .delete (managedMailbox "u") (unaryID 0), .permanentlyDelete (managedMailbox "u") (unaryID 0)]

theorem sentAndDeleted_conserved :
    ((sentAndDeleted.take 1).foldl Activity.next ⟨uploaded, ∅⟩).world.refs.lookup "a" = some 4
      ∧ ((sentAndDeleted.take 3).foldl Activity.next ⟨uploaded, ∅⟩).world.refs.lookup "a" = some 2
      ∧ (sentAndDeleted.foldl Activity.next ⟨uploaded, ∅⟩).world.refs.lookup "a" = none
      ∧ List.IsChain (DeletedWithLast "a") (uploaded :: passed sentAndDeleted ⟨uploaded, ∅⟩) := by
  refine ⟨by decide +kernel, by decide +kernel, by decide +kernel,
    (references_conserved unaryID_injective unaryID_ne_empty
    sentAndDeleted ⟨uploaded, ∅⟩ (fresh_new unaryID).toFreshIDs ?_ "a" rfl).2.2⟩
  simp only [sentAndDeleted, Machine.steps, List.forall_mem_cons]
  refine ⟨⟨⟨rfl, rfl, rfl⟩, ?_⟩, trivial, ⟨rfl, fun _ => rfl⟩, trivial,
    ⟨rfl, fun _ => rfl⟩, by simp⟩
  rintro targets hooked ⟨_, _, _, hh⟩ a ha
  obtain rfl : _ = hooked := (Prod.mk.inj hh).2
  rw [attachmentIDs, (prepareDraft_frame _ _ _).1.2.2] at ha
  obtain rfl : a = "a" := by simpa [twiceAttached, draftWithAttachment] using ha
  decide

end Mailbox.Service
