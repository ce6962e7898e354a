import Mailbox.Service.SendRefs
import Mailbox.Service.SendTrace

/-!
# The effect of a transmission

What `transmit` does to the in-memory store and to the event bus, for every draft and with any
faults.  Three things decide who gets a copy:

* the quotas and the faults of the store — the recipients that pass are those that are `serves`;
* the attachment references — `claimAll` takes them copy by copy, and a copy whose references cannot
  be added is deleted again;
* the sender's copy, without which nothing is delivered.

**`transmit_delivers`** and **`transmit_fails`** are its outcomes.

A recipient's copy is created under a key made of the sender's message ID and the recipient.  For
IDs without a colon no two such keys are the same (`copyKey_injective`).
-/

namespace Mailbox.Service

open Memory MemoryBackend List Table Nat Prod

/-! ## Keys -/

/-- The key of a recipient's copy in the idempotency index. -/
def copyKey (senderMsgID recipientID : String) : String :=
  Store.idxKey recipientID (senderMsgID ++ ":" ++ recipientID)

/-- The shorter of two words around separated words is a prefix of the longer one, so that the
separator after it falls into the longer one. -/
lemma length_le_of_around {α : Type} {sep : α} {l l' u u' : List α} (hu : sep ∉ u)
    (h : l ++ sep :: (u ++ sep :: l) = l' ++ sep :: (u' ++ sep :: l')) : l'.length ≤ l.length := by
  by_contra hlt
  have hlen := congrArg length h
  rcases append_eq_append_iff.mp h with ⟨t, rfl, ht⟩ | ⟨t, rfl, _⟩
  · cases t with
    | nil => simp at hlt
    | cons =>
      simp only [cons_append, cons.injEq] at ht
      obtain ⟨rfl, ht⟩ := ht
      simp only [length_append, length_cons] at hlen
      rcases append_eq_append_iff.mp ht with ⟨v, rfl, _⟩ | ⟨v, rfl, hv⟩
      · simp only [length_append] at hlen
        omega
      · cases v with
        | nil =>
          have := congrArg length hv
          simp only [nil_append, length_cons, length_append] at this
          omega
        | cons =>
          simp only [cons_append, cons.injEq] at hv
          exact hu (by simp [hv.1])
  · simp at hlt

variable {r : String}

lemma copyKey_injective {u u' r' : String} (hu : ':' ∉ u.toList) (hu' : ':' ∉ u'.toList)
    (h : copyKey u r = copyKey u' r') : u = u' ∧ r = r' := by
  have hls : r.toList ++ ':' :: (u.toList ++ ':' :: r.toList)
      = r'.toList ++ ':' :: (u'.toList ++ ':' :: r'.toList) := by
    have := congrArg String.toList h
    simpa [copyKey, Store.idxKey] using this
  have hlen : r.toList.length = r'.toList.length :=
    le_antisymm (length_le_of_around hu' hls.symm) (length_le_of_around hu hls)
  obtain ⟨hr, hrest⟩ := append_inj hls hlen
  rw [hr] at hrest
  refine ⟨String.toList_injective ?_, String.toList_injective hr⟩
  exact append_cancel_right (cons.inj hrest).2

/-- What `uuid.New` guarantees. -/
structure IDSource (uuid : ℕ → String) : Prop where
  injective : Function.Injective uuid
  ne_empty : ∀ n, uuid n ≠ ""
  no_colon : ∀ n, ':' ∉ (uuid n).toList

/-- The IDs still to be drawn are new, as IDs and within keys. -/
structure Fresh (uuid : ℕ → String) (s : Store) : Prop extends FreshIDs uuid s where
  keys : ∀ n ≥ s.drawn, ∀ r, s.idempotencyIdx.lookup (copyKey (uuid n) r) = none

lemma idSource_unaryID : IDSource unaryID :=
  ⟨unaryID_injective, unaryID_ne_empty, fun n => by simp [unaryID]⟩

lemma fresh_new (uuid : ℕ → String) : Fresh uuid Store.new :=
  ⟨⟨fun _ _ => rfl, fun _ h => absurd rfl h⟩, fun _ _ _ => rfl⟩

variable {s s' : Store}

lemma FreshIDs.of_ids {uuid : ℕ → String} (h : FreshIDs uuid s) (hdrw : s'.drawn = s.drawn)
    (hi : ∀ msg ∈ s'.messages.all, ∃ msg' ∈ s.messages.all, msg'.id = msg.id) :
    FreshIDs uuid s' := by
  have hld : ∀ id, s.messages.load id = none → s'.messages.load id = none := by
    intro id hno
    refine load_eq_none_iff.mpr fun msg hmsg => ?_
    obtain ⟨msg', hmsg', hid⟩ := hi msg hmsg
    rw [← hid]
    exact load_eq_none_iff.mp hno msg' hmsg'
  refine ⟨fun n hn => hld _ (h.unused n (by omega)), fun id hid => h.named id fun hno => ?_⟩
  exact hid (hld id hno)

/-! ## Copies -/

variable {uuid : ℕ → String} {now : Time} {faults : Faults} {managed : Bool}
  {n : ℕ} {rs served : List String}

section Copies

variable (uuid now) in
/-- Messages for the given recipients, under the IDs from the `n`th on. -/
def copies (data : String → MessageData) : ℕ → List String → List Message
  | _, [] => []
  | n, r :: rs => newMessageFromData (data r) (uuid n) now :: copies data (n + 1) rs

variable {data : String → MessageData}

lemma exists_of_mem_copies {msg : Message} (h : msg ∈ copies uuid now data n rs) :
    ∃ r ∈ rs, ∃ k, n ≤ k ∧ k < n + rs.length ∧ msg = newMessageFromData (data r) (uuid k) now := by
  induction rs generalizing n with
  | nil => cases h
  | cons r rs ih =>
    rcases mem_cons.mp h with rfl | h
    · exact ⟨r, mem_cons_self, n, le_rfl, by simp, rfl⟩
    · obtain ⟨r', hr', k, hk, hk', rfl⟩ := ih h
      refine ⟨r', mem_cons_of_mem _ hr', k, by omega, ?_, rfl⟩
      rw [length_cons]
      omega

lemma map_ownerID_copies (n : ℕ) (rs : List String) :
    (copies uuid now data n rs).map Message.ownerID = rs.map fun r => (data r).ownerID := by
  induction rs generalizing n with
  | nil => rfl
  | cons r rs ih => simp [copies, ih]

variable (uuid now data) in
/-- The served recipients have got their copies: these are on top of what was there, and the index
has changed at their keys only. -/
structure Delivered (senderMsgID : String) (served : List String) (s s' : Store) : Prop where
  ids : FreshIDs uuid s'
  drawn : s'.drawn = s.drawn + served.length
  all : s'.messages.all = (copies uuid now data s.drawn served).reverse ++ s.messages.all
  keys : ∀ key, (∀ r ∈ served, key ≠ copyKey senderMsgID r) →
    s'.idempotencyIdx.lookup key = s.idempotencyIdx.lookup key

variable {senderMsgID : String}

lemma Delivered.nil (hs : FreshIDs uuid s) : Delivered uuid now data senderMsgID [] s s :=
  ⟨hs, rfl, rfl, fun _ _ => rfl⟩

lemma Delivered.cons (hs : FreshIDs uuid s) (h : Delivered uuid now data senderMsgID served
      { s with
        messages := s.messages.put (newMessageFromData (data r) (uuid s.drawn) now)
        idempotencyIdx := s.idempotencyIdx.insert (copyKey senderMsgID r) (uuid s.drawn)
        drawn := s.drawn + 1 } s') : Delivered uuid now data senderMsgID (r :: served) s s' where
  ids := h.ids
  drawn := by
    rw [h.drawn, length_cons]
    show s.drawn + 1 + served.length = s.drawn + (served.length + 1)
    omega
  all := by
    have hput := all_put_of_fresh (t := s.messages)
      (a := newMessageFromData (data r) (uuid s.drawn) now) (hs.unused s.drawn (le_rfl))
    rw [h.all, hput, copies, reverse_cons, append_assoc]
    rfl
  keys key hk := by
    rw [h.keys key fun r' hr' => hk r' (mem_cons_of_mem _ hr')]
    exact AList.lookup_insert_ne (hk r mem_cons_self)

lemma Delivered.fresh (huuid : IDSource uuid) (hs : Fresh uuid s)
    (hn : n < s.drawn) (h : Delivered uuid now data (uuid n) served s s') : Fresh uuid s' where
  toFreshIDs := h.ids
  keys k hk r := by
    have hdrw := h.drawn
    have hne : ∀ r' ∈ served, copyKey (uuid k) r ≠ copyKey (uuid n) r' := by
      intro r' _ heq
      have := huuid.injective (copyKey_injective (huuid.no_colon k) (huuid.no_colon n) heq).1
      omega
    rw [h.keys _ hne]
    exact hs.keys k (by omega) r

variable (uuid now data) in
/-- The copy that a recipient gets under the given ID. -/
def copyAt (p : String × ℕ) : Message := newMessageFromData (data p.1) (uuid p.2) now

lemma copies_eq_map (n : ℕ) (rs : List String) :
    copies uuid now data n rs = (rs.zipIdx n).map (copyAt uuid now data) := by
  induction rs generalizing n with
  | nil => rfl
  | cons r rs ih => rw [copies, ih, zipIdx_cons, map_cons, copyAt]

variable (uuid now faults data) in
/-- What `CreateMessagesIdempotent` answers under new keys. -/
def entryResults : ℕ → List String → List IdempotentCreateResult
  | _, [] => []
  | n, r :: rs =>
    match faults.entry r with
    | some e => .err e :: entryResults n rs
    | none => .ok (copyAt uuid now data (r, n)) true :: entryResults (n + 1) rs

variable (faults) in
/-- The recipients whose creation does not fail. -/
def spared (rs : List String) : List String := rs.filter fun r => (faults.entry r).isNone

variable (now faults) in
/-- Under keys that are not in the index, everybody without a fault gets a new copy. -/
lemma createEntries_delivered (huuid : IDSource uuid) (entry : String → IdempotentCreateEntry)
    (hent : ∀ r, (entry r).data.ownerID = r ∧ (entry r).idempotencyKey = senderMsgID ++ ":" ++ r)
    (hrs : rs.Nodup) (hid : ':' ∉ senderMsgID.toList) (hs : FreshIDs uuid s)
    (hks : ∀ r ∈ rs, s.idempotencyIdx.lookup (copyKey senderMsgID r) = none) :
    (createEntries uuid now faults (rs.map entry) s).1
        = entryResults uuid now faults (fun r => (entry r).data) s.drawn rs
      ∧ Delivered uuid now (fun r => (entry r).data) senderMsgID (spared faults rs) s
          (createEntries uuid now faults (rs.map entry) s).2 := by
  induction rs generalizing s with
  | nil => exact ⟨rfl, .nil hs⟩
  | cons r rs ih =>
    obtain ⟨hr, hrs⟩ := nodup_cons.mp hrs
    obtain ⟨hown, hk⟩ := hent r
    rw [map_cons, createEntries, hown, entryResults, spared]
    cases hflt : faults.entry r with
    | some e =>
      obtain ⟨hresults, hdelivered⟩ := ih hrs hs fun r' hr' => hks r' (mem_cons_of_mem _ hr')
      rw [filter_cons_of_neg (by simp [hflt])]
      exact ⟨congrArg (IdempotentCreateResult.err e :: ·) hresults, hdelivered⟩
    | none =>
      have hfr := hks r mem_cons_self
      rw [copyKey, ← hk] at hfr
      nth_rewrite 1 [← hown] at hfr
      have hmk := Store.createMessageIdempotent_of_fresh uuid now (entry r).data
        (by rw [hk]; simp) hfr
      rw [hown, hk] at hmk
      rw [hk]
      simp only [hmk]
      obtain ⟨hresults, hdelivered⟩ := ih hrs (s := { s with
          messages := s.messages.put (newMessageFromData (entry r).data (uuid s.drawn) now)
          idempotencyIdx := s.idempotencyIdx.insert (copyKey senderMsgID r) (uuid s.drawn)
          drawn := s.drawn + 1 })
        (hs.put huuid.injective huuid.ne_empty (le_rfl) (lt_succ_self _) rfl rfl)
        fun r' hr' => by
          have hne : copyKey senderMsgID r' ≠ copyKey senderMsgID r := by
            intro heq
            rw [(copyKey_injective hid hid heq).2] at hr'
            exact hr hr'
          exact (AList.lookup_insert_ne hne).trans (hks r' (mem_cons_of_mem _ hr'))
      rw [filter_cons_of_pos (by simp [hflt])]
      exact ⟨congrArg (IdempotentCreateResult.ok _ true :: ·) hresults, hdelivered.cons hs⟩

end Copies

/-! ## References -/

/-- The references of a world, beside another store and other events. -/
def World.beside (w : World) (store : Store) (events : List Event) : World :=
  { w with store := store, events := events }

namespace UserMailbox

variable {msg msg' : Message}

section Generic

variable {σ : Type} (m : UserMailbox σ)

section

variable (h : msg.attachments = msg'.attachments)

include h

lemma addAttachmentRefs_congr : m.addAttachmentRefs msg = m.addAttachmentRefs msg' := by
  funext s
  rw [addAttachmentRefs, addAttachmentRefs, h]

lemma releaseAttachmentRefs_congr : m.releaseAttachmentRefs msg = m.releaseAttachmentRefs msg' := by
  funext s
  rw [releaseAttachmentRefs, releaseAttachmentRefs, h]

end

end Generic

lemma refManager_beside (s : Store) (ev : List Event) :
    (refManager faults).Relates fun w w' => w' = w.beside s ev where
  addRef id w _ := by
    rintro rfl
    simp only [SameStep, refManager, addRef, World.beside]
    cases faults.addRef w.addRefCalls with
    | some => exact ⟨rfl, rfl⟩
    | none => cases RefCount.increment id w.refs <;> exact ⟨rfl, rfl⟩
  removeRef id w _ := by
    rintro rfl
    simp only [SameStep, refManager, removeRef, World.beside]
    cases RefCount.decrement id w.refs <;> exact ⟨rfl, rfl⟩

variable {m : UserMailbox World} (hm : m.service.backend = memoryBackend uuid now faults managed)

include hm in
lemma refs_beside (s : Store) (ev : List Event) : ∀ manager ∈ m.service.backend.attachments,
    manager.Relates fun w w' => w' = w.beside s ev := by
  rw [hm]
  cases managed with
  | false => rintro manager ⟨⟩
  | true =>
    rintro manager ⟨⟩
    exact refManager_beside s ev

include hm in
lemma releaseAttachmentRefs_beside (msg : Message) (w : World) (s : Store) (ev : List Event) :
    m.releaseAttachmentRefs msg (w.beside s ev)
      = ((m.releaseAttachmentRefs msg w).1, (m.releaseAttachmentRefs msg w).2.beside s ev) := by
  obtain ⟨hres, hst⟩ := releaseAttachmentRefs_related (refs_beside hm s ev) rfl msg
  exact Prod.ext hres.symm hst

include hm in
lemma releaseAttachmentRefs_frame (msg : Message) (w : World) :
    (m.releaseAttachmentRefs msg w).2.store = w.store := by
  have h : (m.releaseAttachmentRefs msg w).2
      = (m.releaseAttachmentRefs msg w).2.beside w.store w.events :=
    congrArg snd (releaseAttachmentRefs_beside hm msg w w.store w.events)
  rw [h]
  rfl

variable (m) in
/-- Whether a copy gets its references, and what the attempt leaves behind: a failure is followed
by a release of all of them. -/
def claimRefs (msg : Message) (w : World) : Bool × World :=
  match m.addAttachmentRefs msg w with
  | (.ok _, w) => (true, w)
  | (.error _, w) => (false, (m.releaseAttachmentRefs msg w).2)

variable (m) in
/-- Copies of one message claim their references one after the other; some get them. -/
def claimAll {α : Type} (msg : Message) : List α → World → List α × World
  | [], w => ([], w)
  | a :: as, w =>
    match m.claimRefs msg w with
    | (true, w) => (a :: (claimAll msg as w).1, (claimAll msg as w).2)
    | (false, w) => claimAll msg as w

section

variable (h : msg.attachments = msg'.attachments)

include h

lemma claimRefs_congr : m.claimRefs msg = m.claimRefs msg' := by
  funext w
  rw [claimRefs, claimRefs, m.addAttachmentRefs_congr h, m.releaseAttachmentRefs_congr h]

lemma claimAll_congr {α : Type}
    (as : List α) (w : World) : m.claimAll msg as w = m.claimAll msg' as w := by
  induction as generalizing w with
  | nil => rfl
  | cons a as ih => simp [claimAll, claimRefs_congr h, ih]

end

include hm in
lemma claimRefs_beside (msg : Message) (w : World) (s : Store) (ev : List Event) :
    m.claimRefs msg (w.beside s ev)
      = ((m.claimRefs msg w).1, (m.claimRefs msg w).2.beside s ev) := by
  have hadd : m.addAttachmentRefs msg (w.beside s ev)
      = ((m.addAttachmentRefs msg w).1, (m.addAttachmentRefs msg w).2.beside s ev) := by
    obtain ⟨hres, hst⟩ := addAttachmentRefs_related (refs_beside hm s ev) rfl msg
    exact Prod.ext hres.symm hst
  rw [claimRefs, claimRefs, hadd]
  rcases m.addAttachmentRefs msg w with ⟨e | _, w'⟩
  · simp [releaseAttachmentRefs_beside hm]
  · rfl

include hm in
lemma claimAll_beside {α : Type} (msg : Message) (as : List α) (w : World) (s : Store)
    (ev : List Event) : m.claimAll msg as (w.beside s ev)
      = ((m.claimAll msg as w).1, (m.claimAll msg as w).2.beside s ev) := by
  induction as generalizing w with
  | nil => rfl
  | cons a as ih =>
    rw [claimAll, claimAll, claimRefs_beside hm]
    rcases m.claimRefs msg w with ⟨_ | _, w'⟩
    · exact ih w'
    · simp [ih]

lemma claimAll_sublist {α : Type} (msg : Message) (as : List α) (w : World) :
    (m.claimAll msg as w).1.Sublist as := by
  induction as generalizing w with
  | nil => exact List.Sublist.refl _
  | cons a as ih =>
    rw [claimAll]
    rcases m.claimRefs msg w with ⟨_ | _, w'⟩
    · exact (ih w').cons a
    · exact (ih w').cons_cons a

lemma claimAll_map {α β : Type} (f : α → β) (msg : Message) (as : List α) (w : World) :
    m.claimAll msg (as.map f) w = ((m.claimAll msg as w).1.map f, (m.claimAll msg as w).2) := by
  induction as generalizing w with
  | nil => rfl
  | cons a as ih =>
    rw [map_cons, claimAll, claimAll]
    rcases m.claimRefs msg w with ⟨_ | _, w'⟩
    · exact ih w'
    · simp [ih, map_cons]

/-! ## Delivery -/

variable (faults) in
/-- The events that the bus takes. -/
def accepted (events : List Event) : List Event :=
  events.filter fun event => (faults.publish event).isNone

lemma accepted_append (events events' : List Event) :
    accepted faults (events ++ events') = accepted faults events ++ accepted faults events' :=
  filter_append ..

include hm in
lemma publishOnly_state (event : Event) (w : World) :
    (m.publishOnly event w).2 = w.beside w.store (w.events ++ accepted faults [event]) := by
  rw [publishOnly, hm]
  simp only [memoryBackend, publish, accepted]
  cases hflt : faults.publish event with
  | none => simp [World.beside, hflt]
  | some =>
    rw [filter_cons_of_neg (by simp [hflt]), filter_nil, append_nil]
    split_ifs <;> rfl

variable (uuid m) in
def receivedEvent (draft : Message) (p : String × ℕ) : Event :=
  .messageReceived (uuid p.2) p.1 m.userID draft.subject m.service.now

variable {deliverTo : List String} {w : World} {p : String × ℕ} {l : List Message}

section Deliver

variable (huuid : IDSource uuid) {draft : Message} {data : String → MessageData}

variable (now faults managed) in
lemma hardDelete_copy (huuid : IDSource uuid) {data : String → MessageData} {rest : List Message}
    (hall : w.store.messages.all = l ++ copyAt uuid now data p :: rest) :
    ∃ s, ((memoryBackend uuid now faults managed).hardDelete (uuid p.2) w).2 = w.beside s w.events
      ∧ s.messages.all = l ++ rest ∧ s.drawn = w.store.drawn
      ∧ s.idempotencyIdx = w.store.idempotencyIdx := by
  have hld : w.store.messages.load (uuid p.2) = some (copyAt uuid now data p) :=
    load_eq_some_iff.mpr ⟨by rw [hall]; simp, rfl⟩
  rw [memoryBackend_hardDelete (huuid.ne_empty _) hld rfl]
  exact ⟨_, rfl, all_delete_of_append hall, rfl, rfl⟩

include hm huuid in
/-- Phase 3 after the creations of a batch: the copies that do not get their references are taken
out again. -/
lemma processResults_effect (hdata : ∀ r, (data r).attachments = draft.attachments)
    (rs : List String) (n : ℕ) (d : Delivery) (u : World) (s : Store) (ev : List Event)
    (rest : List Message)
    (hall : s.messages.all = (copies uuid now data n (spared faults rs)).reverse ++ rest) :
    let kept := m.claimAll draft ((spared faults rs).zipIdx n) u
    let r := m.processResults draft (rs.zip (entryResults uuid now faults data n rs)) d
      (u.beside s ev)
    (r.1.deliveredTo = d.deliveredTo ++ kept.1.map fst
        ∧ r.1.newlyDelivered = d.newlyDelivered ++ kept.1.map fst)
      ∧ ∃ s', r.2 = kept.2.beside s'
        (ev ++ accepted faults (kept.1.map (receivedEvent uuid m draft)))
        ∧ s'.messages.all = (kept.1.map (copyAt uuid now data)).reverse ++ rest
        ∧ s'.drawn = s.drawn ∧ s'.idempotencyIdx = s.idempotencyIdx := by
  induction rs generalizing n d u s ev rest with
  | nil =>
    simp only [spared, filter_nil, zipIdx_nil, claimAll, zip_nil_left,
      processResults, map_nil, append_nil]
    exact ⟨⟨trivial, trivial⟩, s, by simp [accepted], by simpa [spared, copies] using hall, rfl,
      rfl⟩
  | cons r rs ih =>
    rw [entryResults]
    cases hflt : faults.entry r with
    | some =>
      have hspared : spared faults (r :: rs) = spared faults rs :=
        filter_cons_of_neg (by simp [hflt])
      rw [hspared] at hall ⊢
      exact ih n _ u s ev rest hall
    | none =>
      have hspared : spared faults (r :: rs) = r :: spared faults rs :=
        filter_cons_of_pos (by simp [hflt])
      rw [hspared] at hall ⊢
      rw [copies, reverse_cons, append_assoc] at hall
      have hatt : (copyAt uuid now data (r, n)).attachments = draft.attachments := hdata r
      have hclm : m.claimRefs (copyAt uuid now data (r, n)) (u.beside s ev) = _ :=
        claimRefs_beside hm _ u s ev
      rw [claimRefs_congr hatt, claimRefs, m.addAttachmentRefs_congr hatt.symm] at hclm
      rw [zip_cons_cons, processResults, processResult, zipIdx_cons, claimAll]
      rcases hrf : m.addAttachmentRefs (copyAt uuid now data (r, n)) (u.beside s ev)
        with ⟨e | _, w₁⟩
      · -- The references fail: they are released, and the copy is deleted.
        rw [hrf] at hclm
        simp only [m.releaseAttachmentRefs_congr hatt] at hclm ⊢
        rcases hu : m.claimRefs draft u with ⟨ok, u'⟩
        rw [hu] at hclm
        obtain ⟨rfl, hw₁⟩ := Prod.mk.inj hclm
        rw [hw₁, hm]
        obtain ⟨s₁, hs₁, hall₁, hdrw₁, hidx₁⟩ :=
          hardDelete_copy now faults managed huuid (w := u'.beside s ev) (p := (r, n)) hall
        have hst : ((memoryBackend uuid now faults managed).hardDelete
            (copyAt uuid now data (r, n)).id (u'.beside s ev)).2 = u'.beside s₁ ev := hs₁
        rw [hst]
        obtain ⟨hto, s', hs', hall', hdrw', hidx'⟩ :=
          ih (n + 1) (d.fail r (.wrap "add attachment refs" e)) u' s₁ ev rest hall₁
        exact ⟨hto, s', hs', hall', hdrw'.trans hdrw₁, hidx'.trans hidx₁⟩
      · -- The copy is kept, and stands on top of the rest from now on.
        rw [hrf] at hclm
        rcases hu : m.claimRefs draft u with ⟨ok, u'⟩
        rw [hu] at hclm
        obtain ⟨rfl, hw₁⟩ := Prod.mk.inj hclm
        subst hw₁
        have hpub : (m.publishOnly (.messageReceived (copyAt uuid now data (r, n)).id r
            m.userID draft.subject m.service.now) (u'.beside s ev)).2
            = u'.beside s (ev ++ accepted faults [receivedEvent uuid m draft (r, n)]) :=
          publishOnly_state hm _ _
        simp only [hpub]
        obtain ⟨⟨hto, hw⟩, s', hs', hall', hdrw', hidx'⟩ :=
          ih (n + 1)
            { d with
              deliveredTo := d.deliveredTo ++ [r]
              newlyDelivered := d.newlyDelivered ++ [r] } u' s
            (ev ++ accepted faults [receivedEvent uuid m draft (r, n)])
            (copyAt uuid now data (r, n) :: rest) hall
        refine ⟨⟨?_, ?_⟩, s', ?_, ?_, hdrw', hidx'⟩
        · rw [hto, append_assoc]
          rfl
        · rw [hw, append_assoc]
          rfl
        · rw [hs', append_assoc, ← accepted_append]
          rfl
        · rw [hall', map_cons, reverse_cons, append_assoc]
          rfl

lemma failedOnly_foldl (e : Error) (rs : List String) (d : Delivery) :
    let d' := rs.foldl (fun d recipientID => d.fail recipientID e) d
    d'.deliveredTo = d.deliveredTo ∧ d'.newlyDelivered = d.newlyDelivered := by
  induction rs generalizing d with
  | nil => exact ⟨rfl, rfl⟩
  | cons r rs ih => exact ih (d.fail r e)

lemma eligible_eq {σ : Type} (m : UserMailbox σ) (s : σ) (targets : List String) (d : Delivery) :
    (m.eligible s targets d).1 = targets.filter (fun r => (m.checkQuota r s).isOk)
      ∧ (m.eligible s targets d).2.deliveredTo = d.deliveredTo
      ∧ (m.eligible s targets d).2.newlyDelivered = d.newlyDelivered := by
  induction targets generalizing d with
  | nil => exact ⟨rfl, rfl, rfl⟩
  | cons r targets ih =>
    rw [eligible]
    cases hr : m.checkQuota r s with
    | error =>
      rw [filter_cons_of_neg (by simp [hr, Except.isOk, Except.toBool])]
      exact ih _
    | ok =>
      rw [filter_cons_of_pos (by simp [hr, Except.isOk, Except.toBool])]
      exact ⟨congrArg (r :: ·) (ih d).1, (ih d).2⟩

/-- The recipients that get a copy, if there are references for it. -/
def serves (faults : Faults) (verdict : String → Result) (recipientID : String) : Bool :=
  (verdict recipientID).isOk && faults.batch.isNone && (faults.entry recipientID).isNone

/-- The delivery targets: all recipients when none are given. -/
def deliveryTargets (draft : Message) (deliverTo : List String) : List String :=
  if deliverTo.length = 0 then draft.recipientIDs else deliverTo

variable (faults m draft) in
/-- The recipients that get a copy, with the numbers of their IDs. -/
def keptCopies (deliverTo : List String) (w : World) : List (String × ℕ) :=
  (m.claimAll draft (((deliveryTargets draft deliverTo).filter
    (serves faults fun r => m.checkQuota r w)).zipIdx w.store.drawn) w).1

lemma le_of_mem_keptCopies (hp : p ∈ keptCopies faults m draft deliverTo w) : w.store.drawn ≤ p.2 :=
  le_snd_of_mem_zipIdx ((claimAll_sublist _ _ _).subset hp)

variable (uuid now faults m draft data) in
/-- What a delivery does. -/
structure Deposited (kept : List (String × ℕ)) (w w' : World) : Prop where
  fresh : Fresh uuid w'.store
  drawn : w.store.drawn ≤ w'.store.drawn
  all : w'.store.messages.all = (kept.map (copyAt uuid now data)).reverse ++ w.store.messages.all
  events : w'.events = w.events ++ accepted faults (kept.map (receivedEvent uuid m draft))

include hm huuid in
/-- **The effect of a delivery.** -/
theorem deliverToRecipients_effect (env : Envelope) {n : ℕ} (hn : n < w.store.drawn)
    (htargets : (deliveryTargets draft deliverTo).Nodup) (hw : Fresh uuid w.store)
    (hks : ∀ r, w.store.idempotencyIdx.lookup (copyKey (uuid n) r) = none) :
    let kept := keptCopies faults m draft deliverTo w
    let r := m.deliverToRecipients draft env (uuid n) deliverTo w
    (r.1.deliveredTo = kept.map fst ∧ r.1.newlyDelivered = kept.map fst)
      ∧ Deposited uuid now faults m draft
          (fun r => (m.recipientEntry draft env (uuid n) r).data) kept w r.2 := by
  obtain ⟨heligible, hto, hnew⟩ := m.eligible_eq w (deliveryTargets draft deliverTo) ⟨[], [], ∅⟩
  rw [keptCopies, deliverToRecipients]
  rw [deliveryTargets] at *
  generalize (if deliverTo.length = 0 then draft.recipientIDs else deliverTo) = targets at *
  generalize m.eligible w targets ⟨[], [], ∅⟩ = phase1 at *
  obtain ⟨recipients, d⟩ := phase1
  simp only at heligible hto hnew ⊢
  have hsd : targets.filter (serves faults fun r => m.checkQuota r w)
      = recipients.filter fun r => faults.batch.isNone && (faults.entry r).isNone := by
    rw [heligible, filter_filter]
    refine filter_congr fun r _ => ?_
    simp only [serves]
    grind
  have hnd : recipients.Nodup := by
    rw [heligible]
    exact htargets.filter _
  rw [hsd]
  by_cases hno : recipients.length = 0
  · rw [if_pos hno, eq_nil_of_length_eq_zero hno]
    exact ⟨⟨hto, hnew⟩, hw, le_rfl, rfl, by simp [claimAll, accepted]⟩
  · rw [if_neg hno, hm]
    simp only [memoryBackend, createMessagesIdempotent]
    cases hbat : faults.batch with
    | some e =>
      obtain ⟨hto', hnew'⟩ := failedOnly_foldl (.wrap "create message" e) recipients d
      simp only [Option.isNone_some, Bool.false_and, filter_false]
      exact ⟨⟨hto'.trans hto, hnew'.trans hnew⟩, hw, le_rfl, rfl, by simp [claimAll, accepted]⟩
    | none =>
      obtain ⟨hresults, hcps⟩ := createEntries_delivered now faults huuid
        (m.recipientEntry draft env (uuid n)) (fun r => ⟨rfl, rfl⟩) hnd (huuid.no_colon n)
        hw.toFreshIDs fun r _ => hks r
      generalize createEntries uuid now faults
        (recipients.map (m.recipientEntry draft env (uuid n))) w.store = batch at *
      obtain ⟨results, store⟩ := batch
      subst hresults
      obtain ⟨⟨hto', hnew'⟩, s', hs', hall', hdrw', hidx'⟩ := processResults_effect hm huuid
        (fun _ => rfl : ∀ r, (m.recipientEntry draft env (uuid n) r).data.attachments
          = draft.attachments)
        recipients w.store.drawn d w store w.events w.store.messages.all hcps.all
      rw [hto, nil_append] at hto'
      rw [hnew, nil_append] at hnew'
      have hfr := hcps.fresh huuid hw hn
      have hsub := claimAll_sublist (m := m) draft ((spared faults recipients).zipIdx
        w.store.drawn) w
      refine ⟨⟨hto', hnew'⟩, ?_⟩
      rw [show ({ w with store := store } : World) = w.beside store w.events from rfl, hs']
      refine ⟨⟨hfr.toFreshIDs.of_ids hdrw' fun msg hmsg => ⟨msg, ?_, rfl⟩, ?_⟩, ?_, hall', rfl⟩
      · rw [hcps.all, copies_eq_map]
        rw [World.beside, hall'] at hmsg
        refine mem_append.mpr ((mem_append.mp hmsg).imp (fun h => ?_) id)
        exact mem_reverse.mpr ((hsub.map _).subset (mem_reverse.mp h))
      · intro k hk r
        show s'.idempotencyIdx.lookup _ = none
        rw [hidx']
        exact hfr.keys k (hdrw' ▸ hk) r
      · show w.store.drawn ≤ s'.drawn
        rw [hdrw', hcps.drawn]
        exact le_add_right _ _

end Deliver

/-! ## The whole transmission -/

/-- The messages that are not the given draft. -/
def notDraft (draftID : String) (msg : Message) : Bool :=
  !(msg.isDraft && decide (msg.id = draftID))

lemma all_deleteDraft {draftID : String} {s : Store} (hid : draftID ≠ "") :
    (Store.deleteDraft draftID s).2.messages.all = s.messages.all.filter (notDraft draftID) := by
  rw [Store.deleteDraft, if_neg hid]
  cases hld : s.messages.load draftID with
  | none =>
    refine (filter_eq_self.mpr fun msg hmsg => ?_).symm
    simp [notDraft, load_eq_none_iff.mp hld msg hmsg]
  | some draft =>
    have hunique : ∀ msg ∈ s.messages.all, msg.id = draftID → msg = draft := by
      rintro msg hmsg rfl
      exact Option.some.inj ((load_of_mem hmsg).symm.trans hld)
    by_cases hdr : draft.isDraft = true
    · simp only [hdr, if_true]
      refine filter_congr fun msg hmsg => ?_
      by_cases hmsgID : msg.id = draftID
      · simp [notDraft, hunique msg hmsg hmsgID, hdr, key_of_load hld]
      · simp [notDraft, hmsgID]
    · simp only [hdr]
      refine (filter_eq_self.mpr fun msg hmsg => ?_).symm
      by_cases hmsgID : msg.id = draftID
      · simp [notDraft, hunique msg hmsg hmsgID, hdr]
      · simp [notDraft, hmsgID]

lemma deleteDraft_rest (draftID : String) (s : Store) :
    (Store.deleteDraft draftID s).2.drawn = s.drawn
      ∧ (Store.deleteDraft draftID s).2.idempotencyIdx = s.idempotencyIdx := by
  rw [Store.deleteDraft]
  split_ifs
  · exact ⟨rfl, rfl⟩
  · split
    · exact ⟨rfl, rfl⟩
    · split_ifs <;> exact ⟨rfl, rfl⟩

section

variable (hm : m.service.backend = memoryBackend uuid now faults managed)

include hm

lemma removeDraft_effect (draft : Message) (hnamed : w.store.messages.Named) :
    let w' := if draft.id = "" then w else (m.service.backend.deleteDraft draft.id w).2
    w'.store.messages.all = w.store.messages.all.filter (notDraft draft.id)
      ∧ w'.store.drawn = w.store.drawn ∧ w'.store.idempotencyIdx = w.store.idempotencyIdx
      ∧ w'.events = w.events ∧ w'.refs = w.refs := by
  intro w'
  by_cases hid : draft.id = ""
  · refine ⟨?_, by simp [w', hid], by simp [w', hid], by simp [w', hid], by simp [w', hid]⟩
    simp only [w', if_pos hid]
    refine (filter_eq_self.mpr fun msg hmsg => ?_).symm
    simp [notDraft, hid, hnamed msg hmsg]
  · simp only [w', if_neg hid, hm]
    obtain ⟨hdrw, hidx⟩ := deleteDraft_rest draft.id w.store
    exact ⟨all_deleteDraft hid, hdrw, hidx, rfl, rfl⟩

/-- The sender's copy in the sent folder. -/
def sentCopy (now : Time) (senderCopy : Message) : Message :=
  { senderCopy with folderID := folderSent, updatedAt := now }

/-- Finalizing gets as far as the event: the sender's copy is in the sent folder then, and the draft
is gone. -/
lemma finalizeDelivery_eq
    {senderCopy : Message} (hld : w.store.messages.load senderCopy.id = some senderCopy)
    (hcp : senderCopy.isDraft = false) (hnamed : w.store.messages.Named)
    (deliveredTo : List String) (draft : Message) :
    ∃ w' : World, m.finalizeDelivery senderCopy deliveredTo draft w
        = (sentCopy now senderCopy, m.publishOnly (.messageSent senderCopy.id senderCopy.senderID
            deliveredTo senderCopy.subject m.service.now) w')
      ∧ w'.store.messages.all = sentCopy now senderCopy
          :: (w.store.messages.delete senderCopy.id).all.filter (notDraft draft.id)
      ∧ w'.store.drawn = w.store.drawn ∧ w'.store.idempotencyIdx = w.store.idempotencyIdx
      ∧ w'.events = w.events ∧ w'.refs = w.refs := by
  have hid : senderCopy.id ≠ "" := hnamed _ (load_eq_some_iff.mp hld).1
  have hmv : m.service.backend.moveToFolder senderCopy.id folderSent w
      = (.ok (), { w with store := w.store.put (sentCopy now senderCopy) }) := by
    rw [hm]
    show lift (Store.moveToFolder now senderCopy.id folderSent {}) w = _
    have hmutate : Store.mutate (Update.moveToFolder now folderSent {}) senderCopy.id w.store = _ :=
      Store.mutate_of_load hid hld hcp
    simp [lift, Store.moveToFolder, hid, hmutate, Update.moveToFolder, sentCopy]
  have hremove := removeDraft_effect hm draft
    (w := { w with store := w.store.put (sentCopy now senderCopy) }) fun msg hmsg => by
      rcases mem_put.mp hmsg with rfl | ⟨hmem, _⟩
      · exact hid
      · exact hnamed msg hmem
  rw [finalizeDelivery, hmv]
  simp only at hremove ⊢
  generalize (if draft.id = "" then _ else _ : World) = w' at hremove ⊢
  obtain ⟨hall, hdrw, hidx, hevs, hrf⟩ := hremove
  have hall' : w'.store.messages.all = sentCopy now senderCopy
      :: (w.store.messages.delete senderCopy.id).all.filter (notDraft draft.id) := by
    rw [hall]
    exact filter_cons_of_pos (by simp [notDraft, sentCopy, hcp])
  have hg : m.service.backend.get senderCopy.id w' = .ok (sentCopy now senderCopy) := by
    have hld' : w'.store.messages.load senderCopy.id = some (sentCopy now senderCopy) :=
      load_eq_some_iff.mpr ⟨by rw [hall']; exact mem_cons_self, rfl⟩
    rw [hm]
    show w'.store.get senderCopy.id = _
    simp [Store.get, hid, hld', sentCopy, hcp]
  simp only [hg]
  exact ⟨w', rfl, hall', hdrw, hidx, hevs, hrf⟩

end

section Transmit

variable (huuid : IDSource uuid) {draft : Message} (env : Envelope) {deliverTo : List String}
  {w : World} (hw : Fresh uuid w.store)

variable (m draft) in
/-- The data of a recipient's copy. -/
def recipientData (recipientID : String) : MessageData :=
  { m.senderData draft env with
    ownerID := recipientID, status := .delivered, folderID := folderInbox }

variable (uuid now m draft w) in
def senderCopy : Message := newMessageFromData (m.senderData draft env) (uuid w.store.drawn) now

variable (uuid now m draft w) in
def withSenderCopy : World :=
  { w with store := (Store.createMessage uuid now (m.senderData draft env) w.store).2 }

include huuid hw in
lemma fresh_withSenderCopy : Fresh uuid (withSenderCopy uuid now m draft env w).store where
  toFreshIDs := hw.toFreshIDs.put huuid.injective huuid.ne_empty (le_rfl) (lt_succ_self _) rfl rfl
  keys n hn r := hw.keys n (le_of_succ_le hn) r

include hw in
lemma all_withSenderCopy : (withSenderCopy uuid now m draft env w).store.messages.all
      = senderCopy uuid now m draft env w :: w.store.messages.all :=
  all_put_of_fresh (hw.unused _ (le_rfl))

variable (uuid now m draft w) in
/-- The world in which the delivery starts: with the sender's copy and its references. -/
def deliveryStart : World :=
  (m.claimRefs draft w).2.beside (withSenderCopy uuid now m draft env w).store w.events

variable (uuid now m draft deliverTo w) in
def delivery : Delivery × World :=
  m.deliverToRecipients draft env (senderCopy uuid now m draft env w).id deliverTo
    (deliveryStart uuid now m draft env w)

variable (now faults managed m draft) in
include huuid in
lemma hardDelete_senderCopy {w' : World} (hall : w'.store.messages.all
      = l ++ senderCopy uuid now m draft env w :: w.store.messages.all)
    (hfr : Fresh uuid w'.store) :
    let w'' := ((memoryBackend uuid now faults managed).hardDelete (uuid w.store.drawn) w').2
    w''.store.messages.all = l ++ w.store.messages.all ∧ Fresh uuid w''.store := by
  have hld : w'.store.messages.load (uuid w.store.drawn)
      = some (senderCopy uuid now m draft env w) :=
    load_eq_some_iff.mpr ⟨by rw [hall]; simp, rfl⟩
  rw [memoryBackend_hardDelete (huuid.ne_empty _) hld rfl]
  exact ⟨all_delete_of_append hall, hfr.toFreshIDs.delete rfl rfl, hfr.keys⟩

include hm in
lemma createMessage_senderData (hmk : faults.create = none) :
    m.service.backend.createMessage (m.senderData draft env) w
      = (.ok (senderCopy uuid now m draft env w), withSenderCopy uuid now m draft env w) := by
  rw [hm]
  simp only [memoryBackend, createMessage, hmk]
  rfl

include hm in
/-- The sender's copy is created when the store takes it and its references can be added. -/
lemma createSenderMessage_eq (hmk : faults.create = none)
    (hrf : (m.claimRefs draft w).1 = true) : m.createSenderMessage draft env w
      = (.ok (senderCopy uuid now m draft env w), deliveryStart uuid now m draft env w) := by
  have hclm : m.claimRefs draft (withSenderCopy uuid now m draft env w)
      = (true, deliveryStart uuid now m draft env w) := by
    rw [← hrf]
    exact claimRefs_beside hm draft w _ w.events
  rw [createSenderMessage, createMessage_senderData hm env hmk]
  simp only [m.addAttachmentRefs_congr (show (senderCopy uuid now m draft env w).attachments
    = draft.attachments from rfl)]
  rw [claimRefs] at hclm
  rcases hadd : m.addAttachmentRefs draft (withSenderCopy uuid now m draft env w) with ⟨e | _, w'⟩
  · rw [hadd] at hclm
    cases hclm
  · rw [hadd] at hclm
    rw [← (Prod.mk.inj hclm).2]

include hm huuid hw

lemma createSenderMessage_fails (hn : ¬ (faults.create = none ∧ (m.claimRefs draft w).1 = true)) :
    ∃ e w', m.createSenderMessage draft env w = (.error e, w')
      ∧ w'.store.messages.all = w.store.messages.all ∧ Fresh uuid w'.store := by
  rw [createSenderMessage]
  cases hmk : faults.create with
  | some e =>
    have hsto : m.service.backend.createMessage (m.senderData draft env) w = (.error e, w) := by
      simp [hm, memoryBackend, createMessage, hmk]
    rw [hsto]
    exact ⟨_, _, rfl, rfl, hw⟩
  | none =>
    have hatt : (senderCopy uuid now m draft env w).attachments = draft.attachments := rfl
    have hclm : m.claimRefs draft (withSenderCopy uuid now m draft env w)
        = ((m.claimRefs draft w).1, deliveryStart uuid now m draft env w) :=
      claimRefs_beside hm draft w _ w.events
    rw [createMessage_senderData hm env hmk]
    simp only [m.addAttachmentRefs_congr hatt, m.releaseAttachmentRefs_congr hatt]
    rw [claimRefs] at hclm
    rcases hadd : m.addAttachmentRefs draft (withSenderCopy uuid now m draft env w) with ⟨e | _, w'⟩
    · rw [hadd] at hclm
      obtain ⟨_, hst⟩ := Prod.mk.inj hclm
      simp only at hst ⊢
      have hall : (deliveryStart uuid now m draft env w).store.messages.all
          = [] ++ senderCopy uuid now m draft env w :: w.store.messages.all :=
        all_withSenderCopy env hw
      have hdeleted := hardDelete_senderCopy now faults managed m huuid draft env hall
        (fresh_withSenderCopy huuid env hw)
      rw [hst, hm, show (senderCopy uuid now m draft env w).id = uuid w.store.drawn from rfl]
      generalize (memoryBackend uuid now faults managed).hardDelete _ _ = r at hdeleted ⊢
      rcases r with ⟨e' | _, w''⟩
      · exact ⟨_, _, rfl, hdeleted⟩
      · exact ⟨_, _, rfl, hdeleted⟩
    · rw [hadd] at hclm
      exact absurd ⟨hmk, (Prod.mk.inj hclm).1.symm⟩ hn

variable (uuid now faults m draft deliverTo w) in
/-- The copies a transmission makes for the recipients. -/
def delivered : List (String × ℕ) :=
  keptCopies faults m draft deliverTo (deliveryStart uuid now m draft env w)

variable (uuid now faults m draft deliverTo w) in
/-- The sender's copy can be made, and somebody gets one as well. -/
structure Delivers : Prop where
  create : faults.create = none
  refs : (m.claimRefs draft w).1 = true
  somebody : delivered uuid now faults m draft env deliverTo w ≠ []

section

variable (htargets : (deliveryTargets draft deliverTo).Nodup)

include htargets

lemma deliver_afterSenderCopy :
    let kept := delivered uuid now faults m draft env deliverTo w
    let r := delivery uuid now m draft env deliverTo w
    (r.1.deliveredTo = kept.map fst ∧ r.1.newlyDelivered = kept.map fst)
      ∧ Deposited uuid now faults m draft (recipientData m draft env) kept
          (deliveryStart uuid now m draft env w) r.2 :=
  deliverToRecipients_effect hm huuid env (lt_succ_self _) htargets
    (fresh_withSenderCopy huuid env hw) fun r => hw.keys _ (le_rfl) r

/-- **A transmission that delivers to nobody** leaves the messages as they were. -/
theorem transmit_fails (hn : ¬ Delivers uuid now faults m draft env deliverTo w) :
    (m.transmit draft env deliverTo w).message = none
      ∧ (m.transmit draft env deliverTo w).state.store.messages.all = w.store.messages.all
      ∧ Fresh uuid (m.transmit draft env deliverTo w).state.store := by
  rw [transmit]
  by_cases hsender : faults.create = none ∧ (m.claimRefs draft w).1 = true
  · obtain ⟨hmk, hrf⟩ := hsender
    obtain ⟨⟨hto, _⟩, hfr, _, hall, _⟩ := deliver_afterSenderCopy hm huuid env hw htargets
    have hnb : delivered uuid now faults m draft env deliverTo w = [] := by
      by_contra hsome
      exact hn ⟨hmk, hrf, hsome⟩
    rw [hnb] at hto hall
    generalize hdelivery : delivery uuid now m draft env deliverTo w = d at *
    rw [delivery] at hdelivery
    rw [createSenderMessage_eq hm env hmk hrf]
    simp only [hdelivery, hto, map_nil, length_nil, if_true]
    have hrel := releaseAttachmentRefs_frame hm (senderCopy uuid now m draft env w) d.2
    have hall₂ : d.2.store.messages.all
        = [] ++ senderCopy uuid now m draft env w :: w.store.messages.all :=
      hall.trans (all_withSenderCopy env hw)
    rw [← hrel] at hall₂ hfr
    obtain ⟨hall', hfr'⟩ :=
      hardDelete_senderCopy now faults managed m huuid draft env (w := w) hall₂ hfr
    simp only [rollbackSenderMessage, hm]
    exact ⟨trivial, hall', hfr'⟩
  · obtain ⟨e, w', heq, hall, hfr⟩ := createSenderMessage_fails hm huuid env hw hsender
    rw [heq]
    exact ⟨rfl, hall, hfr⟩

variable (uuid now m draft deliverTo w) in
def sendEvents (kept : List (String × ℕ)) : List Event :=
  kept.map (receivedEvent uuid m draft)
    ++ [.messageSent (uuid w.store.drawn) m.userID (kept.map Prod.fst) draft.subject m.service.now]

section

variable (h : Delivers uuid now faults m draft env deliverTo w)

include h

lemma transmit_eq_completeSend :
    let d := delivery uuid now m draft env deliverTo w
    m.transmit draft env deliverTo w
      = m.completeSend draft (senderCopy uuid now m draft env w) d.1 d.2 := by
  obtain ⟨hmk, hrf, hsome⟩ := h
  obtain ⟨⟨hto, _⟩, _⟩ := deliver_afterSenderCopy hm huuid env hw htargets
  have hlen : ¬ (delivery uuid now m draft env deliverTo w).1.deliveredTo.length = 0 := by
    rw [hto, length_map, length_eq_zero_iff]
    exact hsome
  rw [delivery] at hlen ⊢
  rw [transmit, createSenderMessage_eq hm env hmk hrf]
  simp [hlen]

/-- **A transmission that delivers**: the sender's copy in the sent folder and the recipients'
copies are new, the saved draft is gone, and that is all. -/
theorem transmit_delivers :
    let kept := delivered uuid now faults m draft env deliverTo w
    let r := m.transmit draft env deliverTo w
    r.message = some (sentCopy now (senderCopy uuid now m draft env w))
      ∧ r.state.store.messages.all = sentCopy now (senderCopy uuid now m draft env w)
          :: ((kept.map (copyAt uuid now (recipientData m draft env))).reverse
            ++ w.store.messages.all.filter (notDraft draft.id))
      ∧ r.state.events = w.events ++ accepted faults (sendEvents uuid m draft w kept)
      ∧ w.store.drawn ≤ r.state.store.drawn ∧ Fresh uuid r.state.store := by
  obtain ⟨⟨hto, hnew⟩, hfr, hlat, hall, hevs⟩ := deliver_afterSenderCopy hm huuid env hw htargets
  rw [transmit_eq_completeSend hm huuid env hw htargets h]
  generalize delivery uuid now m draft env deliverTo w = d at *
  obtain ⟨d, w₂⟩ := d
  generalize delivered uuid now faults m draft env deliverTo w = kept at *
  replace hall : w₂.store.messages.all
      = (kept.map (copyAt uuid now (recipientData m draft env))).reverse
        ++ senderCopy uuid now m draft env w :: w.store.messages.all := by
    rw [hall]
    exact congrArg _ (all_withSenderCopy env hw)
  have hld : w₂.store.messages.load (senderCopy uuid now m draft env w).id
      = some (senderCopy uuid now m draft env w) :=
    load_eq_some_iff.mpr ⟨by rw [hall]; simp, rfl⟩
  obtain ⟨w₃, heq, hall', hdrw, hidx, hsn, _⟩ := finalizeDelivery_eq hm hld rfl
    (fun msg hmsg => hfr.named msg.id (by simp [load_of_mem hmsg])) d.newlyDelivered draft
  have hcps : ∀ msg ∈ (kept.map (copyAt uuid now (recipientData m draft env))).reverse,
      notDraft draft.id msg = true := by
    intro msg hmsg
    obtain ⟨p, _, rfl⟩ := mem_map.mp (mem_reverse.mp hmsg)
    simp [notDraft, copyAt]
  have hdel : (w₂.store.messages.delete (senderCopy uuid now m draft env w).id).all = _ :=
    all_delete_of_append hall
  simp only [completeSend, heq, publishOnly_state hm]
  refine ⟨trivial, ?_, ?_, ?_, hfr.toFreshIDs.of_ids hdrw ?_, ?_⟩
  · refine hall'.trans (congrArg _ ?_)
    rw [hdel, filter_append, filter_eq_self.mpr hcps]
  · show w₃.events ++ _ = _
    rw [hsn, hevs, hnew, sendEvents, accepted_append, ← append_assoc]
    rfl
  · exact le_trans (le_succ _) (le_trans hlat (le_of_eq hdrw.symm))
  · intro msg hmsg
    rcases mem_cons.mp (hall' ▸ hmsg) with rfl | hmsg
    · exact ⟨_, (load_eq_some_iff.mp hld).1, rfl⟩
    · exact ⟨msg, (mem_delete.mp (mem_of_mem_filter hmsg)).1, rfl⟩
  · intro n hn r
    show w₃.store.idempotencyIdx.lookup _ = none
    rw [hidx]
    exact hfr.keys n (hdrw ▸ hn) r

/-- What a transmission adds to a count of messages that are neither drafts nor the sender's. -/
lemma countP_transmit {p : Message → Bool} {r : String}
    (hdraft : ∀ msg, p msg = true → msg.isDraft = false)
    (hsender : p (sentCopy now (senderCopy uuid now m draft env w)) = false)
    (hcopy : ∀ q : String × ℕ, w.store.drawn ≤ q.2 →
      (p (copyAt uuid now (recipientData m draft env) q) = true ↔ q.1 = r)) :
    (m.transmit draft env deliverTo w).state.store.messages.all.countP p
      = ((delivered uuid now faults m draft env deliverTo w).map fst).count r
        + w.store.messages.all.countP p := by
  obtain ⟨_, hall, _⟩ := transmit_delivers hm huuid env hw htargets h
  have hkept : (w.store.messages.all.filter (notDraft draft.id)).countP p
      = w.store.messages.all.countP p := by
    rw [countP_filter]
    refine countP_congr fun msg _ => ?_
    cases hp : p msg with
    | false => simp
    | true => simp [notDraft, hdraft msg hp]
  rw [hall, countP_cons_of_neg (by simp [hsender]), countP_append, countP_reverse, hkept,
    countP_map, count_eq_countP, countP_map]
  refine congrArg (· + _) (countP_congr fun q hq => ?_)
  simp [hcopy q (le_of_succ_le (le_of_mem_keptCopies hq))]

end

end

end Transmit

lemma delivered_sublist {draft : Message} {env : Envelope} :
    ((delivered uuid now faults m draft env deliverTo w).map fst).Sublist
      ((deliveryTargets draft deliverTo).filter
        (serves faults fun r => m.checkQuota r (deliveryStart uuid now m draft env w))) := by
  have hsub := (claimAll_sublist (m := m) draft (((deliveryTargets draft deliverTo).filter
    (serves faults fun r => m.checkQuota r (deliveryStart uuid now m draft env w))).zipIdx
      (w.store.drawn + 1)) (deliveryStart uuid now m draft env w)).map fst
  rwa [zipIdx_map_fst] at hsub

end UserMailbox

end Mailbox.Service
