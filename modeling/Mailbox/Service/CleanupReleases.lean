import Mathlib.Data.List.Count
import Mailbox.Lib.Pool
import Mailbox.Service.Cleanup

/-!
# Several cleanups at once

Any number of attachment-aware cleanups run over one store.  The atomic steps are the pages of a
scan, the deletion of one ID, and the release of one reference.  What a scan has read may be gone
by the time it is deleted; deleting an ID tells the cleanup whether the message was still there, and
only then is the message among those whose references it releases.

Queries are a parameter (`Finder`): all that is known of them is that they return stored messages.
An error, or a cancelled context, ends the call.

**Ledger.**  At any moment, the references of a message that is gone have been released, or are in
the hands of the one cleanup that has deleted it, each exactly once; of a message that is still
there none has (`Settled`).

**`cleanup_releases_exactly_once`** follows when all cleanups have finished.
-/

namespace Mailbox.Service

open Memory Pool List Option Function

/-! ## The steps of a cleanup -/

/-- A query of the store. -/
abbrev Finder := List Filter → ListOptions → Messages → Except Error MessageList

/-- Queries return messages that are stored. -/
def Finder.Sound (find : Finder) : Prop :=
  ∀ filters opts t list, find filters opts t = .ok list → ∀ m ∈ list.messages, m ∈ t.all

/-- `Find` of the in-memory store. -/
def memoryFinder (now : Time) (range : Range) : Finder :=
  fun filters opts t =>
    match Store.find now range filters opts (.of t) with
    | none => .error (.text "slice bounds out of range")
    | some list => .ok list

lemma sound_memoryFinder (now : Time) {range : Range}
    (hrg : ∀ l, (range l).Perm l) : (memoryFinder now range).Sound := by
  intro filters opts t list h m hm
  rw [memoryFinder] at h
  split at h
  · cases h
  · cases h
    exact (mem_find hrg ‹_› hm).1

/-- The cleanup calls.  Cutoffs are read off the clock when the call gets there. -/
inductive CleanupCall where
  | trash (cutoff : Time)
  /-- `CleanupExpiredMessages`; there may be no retention. -/
  | expired (cutoff : Option Time) (now : Time)

def CleanupCall.sweeps : CleanupCall → List Sweep
  | .trash cutoff => [.trash cutoff]
  | .expired none now => [.ttl now]
  | .expired (some cutoff) now => [.retention cutoff, .ttl now]

/-- The messages, and the calls of `RemoveRef`: for which message, and of which attachment. -/
structure Depot where
  messages : Messages
  released : List (String × String)

inductive Phase where
  | scan (sweep : Sweep) (cursor : String) (scanned : Scanned)
  | delete (scanned : Scanned) (ids deletedIDs : List String)
  | release (refs : List (String × String))

/-- A cleanup in progress, with the sweeps it still has to start. -/
structure Cleaner where
  phase : Phase
  rest : List Sweep
  /-- How many queries it has made. -/
  queries : ℕ

/-- The cleanup has nothing left to do. -/
def Cleaner.Done (w : Cleaner) : Prop := w.phase = .release [] ∧ w.rest = []

variable {ι : Type} (find : ι → ℕ → Finder)

def cleanerStep (i : ι) (s : Depot) (w : Cleaner) : Depot × Cleaner :=
  match w.phase with
  | .scan sweep cursor scanned =>
    match find i w.queries sweep.filters { limit := scanBatchSize, startAfter := cursor }
        s.messages with
    | .error _ => (s, ⟨.release [], [], w.queries + 1⟩)
    | .ok list =>
      match nextCursor list with
      | some cursor =>
        (s, ⟨.scan sweep cursor (scanned.addPage list.messages), w.rest, w.queries + 1⟩)
      | none =>
        let scanned := scanned.addPage list.messages
        (s, ⟨.delete scanned scanned.scannedIDs [], w.rest, w.queries + 1⟩)
  | .delete scanned [] deletedIDs =>
    (s, { w with phase := .release (scanned.toRelease deletedIDs) })
  | .delete scanned (id :: ids) deletedIDs =>
    match s.messages.load id with
    | none => (s, { w with phase := .delete scanned ids deletedIDs })
    | some _ =>
      ({ s with messages := s.messages.delete id },
        { w with phase := .delete scanned ids (deletedIDs ++ [id]) })
  | .release (ref :: refs) =>
    ({ s with released := s.released ++ [ref] }, { w with phase := .release refs })
  | .release [] =>
    match w.rest with
    | [] => (s, w)
    | sweep :: rest => (s, { w with phase := .scan sweep "" .empty, rest := rest })

def allCleanups (calls : ι → CleanupCall) (messages : Messages) : Config ι Depot Cleaner where
  shared := ⟨messages, []⟩
  loc i := ⟨.release [], (calls i).sweeps, 0⟩

/-! ## A cleanup that runs alone -/

variable {sweep : Sweep} {ranges : Ranges}

section Alone

variable {find} {i : ι} {scanned found : Scanned} {rest : List Sweep} {k : ℕ} {s : Store}
  {ids deletedIDs : List String} {messages : Messages} {refs released : List (String × String)}

variable (rest released) in
lemma solo_scan {now : Time} {fuel : ℕ} {cursor : String}
    (hsc : scanExpiredMessages now sweep.filters s fuel ranges cursor scanned = some found)
    (hfd : ∀ n, find i (n + k) = memoryFinder now (ranges n)) :
    ∃ k', Solo (cleanerStep find) i ⟨s.messages, released⟩ ⟨.scan sweep cursor scanned, rest, k⟩
      ⟨s.messages, released⟩ ⟨.delete found found.scannedIDs [], rest, k'⟩ := by
  induction fuel generalizing ranges cursor scanned k with
  | zero => cases hsc
  | succ fuel ih =>
    rw [scanExpiredMessages] at hsc
    cases hls : s.find now (ranges 0) sweep.filters
        { limit := scanBatchSize, startAfter := cursor } with
    | none => simp [hls] at hsc
    | some list =>
      have hpg : find i k sweep.filters { limit := scanBatchSize, startAfter := cursor }
          s.messages = .ok list := by
        have hquery : Store.find now (ranges 0) sweep.filters _
            (.of s.messages) = some list := hls
        rw [← Nat.zero_add k, hfd, memoryFinder, hquery]
      simp only [hls] at hsc
      cases hnx : nextCursor list with
      | none =>
        simp only [hnx, some.injEq] at hsc
        refine ⟨k + 1, Solo.of_eq ?_ (.refl _ _)⟩
        simp only [cleanerStep, hpg, hnx, hsc]
      | some =>
        simp only [hnx] at hsc
        obtain ⟨k', hsolo⟩ := ih (k := k + 1) hsc fun n => by
          rw [← Nat.add_assoc, Nat.add_right_comm]
          exact hfd (n + 1)
        refine ⟨k', Solo.of_eq ?_ hsolo⟩
        simp only [cleanerStep, hpg, hnx]

lemma solo_delete :
    Solo (cleanerStep find) i ⟨s.messages, released⟩ ⟨.delete found ids deletedIDs, rest, k⟩
      ⟨(Store.deleteMessagesByIDs ids s).2.messages, released⟩
      ⟨.delete found [] (deletedIDs ++ (Store.deleteMessagesByIDs ids s).1), rest, k⟩ := by
  induction ids generalizing deletedIDs s with
  | nil =>
    rw [Store.deleteMessagesByIDs, append_nil]
    exact .refl _ _
  | cons id ids ih =>
    rw [Store.deleteMessagesByIDs]
    cases hld : s.messages.load id with
    | none =>
      refine Solo.of_eq ?_ ih
      simp only [cleanerStep, hld]
    | some =>
      rw [append_cons]
      refine Solo.of_eq ?_ ih
      simp only [cleanerStep, hld]

lemma solo_release : Solo (cleanerStep find) i ⟨messages, released⟩ ⟨.release refs, rest, k⟩
      ⟨messages, released ++ refs⟩ ⟨.release [], rest, k⟩ := by
  induction refs generalizing released with
  | nil =>
    rw [append_nil]
    exact .refl _ _
  | cons ref refs ih =>
    rw [append_cons]
    exact Solo.of_eq rfl ih

/-- **A cleanup that nothing interferes with** does what the sequential model says: it deletes the
same messages, and releases the same references. -/
theorem run_cleanup_alone [DecidableEq ι] {now : Time} {fuel : ℕ}
    {w w' : World} {count : ℕ} (h : sweep.withAttachments now fuel ranges w = some (count, w'))
    (hfd : ∀ n, find i n = memoryFinder now (ranges n)) {c : Config ι Depot Cleaner}
    (hshd : c.shared = ⟨w.store.messages, released⟩) (hloc : c.loc i = ⟨.release [], [sweep], 0⟩) :
    ∃ n refs, (run (cleanerStep find) (replicate n i) c).shared
        = ⟨w'.store.messages, released ++ refs⟩
      ∧ ((run (cleanerStep find) (replicate n i) c).loc i).Done
      ∧ w' = releaseRefs refs { w with store := w'.store } := by
  obtain ⟨found, hsc, rfl⟩ := Sweep.withAttachments_eq_some h
  obtain ⟨k, hscan⟩ := solo_scan [] released (k := 0) hsc hfd
  have hsweep := hscan.trans (solo_delete.trans (Solo.of_eq rfl solo_release))
  obtain ⟨n, hshd', hloc'⟩ := Solo.run (c := c) (by
    rw [hshd, hloc]
    exact Solo.of_eq rfl hsweep)
  rw [store_releaseRefs]
  refine ⟨n, _, hshd', ?_, rfl⟩
  rw [hloc']
  exact ⟨rfl, rfl⟩

end Alone

/-! ## What a scan knows -/

variable {t : Messages}

variable (t) in
/-- What has been scanned is right about the messages of `t`. -/
structure Scanned.Right (scanned : Scanned) : Prop where
  attachments : ∀ m ∈ t.all, ∀ ids, scanned.messageAttachments.lookup m.id = some ids →
    ids = attachmentIDs m
  known : ∀ m ∈ t.all, m.id ∈ scanned.scannedIDs →
    (scanned.messageAttachments.lookup m.id).getD [] = attachmentIDs m

namespace Scanned

lemma right_empty : empty.Right t where
  attachments _ _ _ h := by cases h
  known _ _ h := by cases h

lemma Right.add {scanned : Scanned} (h : scanned.Right t) {msg : Message} (hmsg : msg ∈ t.all) :
    (scanned.add msg).Right t := by
  have hlk : ∀ m ∈ t.all, ∀ ids, (scanned.add msg).messageAttachments.lookup m.id = some ids →
      ids = attachmentIDs m := by
    intro m hm ids hi
    simp only [Scanned.add] at hi
    split_ifs at hi
    · by_cases hid : m.id = msg.id
      · obtain rfl : m = msg := inj_on_of_nodup_map t.nodup hm hmsg hid
        rw [AList.lookup_insert, some.injEq] at hi
        exact hi.symm
      · rw [AList.lookup_insert_ne hid] at hi
        exact h.attachments m hm ids hi
    · exact h.attachments m hm ids hi
  refine ⟨hlk, fun m hm hid => ?_⟩
  cases hi : (scanned.add msg).messageAttachments.lookup m.id with
  | some ids => exact hlk m hm ids hi
  | none =>
    -- No entry is made for a message without attachments.
    simp only [Scanned.add] at hi
    rw [show (scanned.add msg).scannedIDs = scanned.scannedIDs ++ [msg.id] from rfl,
      mem_append, mem_singleton] at hid
    rcases hid with hid | hid
    · have hkn := h.known m hm hid
      split_ifs at hi with hsome
      · rw [AList.lookup_insert_eq_none] at hi
        rw [hi.2] at hkn
        exact hkn
      · rw [hi] at hkn
        exact hkn
    · obtain rfl : m = msg := inj_on_of_nodup_map t.nodup hm hmsg hid
      split_ifs at hi with hsome
      · rw [AList.lookup_insert] at hi
        cases hi
      · exact (length_eq_zero_iff.mp (Nat.eq_zero_of_not_pos hsome)).symm

lemma Right.addPage {scanned : Scanned} (h : scanned.Right t) {page : List Message}
    (hpg : ∀ m ∈ page, m ∈ t.all) : (scanned.addPage page).Right t := by
  induction page generalizing scanned with
  | nil => exact h
  | cons msg page ih =>
    refine ih (h.add (hpg msg mem_cons_self)) fun m hm => ?_
    exact hpg m (mem_cons_of_mem _ hm)

end Scanned

/-! ## The ledger -/

/-- The references a cleanup has to release for what it has deleted. -/
def Phase.pending : Phase → List (String × String)
  | .scan _ _ _ => []
  | .delete scanned _ deletedIDs => scanned.toRelease deletedIDs
  | .release refs => refs

variable (t) in
/-- A cleanup is right about what it has scanned, and deletes nothing else. -/
def Phase.Right : Phase → Prop
  | .scan _ _ scanned => scanned.Right t
  | .delete scanned ids _ => scanned.Right t ∧ ∀ id ∈ ids, id ∈ scanned.scannedIDs
  | .release _ => True

variable (t) in
/-- The references of the message with the given ID, if it is gone. -/
def owed (now : Messages) (id : String) : List String :=
  match now.load id with
  | some _ => []
  | none => ((t.load id).map attachmentIDs).getD []

/-- **The ledger** of one message: what has been released for it, together with what the one
cleanup that has deleted it still has to release, is what it had. -/
def Settled (t : Messages) (s : Depot) (loc : ι → Cleaner) (id : String) : Prop :=
  ∃ holder : Option ι, (∀ j, some j ≠ holder → ∀ a, ((loc j).phase.pending).count (id, a) = 0)
    ∧ ∀ a, s.released.count (id, a) + holder.elim 0 (fun i => ((loc i).phase.pending).count (id, a))
      = (owed t s.messages id).count a

variable (t) in
structure CleanupInv (c : Config ι Depot Cleaner) : Prop where
  stored : ∀ m ∈ c.shared.messages.all, m ∈ t.all
  right : ∀ i, (c.loc i).phase.Right t
  settled : ∀ id, Settled t c.shared c.loc id

section Steps

variable {find} {s : Depot} {w : Cleaner} {i : ι}

variable (find i s w) in
/-- What a step does: it reads, or deletes a message, or releases a reference. -/
lemma cleanerStep_cases : ((cleanerStep find i s w).1 = s
        ∧ (cleanerStep find i s w).2.phase.pending = w.phase.pending)
      ∨ (∃ scanned id ids deletedIDs m, w.phase = .delete scanned (id :: ids) deletedIDs
        ∧ s.messages.load id = some m
        ∧ cleanerStep find i s w = ({ s with messages := s.messages.delete id },
          { w with phase := .delete scanned ids (deletedIDs ++ [id]) }))
      ∨ ∃ ref refs, w.phase = .release (ref :: refs) ∧ cleanerStep find i s w
          = ({ s with released := s.released ++ [ref] }, { w with phase := .release refs }) := by
  obtain ⟨phase, rest, queries⟩ := w
  cases phase with
  | scan =>
    refine .inl ?_
    simp only [cleanerStep]
    split
    · exact ⟨rfl, rfl⟩
    · split <;> exact ⟨rfl, rfl⟩
  | delete scanned ids deletedIDs =>
    cases ids with
    | nil => exact .inl ⟨rfl, rfl⟩
    | cons id ids =>
      simp only [cleanerStep]
      split
      · exact .inl ⟨rfl, rfl⟩
      · exact .inr (.inl ⟨scanned, id, ids, deletedIDs, _, rfl, ‹_›, rfl⟩)
  | release refs =>
    cases refs with
    | cons ref refs => exact .inr (.inr ⟨ref, refs, rfl, rfl⟩)
    | nil => cases rest <;> exact .inl ⟨rfl, rfl⟩

lemma right_cleanerStep (hfd : ∀ n, (find i n).Sound) (hst : ∀ m ∈ s.messages.all, m ∈ t.all)
    (hright : w.phase.Right t) : (cleanerStep find i s w).2.phase.Right t := by
  obtain ⟨phase, rest, queries⟩ := w
  cases phase with
  | scan sweep cursor scanned =>
    simp only [cleanerStep]
    split
    · trivial
    · rename_i list hls
      have hpg : (scanned.addPage list.messages).Right t :=
        Scanned.Right.addPage hright fun m hm => hst m (hfd _ _ _ _ _ hls m hm)
      split
      · exact hpg
      · exact ⟨hpg, fun id hid => hid⟩
  | delete scanned ids =>
    cases ids with
    | nil => trivial
    | cons id ids =>
      have htl : ∀ id' ∈ ids, id' ∈ scanned.scannedIDs := fun id' hid' =>
        hright.2 id' (mem_cons_of_mem _ hid')
      simp only [cleanerStep]
      split <;> exact ⟨hright.1, htl⟩
  | release refs =>
    cases refs with
    | cons => trivial
    | nil =>
      cases rest with
      | nil => trivial
      | cons => exact Scanned.right_empty

lemma count_map_refs (l : List String) (id id' a : String) :
    (l.map fun attachmentID => (id, attachmentID)).count (id', a)
      = if id' = id then l.count a else 0 := by
  split_ifs with hid
  · subst hid
    exact count_map_of_injective _ _ (fun _ _ h => (Prod.mk.inj h).2) _
  · refine count_eq_zero.mpr fun hmem => hid ?_
    obtain ⟨b, _, heq⟩ := mem_map.mp hmem
    exact (Prod.mk.inj heq).1.symm

/-- Only the reference that is released changes hands. -/
lemma Settled.release [DecidableEq ι] {loc : ι → Cleaner} {id : String} (h : Settled t s loc id)
    {ref : String × String} {refs : List (String × String)} {w' : Cleaner}
    (hph : (loc i).phase = .release (ref :: refs)) (hw' : w'.phase = .release refs) :
    Settled t { s with released := s.released ++ [ref] } (update loc i w') id := by
  obtain ⟨holder, hoth, hsum⟩ := h
  have hpd : ∀ a, ((loc i).phase.pending).count (id, a)
      = refs.count (id, a) + [ref].count (id, a) := by
    intro a
    rw [hph, Phase.pending, ← singleton_append, count_append, Nat.add_comm]
  refine ⟨holder, fun j hj a => ?_, fun a => ?_⟩
  · by_cases hji : j = i
    · subst hji
      have hzr := hoth j hj a
      rw [hpd] at hzr
      rw [update_self, hw', Phase.pending]
      omega
    · rw [update_of_ne hji]
      exact hoth j hj a
  · rw [count_append, ← hsum a]
    by_cases hholder : some i = holder
    · subst hholder
      simp only [elim_some, update_self, hw', hpd]
      rw [Phase.pending]
      omega
    · -- Somebody else has deleted the message.
      have hzr := hoth i hholder a
      rw [hpd] at hzr
      have hsm : holder.elim 0 (fun j => ((update loc i w' j).phase.pending).count (id, a))
            = holder.elim 0 fun j => ((loc j).phase.pending).count (id, a) := by
        cases holder with
        | none => rfl
        | some j =>
          have hji : j ≠ i := fun h => hholder (congrArg some h.symm)
          simp only [elim_some, update_of_ne hji]
      omega

/-- A message that is deleted is in the hands of the cleanup that has deleted it, and no other. -/
lemma Settled.delete [DecidableEq ι] {loc : ι → Cleaner} {id : String} (h : Settled t s loc id)
    {scanned : Scanned} {id' : String} {ids deletedIDs : List String} {m : Message} {w' : Cleaner}
    (hph : (loc i).phase = .delete scanned (id' :: ids) deletedIDs)
    (hright : (loc i).phase.Right t) (hst : ∀ m ∈ s.messages.all, m ∈ t.all)
    (hld : s.messages.load id' = some m)
    (hw' : w'.phase = .delete scanned ids (deletedIDs ++ [id'])) :
    Settled t { s with messages := s.messages.delete id' } (update loc i w') id := by
  obtain ⟨holder, hoth, hsum⟩ := h
  rw [hph] at hright
  have hpd : ∀ a, (w'.phase.pending).count (id, a) = ((loc i).phase.pending).count (id, a)
      + if id = id' then ((scanned.messageAttachments.lookup id').getD []).count a else 0 := by
    intro a
    simp only [hw', hph, Phase.pending]
    rw [Scanned.toRelease, flatMap_append, count_append, flatMap_singleton, count_map_refs]
    rfl
  by_cases hid : id = id'
  · subst hid
    obtain ⟨hm, hk⟩ := Table.load_eq_some_iff.mp hld
    have hatt : (scanned.messageAttachments.lookup id).getD [] = attachmentIDs m := by
      rw [← hk]
      exact hright.1.known m (hst m hm) (hk ▸ hright.2 id mem_cons_self)
    -- Before, nothing was owed, released or in anybody's hands.
    have hbef : ∀ a, s.released.count (id, a) = 0
        ∧ ∀ j, ((loc j).phase.pending).count (id, a) = 0 := by
      intro a
      have hzr := hsum a
      rw [owed, hld, count_nil] at hzr
      refine ⟨by omega, fun j => ?_⟩
      by_cases hj : some j = holder
      · subst hj
        simp only [elim_some] at hzr
        omega
      · exact hoth j hj a
    refine ⟨some i, fun j hj a => ?_, fun a => ?_⟩
    · rw [update_of_ne fun h => hj (congrArg some h)]
      exact (hbef a).2 j
    · have howed : owed t (s.messages.delete id) id = attachmentIDs m := by
        rw [owed, Table.load_delete, Table.load_eq_some_iff.mpr ⟨hst m hm, hk⟩]
        rfl
      rw [howed, elim_some, update_self, hpd, if_pos rfl, hatt, (hbef a).1, (hbef a).2 i]
      omega
  · simp only [if_neg hid, Nat.add_zero] at hpd
    have hcnt : ∀ j a, ((update loc i w' j).phase.pending).count (id, a)
        = ((loc j).phase.pending).count (id, a) := by
      intro j a
      by_cases hji : j = i
      · subst hji
        rw [update_self]
        exact hpd a
      · rw [update_of_ne hji]
    have howed : owed t (s.messages.delete id') id = owed t s.messages id := by
      rw [owed, owed, Table.load_delete_of_ne hid]
    refine ⟨holder, fun j hj a => ?_, fun a => ?_⟩
    · rw [hcnt]
      exact hoth j hj a
    · rw [howed, ← hsum a]
      simp only [hcnt]

end Steps

/-! ## Runs -/

section Runs

variable {find} [DecidableEq ι]

lemma cleanupInv_step (hfd : ∀ i n, (find i n).Sound) (c : Config ι Depot Cleaner) (i : ι)
    (h : CleanupInv t c) : CleanupInv t (stepAt (cleanerStep find) c i) := by
  have hph : ∀ j, ((stepAt (cleanerStep find) c i).loc j).phase.Right t := by
    refine forall_stepAt (fun w : Cleaner => w.phase.Right t) h.right ?_
    exact right_cleanerStep (hfd i) h.stored (h.right i)
  rcases cleanerStep_cases find c.shared (c.loc i) i with
    ⟨hsm, hpd⟩ | ⟨scanned, id, ids, deletedIDs, m, hdel, hld, hstep⟩
      | ⟨ref, refs, hrel, hstep⟩
  · have hshd : (stepAt (cleanerStep find) c i).shared = c.shared := hsm
    refine ⟨hshd ▸ h.stored, hph, fun id => ?_⟩
    rw [hshd]
    have hkp : ∀ j, ((stepAt (cleanerStep find) c i).loc j).phase.pending
        = (c.loc j).phase.pending := by
      intro j
      by_cases hji : j = i
      · subst hji
        rw [stepAt_loc_self]
        exact hpd
      · rw [stepAt_loc_of_ne hji]
    simpa only [Settled, hkp] using h.settled id
  · refine ⟨?_, hph, fun id' => ?_⟩
    · rw [stepAt_shared, hstep]
      exact fun m' hm' => h.stored m' (Table.mem_delete.mp hm').1
    · show Settled t (cleanerStep find i c.shared (c.loc i)).1 (update c.loc i _) id'
      rw [hstep]
      exact (h.settled id').delete hdel (h.right i) h.stored hld rfl
  · refine ⟨?_, hph, fun id => ?_⟩
    · rw [stepAt_shared, hstep]
      exact h.stored
    · show Settled t (cleanerStep find i c.shared (c.loc i)).1 (update c.loc i _) id
      rw [hstep]
      exact (h.settled id).release hrel rfl

omit [DecidableEq ι] in
lemma cleanupInv_start (calls : ι → CleanupCall) (t : Messages) :
    CleanupInv t (allCleanups calls t) where
  stored m hm := hm
  right i := trivial
  settled id := by
    refine ⟨none, fun j _ a => rfl, fun a => ?_⟩
    show 0 = (owed t t id).count a
    rw [owed]
    cases t.load id <;> rfl

/-- The messages that are gone. -/
def gone (t now : Messages) : List Message := t.all.filter fun m => (now.load m.id).isNone

lemma count_flatMap_refs {l : List Message} (hl : (l.map Message.id).Nodup) (id a : String) :
    (l.flatMap fun m => (attachmentIDs m).map fun b => (m.id, b)).count (id, a)
      = (((l.find? fun m => decide (m.id = id)).map attachmentIDs).getD []).count a := by
  induction l with
  | nil => rfl
  | cons m l ih =>
    rw [map_cons, nodup_cons] at hl
    rw [flatMap_cons, count_append, ih hl.2, count_map_refs, find?_cons]
    by_cases hid : id = m.id
    · subst hid
      have hno : (l.find? fun m' => decide (m'.id = m.id)) = none := by
        rw [find?_eq_none]
        intro m' hm' heq
        rw [decide_eq_true_eq] at heq
        exact hl.1 (heq ▸ mem_map_of_mem hm')
      simp [hno]
    · have hne : decide (m.id = id) = false := decide_eq_false (Ne.symm hid)
      rw [if_neg hid, hne, Nat.zero_add]

lemma owed_eq_find (t now : Messages) (id : String) : owed t now id
      = (((gone t now).find? fun m => decide (m.id = id)).map attachmentIDs).getD [] := by
  have hfd : (gone t now).find? (fun m => decide (m.id = id)) = match now.load id with
        | some _ => none
        | none => t.load id := by
    rw [gone, find?_filter]
    cases hld : now.load id with
    | some =>
      rw [find?_eq_none]
      intro m' _ hm'
      simp only [decide_eq_true_eq] at hm'
      rw [hm'.2, hld] at hm'
      cases hm'.1
    | none =>
      congr 1
      funext m
      by_cases hid : m.id = id
      · simp [hid, hld]
      · simp [hid]
  rw [hfd, owed]
  cases now.load id <;> rfl

/-- **Each reference is released exactly once.**  When all cleanups have finished, each attachment
has been released as many times as it occurs in the messages that are gone. -/
theorem cleanup_releases_exactly_once (hfind : ∀ i n, (find i n).Sound) (calls : ι → CleanupCall)
    (t : Messages) (schedule : List ι)
    (hdone : ∀ i, ((run (cleanerStep find) schedule (allCleanups calls t)).loc i).Done)
    (a : String) :
    let s := (run (cleanerStep find) schedule (allCleanups calls t)).shared
    (s.released.map Prod.snd).count a = ((gone t s.messages).flatMap attachmentIDs).count a := by
  intro s
  have hinv : CleanupInv t (run (cleanerStep find) schedule (allCleanups calls t)) :=
    run_induction schedule (cleanupInv_step hfind) (cleanupInv_start calls t)
  have hreleased : s.released.Perm
      ((gone t s.messages).flatMap fun m => (attachmentIDs m).map fun b => (m.id, b)) := by
    rw [List.perm_iff_count]
    rintro ⟨id, b⟩
    obtain ⟨holder, _, hsum⟩ := hinv.settled id
    have hnd : ((gone t s.messages).map Message.id).Nodup :=
      t.nodup.sublist (List.filter_sublist.map _)
    rw [count_flatMap_refs hnd, ← owed_eq_find, ← hsum b]
    -- Nobody has anything left in hand.
    cases holder with
    | none => rfl
    | some i =>
      rw [Option.elim_some, (hdone i).1, Phase.pending, List.count_nil, Nat.add_zero]
  have hsnd : ∀ m : Message, ((attachmentIDs m).map fun b => (m.id, b)).map Prod.snd
      = attachmentIDs m := by
    intro m
    rw [List.map_map]
    exact List.map_id _
  rw [(hreleased.map Prod.snd).count_eq, List.map_flatMap]
  simp only [hsnd]

/-- A message in trash, with one attachment twice. -/
def twoAttachments : Message :=
  { Store.newDraft 0 "u" with
    id := "m"
    isDraft := false
    folderID := folderTrash
    attachments := [⟨"a", "", "", 0, "", 0⟩, ⟨"a", "", "", 0, "", 0⟩] }

/-- Two cleanups find the message, one deletes it, and releases its attachment twice. -/
theorem cleanup_releases_exactly_once_two :
    let s := (run (cleanerStep fun _ _ => memoryFinder 10 id)
      [true, false, true, false, true, false, true, true, false, true]
      (allCleanups (fun _ => .trash 5) (Table.empty.put twoAttachments))).shared
    (s.released.map Prod.snd).count "a"
      = ((gone (Table.empty.put twoAttachments) s.messages).flatMap attachmentIDs).count "a" :=
  cleanup_releases_exactly_once (fun _ _ => sound_memoryFinder 10 fun _ => .refl _)
    (fun _ => .trash 5) (Table.empty.put twoAttachments)
    [true, false, true, false, true, false, true, true, false, true]
    (fun i => by cases i <;> exact ⟨rfl, rfl⟩) "a"

theorem run_cleanup_alone_two :
    ∃ n refs, (run (cleanerStep fun _ _ => memoryFinder 10 id) (replicate n ())
        (allCleanups (fun _ => .trash 5) (Table.empty.put twoAttachments))).shared
      = ⟨Table.empty, refs⟩ := by
  let find (_ : Unit) (_ : ℕ) := memoryFinder 10 id
  have h : (Sweep.trash 5).withAttachments 10 1 (fun _ => id)
      ⟨.of (Table.empty.put twoAttachments), ∅, 0, []⟩ = some (1, _) := rfl
  have hfd : ∀ n, find () n = memoryFinder 10 id := fun _ => rfl
  obtain ⟨n, refs, hshared, -⟩ := run_cleanup_alone h hfd
    (c := allCleanups (fun _ => .trash 5) _) rfl rfl
  exact ⟨n, refs, hshared⟩

end Runs

end Mailbox.Service
