import Mailbox.Service.Bulk

/-!
# What the bulk operations do to the store

Both implementations of a bulk operation change a set of messages and leave the others alone.  The
changes are `BulkOp.effect`, what the single-message operation makes of a message, and
`BulkOp.nativeEffect`, what the store's bulk operation makes of it; they differ in `updatedAt`
only (`forgetTimes_effect`).  `native_spec` and `applyPage_spec` say which messages are changed.
-/

namespace Mailbox.Service

open Memory List Table Store

/-! ## Changing one message -/

namespace BulkOp

variable (now : Time)

/-- What the single-message operation makes of a message. -/
def effect : BulkOp → Message → Message
  | .updateRead read, m =>
    { m with isRead := read, updatedAt := now, readAt := if read then some now else none }
  | .move folderID, m => { m with folderID := folderID, updatedAt := now }
  | .delete, m => { m with folderID := folderTrash, updatedAt := now }
  | .tag tagID, m =>
    if tagID ∈ m.tags then m else { m with tags := m.tags ++ [tagID], updatedAt := now }
  | .untag tagID, m =>
    if tagID ∈ m.tags then { m with tags := m.tags.erase tagID, updatedAt := now } else m
  | .markAllRead _, m => { m with isRead := true, updatedAt := now, readAt := some now }

/-- What the store's bulk operation makes of a message. -/
def nativeEffect : BulkOp → Message → Message
  | .updateRead read, m =>
    { m with isRead := read, readAt := if read then some now else none, updatedAt := now }
  | .move folderID, m => { m with folderID := folderID, updatedAt := now }
  | .delete, m => { m with folderID := folderTrash, updatedAt := now }
  | .tag tagID, m =>
    { (if tagID ∈ m.tags then m else { m with tags := m.tags ++ [tagID] }) with
      updatedAt := now }
  | .untag tagID, m => { m with tags := m.tags.erase tagID, updatedAt := now }
  | .markAllRead _, m => { m with isRead := true, readAt := some now, updatedAt := now }

variable (op : BulkOp) (m : Message)

@[simp] lemma effect_id : (op.effect now m).id = m.id := by
  cases op <;> simp only [effect] <;> split_ifs <;> rfl

@[simp] lemma effect_createdAt : (op.effect now m).createdAt = m.createdAt := by
  cases op <;> simp only [effect] <;> split_ifs <;> rfl

@[simp] lemma nativeEffect_id : (op.nativeEffect now m).id = m.id := by
  cases op with
  | tag =>
    simp only [nativeEffect]
    split_ifs <;> rfl
  | _ => rfl

end BulkOp

open BulkOp

/-- A message up to its update and read timestamps. -/
def forgetTimes (m : Message) : Message :=
  { m with updatedAt := 0, readAt := m.readAt.map fun _ => 0 }

variable (now : Time)

lemma forgetTimes_effect (op : BulkOp) (m : Message) :
    forgetTimes (op.effect now m) = forgetTimes (op.nativeEffect now m) := by
  cases op with
  | tag =>
    simp only [effect, nativeEffect]
    split_ifs <;> rfl
  | untag =>
    simp only [effect, nativeEffect]
    split_ifs with h
    · rfl
    · rw [erase_of_not_mem h]
      rfl
  | _ => rfl

variable {f : Message → Message} {s : Store} {m : Message}

/-- A mutator that finds its message stores the changed version, or has nothing to change. -/
lemma mutate_changed {update : Update} (hm : m ∈ s.messages.all) (hid : m.id ≠ "")
    (hdr : m.isDraft = false) (hf : ∀ m, (f m).id = m.id)
    (hupd : update m = .ok (some (f m)) ∨ (update m = .ok none ∧ f m = m)) :
    ∃ t, s.mutate update m.id = (.ok (), { s with messages := t })
      ∧ Table.Changed f [m.id] s.messages t := by
  rw [mutate_of_load hid (load_of_mem hm) hdr]
  rcases hupd with hupd | ⟨hupd, hsm⟩
  · rw [hupd]
    exact ⟨_, rfl, changed_put hf hm⟩
  · rw [hupd]
    exact ⟨s.messages, rfl, changed_self hsm hm⟩

/-- The single-message operation succeeds on a message of the store and changes it. -/
lemma single_changed (op : BulkOp) (hm : m ∈ s.messages.all) (hid : m.id ≠ "")
    (hdr : m.isDraft = false) : ∃ t, op.single now m.id s = (.ok (), { s with messages := t })
      ∧ Table.Changed (op.effect now) [m.id] s.messages t := by
  have hmv : ∀ folderID, moveToFolder now m.id folderID {} s
      = s.mutate (.moveToFolder now folderID {}) m.id := by
    intro folderID
    simp [moveToFolder, hid]
  cases op with
  | updateRead | markAllRead =>
    rw [single, markRead]
    refine mutate_changed hm hid hdr (effect_id now _) ?_
    exact .inl rfl
  | move | delete =>
    rw [single, hmv]
    exact mutate_changed hm hid hdr (effect_id now _) (.inl rfl)
  | tag =>
    refine mutate_changed hm hid hdr (effect_id now _) ?_
    simp only [Update.addTag, effect]
    split_ifs
    · exact .inr ⟨rfl, rfl⟩
    · exact .inl rfl
  | untag =>
    refine mutate_changed hm hid hdr (effect_id now _) ?_
    simp only [Update.removeTag, effect]
    split_ifs
    · exact .inl rfl
    · exact .inr ⟨rfl, rfl⟩

/-! ## Changing a page -/

/-- Every message of a page is counted and changed, and nothing else is. -/
lemma applyPage_spec (op : BulkOp) {page : List Message} (count : ℕ)
    (hnd : (page.map Message.id).Nodup)
    (hpg : ∀ m ∈ page, m ∈ s.messages.all ∧ m.id ≠ "" ∧ m.isDraft = false) :
    ∃ t, applyPage (op.single now) page count s = (count + page.length, { s with messages := t })
      ∧ Table.Changed (op.effect now) (page.map Message.id) s.messages t := by
  induction page generalizing s count with
  | nil => exact ⟨s.messages, rfl, Table.Changed.refl _ _⟩
  | cons m page ih =>
    rw [map_cons, nodup_cons] at hnd
    obtain ⟨hm, hid, hdr⟩ := hpg m mem_cons_self
    obtain ⟨t, hone, hchg⟩ := single_changed now op hm hid hdr
    -- The rest of the page is untouched by the first call.
    have hr : ∀ m' ∈ page, m' ∈ t.all ∧ m'.id ≠ "" ∧ m'.isDraft = false := by
      intro m' hm'
      obtain ⟨hmem, hid', hdr'⟩ := hpg m' (mem_cons_of_mem _ hm')
      refine ⟨hchg.mem_of_notMem hmem ?_, hid', hdr'⟩
      rw [mem_singleton]
      intro heq
      exact hnd.1 (heq ▸ mem_map_of_mem hm')
    obtain ⟨t', happly, hchg'⟩ := ih (s := { s with messages := t }) (count + 1) hnd.2 hr
    refine ⟨t', ?_, ?_⟩
    · rw [applyPage, hone]
      simp only [happly, length_cons]
      congr 1
      omega
    · refine Table.Changed.trans (effect_id now op) hchg hchg' ?_
      intro id hid hmem
      rw [mem_singleton] at hid
      exact hnd.1 (hid ▸ hmem)

/-! ## The native operations -/

/-- A `Range` that treats each message it visits on its own changes the messages it is after. -/
lemma foldl_visit_spec {step : ℕ × Messages → Message → ℕ × Messages} {hit : Message → Bool}
    (hf : ∀ m, (f m).id = m.id) (hstep : ∀ acc m, m ∈ acc.2.all →
      step acc m = if hit m then (acc.1 + 1, acc.2.put (f m)) else acc)
    (l : List Message) (acc : ℕ × Messages) (hnd : (l.map Message.id).Nodup)
    (hl : ∀ m ∈ l, m ∈ acc.2.all) : (l.foldl step acc).1 = acc.1 + l.countP hit
      ∧ Table.Changed f ((l.filter hit).map Message.id) acc.2 (l.foldl step acc).2 := by
  induction l generalizing acc with
  | nil => exact ⟨rfl, Table.Changed.refl _ _⟩
  | cons m l ih =>
    rw [map_cons, nodup_cons] at hnd
    rw [foldl_cons, hstep acc m (hl m mem_cons_self)]
    by_cases hhit : hit m = true
    · have hchg : Table.Changed f [m.id] acc.2 (acc.2.put (f m)) :=
        changed_put hf (hl m mem_cons_self)
      have hr : ∀ m' ∈ l, m' ∈ (acc.2.put (f m)).all := by
        intro m' hm'
        refine hchg.mem_of_notMem (hl m' (mem_cons_of_mem _ hm')) ?_
        rw [mem_singleton]
        intro heq
        exact hnd.1 (heq ▸ mem_map_of_mem hm')
      obtain ⟨hcnt, hchg'⟩ := ih (acc.1 + 1, acc.2.put (f m)) hnd.2 hr
      rw [if_pos hhit, countP_cons_of_pos hhit, filter_cons_of_pos hhit]
      refine ⟨by rw [hcnt]; omega, Table.Changed.trans hf hchg hchg' ?_⟩
      intro id hid hmem
      rw [mem_singleton] at hid
      obtain ⟨m', hm', hid'⟩ := mem_map.mp hmem
      exact hnd.1 (mem_map.mpr ⟨m', (mem_filter.mp hm').1, hid'.trans hid⟩)
    · rw [if_neg hhit, countP_cons_of_neg hhit, filter_cons_of_neg hhit]
      exact ih acc hnd.2 fun m' hm' => hl m' (mem_cons_of_mem _ hm')

/-- What the native operation is after: for the filter-based ones what `Find` selects, for
`MarkAllRead` every unread message of the folder, also if it is not available yet. -/
def BulkOp.hits (userID : String) (filters : List Filter) : BulkOp → Message → Bool
  | .markAllRead folderID, m =>
    !m.isDraft && !m.isRead && decide (m.ownerID = userID) && decide (m.folderID = folderID)
  | _, m => selects now (scopedFilters userID filters) m

lemma matchesFilters_scopedFilters (u : String) (fs : List Filter) (m : Message) :
    matchesFilters m (scopedFilters u fs) = true
      ↔ m.ownerID = u ∧ m.isDraft = false ∧ matchesFilters m fs = true := by
  simp only [matchesFilters, scopedFilters, cons_append, nil_append, all_cons,
    Bool.and_eq_true, matchesFilter_ownerIs, matchesFilter_isDraftFilter]

/-- `iterateFiltered` treats the owner's messages that `Find` would select. -/
lemma visit_of_mem (u : String) (fs : List Filter) (fn : Message → Message)
    (acc : ℕ × Messages) (hm : m ∈ acc.2.all) : visit now u fs fn acc m =
      if decide (m.ownerID = u) && selects now fs m
      then (acc.1 + 1, acc.2.put { fn m with updatedAt := now }) else acc := by
  simp only [visit, load_of_mem hm, selects]
  by_cases hown : m.ownerID = u <;> by_cases hdr : m.isDraft = true <;>
    by_cases hav : isAvailableNow now m = true <;> by_cases hfs : matchesFilters m fs = true <;>
    simp [hown, hdr, hav, hfs]

lemma iterateFiltered_spec (u : String) (fs : List Filter) (fn : Message → Message)
    (hfn : ∀ m, (fn m).id = m.id) (s : Store) : ∃ t, s.iterateFiltered now u fs fn
        = (s.messages.all.countP fun m => decide (m.ownerID = u) && selects now fs m,
          { s with messages := t })
      ∧ Table.Changed (fun m => { fn m with updatedAt := now })
          ((s.messages.all.filter fun m => decide (m.ownerID = u) && selects now fs m).map
            Message.id) s.messages t := by
  obtain ⟨hcnt, hchg⟩ := foldl_visit_spec (f := fun m => { fn m with updatedAt := now })
    hfn (fun acc m hm => visit_of_mem now u fs fn acc hm) s.messages.all (0, s.messages)
    s.messages.nodup fun _ h => h
  refine ⟨_, ?_, hchg⟩
  rw [iterateFiltered, hcnt, Nat.zero_add]

lemma visitUnread_of_mem (u folderID : String) (acc : ℕ × Messages)
    (hm : m ∈ acc.2.all) (fs : List Filter) : visitUnread now u folderID acc m =
      if (markAllRead folderID).hits now u fs m
      then (acc.1 + 1, acc.2.put { m with isRead := true, readAt := some now, updatedAt := now })
      else acc := by
  have hhits : (markAllRead folderID).hits now u fs m = true
      ↔ m.isDraft = false ∧ m.isRead = false ∧ m.ownerID = u ∧ m.folderID = folderID := by
    simp [hits, and_assoc]
  simp only [visitUnread, load_of_mem hm, hhits]
  by_cases h : m.isDraft = false ∧ m.isRead = false ∧ m.ownerID = u ∧ m.folderID = folderID
  · obtain ⟨hdr, hrd, hown, hfo⟩ := h
    simp [hdr, hrd, hown, hfo]
  · rw [if_neg h, ite_self]

/-- **The native operation changes what it is after**, and counts it. -/
theorem native_spec (u : String) (fs : List Filter) (op : BulkOp) (s : Store) :
    ∃ t, op.native now u fs s = (s.messages.all.countP (op.hits now u fs), { s with messages := t })
      ∧ Table.Changed (op.nativeEffect now)
          ((s.messages.all.filter (op.hits now u fs)).map Message.id) s.messages t := by
  -- The filters of the service name the owner already.
  have hscoped : (fun m => decide (m.ownerID = u) && selects now (scopedFilters u fs) m)
      = selects now (scopedFilters u fs) := by
    funext m
    refine Bool.and_eq_right_iff_imp.mpr fun h => decide_eq_true ?_
    exact ((matchesFilters_scopedFilters u fs m).mp (Bool.and_eq_true_iff.mp h).2).1
  have hfilt := fun fn hfn => iterateFiltered_spec now u (scopedFilters u fs) fn hfn s
  simp only [hscoped] at hfilt
  cases op with
  | updateRead | move | delete => exact hfilt _ fun _ => rfl
  | tag tagID =>
    refine hfilt (fun m => if tagID ∈ m.tags then m else { m with tags := m.tags ++ [tagID] }) ?_
    intro m
    split_ifs <;> rfl
  | untag => exact hfilt _ fun _ => rfl
  | markAllRead folderID =>
    obtain ⟨hcnt, hchg⟩ := foldl_visit_spec
      (f := (markAllRead folderID).nativeEffect now) (nativeEffect_id now _)
      (fun acc m hm => visitUnread_of_mem now u folderID acc hm fs)
      s.messages.all (0, s.messages) s.messages.nodup fun _ h => h
    refine ⟨_, ?_, hchg⟩
    rw [native, Store.markAllRead, hcnt, Nat.zero_add]

end Mailbox.Service
