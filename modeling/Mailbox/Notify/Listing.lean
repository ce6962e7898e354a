import Mailbox.Notify.Store

/-!
# What the in-memory store lists

`Save`, `List` and `Cleanup` of `notify/memory/store.go`, with calls of `Save` that overlap: the ID
of an event is drawn outside the lock under which the event is appended.  An `Archive` remembers
every event that was appended, in that order.

**`list_later_iff`** says when `List` returns the stored events that were saved after the cursor's.
-/

namespace Mailbox.Notify

open List

namespace MemoryStore

/-- One user's turn in the loop of `Cleanup`. -/
def keepRecent (olderThan : Time) (events : AList fun _ : String => List Event) (userID : String) :
    AList fun _ : String => List Event :=
  let kept := ((events.lookup userID).getD []).filter fun evt => ¬ evt.timestamp < olderThan
  if kept = [] then events.erase userID else events.insert userID kept

/-- `Cleanup` removes notifications older than the given time. -/
def cleanup (olderThan : Time) (s : MemoryStore) : Except NotifyError MemoryStore :=
  if s.closed then .error .storeClosed
  else .ok { s with events := s.events.keys.foldl (keepRecent olderThan) s.events }

lemma keepRecent_sublist (olderThan : Time) (u : String) (userIDs : List String)
    (events : AList fun _ : String => List Event) :
    (((userIDs.foldl (keepRecent olderThan) events).lookup u).getD []).Sublist
      ((events.lookup u).getD []) := by
  induction userIDs generalizing events with
  | nil => exact .refl _
  | cons userID userIDs ih =>
    refine (ih _).trans ?_
    by_cases hu : u = userID
    · subst hu
      simp only [keepRecent]
      split_ifs <;> simp
    · simp only [keepRecent]
      split_ifs
      · rw [AList.lookup_erase_ne hu]
      · rw [AList.lookup_insert_ne hu]

end MemoryStore

/-- The store, the events of the calls of `Save` that have drawn an ID and not appended yet, and
every event that was appended. -/
structure Archive where
  store : MemoryStore
  pending : List Event
  saved : List Event

inductive ArchiveStep where
  | assign (evt : Event)
  | append (evt : Event)
  | cleanup (olderThan : Time)

/-- The numeric order of the IDs. -/
def Event.Precedes (e f : Event) : Prop :=
  ∃ m n, e.id = Nat.repr m ∧ f.id = Nat.repr n ∧ m < n

namespace Archive

def step (a : Archive) : ArchiveStep → Archive
  | .assign evt =>
    match a.store.assignID evt with
    | .ok (evt, store) => { a with store := store, pending := evt :: a.pending }
    | .error _ => a
  | .append evt =>
    if evt ∈ a.pending then ⟨a.store.append evt, a.pending.erase evt, a.saved ++ [evt]⟩ else a
  | .cleanup olderThan =>
    match a.store.cleanup olderThan with
    | .ok store => { a with store := store }
    | .error _ => a

/-- The archive after the given steps, from a new store on. -/
def run (steps : List ArchiveStep) : Archive := steps.foldl step ⟨⟨∅, 0, false⟩, [], []⟩

/-- The events that were saved after the given one, for any user. -/
def after (a : Archive) (h : Event) : List Event := Cursor.seek Event.id h.id a.saved

/-- Those of its user that are still stored. -/
def later (a : Archive) (h : Event) : List Event :=
  (a.store.eventsOf h.userID).filter (· ∈ a.after h)

/-- Every ID is drawn once, and what is stored is left over from what was saved. -/
structure Sound (a : Archive) : Prop where
  opened : a.store.closed = false
  ids : ((a.pending ++ a.saved).map Event.id).Perm
    ((range a.store.counter).map fun n => Nat.repr (n + 1))
  stored : ∀ u, (a.store.eventsOf u).Sublist a.saved

variable {a : Archive}

section

variable (h : a.Sound)

include h

lemma Sound.step (s : ArchiveStep) : (a.step s).Sound := by
  cases s with
  | assign evt =>
    simp only [Archive.step, MemoryStore.assignID, h.opened, Bool.false_eq_true, if_false]
    refine ⟨rfl, ?_, h.stored⟩
    refine (h.ids.cons (Nat.repr (a.store.counter + 1))).trans ?_
    rw [range_succ, map_append]
    exact (perm_append_singleton _ _).symm
  | append evt =>
    simp only [Archive.step]
    split_ifs with hevt
    · refine ⟨h.opened, ?_, fun u => ?_⟩
      · refine (Perm.map Event.id ?_).trans h.ids
        rw [← append_assoc]
        exact (perm_append_singleton _ _).trans ((perm_cons_erase hevt).symm.append_right a.saved)
      · rw [MemoryStore.eventsOf_append]
        split_ifs
        · exact (h.stored u).append_right _
        · exact (h.stored u).trans (sublist_append_left _ _)
    · exact h
  | cleanup olderThan =>
    simp only [Archive.step, MemoryStore.cleanup, h.opened, Bool.false_eq_true, if_false]
    exact ⟨rfl, h.ids, fun u => (MemoryStore.keepRecent_sublist _ u _ _).trans (h.stored u)⟩

lemma Sound.nodup : (a.saved.map Event.id).Nodup := by
  have hnd := h.ids.nodup_iff.mpr (nodup_range.map fun m n heq => by simpa [repr_inj] using heq)
  rw [map_append] at hnd
  exact hnd.of_append_right

lemma Sound.id_ne_empty {e : Event} (he : e ∈ a.saved) : e.id ≠ "" := by
  obtain ⟨n, -, hn⟩ := mem_map.mp (h.ids.subset (mem_map_of_mem (mem_append_right _ he)))
  rw [← hn]
  exact Nat.repr_ne_empty

end

lemma sound_run (steps : List ArchiveStep) : (run steps).Sound :=
  foldlRecOn steps Archive.step ⟨rfl, .refl _, fun _ => nil_sublist _⟩ fun _ ha s _ => ha.step s

/-- **`List` returns the stored events that were saved after the cursor's**, without gaps and in the
order of their IDs, exactly when the place of the cursor is still known and the events after it were
appended in the order in which their IDs were drawn. -/
theorem list_later_iff (steps : List ArchiveStep) (h : Event) (hsaved : h ∈ (run steps).saved) :
    (∀ limit, ∃ events, (run steps).store.list h.userID h.id limit = .ok events
        ∧ events <+: (run steps).later h ∧ events.Pairwise Event.Precedes)
      ↔ (h ∈ (run steps).store.eventsOf h.userID
          ∨ ∀ e ∈ (run steps).store.eventsOf h.userID, e ∈ (run steps).after h)
        ∧ ((run steps).later h).Pairwise Event.Precedes := by
  have hsound := sound_run steps
  generalize run steps = a at *
  have hls : ∀ limit, a.store.list h.userID h.id limit = _ := fun _ =>
    MemoryStore.list_of_open hsound.opened fun e he =>
      hsound.id_ne_empty ((hsound.stored _).subset he)
  have hseek := Cursor.seek_sublist (hsound.stored h.userID) hsound.nodup hsaved
  simp only [hls, Except.ok.injEq, exists_eq_left']
  constructor
  · intro hall
    have hfl := hall ((a.store.eventsOf h.userID).length + 1)
    rw [take_of_length_le, hseek] at hfl
    · split_ifs at hfl with hh
      · exact ⟨.inl hh, hfl.2⟩
      · exact ⟨.inr fun e he => by simpa using (mem_filter.mp (hfl.1.subset he)).2,
          hfl.2.sublist filter_sublist⟩
    · refine le_trans (IsSuffix.length_le ⟨_, Cursor.upTo_append_seek⟩) ?_
      rw [MemoryStore.pageSize, if_neg (by omega)]
      omega
  · rintro ⟨hplace, horder⟩ limit
    have hlat : Cursor.seek Event.id h.id (a.store.eventsOf h.userID) = a.later h := by
      rw [hseek]
      split_ifs with hh
      · rfl
      · refine (filter_eq_self.mpr fun e he => ?_).symm
        simpa using hplace.resolve_left hh e he
    rw [hlat]
    exact ⟨ take_prefix _ _, horder.sublist (take_sublist _ _)⟩

/-- A notification for Ann. -/
def annsEvent (id : String) (timestamp : Time) : Event := ⟨id, "", "ann", [], timestamp⟩

/-- One call of `Save`, then two that overlap: the second to draw an ID is the first to append. -/
def overlapping : Archive :=
  run [.assign (annsEvent "" 0), .append (annsEvent "1" 0), .assign (annsEvent "" 0),
    .assign (annsEvent "" 0), .append (annsEvent "3" 0), .append (annsEvent "2" 0)]

/-- An event is cleaned up, and one that was saved before it is not. -/
def forgotten : Archive :=
  run [.assign (annsEvent "" 2), .append (annsEvent "1" 2), .assign (annsEvent "" 0),
    .append (annsEvent "2" 0), .cleanup 1]

theorem list_later_last : annsEvent "2" 0 ∈ overlapping.saved
      ∧ ∀ limit, ∃ events, overlapping.store.list "ann" "2" limit = .ok events
        ∧ events <+: overlapping.later (annsEvent "2" 0) ∧ events.Pairwise Event.Precedes := by
  have hlat : overlapping.later (annsEvent "2" 0) = [] := by decide
  refine ⟨by decide, (list_later_iff _ (annsEvent "2" 0) (by decide)).mpr ⟨.inl (by decide), ?_⟩⟩
  exact hlat ▸ .nil

/-- After the first event, Ann is given the third before the second; and after an event that is gone
they are given the one before it. -/
theorem list_not_later : annsEvent "1" 0 ∈ overlapping.saved
      ∧ overlapping.store.list "ann" "1" 0 = .ok [annsEvent "3" 0, annsEvent "2" 0]
      ∧ ¬ [annsEvent "3" 0, annsEvent "2" 0].Pairwise Event.Precedes
      ∧ annsEvent "2" 0 ∈ forgotten.saved
      ∧ forgotten.store.list "ann" "2" 0 = .ok [annsEvent "1" 2]
      ∧ annsEvent "1" 2 ∉ forgotten.after (annsEvent "2" 0) := by
  refine ⟨by decide, by decide, ?_, by decide, by decide, by decide⟩
  intro horder
  obtain ⟨m, n, hm, hn, hlt⟩ := rel_of_pairwise_cons horder mem_cons_self
  have hm : 3 = m := repr_inj.mp hm
  have hn : 2 = n := repr_inj.mp hn
  omega

end Archive

end Mailbox.Notify
