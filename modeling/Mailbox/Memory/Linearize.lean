import Mailbox.Lib.CriticalSection
import Mailbox.Memory.Write

/-!
# Mutators, one after another

The single-message mutators of `store/memory/write.go` run concurrently.  Each of them takes the
lock of its message (`getMsgLock` creates it on first use, and never drops one), loads the message,
stores a changed copy or deletes it, and releases the lock.  Every step is atomic, the calls are
not.

**Refinement.**  `Mutator.call` is a call with its steps apart, `Mutator.apply` the sequential
operation of `Memory.Write`; a call that nothing interferes with is the operation (`run_call_eq`).

**Timestamps.**  Each call reads the clock for itself.  Run one after another the calls read other
times; what they answer and what else they store does not depend on that (`apply_alike`).
-/

namespace Mailbox.Memory

open Pool Update CriticalSection

/-! ## Calls -/

/-- The calls that change one message. -/
inductive Mutator where
  | markRead (id : String) (read : Bool)
  | moveToFolder (id folderID : String) (opts : MoveOptions)
  | addTag (id tagID : String)
  | removeTag (id tagID : String)
  | delete (id : String)
  | restore (id : String)
  | hardDelete (id : String)

/-- The operation, run without interference. -/
def Mutator.apply (now : Time) : Mutator → StoreOp
  | .markRead id read => Store.markRead now id read
  | .moveToFolder id folderID opts => Store.moveToFolder now id folderID opts
  | .addTag id tagID => Store.addTag now id tagID
  | .removeTag id tagID => Store.removeTag now id tagID
  | .delete id => Store.delete now id
  | .restore id => Store.restore now id
  | .hardDelete id => Store.hardDelete id

/-- A call, with its steps apart. -/
abbrev LockedCall := CriticalSection.Call String Message Result

/-- What a mutator does under the lock with what it has loaded. -/
def Update.section (update : Update) : Option Message → Result × CriticalSection.Outcome Message
  | none => (.error (.sentinel .notFound), .leave)
  | some orig =>
    if orig.isDraft then (.error (.sentinel .notFound), .leave)
    else
      match update orig with
      | .error e => (.error e, .leave)
      | .ok none => (.ok (), .leave)
      | .ok (some m) => (.ok (), .store m)

/-- What `HardDelete` does under the lock. -/
def hardDeleteSection : Option Message → Result × CriticalSection.Outcome Message
  | none => (.error (.sentinel .notFound), .leave)
  | some m =>
    if m.isDraft then (.error (.sentinel .notFound), .leave) else (.ok (), .delete)

/-- The ID is checked before the lock is taken. -/
def lockedCall (id : String)
    (body : Option Message → Result × CriticalSection.Outcome Message) : LockedCall :=
  if id = "" then .answer (.error (.sentinel .invalidID)) else .locked id body

def Mutator.call (now : Time) : Mutator → LockedCall
  | .markRead id read => lockedCall id (Update.markRead now read).section
  | .moveToFolder id folderID opts =>
    -- The source folder of a conditional move is checked before the lock is taken, too.
    if id ≠ "" ∧ opts.fromFolderID ≠ "" ∧ isValidFolderID opts.fromFolderID = false then
      .answer (.error (.sentinel .invalidFolderID))
    else lockedCall id (Update.moveToFolder now folderID opts).section
  | .addTag id tagID => lockedCall id (Update.addTag now tagID).section
  | .removeTag id tagID => lockedCall id (Update.removeTag now tagID).section
  | .delete id => lockedCall id (Update.delete now).section
  | .restore id => lockedCall id (Update.restore now).section
  | .hardDelete id => lockedCall id hardDeleteSection

/-! ## A call that nothing interferes with -/

/-- The answer of an operation, and the map it leaves. -/
def answered (r : Result × Store) : Result × (String → Option Message) :=
  (r.1, r.2.messages.load)

lemma run_lockedCall_section {update : Update} (hupd : update.KeepsID) (id : String) (s : Store) :
    (lockedCall id update.section).run s.messages.load = answered (Store.mutate update id s) := by
  by_cases hid : id = ""
  · simp [lockedCall, Store.mutate, hid, answered, CriticalSection.Call.run]
  · simp only [lockedCall, if_neg hid, Store.mutate, CriticalSection.Call.run]
    cases hld : s.messages.load id with
    | none => rfl
    | some orig =>
      simp only [Update.section]
      by_cases hdr : orig.isDraft
      · simp [hdr, answered, CriticalSection.Outcome.write]
      · rcases hu : update orig with e | (_ | m)
        · simp [hdr, answered, CriticalSection.Outcome.write]
        · simp [hdr, answered, CriticalSection.Outcome.write]
        · have hk : m.id = id := (hupd orig m hu).trans (Table.key_of_load hld)
          simp [hdr, answered, CriticalSection.Outcome.write, Table.load_put, hk]

lemma run_hardDelete (id : String) (s : Store) :
    (lockedCall id hardDeleteSection).run s.messages.load = answered (Store.hardDelete id s) := by
  by_cases hid : id = ""
  · simp [lockedCall, Store.hardDelete, hid, answered, CriticalSection.Call.run]
  · simp only [lockedCall, if_neg hid, Store.hardDelete, CriticalSection.Call.run]
    cases hld : s.messages.load id with
    | none => rfl
    | some m =>
      by_cases hdr : m.isDraft <;>
        simp [hardDeleteSection, hdr, answered, CriticalSection.Outcome.write,
          Table.load_delete_eq_update]

/-- A call that nothing interferes with is the sequential operation. -/
theorem run_call_eq (now : Time) (mutator : Mutator) (s : Store) :
    (mutator.call now).run s.messages.load = answered (mutator.apply now s) := by
  cases mutator with
  | markRead id read => exact run_lockedCall_section (keepsID_markRead now read) id s
  | moveToFolder id folderID opts =>
    simp only [Mutator.call, Mutator.apply, Store.moveToFolder]
    by_cases hid : id = ""
    · simp [hid, lockedCall, answered, CriticalSection.Call.run]
    · by_cases hfrom : opts.fromFolderID ≠ "" ∧ isValidFolderID opts.fromFolderID = false
      · rw [if_pos ⟨hid, hfrom⟩, if_neg hid, if_pos hfrom]
        rfl
      · rw [if_neg (fun h => hfrom h.2), if_neg hid, if_neg hfrom]
        exact run_lockedCall_section (keepsID_moveToFolder now folderID opts) id s
  | addTag id tagID => exact run_lockedCall_section (keepsID_addTag now tagID) id s
  | removeTag id tagID => exact run_lockedCall_section (keepsID_removeTag now tagID) id s
  | delete id => exact run_lockedCall_section (keepsID_delete now) id s
  | restore id => exact run_lockedCall_section (keepsID_restore now) id s
  | hardDelete id => exact run_hardDelete id s

/-! ## Up to timestamps -/

/-- A message without the times its changes were made at. -/
def untimed (m : Message) : Message :=
  { m with updatedAt := 0, readAt := m.readAt.map fun _ => 0 }

/-- Stores that hold the same messages, up to those times. -/
def Alike (s s' : Store) : Prop :=
  ∀ id, (s.messages.load id).map untimed = (s'.messages.load id).map untimed

/-- Two updates that differ in the clock only. -/
def Update.Alike (u u' : Update) : Prop :=
  ∀ m m', untimed m = untimed m' → (u m).map (Option.map untimed) = (u' m').map (Option.map untimed)

variable {m m' : Message}

lemma eq_of_untimed_eq (h : untimed m = untimed m') :
    ∃ updatedAt readAt, m' = { m with updatedAt := updatedAt, readAt := readAt }
      ∧ readAt.map (fun _ => (0 : Time)) = m.readAt.map fun _ => (0 : Time) := by
  cases m
  cases m'
  simp only [untimed, Message.mk.injEq] at h
  simp_all

section Clocks

variable (now now' : Time)

lemma alike_markRead (read : Bool) : (markRead now read).Alike (markRead now' read) := by
  intro m m' h
  obtain ⟨t, r, rfl, -⟩ := eq_of_untimed_eq h
  cases read <;> rfl

lemma alike_moveToFolder (folderID : String) (opts : MoveOptions) :
    (moveToFolder now folderID opts).Alike (moveToFolder now' folderID opts) := by
  intro m m' h
  obtain ⟨t, r, rfl, hr⟩ := eq_of_untimed_eq h
  simp only [moveToFolder]
  split_ifs
  · rfl
  · simp [Except.map, untimed, hr]

lemma alike_addTag (tagID : String) : (addTag now tagID).Alike (addTag now' tagID) := by
  intro m m' h
  obtain ⟨t, r, rfl, hr⟩ := eq_of_untimed_eq h
  simp only [addTag]
  split_ifs
  · rfl
  · simp [Except.map, untimed, hr]

lemma alike_removeTag (tagID : String) : (removeTag now tagID).Alike (removeTag now' tagID) := by
  intro m m' h
  obtain ⟨t, r, rfl, hr⟩ := eq_of_untimed_eq h
  simp only [removeTag]
  split_ifs
  · simp [Except.map, untimed, hr]
  · rfl

lemma alike_delete : (delete now).Alike (delete now') := by
  intro m m' h
  obtain ⟨t, r, rfl, hr⟩ := eq_of_untimed_eq h
  simp [delete, Except.map, untimed, hr]

lemma alike_restore : (restore now).Alike (restore now') := by
  intro m m' h
  obtain ⟨t, r, rfl, hr⟩ := eq_of_untimed_eq h
  simp only [restore]
  split_ifs
  · rfl
  · simp [Except.map, untimed, hr]
  · simp [Except.map, untimed, hr]

end Clocks

variable {s s' : Store}

lemma Alike.load (h : Alike s s') (id : String) :
    (s.messages.load id = none ∧ s'.messages.load id = none)
      ∨ ∃ m m', s.messages.load id = some m ∧ s'.messages.load id = some m'
        ∧ untimed m = untimed m' := by
  have hid := h id
  cases hld : s.messages.load id with
  | none =>
    rw [hld] at hid
    exact .inl ⟨rfl, Option.map_eq_none_iff.mp hid.symm⟩
  | some m =>
    rw [hld] at hid
    obtain ⟨m', hm', heq⟩ := Option.map_eq_some_iff.mp hid.symm
    exact .inr ⟨m, m', rfl, hm', heq.symm⟩

lemma Alike.put (h : Alike s s') (hm : untimed m = untimed m') :
    Alike (s.put m) (s'.put m') := by
  intro id
  have hid : (untimed m).id = (untimed m').id := by rw [hm]
  change m.id = m'.id at hid
  simp only [Table.load_put, hid, Function.update_apply]
  split_ifs
  · exact congrArg some hm
  · exact h id

lemma Alike.delete (h : Alike s s') (id : String) :
    Alike (s.remove id) (s'.remove id) := by
  intro id'
  simp only [Table.load_delete_eq_update, Function.update_apply]
  split_ifs
  · rfl
  · exact h id'

lemma isDraft_of_untimed_eq (h : untimed m = untimed m') : m.isDraft = m'.isDraft := by
  change (untimed m).isDraft = (untimed m').isDraft
  rw [h]

lemma mutate_alike {u u' : Update} (hu : u.Alike u') (id : String) (h : Alike s s') :
    (Store.mutate u id s).1 = (Store.mutate u' id s').1
      ∧ Alike (Store.mutate u id s).2 (Store.mutate u' id s').2 := by
  by_cases hid : id = ""
  · simpa [Store.mutate, hid] using h
  · rcases h.load id with ⟨hs, hs'⟩ | ⟨m, m', hs, hs', hm⟩
    · simpa [Store.mutate, hid, hs, hs'] using h
    · have hdr := isDraft_of_untimed_eq hm
      cases hd : m.isDraft with
      | true => simpa [Store.mutate, hid, hs, hs', hd, ← hdr] using h
      | false =>
        rw [Store.mutate_of_load hid hs hd, Store.mutate_of_load hid hs' (hdr.symm.trans hd)]
        have hout := hu m m' hm
        rcases hum : u m with e | (_ | n) <;> rcases hum' : u' m' with e' | (_ | n') <;>
          rw [hum, hum'] at hout
        · cases hout
          exact ⟨rfl, h⟩
        · cases hout
        · cases hout
        · cases hout
        · exact ⟨rfl, h⟩
        · cases hout
        · cases hout
        · cases hout
        · have hn : untimed n = untimed n' := by simpa [Except.map] using hout
          exact ⟨rfl, h.put hn⟩

lemma hardDelete_alike (id : String) (h : Alike s s') :
    (Store.hardDelete id s).1 = (Store.hardDelete id s').1
      ∧ Alike (Store.hardDelete id s).2 (Store.hardDelete id s').2 := by
  by_cases hid : id = ""
  · simpa [Store.hardDelete, hid] using h
  · rcases h.load id with ⟨hs, hs'⟩ | ⟨m, m', hs, hs', hm⟩
    · simpa [Store.hardDelete, hid, hs, hs'] using h
    · have hdr := isDraft_of_untimed_eq hm
      cases hd : m.isDraft with
      | true => simpa [Store.hardDelete, hid, hs, hs', hd, ← hdr] using h
      | false => simpa [Store.hardDelete, hid, hs, hs', hd, ← hdr] using h.delete id

/-- The clock decides about timestamps only. -/
theorem apply_alike (now now' : Time) (mutator : Mutator) (h : Alike s s') :
    (mutator.apply now s).1 = (mutator.apply now' s').1
      ∧ Alike (mutator.apply now s).2 (mutator.apply now' s').2 := by
  cases mutator with
  | markRead id read => exact mutate_alike (alike_markRead now now' read) id h
  | moveToFolder id folderID opts =>
    simp only [Mutator.apply, Store.moveToFolder]
    split_ifs
    · exact ⟨rfl, h⟩
    · exact ⟨rfl, h⟩
    · exact mutate_alike (alike_moveToFolder now now' folderID opts) id h
  | addTag id tagID => exact mutate_alike (alike_addTag now now' tagID) id h
  | removeTag id tagID => exact mutate_alike (alike_removeTag now now' tagID) id h
  | delete id => exact mutate_alike (alike_delete now now') id h
  | restore id => exact mutate_alike (alike_restore now now') id h
  | hardDelete id => exact hardDelete_alike id h

/-! ## Concurrent calls -/

variable {ι : Type}

/-- Calls in progress: the message map, the locks, and where each call stands. -/
abbrev Calls (ι : Type) :=
  Config ι (CriticalSection.Shared ι String Message) (CriticalSection.PC String Message Result)

def concurrently (now : ι → Time) (mutators : ι → Mutator) (s : Store) : Calls ι :=
  CriticalSection.started (fun i => (mutators i).call (now i)) s.messages.load

def AllCallsDone (c : Calls ι) : Prop := ∀ i, (c.loc i).IsDone

/-- The calls run in this order, each with its own clock, answer what they have answered and leave
the messages that are there, up to timestamps. -/
def SameAs (now : ι → Time) (mutators : ι → Mutator) (order : List ι) (s : Store)
    (c : Calls ι) : Prop :=
  let (results, s') := CriticalSection.inOrder (fun i => (mutators i).apply (now i)) order s
  results.map some = order.map (fun i => (c.loc i).returned)
    ∧ ∀ id, (s'.messages.load id).map untimed = (c.shared.map id).map untimed

/-- With the clock readings the calls have made, timestamps included. -/
lemma inOrder_of_linear {now : ι → Time} {mutators : ι → Mutator} {order : List ι} {c : Calls ι}
    (h : CriticalSection.Linear (fun i => (mutators i).call (now i)) s.messages.load order c) :
    (inOrder (fun i => (mutators i).apply (now i)) order s).1.map some
        = order.map (fun i => (c.loc i).returned)
      ∧ (inOrder (fun i => (mutators i).apply (now i)) order s).2.messages.load = c.shared.map := by
  have hop : ∀ i map (s : Store), map = s.messages.load →
      (((mutators i).call (now i)).run map).1 = ((mutators i).apply (now i) s).1
        ∧ (((mutators i).call (now i)).run map).2
          = ((mutators i).apply (now i) s).2.messages.load := by
    rintro i map s rfl
    rw [run_call_eq]
    exact ⟨rfl, rfl⟩
  obtain ⟨hresults, hld⟩ := inOrder_rel _ hop order (Eq.refl s.messages.load)
  rw [← hresults, h.results, ← hld, h.reached]
  exact ⟨rfl, rfl⟩

/-- **No lost updates.**  However the steps of the calls interleave, the run can be completed, and
when all calls have returned, they have answered, and left, what they would have one after another
in some order. -/
theorem mutators_linearizable [Fintype ι] [DecidableEq ι] (now : ι → Time) (mutators : ι → Mutator)
    (s : Store) (schedule : List ι) :
    let c := run CriticalSection.step schedule (concurrently now mutators s)
    (∃ rest, AllCallsDone (run CriticalSection.step rest c))
      ∧ (AllCallsDone c → ∃ order : List ι, order.Nodup ∧ (∀ i, i ∈ order)
        ∧ ∀ now' : ι → Time, SameAs now' mutators order s c) := by
  intro c
  obtain ⟨hlo, order, hlinear⟩ := CriticalSection.exists_linear
    (fun i => (mutators i).call (now i)) s.messages.load schedule
  refine ⟨hlo.exists_allDone, fun hret => ⟨order, hlinear.nodup, fun i => ?_,
    fun now' => ?_⟩⟩
  · obtain ⟨r, hr⟩ := hret i
    exact (hlinear.mem_order i).mpr (congrArg (fun pc => pc.returned.isSome) hr)
  obtain ⟨hresults, hld⟩ := inOrder_of_linear hlinear
  have hself : Alike s s := fun _ => rfl
  obtain ⟨hsm, halike⟩ := CriticalSection.inOrder_rel Alike
    (fun i _ _ h => apply_alike (now' i) (now i) (mutators i) h) order hself
  constructor
  · exact (congrArg (List.map some) hsm).trans hresults
  · intro id
    exact (halike id).trans (by rw [hld]; rfl)

def oneLetter : Store :=
  .of <| Table.empty.put { Store.newDraft 0 "ann" with id := "m", isDraft := false }

/-- Two calls add a tag each.  The second waits for the lock while the first has loaded the message
and not stored it yet. -/
def twoTags : Calls Bool :=
  run CriticalSection.step [true, true, false, true, false, true, false, false, false, false]
    (concurrently (fun _ => 1) (fun b => .addTag "m" (if b then "red" else "blue")) oneLetter)

theorem two_tags_linearizable :
    AllCallsDone twoTags ∧ ∃ order : List Bool, order.Nodup ∧ (∀ i, i ∈ order)
      ∧ ∀ now' : Bool → Time,
        SameAs now' (fun b => .addTag "m" (if b then "red" else "blue")) order oneLetter
          twoTags := by
  have hret : AllCallsDone twoTags := by
    rintro ⟨⟩ <;> exact ⟨.ok (), rfl⟩
  exact ⟨hret, (mutators_linearizable _ _ _ _).2 hret⟩

end Mailbox.Memory
