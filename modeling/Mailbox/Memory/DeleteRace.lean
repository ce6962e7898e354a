import Mailbox.Memory.Tasks

/-!
# Concurrent mutation and deletion

The maintenance deletes do not take the lock under which a mutator loads a message and stores its
changed copy.  `Final` is the invariant of the runs in which no message is deleted in between: what
a call has reported as deleted is gone, and stays so.  `Doomed` is a deleted message that a mutator
is about to put back.
-/

namespace Mailbox.Memory

open Pool Option Table

variable {ι : Type}

/-! ## The statement -/

/-- What a call has reported as deleted is not in the store. -/
def ReportedAbsent (c : Config ι (Shared ι) Worker) : Prop :=
  ∀ i, ∀ id ∈ (c.loc i).reported, c.shared.messages.load id = none

def Finished (c : Config ι (Shared ι) Worker) : Prop := ∀ i, (c.loc i).pc = .next []

/-- The step is not a `LoadAndDelete` of a message that a mutator has loaded and is about to
store. -/
def NoPendingStore (i : ι) (c : Config ι (Shared ι) Worker) : Prop :=
  ∀ id tasks, (c.loc i).pc = .next (.loadAndDelete id :: tasks) →
    ∀ j m tasks', (c.loc j).pc = .store m tasks' → m.id ≠ id

/-! ## Runs without deletes before a pending store -/

/-- The message whose lock the caller holds. -/
def TaskPC.holding : TaskPC → Option String
  | .next _ => none
  | .load id _ _ => some id
  | .store m _ => some m.id
  | .delete id _ => some id
  | .unlock id _ => some id

structure Final (c : Config ι (Shared ι) Worker) : Prop where
  absent : ReportedAbsent c
  locked : ∀ i id, (c.loc i).pc.holding = some id → c.shared.locks id = some i
  present : ∀ i m tasks, (c.loc i).pc = .store m tasks → c.shared.messages.load m.id ≠ none

variable {id : String} {m : Message} {tasks : List Task} {w : Worker} {pc : TaskPC}

section Runs

variable [DecidableEq ι] {c : Config ι (Shared ι) Worker} {i : ι}

/-- What has to be shown of a step: of the worker that takes it, and of the others. -/
lemma final_stepAt {s : Shared ι} (hstep : taskStep i c.shared (c.loc i) = (s, w))
    (habsent : ∀ id ∈ w.reported, s.messages.load id = none)
    (hlo : ∀ id, w.pc.holding = some id → s.locks id = some i)
    (hpres : ∀ m tasks, w.pc = .store m tasks → s.messages.load m.id ≠ none)
    (hoth : ∀ j ≠ i, (∀ id ∈ (c.loc j).reported, s.messages.load id = none)
      ∧ (∀ id, (c.loc j).pc.holding = some id → s.locks id = some j)
      ∧ ∀ m tasks, (c.loc j).pc = .store m tasks → s.messages.load m.id ≠ none) :
    Final (stepAt taskStep c i) := by
  have hloc : ∀ j, (stepAt taskStep c i).loc j = if j = i then w else c.loc j := by
    intro j
    by_cases hj : j = i
    · subst hj
      simp [hstep]
    · simp [hj]
  refine ⟨fun j => ?_, fun j => ?_, fun j => ?_⟩
  all_goals
    rw [hloc j, stepAt_shared, hstep]
    by_cases hj : j = i
  · rw [if_pos hj]
    exact habsent
  · rw [if_neg hj]
    exact (hoth j hj).1
  · rw [if_pos hj, hj]
    exact hlo
  · rw [if_neg hj]
    exact (hoth j hj).2.1
  · rw [if_pos hj]
    exact hpres
  · rw [if_neg hj]
    exact (hoth j hj).2.2

section

variable (h : Final c)

include h

omit [DecidableEq ι] in
lemma Final.ne_of_holding {j : ι} (hj : j ≠ i)
    (hi : (c.loc i).pc.holding = some id) : (c.loc j).pc.holding ≠ some id := by
  intro hhold
  have hlo := h.locked j id hhold
  rw [h.locked i id hi, some.injEq] at hlo
  exact hj hlo.symm

lemma final_of_local (hstep : taskStep i c.shared (c.loc i) = (c.shared, w))
    (hrep : w.reported = (c.loc i).reported)
    (hlo : ∀ id, w.pc.holding = some id → c.shared.locks id = some i)
    (hpres : ∀ m tasks, w.pc = .store m tasks → c.shared.messages.load m.id ≠ none) :
    Final (stepAt taskStep c i) := by
  refine final_stepAt hstep ?_ hlo hpres fun j _ => ⟨h.absent j, h.locked j, h.present j⟩
  rw [hrep]
  exact h.absent i

/-- A step that removes a message nobody is about to store, and reports it. -/
lemma final_of_delete (hstep : taskStep i c.shared (c.loc i)
      = ({ c.shared with messages := c.shared.messages.delete id }, ⟨pc, id :: (c.loc i).reported⟩))
    (hlo : ∀ id', pc.holding = some id' → c.shared.locks id' = some i)
    (hpc : ∀ m tasks, pc ≠ .store m tasks)
    (hoth : ∀ j ≠ i, ∀ m tasks, (c.loc j).pc = .store m tasks → m.id ≠ id) :
    Final (stepAt taskStep c i) := by
  have hgn : ∀ j, ∀ id' ∈ (c.loc j).reported, (c.shared.messages.delete id).load id' = none := by
    intro j id' hid'
    by_cases heq : id' = id
    · rw [heq, load_delete]
    · rw [load_delete_of_ne heq, h.absent j id' hid']
  refine final_stepAt hstep ?_ hlo (fun m tasks hm => absurd hm (hpc m tasks))
    fun j hj => ⟨hgn j, h.locked j, fun m tasks hm => ?_⟩
  · intro id' hid'
    rcases List.mem_cons.mp hid' with rfl | hid'
    · exact load_delete
    · exact hgn i id' hid'
  · rw [load_delete_of_ne (hoth j hj m tasks hm)]
    exact h.present j m tasks hm

lemma final_of_load {body : Body} (hpc : (c.loc i).pc = .load id body tasks) : Final
    (stepAt taskStep c i) := by
  have hlo : c.shared.locks id = some i := h.locked i id (by rw [hpc]; rfl)
  have haft : ∀ o, c.shared.messages.load id = o → (afterLoad id body tasks o).holding = some id
      ∧ ∀ m tasks', afterLoad id body tasks o = .store m tasks' →
        c.shared.messages.load m.id ≠ none := by
    intro o ho
    cases o with
    | none => exact ⟨rfl, fun _ _ hm => TaskPC.noConfusion hm⟩
    | some orig =>
      have hid : orig.id = id := key_of_load ho
      rw [afterLoad]
      cases hact : body.act orig with
      | leave | remove => exact ⟨rfl, fun _ _ hm => TaskPC.noConfusion hm⟩
      | replace m =>
        have hm : m.id = id := (body.keepsID orig m hact).trans hid
        refine ⟨by rw [← hm]; rfl, ?_⟩
        rintro m' tasks' ⟨⟩
        rw [hm, ho]
        exact some_ne_none orig
  obtain ⟨hhold, hsto⟩ := haft _ rfl
  refine final_of_local h (taskStep_load hpc) rfl ?_ hsto
  intro id' hid'
  rw [hhold, some.injEq] at hid'
  rw [← hid', hlo]

/-- The `Store` in a critical section puts a message where there is one. -/
lemma final_of_store (hpc : (c.loc i).pc = .store m tasks) : Final (stepAt taskStep c i) := by
  have hpres := h.present i m tasks hpc
  have hld : ∀ id, c.shared.messages.load id = none → (c.shared.messages.put m).load id = none := by
    intro id hid
    have hne : id ≠ m.id := by
      rintro rfl
      exact hpres hid
    rw [load_put_of_ne hne, hid]
  refine final_stepAt (taskStep_store hpc) (fun id hid => hld id (h.absent i id hid)) ?_
    (by rintro _ _ ⟨⟩)
    fun j _ => ⟨fun id hid => hld id (h.absent j id hid), h.locked j, fun m' tasks' hm' => ?_⟩
  · exact fun id hid => h.locked i id (by rw [hpc]; exact hid)
  · by_cases heq : m'.id = m.id
    · rw [heq, load_put_self]
      exact some_ne_none m
    · rw [load_put_of_ne heq]
      exact h.present j m' tasks' hm'

/-- The `Lock` and the `Unlock` of a critical section leave the locks of the others alone. -/
lemma final_of_locks {o : Option ι} (hstep : taskStep i c.shared (c.loc i)
      = ({ c.shared with locks := Function.update c.shared.locks id o }, { c.loc i with pc := pc }))
    (hi : ∀ id', pc.holding = some id' → id' = id ∧ o = some i)
    (hpc : ∀ m tasks, pc ≠ .store m tasks)
    (hoth : ∀ j ≠ i, (c.loc j).pc.holding ≠ some id) : Final (stepAt taskStep c i) := by
  refine final_stepAt hstep (h.absent i) (fun id' hid' => ?_)
    (fun m tasks hm => absurd hm (hpc m tasks))
    fun j hj => ⟨h.absent j, fun id' hid' => ?_, h.present j⟩
  · obtain ⟨rfl, rfl⟩ := hi id' hid'
    exact Function.update_self ..
  · have hne : id' ≠ id := by
      rintro rfl
      exact hoth j hj hid'
    exact (Function.update_of_ne hne ..).trans (h.locked j id' hid')

/-- Steps that delete no message before a pending store preserve the invariant. -/
lemma final_step (hok : NoPendingStore i c) : Final (stepAt taskStep c i) := by
  cases hpc : (c.loc i).pc with
  | next tasks =>
    cases tasks with
    | nil => exact final_of_local h (taskStep_nil hpc) rfl (h.locked i) (h.present i)
    | cons task tasks =>
      cases task with
      | locked id =>
        cases hlo : c.shared.locks id with
        | some =>
          exact final_of_local h (taskStep_blocked hpc hlo) rfl (h.locked i) (h.present i)
        | none =>
          refine final_of_locks h (taskStep_lock hpc hlo)
            (by rintro id' ⟨⟩; exact ⟨rfl, rfl⟩) (by rintro _ _ ⟨⟩)
            fun j _ hj => ?_
          rw [h.locked j id hj] at hlo
          cases hlo
      | loadAndDelete id =>
        cases hld : c.shared.messages.load id with
        | none =>
          exact final_of_local h (taskStep_nothing hpc hld) rfl (by rintro _ ⟨⟩) (by rintro _ _ ⟨⟩)
        | some =>
          exact final_of_delete h (taskStep_loadAndDelete hpc hld) (by rintro _ ⟨⟩)
            (by rintro _ _ ⟨⟩) fun j _ m' tasks' hm' => hok id tasks hpc j m' tasks' hm'
  | load => exact final_of_load h hpc
  | store => exact final_of_store h hpc
  | delete id =>
    have hhold : (c.loc i).pc.holding = some id := by rw [hpc]; rfl
    refine final_of_delete h (taskStep_delete hpc) ?_ (by rintro _ _ ⟨⟩)
      fun j hj m tasks' hm heq => h.ne_of_holding hj hhold (by rw [hm, ← heq]; rfl)
    rintro id' ⟨⟩
    exact h.locked i id hhold
  | unlock id =>
    have hhold : (c.loc i).pc.holding = some id := by rw [hpc]; rfl
    exact final_of_locks h (taskStep_unlock hpc) (by rintro _ ⟨⟩) (by rintro _ _ ⟨⟩)
      fun j hj => h.ne_of_holding hj hhold

end

/-! ## Deletes before a pending store -/

omit [DecidableEq ι] in
lemma reported_taskStep (s : Shared ι) (w : Worker) (hid : id ∈ w.reported) :
    id ∈ (taskStep i s w).2.reported := by
  unfold taskStep
  split
  · exact hid
  · split <;> exact hid
  · split
    · exact hid
    · exact List.mem_cons_of_mem _ hid
  · exact hid
  · exact hid
  · exact List.mem_cons_of_mem _ hid
  · exact hid

lemma reported_stepAt (k : ι) (hid : id ∈ (c.loc i).reported) :
    id ∈ ((stepAt taskStep c k).loc i).reported := by
  by_cases hi : i = k
  · subst hi
    rw [stepAt_loc_self]
    exact reported_taskStep _ _ hid
  · rwa [stepAt_loc_of_ne hi]

/-- Worker `j` is about to store a message that worker `i` has reported as deleted. -/
structure Doomed (i j : ι) (m : Message) (tasks : List Task) (c : Config ι (Shared ι) Worker) :
    Prop where
  pending : (c.loc j).pc = .store m tasks
  reported : m.id ∈ (c.loc i).reported

variable {j : ι}

/-- When `j` steps, the message is back. -/
lemma Doomed.not_reportedAbsent (h : Doomed i j m tasks c) :
    ¬ ReportedAbsent (stepAt taskStep c j) := by
  intro habsent
  have hld := habsent i m.id (reported_stepAt j h.reported)
  rw [stepAt_shared, taskStep_store h.pending, load_put_self] at hld
  cases hld

lemma doomed_of_not_noPendingStore (h : Final c) (hpd : ¬ NoPendingStore i c) :
    ∃ j m tasks, Doomed i j m tasks (stepAt taskStep c i) := by
  simp only [NoPendingStore, not_forall, not_not] at hpd
  obtain ⟨id, tasks, hi, j, m, tasks', hj, rfl⟩ := hpd
  have hne : j ≠ i := by
    rintro rfl
    rw [hi] at hj
    cases hj
  obtain ⟨orig, hld⟩ := ne_none_iff_exists'.mp (h.present j m tasks' hj)
  refine ⟨j, m, tasks', ?_, ?_⟩
  · rw [stepAt_loc_of_ne hne, hj]
  · rw [stepAt_loc_self, taskStep_loadAndDelete hi hld]
    exact List.mem_cons_self

end Runs

/-- **Deletion is final.**  However any calls interleave: if no `LoadAndDelete` removes a message
between the `Load` and the `Store` of a mutator, what a call has reported as deleted is never in the
store again; and a run in which all calls finish and this is so has no such `LoadAndDelete`. -/
theorem deletion_final_iff [DecidableEq ι] (now : ι → Time) (calls : ι → Call)
    (messages : Messages) (schedule : List ι) :
    (Along taskStep NoPendingStore schedule (allCalls now calls messages) →
        Always taskStep ReportedAbsent schedule (allCalls now calls messages))
      ∧ (Finished (run taskStep schedule (allCalls now calls messages)) →
          Always taskStep ReportedAbsent schedule (allCalls now calls messages) →
            Along taskStep NoPendingStore schedule (allCalls now calls messages)) := by
  have hst : Final (allCalls now calls messages) :=
    ⟨by rintro i id ⟨⟩, by rintro i id ⟨⟩, by rintro i m tasks ⟨⟩⟩
  refine ⟨fun halong => ?_, fun hfin halways => ?_⟩
  · exact (along_always (fun _ _ => final_step) hst halong).imp fun _ => Final.absent
  · by_contra hn
    obtain ⟨before, i, after, rfl, hpd, hbef⟩ := exists_of_not_along hn
    have hfinal := along_induction (fun _ _ => final_step) hst hbef
    obtain ⟨j, m, tasks, hdoomed⟩ := doomed_of_not_noPendingStore hfinal hpd
    have haft := halways.of_append.2
    rw [run_append, run_cons] at hfin
    -- Nothing changes as long as `j` does not step.
    have hstep : ∀ {c} k, k ≠ j → Doomed i j m tasks c → Doomed i j m tasks (stepAt taskStep c k) :=
      fun k hk h => ⟨by rw [stepAt_loc_of_ne hk.symm, h.pending], reported_stepAt k h.reported⟩
    rcases exists_step_or_run after (fun _ => hstep) hdoomed with
      hend | ⟨before', after', rfl, hend⟩
    · have hj := hfin j
      rw [hend.pending] at hj
      cases hj
    · exact hend.not_reportedAbsent haft.of_append.2.head

def oneMessage : Messages :=
  Table.empty.put { Store.newDraft 0 "u" with
    id := "m", status := .delivered, folderID := folderInbox, isDraft := false }

/-- `DeleteMessagesByIDs` removes the message between the `Load` and the `Store` of an `AddTag`, and
returns; the `AddTag` puts it back. -/
theorem deleted_message_comes_back :
    let calls : Bool → Call
      | true => .addTag "m" "x"
      | false => .deleteMessagesByIDs ["m"]
    let deleted := run taskStep [true, true, false] (allCalls (fun _ => 1) calls oneMessage)
    let final := run taskStep [true, true, false, true, true]
      (allCalls (fun _ => 1) calls oneMessage)
    deleted.loc false = ⟨.next [], ["m"]⟩ ∧ deleted.shared.messages.load "m" = none
      ∧ (final.shared.messages.load "m").map Message.tags = some ["x"]
      ∧ (final.loc true).pc = .next [] :=
  ⟨rfl, rfl, rfl, rfl⟩

end Mailbox.Memory
