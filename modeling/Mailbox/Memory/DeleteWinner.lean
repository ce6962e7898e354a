import Mailbox.Memory.DeleteRace

/-!
# Who has deleted a message

Two kinds of calls remove a message for good.  `DeleteMessagesByIDs` goes by `LoadAndDelete`, which
tells the caller whether it was the one that removed the message.  `HardDelete` goes by a `Load`
under the message's lock and a `Delete` that tells nothing; the lock keeps other `HardDelete`s away,
but not a `LoadAndDelete`.

`Sole` is the invariant of the runs in which no message is removed between the `Load` and the
`Delete` of a `HardDelete`: whoever is about to `Delete` still finds the message, so what is removed
has not been reported before.  `Beaten` is a `HardDelete` that is about to report what another call
has reported.
-/

namespace Mailbox.Memory

open Pool

variable {ι : Type}

/-! ## The statement -/

/-- A call that deletes messages for good. -/
inductive Deleter where
  | hardDelete (id : String)
  | deleteMessagesByIDs (ids : List String)

def Deleter.call : Deleter → Call
  | .hardDelete id => .hardDelete id
  | .deleteMessagesByIDs ids => .deleteMessagesByIDs ids

def allDeleters (deleters : ι → Deleter) (messages : Messages) : Config ι (Shared ι) Worker :=
  allCalls (fun _ => 0) (fun i => (deleters i).call) messages

/-- A message is reported as deleted by one call at most, and once. -/
structure OneWinner (c : Config ι (Shared ι) Worker) : Prop where
  unique : ∀ i j id, id ∈ (c.loc i).reported → id ∈ (c.loc j).reported → i = j
  once : ∀ i, (c.loc i).reported.Nodup

/-- The step is not a `LoadAndDelete` of a message that a `HardDelete` has loaded and is about to
delete. -/
def NoPendingDelete (i : ι) (c : Config ι (Shared ι) Worker) : Prop :=
  ∀ id tasks, (c.loc i).pc = .next (.loadAndDelete id :: tasks) →
    ∀ j tasks', (c.loc j).pc ≠ .delete id tasks'

/-! ## Nothing is stored -/

def Task.Deletes : Task → Prop
  | .locked _ body => body = .hardDelete
  | .loadAndDelete _ => True

def TaskPC.Deletes : TaskPC → Prop
  | .next tasks => ∀ t ∈ tasks, t.Deletes
  | .load _ body tasks => body = .hardDelete ∧ ∀ t ∈ tasks, t.Deletes
  | .store _ _ => False
  | .delete _ tasks => ∀ t ∈ tasks, t.Deletes
  | .unlock _ tasks => ∀ t ∈ tasks, t.Deletes

lemma Deleter.deletes (d : Deleter) (now : Time) : ∀ t ∈ d.call.tasks now, t.Deletes := by
  cases d with
  | hardDelete id =>
    show ∀ t ∈ lockedTask id .hardDelete, t.Deletes
    rw [lockedTask]
    split_ifs
    · simp
    · simp [Task.Deletes]
  | deleteMessagesByIDs =>
    intro t ht
    obtain ⟨id, _, rfl⟩ := List.mem_map.mp ht
    trivial

/-! ## What a step can be -/

section Runs

variable {c : Config ι (Shared ι) Worker} {i : ι}

variable (c i) in
/-- A step of a delete: it removes no message, or it removes one that was there, and reports it. -/
inductive DeleteStep : Shared ι × Worker → Prop where
  | other {s : Shared ι} {w : Worker} (hmessages : s.messages = c.shared.messages)
      (hreported : w.reported = (c.loc i).reported) (hdeletes : w.pc.Deletes)
      (hpending : ∀ id tasks, w.pc = .delete id tasks → c.shared.messages.load id ≠ none) :
      DeleteStep (s, w)
  | remove {s : Shared ι} {pc : TaskPC} (id : String)
      (hmessages : s.messages = c.shared.messages.delete id)
      (hpresent : c.shared.messages.load id ≠ none) (hdeletes : pc.Deletes)
      (hpc : ∀ id' tasks, pc ≠ .delete id' tasks)
      (hothers : ∀ j ≠ i, ∀ tasks, (c.loc j).pc ≠ .delete id tasks) :
      DeleteStep (s, ⟨pc, id :: (c.loc i).reported⟩)

lemma DeleteStep.deletes {result : Shared ι × Worker} (h : DeleteStep c i result) :
    result.2.pc.Deletes := by
  cases h with
  | other _ _ hdels | remove _ _ _ hdels => exact hdels

/-- Whoever is about to delete a message finds it there, and it has not been reported. -/
structure Sole (c : Config ι (Shared ι) Worker) : Prop where
  final : Final c
  deletes : ∀ i, (c.loc i).pc.Deletes
  pending : ∀ i id tasks, (c.loc i).pc = .delete id tasks → c.shared.messages.load id ≠ none
  winner : OneWinner c

lemma afterLoad_hardDelete (id : String) (tasks : List Task) (o : Option Message) :
    afterLoad id .hardDelete tasks o = .unlock id tasks
      ∨ afterLoad id .hardDelete tasks o = .delete id tasks ∧ o ≠ none := by
  cases o with
  | none => exact .inl rfl
  | some orig =>
    cases hdr : orig.isDraft with
    | true => exact .inl (by simp [afterLoad, Body.hardDelete, hdr])
    | false => exact .inr ⟨by simp [afterLoad, Body.hardDelete, hdr], Option.some_ne_none _⟩

lemma Sole.step_cases (h : Sole c) (hok : NoPendingDelete i c) :
    DeleteStep c i (taskStep i c.shared (c.loc i)) := by
  have hdels := h.deletes i
  cases hpc : (c.loc i).pc with
  | next tasks =>
    rw [hpc] at hdels
    cases tasks with
    | nil =>
      rw [taskStep_nil hpc]
      exact .other rfl rfl (h.deletes i) (h.pending i)
    | cons task tasks =>
      obtain ⟨htask, htasks⟩ := List.forall_mem_cons.mp hdels
      cases task with
      | locked id =>
        cases hlo : c.shared.locks id with
        | some =>
          rw [taskStep_blocked hpc hlo]
          exact .other rfl rfl (h.deletes i) (h.pending i)
        | none =>
          rw [taskStep_lock hpc hlo]
          exact .other rfl rfl ⟨htask, htasks⟩ (by rintro _ _ ⟨⟩)
      | loadAndDelete id =>
        cases hld : c.shared.messages.load id with
        | none =>
          rw [taskStep_nothing hpc hld]
          exact .other rfl rfl htasks (by rintro _ _ ⟨⟩)
        | some m =>
          rw [taskStep_loadAndDelete hpc hld]
          refine .remove id rfl ?_ htasks (by rintro _ _ ⟨⟩) fun j _ => hok id tasks hpc j
          rw [hld]
          exact Option.some_ne_none m
  | load id body tasks =>
    rw [hpc] at hdels
    obtain ⟨rfl, htasks⟩ := hdels
    rw [taskStep_load hpc]
    rcases afterLoad_hardDelete id tasks (c.shared.messages.load id) with
      haft | ⟨haft, hpres⟩
    · rw [haft]
      exact .other rfl rfl htasks (by rintro _ _ ⟨⟩)
    · rw [haft]
      refine .other rfl rfl htasks ?_
      rintro _ _ ⟨⟩
      exact hpres
  | store =>
    rw [hpc] at hdels
    exact hdels.elim
  | delete id tasks =>
    rw [hpc] at hdels
    rw [taskStep_delete hpc]
    refine .remove id rfl (h.pending i id tasks hpc) hdels (by rintro _ _ ⟨⟩) ?_
    intro j hj tasks' hpc'
    exact h.final.ne_of_holding hj (by rw [hpc]; rfl) (by rw [hpc']; rfl)
  | unlock =>
    rw [hpc] at hdels
    rw [taskStep_unlock hpc]
    exact .other rfl rfl hdels (by rintro _ _ ⟨⟩)

lemma Sole.noPendingStore (h : Sole c) : NoPendingStore i c := by
  intro id tasks _ j m tasks' hpc
  have hdels := h.deletes j
  rw [hpc] at hdels
  exact hdels.elim

variable [DecidableEq ι]

/-- A message that is removed has not been reported by anyone. -/
lemma OneWinner.report (h : OneWinner c) {id : String} (hw : ∀ j, id ∉ (c.loc j).reported)
    (hrep : ((stepAt taskStep c i).loc i).reported = id :: (c.loc i).reported) :
    OneWinner (stepAt taskStep c i) := by
  have hloc : ∀ j id', id' ∈ ((stepAt taskStep c i).loc j).reported →
      id' ∈ (c.loc j).reported ∨ id' = id ∧ j = i := by
    intro j id' hid'
    by_cases hj : j = i
    · subst hj
      rw [hrep] at hid'
      exact (List.mem_cons.mp hid').symm.imp_right fun heq => ⟨heq, rfl⟩
    · rw [stepAt_loc_of_ne hj] at hid'
      exact .inl hid'
  refine ⟨fun j k id' hj hk => ?_, fun j => ?_⟩
  · rcases hloc j id' hj with hold | ⟨rfl, rfl⟩
    · rcases hloc k id' hk with hold' | ⟨rfl, rfl⟩
      · exact h.unique j k id' hold hold'
      · exact absurd hold (hw j)
    · rcases hloc k id' hk with hold' | ⟨_, rfl⟩
      · exact absurd hold' (hw k)
      · rfl
  · by_cases hj : j = i
    · subst hj
      rw [hrep]
      exact (h.once j).cons (hw j)
    · rw [stepAt_loc_of_ne hj]
      exact h.once j

/-- **The step.** -/
theorem Sole.step (h : Sole c) (hok : NoPendingDelete i c) : Sole (stepAt taskStep c i) := by
  have hstep := h.step_cases hok
  have hfinal := final_step h.final (i := i) h.noPendingStore
  have hdels' := forall_stepAt (fun w : Worker => w.pc.Deletes) h.deletes hstep.deletes
  generalize hres : taskStep i c.shared (c.loc i) = result at hstep
  cases hstep with
  | @other s w hms hrep hdels hpd =>
    have hself : (stepAt taskStep c i).loc i = w := by rw [stepAt_loc_self, hres]
    have hshd : (stepAt taskStep c i).shared.messages = c.shared.messages := by
      rw [stepAt_shared, hres, hms]
    have hreports : ∀ j, ((stepAt taskStep c i).loc j).reported = (c.loc j).reported := by
      intro j
      by_cases hj : j = i
      · subst hj
        rw [hself, hrep]
      · rw [stepAt_loc_of_ne hj]
    refine ⟨hfinal, hdels', ?_, ?_⟩
    · rw [hshd]
      exact forall_stepAt (fun w : Worker => ∀ id tasks, w.pc = .delete id tasks →
        c.shared.messages.load id ≠ none) h.pending (by rw [hres]; exact hpd)
    · refine ⟨fun j k id hj hk => ?_, fun j => ?_⟩
      · rw [hreports] at hj hk
        exact h.winner.unique j k id hj hk
      · rw [hreports]
        exact h.winner.once j
  | @remove s pc id hms hpres hdels hpc hoth =>
    refine ⟨hfinal, hdels', ?_, h.winner.report
      (fun j hj => hpres (h.final.absent j id hj)) (by rw [stepAt_loc_self, hres])⟩
    intro j id' tasks hj
    rw [stepAt_shared, hres, hms]
    by_cases hji : j = i
    · subst hji
      rw [stepAt_loc_self, hres] at hj
      exact absurd hj (hpc id' tasks)
    · rw [stepAt_loc_of_ne hji] at hj
      have hne : id' ≠ id := by
        rintro rfl
        exact hoth j hji tasks hj
      rw [Table.load_delete_of_ne hne]
      exact h.pending j id' tasks hj

/-! ## A `HardDelete` that comes second -/

/-- Worker `j` is about to delete a message that worker `i` has reported as deleted. -/
structure Beaten (i j : ι) (id : String) (tasks : List Task) (c : Config ι (Shared ι) Worker) :
    Prop where
  pending : (c.loc j).pc = .delete id tasks
  reported : id ∈ (c.loc i).reported

variable {j : ι} {id : String} {tasks : List Task}

lemma beaten_step (k : ι) (hk : k ≠ j) (h : Beaten i j id tasks c) :
    Beaten i j id tasks (stepAt taskStep c k) := by
  refine ⟨?_, reported_stepAt k h.reported⟩
  rw [stepAt_loc_of_ne hk.symm, h.pending]

/-- When `j` steps, it reports the message as well. -/
lemma Beaten.not_oneWinner (h : Beaten i j id tasks c) (hne : i ≠ j) :
    ¬ OneWinner (stepAt taskStep c j) := by
  intro hwin
  refine hne (hwin.unique i j id (reported_stepAt j h.reported) ?_)
  rw [stepAt_loc_self, taskStep_delete h.pending]
  exact List.mem_cons_self

lemma Sole.beaten (h : Sole c) (hpd : ¬ NoPendingDelete i c) :
    ∃ j id tasks, i ≠ j ∧ Beaten i j id tasks (stepAt taskStep c i) := by
  simp only [NoPendingDelete, not_forall, not_not] at hpd
  obtain ⟨id, tasks, hi, j, tasks', hj⟩ := hpd
  have hne : j ≠ i := by
    rintro rfl
    rw [hi] at hj
    cases hj
  obtain ⟨m, hld⟩ := Option.ne_none_iff_exists'.mp (h.pending j id tasks' hj)
  refine ⟨j, id, tasks', hne.symm, ?_, ?_⟩
  · rw [stepAt_loc_of_ne hne, hj]
  · rw [stepAt_loc_self, taskStep_loadAndDelete hi hld]
    exact List.mem_cons_self

end Runs

/-- **Who has deleted a message.**  However `HardDelete`s and `DeleteMessagesByIDs` interleave: if
no `LoadAndDelete` removes a message between the `Load` and the `Delete` of a `HardDelete`, one call
at most reports a message as deleted; and a run in which all calls finish and this is so has no such
`LoadAndDelete`. -/
theorem one_winner_iff [DecidableEq ι] (deleters : ι → Deleter) (messages : Messages)
    (schedule : List ι) : (Along taskStep NoPendingDelete schedule (allDeleters deleters messages) →
        Always taskStep OneWinner schedule (allDeleters deleters messages))
      ∧ (Finished (run taskStep schedule (allDeleters deleters messages)) →
          Always taskStep OneWinner schedule (allDeleters deleters messages) →
            Along taskStep NoPendingDelete schedule (allDeleters deleters messages)) := by
  have hst : Sole (allDeleters deleters messages) :=
    ⟨⟨by rintro i id ⟨⟩, by rintro i id ⟨⟩, by rintro i m tasks ⟨⟩⟩,
      fun i => (deleters i).deletes 0, by rintro i id tasks ⟨⟩,
      ⟨by rintro i j id ⟨⟩, fun _ => List.nodup_nil⟩⟩
  refine ⟨fun halong => ?_, fun hfin halways => ?_⟩
  · exact (along_always (fun _ _ => Sole.step) hst halong).imp fun _ => Sole.winner
  · by_contra hn
    obtain ⟨before, i, after, rfl, hpd, hbef⟩ := exists_of_not_along hn
    have hsole := along_induction (fun _ _ => Sole.step) hst hbef
    obtain ⟨j, id, tasks, hne, hbeaten⟩ := hsole.beaten hpd
    have haft := halways.of_append.2
    rw [run_append, run_cons] at hfin
    rcases exists_step_or_run after (fun _ => beaten_step) hbeaten with
      hend | ⟨before', after', rfl, hend⟩
    · have hj := hfin j
      rw [hend.pending] at hj
      cases hj
    · exact hend.not_oneWinner hne haft.of_append.2.head

/-- `DeleteMessagesByIDs` removes the message between the `Load` and the `Delete` of a `HardDelete`;
both calls finish, and both report it. -/
theorem two_winners :
    let deleters : Bool → Deleter
      | true => .hardDelete "m"
      | false => .deleteMessagesByIDs ["m"]
    let final := run taskStep [true, true, false, true, true] (allDeleters deleters oneMessage)
    final.loc true = ⟨.next [], ["m"]⟩ ∧ final.loc false = ⟨.next [], ["m"]⟩ :=
  ⟨rfl, rfl⟩

end Mailbox.Memory
