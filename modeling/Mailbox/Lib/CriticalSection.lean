import Mailbox.Lib.Pool
import Mathlib.Algebra.Order.BigOperators.Group.Finset

/-!
# Critical sections over a map

A pool of calls on a shared map.  A call answers at once, or it takes the lock of one key, loads its
entry, stores a new one or deletes it, and releases the lock, all in atomic steps.

**One after another.**  `inOrder` runs operations in a given order and collects their results, and
`inOrder_rel` compares two such runs.  `Call.run` is a call that nothing interferes with.

**Atomicity.**  A call takes effect at its write, or at its load when it leaves the map alone.
Until then the entry is what it has loaded, since nobody writes without the lock.  `Linear order c`
says that the calls that have taken effect so far did so in `order`; every run keeps it
(`exists_linear`).

**Progress.**  A call that waits for a lock waits for one that can go on, so every run of finitely
many calls can be completed (`exists_allDone`).
-/

namespace CriticalSection

open Pool List Function

variable {ι κ α ρ σ σ' : Type}

/-! ## Operations in order -/

/-- The operations run one after another: their results, and the last state. -/
def inOrder (op : ι → σ → ρ × σ) : List ι → σ → List ρ × σ
  | [], s => ([], s)
  | i :: order, s =>
    ((op i s).1 :: (inOrder op order (op i s).2).1, (inOrder op order (op i s).2).2)

lemma inOrder_concat (op : ι → σ → ρ × σ) (order : List ι) (i : ι) (s : σ) :
    inOrder op (order ++ [i]) s = ((inOrder op order s).1 ++ [(op i (inOrder op order s).2).1],
        (op i (inOrder op order s).2).2) := by
  induction order generalizing s with
  | nil => rfl
  | cons j order ih => simp [inOrder, ih]

/-- Operations that answer alike in related states, and keep them related. -/
theorem inOrder_rel {op : ι → σ → ρ × σ} {op' : ι → σ' → ρ × σ'} (rel : σ → σ' → Prop)
    (hop : ∀ i s s', rel s s' → (op i s).1 = (op' i s').1 ∧ rel (op i s).2 (op' i s').2)
    (order : List ι) {s : σ} {s' : σ'} (hrel : rel s s') :
    (inOrder op order s).1 = (inOrder op' order s').1
      ∧ rel (inOrder op order s).2 (inOrder op' order s').2 := by
  induction order generalizing s s' with
  | nil => exact ⟨rfl, hrel⟩
  | cons i order ih =>
    obtain ⟨hres, hnx⟩ := hop i s s' hrel
    obtain ⟨hresults, hl⟩ := ih hnx
    exact ⟨by simp only [inOrder, hres, hresults], hl⟩

/-! ## Calls -/

/-- What a call makes of the entry it has loaded. -/
inductive Outcome (α : Type) where
  | leave
  | store (a : α)
  | delete

/-- A call answers at once, or does its work under the lock of a key. -/
inductive Call (κ α ρ : Type) where
  | answer (r : ρ)
  | locked (k : κ) (body : Option α → ρ × Outcome α)

section Map

variable [DecidableEq κ]

/-- The map after the outcome has been written. -/
def Outcome.write (map : κ → Option α) (k : κ) : Outcome α → κ → Option α
  | .leave => map
  | .store a => Function.update map k (some a)
  | .delete => Function.update map k none

lemma Outcome.write_of_ne {map : κ → Option α} {k k' : κ} (o : Outcome α) (h : k' ≠ k) :
    o.write map k k' = map k' := by
  cases o <;> simp [Outcome.write, h]

/-- A call that nothing interferes with. -/
def Call.run (map : κ → Option α) : Call κ α ρ → ρ × (κ → Option α)
  | .answer r => (r, map)
  | .locked k body => ((body (map k)).1, (body (map k)).2.write map k)

end Map

/-! ## The atomic steps -/

/-- The map, and who holds the lock of each key. -/
structure Shared (ι κ α : Type) where
  map : κ → Option α
  locks : κ → Option ι

/-- Where a call stands. -/
inductive PC (κ α ρ : Type) where
  | start (call : Call κ α ρ)
  /-- has the lock, about to load -/
  | load (k : κ) (body : Option α → ρ × Outcome α)
  /-- about to store or to delete -/
  | write (k : κ) (r : ρ) (o : Outcome α)
  | unlock (k : κ) (r : ρ)
  | done (r : ρ)

/-- What follows the load: a call that leaves the map alone has nothing to write. -/
def afterLoad (k : κ) (r : ρ) : Outcome α → PC κ α ρ
  | .leave => .unlock k r
  | o => .write k r o

variable [DecidableEq κ]

def step (i : ι) (s : Shared ι κ α) (pc : PC κ α ρ) : Shared ι κ α × PC κ α ρ :=
  match pc with
  | .start (.answer r) => (s, .done r)
  | .start (.locked k body) =>
    if (s.locks k).isSome then (s, pc)
    else ({ s with locks := Function.update s.locks k (some i) }, .load k body)
  | .load k body => (s, afterLoad k (body (s.map k)).1 (body (s.map k)).2)
  | .write k r o => ({ s with map := o.write s.map k }, .unlock k r)
  | .unlock k r => ({ s with locks := Function.update s.locks k none }, .done r)
  | .done _ => (s, pc)

variable {i : ι} {s : Shared ι κ α} {pc : PC κ α ρ} {k : κ} {r : ρ} {o : Outcome α}
  {body : Option α → ρ × Outcome α}

lemma step_answer (h : pc = .start (.answer r)) : step i s pc = (s, .done r) := by
  subst h
  rfl

lemma step_blocked (h : pc = .start (.locked k body)) (hlo : (s.locks k).isSome) :
    step i s pc = (s, pc) := by
  subst h
  exact if_pos hlo

lemma step_lock (h : pc = .start (.locked k body)) (hlo : s.locks k = none) :
    step i s pc = ({ s with locks := update s.locks k (some i) }, .load k body) := by
  subst h
  simp [step, hlo]

lemma step_load (h : pc = .load k body) (hbd : body (s.map k) = (r, o)) :
    step i s pc = (s, afterLoad k r o) := by
  subst h
  simp [step, hbd]

lemma step_write (h : pc = .write k r o) :
    step i s pc = ({ s with map := o.write s.map k }, .unlock k r) := by
  subst h
  rfl

lemma step_unlock (h : pc = .unlock k r) :
    step i s pc = ({ s with locks := update s.locks k none }, .done r) := by
  subst h
  rfl

lemma step_done (h : pc = .done r) : step i s pc = (s, pc) := by
  subst h
  rfl

def started (calls : ι → Call κ α ρ) (map : κ → Option α) : Config ι (Shared ι κ α) (PC κ α ρ) where
  shared := ⟨map, fun _ => none⟩
  loc i := .start (calls i)

namespace PC

/-- The key whose lock the call holds. -/
def holding : PC κ α ρ → Option κ
  | .start _ => none
  | .load k _ => some k
  | .write k _ _ => some k
  | .unlock k _ => some k
  | .done _ => none

/-- The result of a call that has taken effect. -/
def returned : PC κ α ρ → Option ρ
  | .start _ => none
  | .load _ _ => none
  | .write _ _ _ => none
  | .unlock _ r => some r
  | .done r => some r

/-- What is known of a call that has not taken effect yet: it is the call it was, and the entry it
has loaded is still there. -/
def Pending (call : Call κ α ρ) (map : κ → Option α) : PC κ α ρ → Prop
  | .start call' => call' = call
  | .load k body => call = .locked k body
  | .write k r o => ∃ body, call = .locked k body ∧ body (map k) = (r, o)
  | .unlock _ _ => True
  | .done _ => True

def IsDone (pc : PC κ α ρ) : Prop := ∃ r, pc = .done r

end PC

/-! ## Atomicity -/

/-- Locks are held by those who think so, and by no one else. -/
structure Locked (c : Config ι (Shared ι κ α) (PC κ α ρ)) : Prop where
  held : ∀ i k, (c.loc i).holding = some k → c.shared.locks k = some i
  owned : ∀ i k, c.shared.locks k = some i → (c.loc i).holding = some k

/-- The calls that have taken effect did so in `order`. -/
structure Linear (calls : ι → Call κ α ρ) (map : κ → Option α) (order : List ι)
    (c : Config ι (Shared ι κ α) (PC κ α ρ)) : Prop where
  nodup : order.Nodup
  mem_order : ∀ i, i ∈ order ↔ (c.loc i).returned.isSome
  pending : ∀ i, (c.loc i).Pending (calls i) c.shared.map
  results : (inOrder (fun i map => (calls i).run map) order map).1.map some
    = order.map fun i => (c.loc i).returned
  reached : (inOrder (fun i map => (calls i).run map) order map).2 = c.shared.map

section Steps

variable [DecidableEq ι] {calls : ι → Call κ α ρ} {map : κ → Option α} {order : List ι}
  {c : Config ι (Shared ι κ α) (PC κ α ρ)}

lemma loc_stepAt (hstep : step i c.shared (c.loc i) = (s, pc)) (j : ι) :
    (stepAt step c i).loc j = if j = i then pc else c.loc j := by
  split_ifs with hj
  · subst hj
    simp [hstep]
  · simp [hj]

/-- A step after which the call holds the locks it held, and no lock has changed hands. -/
lemma Locked.of_same (h : Locked c) (hstep : step i c.shared (c.loc i) = (s, pc))
    (hlocks : s.locks = c.shared.locks) (hhold : pc.holding = (c.loc i).holding) :
    Locked (stepAt step c i) := by
  have hsm : ∀ j, ((stepAt step c i).loc j).holding = (c.loc j).holding := by
    intro j
    rw [loc_stepAt hstep]
    split_ifs with hj
    · rw [hhold, hj]
    · rfl
  constructor
  · intro j k hk
    rw [stepAt_shared, hstep, hlocks]
    exact h.held j k ((hsm j).symm.trans hk)
  · intro j k hk
    rw [stepAt_shared, hstep, hlocks] at hk
    exact (hsm j).trans (h.owned j k hk)

lemma Locked.of_update (h : Locked c) {k : κ} {o : Option ι}
    (hstep : step i c.shared (c.loc i) = (s, pc)) (hlocks : s.locks = update c.shared.locks k o)
    (hfree : ∀ j ≠ i, c.shared.locks k ≠ some j)
    (hpc : ∀ k', pc.holding = some k' ↔ k' = k ∧ o = some i) (ho : ∀ j ≠ i, o ≠ some j)
    (hloc : ∀ k' ≠ k, (c.loc i).holding ≠ some k') : Locked (stepAt step c i) := by
  constructor
  · intro j k' hk'
    rw [loc_stepAt hstep] at hk'
    rw [stepAt_shared, hstep, hlocks]
    split_ifs at hk' with hj
    · obtain ⟨rfl, rfl⟩ := (hpc k').mp hk'
      simp [hj]
    · have hheld := h.held j k' hk'
      rw [update_of_ne _ _ _]
      · exact hheld
      · rintro rfl
        exact hfree j hj hheld
  · intro j k' hk'
    rw [stepAt_shared, hstep, hlocks] at hk'
    rw [loc_stepAt hstep]
    by_cases hkk : k' = k
    · subst hkk
      rw [update_self] at hk'
      split_ifs with hj
      · exact (hpc k').mpr ⟨rfl, hj ▸ hk'⟩
      · exact absurd hk' (ho j hj)
    · rw [update_of_ne hkk] at hk'
      have howned := h.owned j k' hk'
      split_ifs with hj
      · subst hj
        exact absurd howned (hloc k' hkk)
      · exact howned

theorem Locked.kept (h : Locked c) : Locked (stepAt step c i) := by
  cases hpc : c.loc i with
  | start call =>
    cases call with
    | answer => exact h.of_same (step_answer hpc) rfl (by rw [hpc]; rfl)
    | locked k =>
      cases hlo : c.shared.locks k with
      | some => exact h.of_same (step_blocked hpc (by rw [hlo]; rfl)) rfl rfl
      | none =>
        refine h.of_update (step_lock hpc hlo) rfl ?_ ?_ ?_ ?_
        · simp [hlo]
        · simp [PC.holding, eq_comm]
        · simp [eq_comm]
        · simp [hpc, PC.holding]
  | load k body =>
    refine h.of_same (step_load hpc rfl) rfl ?_
    rw [hpc]
    cases (body (c.shared.map k)).2 <;> rfl
  | write => exact h.of_same (step_write hpc) rfl (by rw [hpc]; rfl)
  | unlock k =>
    have hheld : c.shared.locks k = some i := h.held i k (by rw [hpc]; rfl)
    refine h.of_update (step_unlock hpc) rfl ?_ ?_ ?_ ?_
    · simpa [hheld] using fun j hj => Ne.symm hj
    · simp [PC.holding]
    · simp
    · simpa [hpc, PC.holding] using fun k' hk' => Ne.symm hk'
  | done => exact h.of_same (step_done hpc) rfl rfl

section

variable (h : Linear calls map order c) (hstep : step i c.shared (c.loc i) = (s, pc))

include h hstep

/-- A step that leaves the map alone, and after which the call has taken effect only if it had
before. -/
lemma Linear.of_silent (hmap : s.map = c.shared.map) (hret : pc.returned = (c.loc i).returned)
    (hpd : pc.Pending (calls i) c.shared.map) : Linear calls map order (stepAt step c i) := by
  have hsm : ∀ j, ((stepAt step c i).loc j).returned = (c.loc j).returned := by
    intro j
    rw [loc_stepAt hstep]
    split_ifs with hj
    · rw [hret, hj]
    · rfl
  refine ⟨h.nodup, fun j => ?_, fun j => ?_, ?_, ?_⟩
  · rw [hsm, h.mem_order]
  · rw [loc_stepAt hstep, stepAt_shared, hstep, hmap]
    split_ifs with hj
    · rw [hj]
      exact hpd
    · exact h.pending j
  · rw [h.results]
    exact map_congr_left fun j _ => (hsm j).symm
  · rw [h.reached, stepAt_shared, hstep, hmap]

/-- The step in which a call takes effect: it is next in the order. -/
lemma Linear.of_effect {r : ρ} (hbef : (c.loc i).returned = none)
    (haft : pc.returned = some r) (hrun : (calls i).run c.shared.map = (r, s.map))
    (hpd : pc.Pending (calls i) s.map) (hoth : ∀ j ≠ i, (c.loc j).Pending (calls j) s.map) :
    Linear calls map (order ++ [i]) (stepAt step c i) := by
  have hi : i ∉ order := by
    rw [h.mem_order, hbef]
    exact Bool.false_ne_true
  have hne : ∀ j ∈ order, j ≠ i := by
    rintro j hj rfl
    exact hi hj
  refine ⟨?_, fun j => ?_, fun j => ?_, ?_, ?_⟩
  · rw [nodup_append_comm]
    exact nodup_cons.mpr ⟨hi, h.nodup⟩
  · rw [mem_append, mem_singleton, h.mem_order, loc_stepAt hstep]
    split_ifs with hj
    · simp [hj, haft]
    · simp [hj]
  · rw [loc_stepAt hstep, stepAt_shared, hstep]
    split_ifs with hj
    · rw [hj]
      exact hpd
    · exact hoth j hj
  · rw [inOrder_concat, h.reached, map_append, h.results, map_append, hrun]
    simp only [map_cons, map_nil, loc_stepAt hstep, if_true, haft]
    refine congrArg (· ++ [some r]) (map_congr_left fun j hj => ?_)
    rw [if_neg (hne j hj)]
  · rw [inOrder_concat, h.reached, hrun, stepAt_shared, hstep]

end

omit [DecidableEq ι] in
/-- Nobody else is about to write under a key whose lock the call holds. -/
lemma Locked.pending_write (h : Locked c) {k : κ} (hhold : (c.loc i).holding = some k)
    (o : Outcome α) {j : ι} (hj : j ≠ i) (hpd : (c.loc j).Pending (calls j) c.shared.map) :
    (c.loc j).Pending (calls j) (o.write c.shared.map k) := by
  cases hpc : c.loc j with
  | write k' =>
    rw [hpc] at hpd
    obtain ⟨body, hcl, hbd⟩ := hpd
    refine ⟨body, hcl, ?_⟩
    have hkk : k' ≠ k := by
      rintro rfl
      have hlo := h.held j k' (by rw [hpc]; rfl)
      rw [h.held i k' hhold, Option.some.injEq] at hlo
      exact hj hlo.symm
    rw [o.write_of_ne hkk]
    exact hbd
  | start | load | unlock | done =>
    rw [hpc] at hpd
    exact hpd

theorem Linear.kept (h : Linear calls map order c) (hlocked : Locked c) :
    ∃ order', Linear calls map order' (stepAt step c i) := by
  have hpd := h.pending i
  cases hpc : c.loc i with
  | start call =>
    rw [hpc] at hpd
    cases call with
    | answer =>
      refine ⟨_, h.of_effect (step_answer hpc) (by rw [hpc]; rfl) rfl ?_ trivial
        fun j _ => h.pending j⟩
      rw [← show _ = calls i from hpd]
      rfl
    | locked k =>
      cases hlo : c.shared.locks k with
      | some =>
        refine ⟨order, h.of_silent (step_blocked hpc (by rw [hlo]; rfl)) rfl rfl ?_⟩
        rw [hpc]
        exact hpd
      | none =>
        exact ⟨order, h.of_silent (step_lock hpc hlo) rfl (by rw [hpc]; rfl)
          (show calls i = _ from Eq.symm hpd)⟩
  | load k body =>
    rw [hpc] at hpd
    have hcl : calls i = .locked k body := hpd
    cases hbd : body (c.shared.map k) with
    | mk r o =>
      -- A call that has nothing to write takes effect here.
      cases o with
      | leave =>
        refine ⟨_, h.of_effect (step_load hpc hbd) (by rw [hpc]; rfl) rfl ?_ trivial
          fun j _ => h.pending j⟩
        rw [hcl, Call.run, hbd]
        rfl
      | store | delete =>
        exact ⟨order, h.of_silent (step_load hpc hbd) rfl (by rw [hpc]; rfl) ⟨body, hcl, hbd⟩⟩
  | write k r o =>
    rw [hpc] at hpd
    obtain ⟨body, hcl, hbd⟩ := hpd
    refine ⟨_, h.of_effect (step_write hpc) (by rw [hpc]; rfl) rfl ?_ trivial fun j hj =>
      hlocked.pending_write (by rw [hpc]; rfl) o hj (h.pending j)⟩
    rw [hcl, Call.run, hbd]
  | unlock => exact ⟨order, h.of_silent (step_unlock hpc) rfl (by rw [hpc]; rfl) trivial⟩
  | done =>
    refine ⟨order, h.of_silent (step_done hpc) rfl rfl ?_⟩
    trivial

/-- **Atomicity.**  In every run the calls that have taken effect did so one after another. -/
theorem exists_linear (calls : ι → Call κ α ρ) (map : κ → Option α) (schedule : List ι) :
    Locked (run step schedule (started calls map))
      ∧ ∃ order, Linear calls map order (run step schedule (started calls map)) := by
  have hkp : ∀ c i, (Locked c ∧ ∃ order, Linear calls map order c) →
      Locked (stepAt step c i) ∧ ∃ order, Linear calls map order (stepAt step c i) := by
    rintro c i ⟨hlo, order, hlinear⟩
    exact ⟨hlo.kept, hlinear.kept hlo⟩
  refine run_induction schedule hkp ⟨⟨?_, ?_⟩, [], ⟨nodup_nil, ?_, ?_, rfl, rfl⟩⟩
  · rintro i k ⟨⟩
  · rintro i k ⟨⟩
  · intro i
    simp [started, PC.returned]
  · intro i
    rfl

/-! ## Progress -/

/-- How many steps a call still has to take. -/
def PC.rank : PC κ α ρ → ℕ
  | .start _ => 4
  | .load _ _ => 3
  | .write _ _ _ => 2
  | .unlock _ _ => 1
  | .done _ => 0

omit [DecidableEq ι] in
/-- A call that holds a lock can go on. -/
lemma rank_of_holding {k : κ} (h : pc.holding = some k) : (step i s pc).2.rank < pc.rank := by
  cases pc with
  | start | done => cases h
  | load k' body =>
    simp only [step]
    cases (body (s.map k')).2 <;> simp [afterLoad, PC.rank]
  | write | unlock => simp [step, PC.rank]

omit [DecidableEq ι] in
/-- As long as a call is not done, one of them can go on. -/
lemma Locked.exists_rank_lt (h : Locked c) (hi : ¬ (c.loc i).IsDone) :
    ∃ j, (step j c.shared (c.loc j)).2.rank < (c.loc j).rank := by
  cases hpc : c.loc i with
  | start call =>
    cases call with
    | answer => exact ⟨i, by simp [hpc, step, PC.rank]⟩
    | locked k =>
      cases hlo : c.shared.locks k with
      | none => exact ⟨i, by simp [hpc, step, hlo, PC.rank]⟩
      | some j => exact ⟨j, rank_of_holding (h.owned j k hlo)⟩
  | load k | write k | unlock k => exact ⟨i, rank_of_holding (k := k) (by rw [hpc]; rfl)⟩
  | done r => exact absurd ⟨r, hpc⟩ hi

/-- **Progress.**  Every run of finitely many calls can be completed. -/
theorem Locked.exists_allDone [Fintype ι] (h : Locked c) :
    ∃ schedule, ∀ i, ((run step schedule c).loc i).IsDone := by
  -- by induction on the steps that are left to all calls together
  induction hn : ∑ i, (c.loc i).rank using Nat.strong_induction_on generalizing c with
  | _ n ih =>
    by_cases hdn : ∀ i, (c.loc i).IsDone
    · exact ⟨[], hdn⟩
    · obtain ⟨i, hi⟩ := not_forall.mp hdn
      obtain ⟨j, hj⟩ := h.exists_rank_lt hi
      have hlt : ∑ i, ((stepAt step c j).loc i).rank < n := by
        rw [← hn]
        refine Finset.sum_lt_sum (fun i _ => ?_) ⟨j, Finset.mem_univ j, by simpa using hj⟩
        by_cases hij : i = j
        · subst hij
          simpa using hj.le
        · simp [hij]
      obtain ⟨schedule, hsched⟩ := ih _ hlt h.kept rfl
      exact ⟨j :: schedule, hsched⟩

end Steps

end CriticalSection
