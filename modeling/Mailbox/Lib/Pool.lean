import Mathlib.Logic.Function.Basic

/-!
# Interleavings of workers over a shared state

A pool of workers, each with a local state of its own, takes atomic steps on a shared state.  A
*schedule* is the list of the workers that step, in order; the step of a worker that is blocked or
finished changes nothing.  The index type is arbitrary.

* `run` — the state a schedule leads to.
* `run_induction`, `along_induction` — what one step preserves, a run preserves; the second for
  runs whose steps all meet a condition.
* `exists_of_not_along` — the first step that does not meet the condition.
* `Solo` — one worker alone, for a pool in which the others do not step.
* `exists_step_or_run` — a worker that is where it was at the end of a run, or has taken a step.
-/

namespace Pool

variable {ι σ τ : Type} [DecidableEq ι]

/-- The shared state and the local state of each worker. -/
structure Config (ι σ τ : Type) where
  shared : σ
  loc : ι → τ

/-- One atomic step of worker `i`. -/
def stepAt (step : ι → σ → τ → σ × τ) (c : Config ι σ τ) (i : ι) : Config ι σ τ where
  shared := (step i c.shared (c.loc i)).1
  loc := Function.update c.loc i (step i c.shared (c.loc i)).2

def run (step : ι → σ → τ → σ × τ) (schedule : List ι) (c : Config ι σ τ) : Config ι σ τ :=
  schedule.foldl (stepAt step) c

/-- Every step of the run meets the condition, in the state it is taken in. -/
def Along (step : ι → σ → τ → σ × τ) (ok : ι → Config ι σ τ → Prop) : List ι → Config ι σ τ → Prop
  | [], _ => True
  | i :: schedule, c => ok i c ∧ Along step ok schedule (stepAt step c i)

instance decidableAlong (step : ι → σ → τ → σ × τ) (ok : ι → Config ι σ τ → Prop)
    [∀ i c, Decidable (ok i c)] : ∀ schedule c, Decidable (Along step ok schedule c)
  | [], _ => isTrue trivial
  | i :: schedule, c =>
    have := decidableAlong step ok schedule (stepAt step c i)
    inferInstanceAs (Decidable (ok i c ∧ Along step ok schedule (stepAt step c i)))

/-- Every state of the run, the first and the last included, has the property. -/
def Always (step : ι → σ → τ → σ × τ) (p : Config ι σ τ → Prop) : List ι → Config ι σ τ → Prop
  | [], c => p c
  | i :: schedule, c => p c ∧ Always step p schedule (stepAt step c i)

variable {step : ι → σ → τ → σ × τ} {ok : ι → Config ι σ τ → Prop}
  {p inv : Config ι σ τ → Prop} {schedule : List ι} {c : Config ι σ τ} {i j : ι}

@[simp] lemma stepAt_shared : (stepAt step c i).shared = (step i c.shared (c.loc i)).1 := rfl

@[simp] lemma stepAt_loc_self : (stepAt step c i).loc i = (step i c.shared (c.loc i)).2 := by
  simp [stepAt]

@[simp] lemma stepAt_loc_of_ne (h : j ≠ i) : (stepAt step c i).loc j = c.loc j := by
  simp [stepAt, h]

/-- What holds of the local states of all workers but one, when the step of another preserves
it. -/
lemma forall_ne_stepAt (q : τ → Prop) {w : ι} (h : ∀ j ≠ w, q (c.loc j))
    (hi : i ≠ w → q (step i c.shared (c.loc i)).2) : ∀ j ≠ w, q ((stepAt step c i).loc j) := by
  intro j hj
  by_cases hji : j = i
  · subst hji
    simpa using hi hj
  · simpa [hji] using h j hj

/-- What holds of the local states of all workers, when the step of one preserves it. -/
lemma forall_stepAt (q : τ → Prop) (h : ∀ j, q (c.loc j)) (hi : q (step i c.shared (c.loc i)).2) :
    ∀ j, q ((stepAt step c i).loc j) := by
  intro j
  by_cases hji : j = i
  · subst hji
    simpa using hi
  · simpa [hji] using h j

@[simp] lemma run_nil : run step [] c = c := rfl

@[simp] lemma run_cons : run step (i :: schedule) c = run step schedule (stepAt step c i) := rfl

/-- What one step preserves, a run preserves. -/
theorem run_induction (schedule : List ι) (hstep : ∀ c i, inv c → inv (stepAt step c i))
    (h : inv c) : inv (run step schedule c) := by
  induction schedule generalizing c with
  | nil => exact h
  | cons i schedule ih => exact ih (hstep c i h)

section

variable (hstep : ∀ c i, inv c → ok i c → inv (stepAt step c i)) (h : inv c)
  (hok : Along step ok schedule c)

include hstep h hok

/-- What one step preserves under a condition, a run whose steps all meet it preserves. -/
theorem along_induction : inv (run step schedule c) := by
  induction schedule generalizing c with
  | nil => exact h
  | cons i schedule ih => exact ih (hstep c i h hok.1) hok.2

/-- The same for every state on the way. -/
theorem along_always : Always step inv schedule c := by
  induction schedule generalizing c with
  | nil => exact h
  | cons i schedule ih => exact ⟨h, ih (hstep c i h hok.1) hok.2⟩

end

lemma Always.imp (h : Always step inv schedule c) (himp : ∀ c, inv c → p c) :
    Always step p schedule c := by
  induction schedule generalizing c with
  | nil => exact himp c h
  | cons i schedule ih => exact ⟨himp c h.1, ih h.2⟩

lemma Always.head (h : Always step p schedule c) : p c := by
  cases schedule with
  | nil => exact h
  | cons => exact h.1

lemma Always.run (h : Always step p schedule c) : p (run step schedule c) := by
  induction schedule generalizing c with
  | nil => exact h
  | cons i schedule ih => exact ih h.2

/-- A run with a step that misses the condition has a first part, that step, and a last part. -/
lemma exists_of_not_along (h : ¬ Along step ok schedule c) :
    ∃ before i after, schedule = before ++ i :: after ∧ ¬ ok i (run step before c)
      ∧ Along step ok before c := by
  induction schedule generalizing c with
  | nil => exact absurd trivial h
  | cons i schedule ih =>
    by_cases hi : ok i c
    · obtain ⟨before, j, after, rfl, hj, hbef⟩ := ih fun htl => h ⟨hi, htl⟩
      exact ⟨i :: before, j, after, rfl, hj, hi, hbef⟩
    · exact ⟨[], i, schedule, rfl, hi, trivial⟩

lemma run_append (s₁ s₂ : List ι) : run step (s₁ ++ s₂) c = run step s₂ (run step s₁ c) :=
  List.foldl_append

/-- Worker `i` alone gets from the states `s` and `w` to the states `s'` and `w'`. -/
inductive Solo (step : ι → σ → τ → σ × τ) (i : ι) : σ → τ → σ → τ → Prop where
  | refl (s : σ) (w : τ) : Solo step i s w s w
  | step {s s' : σ} {w w' : τ} (h : Solo step i (step i s w).1 (step i s w).2 s' w') :
      Solo step i s w s' w'

omit [DecidableEq ι] in
lemma Solo.of_eq {s s₁ s' : σ} {w w₁ w' : τ} (hstep : step i s w = (s₁, w₁))
    (h : Solo step i s₁ w₁ s' w') : Solo step i s w s' w' :=
  .step (by rw [hstep]; exact h)

omit [DecidableEq ι] in
lemma Solo.trans {s s₁ s' : σ} {w w₁ w' : τ} (h : Solo step i s w s₁ w₁)
    (h' : Solo step i s₁ w₁ s' w') : Solo step i s w s' w' := by
  induction h with
  | refl => exact h'
  | step _ ih => exact .step (ih h')

/-- What a worker does alone, it does in a pool in which only it steps. -/
theorem Solo.run {s' : σ} {w' : τ} (h : Solo step i c.shared (c.loc i) s' w') :
    ∃ n, (run step (List.replicate n i) c).shared = s'
      ∧ (run step (List.replicate n i) c).loc i = w' := by
  generalize hs : c.shared = s at h
  generalize hw : c.loc i = w at h
  induction h generalizing c with
  | refl => exact ⟨0, hs, hw⟩
  | @step s s' w w' _ ih =>
    obtain ⟨n, hn⟩ := ih (c := stepAt step c i) (by rw [stepAt_shared, hs, hw])
      (by rw [stepAt_loc_self, hs, hw])
    exact ⟨n + 1, hn⟩

lemma Always.of_append {s₁ s₂ : List ι} (h : Always step p (s₁ ++ s₂) c) :
    Always step p s₂ (Pool.run step s₁ c) := by
  induction s₁ generalizing c with
  | nil => exact h
  | cons i s₁ ih => exact ih h.2

/-- As long as a worker has not stepped, what the steps of the others preserve holds; when it
steps, it does so in such a state. -/
theorem exists_step_or_run (schedule : List ι)
    (hstep : ∀ c j, j ≠ i → inv c → inv (stepAt step c j)) (h : inv c) : inv (run step schedule c)
      ∨ ∃ before after, schedule = before ++ i :: after ∧ inv (run step before c) := by
  induction schedule generalizing c with
  | nil => exact .inl h
  | cons j schedule ih =>
    by_cases hj : j = i
    · subst hj
      exact .inr ⟨[], schedule, rfl, h⟩
    · rcases ih (hstep c j hj h) with hrun | ⟨before, after, rfl, hrun⟩
      · exact .inl hrun
      · exact .inr ⟨j :: before, after, rfl, hrun⟩

end Pool
