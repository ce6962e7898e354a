import Mathlib.Data.List.Forall2

/-!
# Runs of a machine that answers requests

A machine takes requests one after the other; each changes its state and gets an answer.  `trace`
lists, for every request of a run, the state it found, the request and the answer.

* `trace_forall` — what holds of one step from every state with an invariant holds of every entry
  of a trace that starts in such a state.
* `final_induction`, `trace_induction` — what one step preserves, a run preserves; the second for
  runs whose steps all meet a condition.
* `steps_induction`, `always_iff` — without answers: what steps preserve under a condition; and,
  where the condition is exact for one step, that it is exact for a run.
* `trace_related` — two runs of two machines whose states stay related give related answers: the
  *unwinding* argument for properties of pairs of runs.
-/

namespace Machine

variable {σ σ' α α' β β' : Type}

/-- The state after a list of requests. -/
def final (step : σ → α → σ × β) : List α → σ → σ
  | [], s => s
  | a :: as, s => final step as (step s a).1

/-- The states, requests and answers of a run. -/
def trace (step : σ → α → σ × β) : List α → σ → List (σ × α × β)
  | [], _ => []
  | a :: as, s => (s, a, (step s a).2) :: trace step as (step s a).1

variable {step : σ → α → σ × β} {step' : σ' → α' → σ' × β'} {inv : σ → Prop} {as : List α} {s : σ}

/-- What one step preserves, a run preserves. -/
theorem final_induction {ok : α → Prop}
    (hstep : ∀ s a, ok a → inv s → inv (step s a).1) (hok : ∀ a ∈ as, ok a) (h : inv s) :
    inv (final step as s) := by
  induction as generalizing s with
  | nil => exact h
  | cons a as ih =>
    rw [List.forall_mem_cons] at hok
    exact ih hok.2 (hstep s a hok.1 h)

/-- What holds of every step holds of every entry of a trace. -/
theorem trace_forall {ok : α → Prop} {p : σ × α × β → Prop}
    (hstep : ∀ s a, ok a → inv s → inv (step s a).1 ∧ p (s, a, (step s a).2))
    (hok : ∀ a ∈ as, ok a) (h : inv s) : ∀ e ∈ trace step as s, p e := by
  induction as generalizing s with
  | nil => simp [trace]
  | cons a as ih =>
    rw [List.forall_mem_cons] at hok
    obtain ⟨hinv, hp⟩ := hstep s a hok.1 h
    rw [trace, List.forall_mem_cons]
    exact ⟨hp, ih hok.2 hinv⟩

/-- What one step preserves under a condition, a run whose steps all meet it preserves. -/
theorem trace_induction {ok p : σ × α × β → Prop}
    (hstep : ∀ s a, inv s → ok (s, a, (step s a).2) → inv (step s a).1 ∧ p (s, a, (step s a).2))
    (hok : ∀ e ∈ trace step as s, ok e) (h : inv s) :
    inv (final step as s) ∧ ∀ e ∈ trace step as s, inv e.1 ∧ p e := by
  induction as generalizing s with
  | nil => exact ⟨h, by simp [trace]⟩
  | cons a as ih =>
    rw [trace, List.forall_mem_cons] at hok
    obtain ⟨hinv, hp⟩ := hstep s a h hok.1
    obtain ⟨hfinal, htrace⟩ := ih hok.2 hinv
    rw [trace, List.forall_mem_cons]
    exact ⟨hfinal, ⟨h, hp⟩, htrace⟩

/-- Related requests in related states get related answers, all along two runs. -/
theorem trace_related {rel : σ → σ' → Prop} {req : α → α' → Prop}
    {ans : σ × α × β → σ' × α' × β' → Prop} {as' : List α'} {s' : σ'}
    (hstep : ∀ s s' a a', req a a' → rel s s' →
      rel (step s a).1 (step' s' a').1 ∧ ans (s, a, (step s a).2) (s', a', (step' s' a').2))
    (has : List.Forall₂ req as as') (h : rel s s') :
    List.Forall₂ ans (trace step as s) (trace step' as' s') := by
  induction has generalizing s s' with
  | nil => exact List.Forall₂.nil
  | cons ha _ ih =>
    obtain ⟨hrel, hans⟩ := hstep s s' _ _ ha h
    exact List.Forall₂.cons hans (ih hrel)

/-! ## Machines without answers -/

section Silent

variable {next : σ → α → σ} {ok : σ → α → Prop}

/-- The steps of a run, each with the state it is taken in. -/
def steps (next : σ → α → σ) : List α → σ → List (σ × α)
  | [], _ => []
  | a :: as, s => (s, a) :: steps next as (next s a)

lemma steps_append (as bs : List α) (s : σ) :
    steps next (as ++ bs) s = steps next as s ++ steps next bs (as.foldl next s) := by
  induction as generalizing s with
  | nil => rfl
  | cons a as ih => simp [steps, ih]

/-- Every step of a run is taken in a state that a first part of the run leads to. -/
lemma exists_of_mem_steps {e : σ × α} (h : e ∈ steps next as s) :
    ∃ before after, as = before ++ e.2 :: after ∧ e.1 = before.foldl next s := by
  induction as generalizing s with
  | nil => cases h
  | cons a as ih =>
    rcases List.mem_cons.mp h with rfl | h
    · exact ⟨[], as, rfl, rfl⟩
    · obtain ⟨before, after, rfl, hst⟩ := ih h
      exact ⟨a :: before, after, rfl, hst⟩

/-- A run with a step that does not meet a condition has a first one. -/
lemma exists_first_of_not_steps (h : ¬ ∀ e ∈ steps next as s, ok e.1 e.2) :
    ∃ before a after, as = before ++ a :: after ∧ ¬ ok (before.foldl next s) a
      ∧ ∀ e ∈ steps next before s, ok e.1 e.2 := by
  induction as generalizing s with
  | nil => exact absurd (by simp [steps]) h
  | cons a as ih =>
    by_cases ha : ok s a
    · rw [steps, List.forall_mem_cons, not_and] at h
      obtain ⟨before, b, after, rfl, hb, hbef⟩ := ih (h ha)
      refine ⟨a :: before, b, after, rfl, hb, ?_⟩
      rw [steps, List.forall_mem_cons]
      exact ⟨ha, hbef⟩
    · exact ⟨[], a, as, rfl, ha, by simp [steps]⟩

/-- What one step preserves under a condition, holds in every state of a run whose steps all meet
it. -/
theorem steps_induction (hstep : ∀ s a, inv s → ok s a → inv (next s a))
    (hok : ∀ e ∈ steps next as s, ok e.1 e.2) (h : inv s) (n : ℕ) :
    inv ((as.take n).foldl next s) := by
  induction as generalizing s n with
  | nil => simpa using h
  | cons a as ih =>
    rw [steps, List.forall_mem_cons] at hok
    cases n with
    | zero => exact h
    | succ n => exact ih hok.2 (hstep s a h hok.1) n

/-- A property that a step keeps exactly under some condition holds in every state of a run exactly
when every step of it meets the condition. -/
theorem always_iff (hstep : ∀ s a, inv s → (inv (next s a) ↔ ok s a)) (h : inv s) :
    (∀ n, inv ((as.take n).foldl next s)) ↔ ∀ e ∈ steps next as s, ok e.1 e.2 := by
  refine ⟨?_, fun hok n => steps_induction (fun s a hinv => (hstep s a hinv).mpr) hok h n⟩
  intro halways
  induction as generalizing s with
  | nil => simp [steps]
  | cons a as ih =>
    have hinv : inv (next s a) := by simpa using halways 1
    rw [steps, List.forall_mem_cons]
    exact ⟨(hstep s a h).mp hinv, ih hinv fun n => by simpa using halways (n + 1)⟩

end Silent

end Machine
