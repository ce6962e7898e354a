import Mathlib.Data.Finsupp.Weight

/-!
# Weighted semaphores

A semaphore of a given size has at most that many permits out.  Who holds how many follows from
where each party stands.  `Accounts s share` says that the shares of all parties add up to what is
out.  Acquiring and releasing move one share (`Accounts.acquire`, `Accounts.release`), so the
equation holds throughout a run, and with it the two facts a semaphore is used for: a party that
holds everything holds it alone (`Accounts.eq_zero_of_full`), and where nobody holds anything nobody
has to wait (`Accounts.exists_acquire`).

An acquisition may succeed whenever there is room; a queue only leaves fewer interleavings.
-/

/-- The permits of a semaphore that are out, never more than there are. -/
structure Semaphore (size : ℕ) where
  cur : ℕ
  le_size : cur ≤ size

namespace Semaphore

variable {size n : ℕ} {κ : Type} [DecidableEq κ]

/-- All permits are in. -/
def idle : Semaphore size := ⟨0, Nat.zero_le size⟩

/-- Takes permits out, where there are as many. -/
def acquire (s : Semaphore size) (n : ℕ) : Option (Semaphore size) :=
  if h : s.cur + n ≤ size then some ⟨s.cur + n, h⟩ else none

def release (s : Semaphore size) (n : ℕ) : Semaphore size :=
  ⟨s.cur - n, (Nat.sub_le s.cur n).trans s.le_size⟩

/-- The shares of all parties, finitely many of which are not zero, add up to the permits that are
out. -/
def Accounts (s : Semaphore size) (share : κ → ℕ) : Prop :=
  ∃ held : κ →₀ ℕ, ⇑held = share ∧ held.degree = s.cur

variable {s s' : Semaphore size} {share : κ → ℕ} {k j : κ}

omit [DecidableEq κ] in
lemma accounts_idle : (idle : Semaphore size).Accounts (fun _ : κ => 0) :=
  ⟨0, rfl, map_zero _⟩

lemma cur_of_acquire (h : s.acquire n = some s') : s'.cur = s.cur + n := by
  rw [acquire] at h
  split at h
  · cases h
    rfl
  · cases h

section

variable (h : s.Accounts share)

include h

theorem Accounts.acquire (hs : s.acquire n = some s') (k : κ) :
    s'.Accounts (Function.update share k (share k + n)) := by
  obtain ⟨held, rfl, hcur⟩ := h
  refine ⟨held + Finsupp.single k n, ?_, ?_⟩
  · funext j
    by_cases hj : j = k
    · subst hj
      simp
    · simp [hj]
  · rw [map_add, Finsupp.degree_single, hcur, cur_of_acquire hs]

theorem Accounts.release (hk : n ≤ share k) :
    (s.release n).Accounts (Function.update share k (share k - n)) := by
  obtain ⟨held, rfl, hcur⟩ := h
  have hspl : held = (held - Finsupp.single k n) + Finsupp.single k n :=
    (tsub_add_cancel_of_le (Finsupp.single_le_iff.mpr hk)).symm
  refine ⟨held - Finsupp.single k n, ?_, ?_⟩
  · funext j
    by_cases hj : j = k
    · subst hj
      simp
    · simp [hj]
  · have hdegree : held.degree = (held - Finsupp.single k n).degree + n := by
      nth_rewrite 1 [hspl]
      rw [map_add, Finsupp.degree_single]
    show _ = s.cur - n
    omega

omit [DecidableEq κ] in
/-- Who holds all permits is the only one who holds any. -/
theorem Accounts.eq_zero_of_full (hk : share k = size) (hne : j ≠ k) : share j = 0 := by
  obtain ⟨held, rfl, hcur⟩ := h
  have hdegree : held.degree = held k + (held.erase k).degree := by
    nth_rewrite 1 [← Finsupp.single_add_erase k held]
    rw [map_add, Finsupp.degree_single]
  have hj : held j ≤ (held.erase k).degree := by
    rw [← Finsupp.erase_ne hne]
    exact Finsupp.le_degree j _
  have hle := s.le_size
  omega

omit [DecidableEq κ] in
/-- Where nobody holds anything, permits are to be had. -/
theorem Accounts.exists_acquire (hzr : ∀ k, share k = 0) (hn : n ≤ size) :
    ∃ s', s.acquire n = some s' := by
  obtain ⟨held, rfl, hcur⟩ := h
  have hheld : held = 0 := Finsupp.ext hzr
  rw [hheld, map_zero] at hcur
  exact ⟨⟨s.cur + n, by omega⟩, dif_pos _⟩

end

end Semaphore
