import Mathlib.Algebra.BigOperators.Ring.Finset
import Mathlib.Algebra.Order.BigOperators.Group.Finset
import Mailbox.Lib.Pool

/-!
# Counters that hear of changes later

A quantity is changed by *writes*, and a counter mirrors it.  The counter hears of a write later,
from a *posting* of its own, and never goes below zero.  Now and then it is *refreshed*, which makes
it the quantity itself.

* `Account` — the quantity, the counter once there is one, and what has been written but not posted.
* `Account.Exact` — the counter and what is still to be posted make up the quantity.
* `exact_apply`, `exact_of_apply` — every move but a refresh keeps this, both ways.  After a refresh
  it holds if **nothing is left to be posted**, on balance (`exact_refresh`).
* `exact_run`, `balanced_of_exact_run` — so in a pool of workers only the last refresh counts.

A decrease at zero is lost.  It cannot happen while the account is exact and there is *room*: what
is left to be posted is less than the quantity.
-/

namespace Ledger

open Pool Option

structure Account where
  stored : ℤ
  counter : Option ℤ
  /-- What has been written and is still to be posted. -/
  pending : ℤ

inductive Move where
  | quiet
  | write (δ : ℤ)
  | increase
  | decrease
  | refresh
  deriving DecidableEq

def Move.apply : Move → Account → Account
  | .quiet, a => a
  | .write δ, a => { a with stored := a.stored + δ, pending := a.pending + δ }
  | .increase, a => { a with counter := a.counter.map (· + 1), pending := a.pending - 1 }
  | .decrease, a =>
    { a with
      counter := a.counter.map fun n => if 0 < n then n - 1 else n
      pending := a.pending + 1 }
  | .refresh, a => { a with counter := some a.stored }

/-- The counter and what is still to be posted make up the quantity. -/
def Account.Exact (a : Account) : Prop := ∀ n, a.counter = some n → n + a.pending = a.stored

/-- The counter is not at zero, if there is one. -/
def Account.Positive (a : Account) : Prop := ∀ n, a.counter = some n → 0 < n

section Moves

variable {a : Account} {m : Move}

lemma exact_refresh : (Move.refresh.apply a).Exact ↔ a.pending = 0 := by
  simp [Account.Exact, Move.apply]

lemma Account.Exact.positive (h : a.Exact) (hrm : a.pending < a.stored) : a.Positive := by
  intro n hn
  have hexact := h n hn
  omega

/-- A move that is not a refresh, and does not decrease at zero, changes nothing. -/
lemma exact_apply_iff (hm : m ≠ .refresh) (hpos : m = .decrease → a.Positive) :
    (m.apply a).Exact ↔ a.Exact := by
  obtain ⟨stored, counter, pending⟩ := a
  cases counter with
  | none => cases m <;> simp_all [Account.Exact, Move.apply]
  | some n =>
    cases m with
    | quiet => rfl
    | write =>
      simp only [Account.Exact, Move.apply, some.injEq, forall_eq']
      omega
    | increase =>
      simp only [Account.Exact, Move.apply, map_some, some.injEq, forall_eq']
      omega
    | decrease =>
      have hn : 0 < n := hpos rfl n rfl
      simp only [Account.Exact, Move.apply, map_some, some.injEq, forall_eq', if_pos hn]
      omega
    | refresh => exact absurd rfl hm

end Moves

/-! ## Pools -/

section Runs

variable {ι σ τ : Type} [DecidableEq ι] (step : ι → σ → τ → σ × τ)
  (view : Config ι σ τ → Account) (moveOf : ι → Config ι σ τ → Move)

/-- The state in which the counter was last refreshed. -/
def lastRefresh : List ι → Config ι σ τ → Option (Config ι σ τ)
  | [], _ => none
  | i :: schedule, c =>
    (lastRefresh schedule (stepAt step c i)).or (if moveOf i c = .refresh then some c else none)

/-- Nothing was left to be posted, on balance, when the counter was last refreshed. -/
def Balanced (schedule : List ι) (c : Config ι σ τ) : Prop :=
  ∀ c', lastRefresh step moveOf schedule c = some c' → (view c').pending = 0

/-- The account follows the steps of the workers, as long as an invariant holds. -/
structure Follows (inv : Config ι σ τ → Prop) : Prop where
  preserved : ∀ c i, inv c → inv (stepAt step c i)
  apply : ∀ c i, inv c → view (stepAt step c i) = (moveOf i c).apply (view c)

variable {step view moveOf} {inv : Config ι σ τ → Prop} {schedule : List ι} {c : Config ι σ τ}

/-- **If the last refresh was balanced, the account is exact at the end.** -/
theorem exact_run (hfoll : Follows step view moveOf inv)
    (hrm : ∀ c i, inv c → moveOf i c = .decrease → (view c).pending < (view c).stored)
    (hc : inv c) (hbal : Balanced step view moveOf schedule c)
    (hst : lastRefresh step moveOf schedule c = none → (view c).Exact) :
    (view (run step schedule c)).Exact := by
  induction schedule generalizing c with
  | nil => exact hst rfl
  | cons i schedule ih =>
    refine ih (hfoll.preserved c i hc) (fun c' hc' => hbal c' ?_) fun hno => ?_
    · rw [lastRefresh, hc', some_or]
    · -- The step of `i` is the last refresh, or there is none at all.
      rw [Balanced, lastRefresh, hno, none_or] at hbal
      rw [lastRefresh, hno, none_or] at hst
      rw [hfoll.apply c i hc]
      by_cases hm : moveOf i c = .refresh
      · rw [hm, exact_refresh]
        exact hbal c (if_pos hm)
      · have hexact := hst (if_neg hm)
        rw [exact_apply_iff hm fun hdecrease => hexact.positive (hrm c i hc hdecrease)]
        exact hexact

/-- **If the account is exact at the end, and nothing was lost at zero, the last refresh was
balanced.** -/
theorem balanced_of_exact_run (hfoll : Follows step view moveOf inv) (hc : inv c)
    (hpos : Along step (fun i c => moveOf i c = .decrease → (view c).Positive) schedule c)
    (hexact : (view (run step schedule c)).Exact) : Balanced step view moveOf schedule c
      ∧ (lastRefresh step moveOf schedule c = none → (view c).Exact) := by
  induction schedule generalizing c with
  | nil => exact ⟨by rintro _ ⟨⟩, fun _ => hexact⟩
  | cons i schedule ih =>
    obtain ⟨hbal, hst⟩ := ih (hfoll.preserved c i hc) hpos.2 hexact
    rw [hfoll.apply c i hc] at hst
    simp only [Balanced, lastRefresh]
    cases hl : lastRefresh step moveOf schedule (stepAt step c i) with
    | some =>
      refine ⟨fun c'' hc'' => ?_, fun hno => by simp at hno⟩
      exact hbal c'' (hl.trans hc'')
    | none =>
      have hexact' := hst hl
      split_ifs with hm
      · rw [hm, exact_refresh] at hexact'
        refine ⟨fun c' hc' => ?_, fun hno => by cases hno⟩
        rw [← some.inj hc']
        exact hexact'
      · rw [exact_apply_iff hm hpos.1] at hexact'
        exact ⟨by rintro _ ⟨⟩, fun _ => hexact'⟩

/-! ## Sums over the workers -/

variable [Fintype ι] {i : ι}

lemma sum_stepAt (μ : τ → ℤ) : ∑ j, μ ((stepAt step c i).loc j)
      = ∑ j, μ (c.loc j) - μ (c.loc i) + μ (step i c.shared (c.loc i)).2 := by
  have hr : ∑ j ∈ Finset.univ.erase i, μ ((stepAt step c i).loc j)
      = ∑ j ∈ Finset.univ.erase i, μ (c.loc j) := by
    refine Finset.sum_congr rfl fun j hj => ?_
    rw [stepAt_loc_of_ne (Finset.ne_of_mem_erase hj)]
  rw [← Finset.add_sum_erase _ _ (Finset.mem_univ i), hr, stepAt_loc_self,
    ← Finset.add_sum_erase _ (fun j => μ (c.loc j)) (Finset.mem_univ i)]
  omega

omit [DecidableEq ι] in
/-- What belongs to at most one worker is counted at most once. -/
lemma sum_countP_le {α : Type} (l : List α) (p : α → Bool) (q : ι → α → Bool)
    (hq : ∀ i j a, q i a = true → q j a = true → i = j) :
    ∑ i, ((l.countP fun a => p a && q i a : ℕ) : ℤ) ≤ (l.countP p : ℕ) := by
  induction l with
  | nil => simp
  | cons a =>
    have hone : ∑ i, (if (p a && q i a) = true then (1 : ℤ) else 0) ≤ if p a then 1 else 0 := by
      cases p a with
      | false => simp
      | true =>
        simp only [Bool.true_and, if_true, Finset.sum_boole]
        have hcard : (Finset.univ.filter fun i => q i a = true).card ≤ 1 := by
          rw [Finset.card_le_one]
          intro i hi j hj
          exact hq i j a (Finset.mem_filter.mp hi).2 (Finset.mem_filter.mp hj).2
        exact_mod_cast hcard
    simp only [List.countP_cons, Nat.cast_add, Nat.cast_ite, Nat.cast_one, Nat.cast_zero,
      Finset.sum_add_distrib]
    omega

end Runs

end Ledger
