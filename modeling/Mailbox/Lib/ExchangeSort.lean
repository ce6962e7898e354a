import Mathlib.Data.List.Basic

/-!
# Exchange sort

Two nested loops: for each position `i`, walk over the later positions `j` and exchange the two
elements whenever `swap` says so.  One run of the inner loop is `pass`, which carries the element at
position `i` along; the outer loop is `sort`.

The sort is not stable and `swap` need not come from a linear order.  All that is used of it is
`SwapOrder`: that not having to swap is a total preorder.  Under it the outcome is a permutation of
the input in which no two elements would be swapped.
-/

namespace ExchangeSort

open List

variable {α : Type}

/-- The inner loop: the element that ends up at the current position, and what comes after. -/
def pass (swap : α → α → Bool) : α → List α → α × List α
  | x, [] => (x, [])
  | x, y :: ys =>
    if swap x y then ((pass swap y ys).1, x :: (pass swap y ys).2)
    else ((pass swap x ys).1, y :: (pass swap x ys).2)

/-- The first `n` runs of the outer loop. -/
def passes (swap : α → α → Bool) : ℕ → List α → List α
  | 0, l => l
  | _ + 1, [] => []
  | n + 1, x :: xs => (pass swap x xs).1 :: passes swap n (pass swap x xs).2

def sort (swap : α → α → Bool) (l : List α) : List α := passes swap l.length l

/-- Elements need not be swapped according to a total preorder. -/
structure SwapOrder (swap : α → α → Bool) : Prop where
  asymm : ∀ {a b}, swap a b = true → swap b a = false
  trans : ∀ {a b c}, swap a b = false → swap b c = false → swap a c = false

variable {swap : α → α → Bool}

lemma SwapOrder.refl (h : SwapOrder swap) (a : α) : swap a a = false := by
  cases haa : swap a a with
  | false => rfl
  | true => rw [← haa, h.asymm haa]

lemma pass_perm (x : α) (xs : List α) :
    ((pass swap x xs).1 :: (pass swap x xs).2).Perm (x :: xs) := by
  induction xs generalizing x with
  | nil => exact .refl _
  | cons y ys ih =>
    rw [pass]
    split_ifs
    · exact (List.Perm.swap _ _ _).trans ((ih y).cons x)
    · exact (List.Perm.swap _ _ _).trans (((ih x).cons y).trans (List.Perm.swap _ _ _))

lemma length_pass (x : α) (xs : List α) : (pass swap x xs).2.length = xs.length := by
  have h : ((pass swap x xs).1 :: (pass swap x xs).2).length = (x :: xs).length :=
    (pass_perm x xs).length_eq
  simpa using h

/-- The element that ends up first need not be swapped with any other. -/
lemma swap_pass (h : SwapOrder swap) (x : α) (xs : List α) :
    ∀ z ∈ x :: xs, swap (pass swap x xs).1 z = false := by
  induction xs generalizing x with
  | nil => simp [pass, h.refl]
  | cons y ys ih =>
    intro z hz
    rw [pass]
    split_ifs with hxy
    · rcases mem_cons.mp hz with rfl | hz
      · exact h.trans (ih y y mem_cons_self) (h.asymm hxy)
      · exact ih y z hz
    · rw [Bool.not_eq_true] at hxy
      rcases mem_cons.mp hz with rfl | hz
      · exact ih z z mem_cons_self
      · rcases mem_cons.mp hz with rfl | hz
        · exact h.trans (ih x x mem_cons_self) hxy
        · exact ih x z (mem_cons_of_mem _ hz)

lemma passes_perm (n : ℕ) (l : List α) : (passes swap n l).Perm l := by
  induction n generalizing l with
  | zero => exact .refl _
  | succ n ih =>
    cases l with
    | nil => exact .refl _
    | cons x xs => exact ((ih _).cons _).trans (pass_perm x xs)

theorem sort_perm (l : List α) : (sort swap l).Perm l := passes_perm l.length l

lemma pairwise_passes (h : SwapOrder swap) (n : ℕ) (l : List α) (hn : l.length ≤ n) :
    (passes swap n l).Pairwise fun a b => swap a b = false := by
  induction n generalizing l with
  | zero =>
    obtain rfl : l = [] := length_eq_zero_iff.mp (by omega)
    exact List.Pairwise.nil
  | succ n ih =>
    cases l with
    | nil => exact List.Pairwise.nil
    | cons x xs =>
      have hlen : (pass swap x xs).2.length ≤ n := by
        rw [length_pass]
        simpa using hn
      rw [passes, pairwise_cons]
      refine ⟨fun z hz => swap_pass h x xs z ?_, ih _ hlen⟩
      exact (pass_perm x xs).mem_iff.mp (mem_cons_of_mem _ ((passes_perm n _).mem_iff.mp hz))

/-- **The outcome is sorted**: no two elements of it would be swapped. -/
theorem pairwise_sort (h : SwapOrder swap) (l : List α) :
    (sort swap l).Pairwise fun a b => swap a b = false :=
  pairwise_passes h l.length l (Nat.le_refl _)

lemma pass_of_sorted {x : α} {xs : List α} (h : ∀ y ∈ xs, swap x y = false) :
    pass swap x xs = (x, xs) := by
  induction xs with
  | nil => rfl
  | cons y ys ih =>
    have hxy : swap x y = false := h y mem_cons_self
    have hpass := ih fun z hz => h z (mem_cons_of_mem _ hz)
    simp [pass, hxy, hpass]

theorem sort_of_pairwise {l : List α} (h : l.Pairwise fun a b => swap a b = false) :
    sort swap l = l := by
  rw [sort]
  induction l with
  | nil => rfl
  | cons x xs ih =>
    rw [pairwise_cons] at h
    rw [length_cons, passes, pass_of_sorted h.1, ih h.2]

end ExchangeSort
