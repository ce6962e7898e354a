import Mailbox.Lib.RefCount

/-!
# Reference counts that keep up with the references

The books of a component that counts references: the counts of the known keys, and how often each is
listed.  Two moves change both together:

* a **claim** lists known keys, and increments each as often as it lists it;
* a **release** strikes keys off, and decrements each as often as it strikes it off.

A key whose count is the number of times it is listed keeps that under both (`Move.balanced`), and
is forgotten by a move exactly when the move strikes off its last reference (`Move.forgotten_iff`).
A key that is known and not listed at all stays known: nothing is released that was not claimed.
-/

namespace RefCount

/-- The counts, and how often each key is listed. -/
structure Books (κ : Type) where
  counts : Counts κ
  listed : κ → ℕ

namespace Books

variable {κ : Type} [DecidableEq κ] {k : κ} {ks ks' : List κ} {b b' b'' : Books κ}

/-- The count of a key is the number of times it is listed. -/
def Balanced (b : Books κ) (k : κ) : Prop := count b.counts k = b.listed k

/-- Known keys are listed, and counted. -/
structure Claims (ks : List κ) (b b' : Books κ) : Prop where
  counts : ∀ k, b'.counts.lookup k = (b.counts.lookup k).map (· + ks.count k)
  listed : ∀ k, b'.listed k = b.listed k + ks.count k
  known : ∀ k ∈ ks, b.counts.lookup k ≠ none

/-- Keys are struck off, and released. -/
structure Releases (ks : List κ) (b b' : Books κ) : Prop where
  counts : ∀ k, b'.counts.lookup k = released (ks.count k) (b.counts.lookup k)
  listed : ∀ k, b.listed k = b'.listed k + ks.count k

inductive Move (b b' : Books κ) : Prop where
  | claim {ks : List κ} (h : Claims ks b b')
  | release {ks : List κ} (h : Releases ks b b')

/-! ## Moves that follow each other -/

lemma Releases.refl (b : Books κ) : Releases [] b b := ⟨fun _ => rfl, fun _ => rfl⟩

lemma Releases.trans (h : Releases ks b b') (h' : Releases ks' b' b'') :
    Releases (ks ++ ks') b b'' where
  counts k := by
    rw [h'.counts, h.counts, released_released, List.count_append]
  listed k := by
    rw [h.listed, h'.listed, List.count_append]
    omega

/-! ## What a move does to one key -/

lemma Claims.balanced (h : Claims ks b b') (hb : b.Balanced k) : b'.Balanced k := by
  rw [Balanced, count] at hb ⊢
  rw [h.counts, h.listed, ← hb]
  cases hk : b.counts.lookup k with
  | none =>
    have hn : k ∉ ks := fun hmem => h.known k hmem hk
    simp [List.count_eq_zero_of_not_mem hn]
  | some => rfl

lemma Releases.balanced (h : Releases ks b b') (hb : b.Balanced k) : b'.Balanced k := by
  rw [Balanced, count, h.listed] at hb
  rw [Balanced, count, h.counts]
  cases hk : b.counts.lookup k with
  | none =>
    rw [hk] at hb
    simp only [Option.getD_none] at hb
    rw [released_none]
    show 0 = _
    omega
  | some c =>
    rw [hk] at hb
    simp only [Option.getD_some] at hb
    by_cases hzr : ks.count k = 0
    · rw [hzr, released_zero, Option.getD_some]
      omega
    · rw [released_some hzr]
      split_ifs
      · show 0 = _
        omega
      · show c - ks.count k = _
        omega

theorem Move.balanced (h : Move b b') (hb : b.Balanced k) : b'.Balanced k := by
  cases h with
  | claim h | release h => exact h.balanced hb

/-- **A move forgets a key exactly when it strikes off the last reference to it.** -/
theorem Move.forgotten_iff (h : Move b b') (hb : b.Balanced k) :
    (b.counts.lookup k ≠ none ∧ b'.counts.lookup k = none) ↔ 0 < b.listed k ∧ b'.listed k = 0 := by
  rw [Balanced, count] at hb
  cases h with
  | @claim ks h =>
    rw [h.counts, h.listed, Option.map_eq_none_iff]
    refine iff_of_false (fun hgn => hgn.1 hgn.2) ?_
    omega
  | @release ks h =>
    have hlst := h.listed k
    rw [h.counts]
    cases hk : b.counts.lookup k with
    | none =>
      rw [hk, Option.getD_none] at hb
      refine iff_of_false (fun hgn => hgn.1 rfl) ?_
      omega
    | some =>
      rw [hk, Option.getD_some] at hb
      by_cases hzr : ks.count k = 0
      · rw [hzr, released_zero]
        simp only [ne_eq, reduceCtorEq, not_false_eq_true, and_false, false_iff]
        omega
      · rw [released_some hzr]
        simp only [ne_eq, reduceCtorEq, not_false_eq_true, true_and, ite_eq_left_iff,
          imp_false, not_not]
        omega

end Books

end RefCount
