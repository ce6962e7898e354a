import Mathlib.Data.List.Lex

/-!
# Decimal texts and their order

The digits of a number, as a list of characters, determine the number.  The order of such lists is
the order of the numbers **only among lists of the same length** (`toDigits_lt_toDigits`): a longer
list may come before a shorter one.
-/

namespace Decimal

open List Nat

variable {m n : ℕ}

lemma toDigits_inj (h : toDigits 10 m = toDigits 10 n) : m = n := by
  rw [← ofDigitChars_ten_toDigits (n := m), h, ofDigitChars_ten_toDigits]

lemma not_mem_toDigits {c : Char} (hc : c.isDigit = false) (n : ℕ) : c ∉ toDigits 10 n := by
  intro hmem
  rw [isDigit_of_mem_toDigits (by decide) (by decide) hmem] at hc
  cases hc

lemma exists_toDigits_eq_cons (n : ℕ) : ∃ d rest, toDigits 10 n = d :: rest ∧ '0' ≤ d := by
  cases hdig : toDigits 10 n with
  | nil => exact absurd hdig toDigits_ne_nil
  | cons d rest =>
    have hd : d.isDigit = true :=
      isDigit_of_mem_toDigits (by decide) (by decide) (hdig ▸ mem_cons_self)
    simp only [Char.isDigit, Bool.and_eq_true, decide_eq_true_eq] at hd
    exact ⟨d, rest, rfl, hd.1⟩

lemma length_toDigits_mono (h : m ≤ n) : (toDigits 10 m).length ≤ (toDigits 10 n).length := by
  rw [length_toDigits_le_iff (by decide) length_toDigits_pos]
  refine lt_of_le_of_lt h ?_
  exact (length_toDigits_le_iff (by decide) length_toDigits_pos).mp (le_refl _)

variable {l x y : List Char}

/-- Among lists of the same length what follows does not matter. -/
lemma append_lt_append {l' : List Char} (hlen : l.length = l'.length) (h : l < l') :
    l ++ x < l' ++ y := by
  induction l generalizing l' with
  | nil =>
    cases l' with
    | nil => exact absurd h (not_lt_nil _)
    | cons => cases hlen
  | cons a l ih =>
    cases l' with
    | nil => cases hlen
    | cons =>
      rw [cons_lt_cons_iff] at h
      rw [cons_append, cons_append, cons_lt_cons_iff]
      exact h.imp_right fun h => ⟨h.1, ih (succ.inj hlen) h.2⟩

/-- After a common beginning the rest decides. -/
lemma append_lt_append_left : l ++ x < l ++ y ↔ x < y := by
  induction l with
  | nil => rfl
  | cons a l ih => simp [ih]

lemma digitChar_lt_digitChar (h : m < n) (hn : n < 10) : m.digitChar < n.digitChar := by
  have hdig : ∀ n < 10, ∀ m < n, m.digitChar < n.digitChar := by decide
  exact hdig n hn m h

/-- **Numbers with equally many digits are ordered as their digits are.** -/
theorem toDigits_lt_toDigits (h : m < n) (hlen : (toDigits 10 m).length = (toDigits 10 n).length) :
    toDigits 10 m < toDigits 10 n := by
  induction n using Nat.strong_induction_on generalizing m with
  | h n ih =>
    by_cases hn : n < 10
    · rw [toDigits_of_lt_base hn, toDigits_of_lt_base (lt_trans h hn), cons_lt_cons_iff]
      exact Or.inl (digitChar_lt_digitChar h hn)
    · have hdig := toDigits_of_base_le (b := 10) (by decide) (not_lt.mp hn)
      have hm : ¬ m < 10 := by
        intro hm
        rw [hdig, toDigits_of_lt_base hm] at hlen
        simp at hlen
      have hdig' := toDigits_of_base_le (b := 10) (by decide) (not_lt.mp hm)
      rw [hdig, hdig', length_append, length_append] at hlen
      rw [hdig, hdig']
      rcases lt_or_ge (m / 10) (n / 10) with hlt | hge
      · exact append_lt_append (by simpa using hlen)
          (ih (n / 10) (by omega) hlt (by simpa using hlen))
      · have heq : m / 10 = n / 10 := by omega
        rw [heq, append_lt_append_left, cons_lt_cons_iff]
        exact Or.inl (digitChar_lt_digitChar (by omega) (mod_lt n (by decide)))

end Decimal
