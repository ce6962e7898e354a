import Mathlib.Data.List.AList

/-!
# Reference counts that delete at zero

A map from keys to reference counts.  Only a known key can be incremented; a decrement that reaches
zero forgets the key, and a decrement of an unknown key does nothing.  So releases do not undo
increments exactly: `released` says what any number of releases makes of one count, and
`lookup_releaseAll` that a list of releases acts on every key by its number of occurrences.
-/

namespace RefCount

open Option

/-- The counts of the keys that are known. -/
abbrev Counts (κ : Type) := AList fun _ : κ => ℕ

/-- What `n` releases make of a count. -/
def released (n : ℕ) (o : Option ℕ) : Option ℕ :=
  if n = 0 then o else o.bind fun c => if c ≤ n then none else some (c - n)

@[simp] lemma released_zero (o : Option ℕ) : released 0 o = o := rfl

@[simp] lemma released_none (n : ℕ) : released n none = none := by
  simp [released]

lemma released_some {n : ℕ} (hn : n ≠ 0) (c : ℕ) :
    released n (some c) = if c ≤ n then none else some (c - n) := by
  simp [released, hn]

lemma released_released (m n : ℕ) (o : Option ℕ) :
    released m (released n o) = released (n + m) o := by
  cases o with
  | none => simp
  | some c =>
    rcases Nat.eq_zero_or_pos n with rfl | hn
    · simp
    rcases Nat.eq_zero_or_pos m with rfl | hm
    · simp
    rw [released_some (by omega), released_some (by omega)]
    by_cases hc : c ≤ n
    · rw [if_pos hc, if_pos (by omega), released_none]
    · rw [if_neg hc, released_some (by omega)]
      by_cases hcm : c - n ≤ m
      · rw [if_pos hcm, if_pos (by omega)]
      · rw [if_neg hcm, if_neg (by omega), Nat.sub_sub]

/-- Increments that are released again only matter to a count of zero, which they delete. -/
lemma released_add (n : ℕ) {m : ℕ} (hm : n ≤ m) (o : Option ℕ) :
    released m (released n (o.map (· + n))) = released m o := by
  cases o with
  | none => simp
  | some c =>
    rcases Nat.eq_zero_or_pos n with rfl | hn
    · simp
    rw [map_some, released_released, released_some (by omega), released_some (by omega)]
    by_cases hc : c ≤ m
    · rw [if_pos (by omega), if_pos hc]
    · rw [if_neg (by omega), if_neg hc]
      congr 1
      omega

/-- The count is the same only if there was nothing to release. -/
lemma released_getD_eq_iff {n : ℕ} (hn : n ≠ 0) (o : Option ℕ) :
    (released n o).getD 0 = o.getD 0 ↔ o.getD 0 = 0 := by
  cases o with
  | none => simp
  | some c =>
    rw [released_some hn]
    by_cases hc : c ≤ n
    · rw [if_pos hc]
      simp [eq_comm]
    · rw [if_neg hc]
      simp only [getD_some]
      omega

lemma released_of_getD_eq_zero {n : ℕ} (hn : n ≠ 0) {o : Option ℕ} (ho : o.getD 0 = 0) :
    released n o = none := by
  cases o with
  | none => simp
  | some =>
    rw [getD_some] at ho
    rw [released_some hn, if_pos (by omega)]

section Counts

variable {κ : Type} [DecidableEq κ] {k : κ} {counts : Counts κ}

/-- An unknown key counts nothing. -/
def count (counts : Counts κ) (k : κ) : ℕ := (counts.lookup k).getD 0

/-- Count one more reference to a known key. -/
def increment (k : κ) (counts : Counts κ) : Option (Counts κ) :=
  (counts.lookup k).map fun c => counts.insert k (c + 1)

/-- Count one reference less, and forget the key when none is left. -/
def decrement (k : κ) (counts : Counts κ) : Option (Counts κ) :=
  (counts.lookup k).map fun c =>
    if c - 1 = 0 then counts.erase k else counts.insert k (c - 1)

/-- Decrement every key of a list; unknown keys are passed over. -/
def releaseAll (ks : List κ) (counts : Counts κ) : Counts κ :=
  ks.foldl (fun counts k => (decrement k counts).getD counts) counts

lemma lookup_increment {counts' : Counts κ} (h : increment k counts = some counts') (k' : κ) :
    counts'.lookup k' = (counts.lookup k').map (· + [k].count k') := by
  rw [increment, map_eq_some_iff] at h
  obtain ⟨c, hc, rfl⟩ := h
  by_cases hk : k' = k
  · subst hk
    simp [hc]
  · simp [AList.lookup_insert_ne hk, Ne.symm hk]

lemma lookup_decrement (k k' : κ) :
    ((decrement k counts).getD counts).lookup k' = released ([k].count k') (counts.lookup k') := by
  by_cases hk : k' = k
  · subst hk
    rw [decrement, List.count_singleton_self]
    cases hc : counts.lookup k' with
    | none => simp [hc]
    | some c =>
      rw [released_some Nat.one_ne_zero, map_some, getD_some]
      by_cases h1 : c ≤ 1
      · rw [if_pos (by omega), if_pos h1, AList.lookup_erase]
      · rw [if_neg (by omega), if_neg h1, AList.lookup_insert]
  · have hcnt : [k].count k' = 0 := by simp [Ne.symm hk]
    rw [decrement, hcnt, released_zero]
    cases hc : counts.lookup k with
    | none => rfl
    | some =>
      rw [map_some, getD_some]
      split_ifs
      · exact AList.lookup_erase_ne hk
      · exact AList.lookup_insert_ne hk

theorem lookup_releaseAll (ks : List κ) (counts : Counts κ) (k' : κ) :
    (releaseAll ks counts).lookup k' = released (ks.count k') (counts.lookup k') := by
  induction ks generalizing counts with
  | nil => rfl
  | cons k ks ih =>
    show (releaseAll ks ((decrement k counts).getD counts)).lookup k' = _
    rw [ih, lookup_decrement, released_released, ← List.count_append]
    rfl

end Counts

end RefCount
