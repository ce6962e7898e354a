import Mathlib.Data.List.Basic
import Mathlib.Order.Lattice

/-!
# Page boundaries of a list sorted by a key

Keyset pagination walks through records in descending order of a key and remembers the last one.  It
says where the next page starts if it is the only record with its key.

`Boundary key l k b` says so without mentioning any order of the list — `b` is the `k`-th largest
record of `l`, and no other record ties with it.  In every descending arrangement of `l` it then
stands at the same place, larger records before it and smaller ones after (`Boundary.split`); when
no two records tie, every place has a boundary (`exists_boundary`).
-/

open List

variable {α β : Type} [LinearOrder β] (key : α → β)

/-- The list is in descending order of the key. -/
def Descending (l : List α) : Prop := l.Pairwise fun a b => key b ≤ key a

/-- `b` is the `k`-th largest record, alone with its key. -/
structure Boundary (l : List α) (k : ℕ) (b : α) : Prop where
  mem : b ∈ l
  above : l.countP (fun a => decide (key b < key a)) + 1 = k
  upTo : l.countP (fun a => decide (key b ≤ key a)) = k

variable {key} {l l' : List α} {k : ℕ} {b : α}

lemma Boundary.of_perm (h : Boundary key l k b) (hp : l.Perm l') : Boundary key l' k b where
  mem := hp.mem_iff.mp h.mem
  above := by rw [← hp.countP_eq, h.above]
  upTo := by rw [← hp.countP_eq, h.upTo]

variable (key) in
lemma countP_le_eq (l : List α) (b : β) : l.countP (fun a => decide (b ≤ key a))
      = l.countP (fun a => decide (b < key a)) + l.countP (fun a => decide (key a = b)) := by
  induction l with
  | nil => rfl
  | cons a l ih =>
    simp only [countP_cons, ih]
    rcases lt_trichotomy b (key a) with h | h | h
    · simp [h, h.le, h.ne']
      omega
    · simp [h]
      omega
    · simp [h.ne, h.not_ge, h.le]

lemma Boundary.alone (h : Boundary key l k b) {a : α} (ha : a ∈ l) (hk : key a = key b) :
    a = b := by
  have hcnt : l.countP (fun a => decide (key a = key b)) = 1 := by
    have hsum := countP_le_eq key l (key b)
    rw [h.upTo, ← h.above] at hsum
    omega
  rw [countP_eq_length_filter, length_eq_one_iff] at hcnt
  obtain ⟨x, hx⟩ := hcnt
  have hmem : ∀ c ∈ l, key c = key b → c = x := by
    intro c hc hcb
    have hfilt : c ∈ l.filter fun a => decide (key a = key b) := by simp [hc, hcb]
    rw [hx] at hfilt
    simpa using hfilt
  rw [hmem a ha hk, hmem b h.mem rfl]

/-- Further down the list, the boundaries are smaller. -/
lemma Boundary.anti {b' : α} {k' : ℕ} (h : Boundary key l k b) (h' : Boundary key l k' b')
    (hk : k ≤ k') : key b' ≤ key b := by
  by_contra hlt
  have hle : l.countP (fun a => decide (key b' ≤ key a))
      ≤ l.countP (fun a => decide (key b < key a)) := by
    refine countP_mono_left fun a _ ha => ?_
    rw [decide_eq_true_eq] at ha ⊢
    exact (not_le.mp hlt).trans_le ha
  have habove := h.above
  rw [h'.upTo] at hle
  omega

/-- Below one boundary, the next one is a boundary of what is left. -/
lemma Boundary.of_below {c : α} {n : ℕ} (hc : Boundary key l k c) (hb : Boundary key l (k + n) b)
    (hn : 1 ≤ n) : Boundary key (l.filter fun a => decide (key a < key c)) n b := by
  have hbelow : key b < key c := by
    refine lt_of_le_of_ne (hc.anti hb (Nat.le_add_right k n)) fun heq => ?_
    obtain rfl := hc.alone hb.mem heq
    have hcnt := hb.upTo.symm.trans hc.upTo
    omega
  -- The records that are not below `c` are above `b`.
  have hr : ∀ p : α → Bool, (∀ a, key c ≤ key a → p a = true) →
      l.countP p = (l.filter fun a => decide (key a < key c)).countP p + k := by
    intro p hp
    rw [countP_eq_countP_filter_add l p fun a => decide (key a < key c)]
    congr 1
    rw [countP_filter, ← hc.upTo]
    refine countP_congr fun a _ => ?_
    simp only [Bool.and_eq_true, Bool.not_eq_true', decide_eq_false_iff_not, not_lt,
      decide_eq_true_eq, and_iff_right_iff_imp]
    exact hp a
  have habove := hr (fun a => decide (key b < key a)) fun a ha => by
    simpa using hbelow.trans_le ha
  have hupTo := hr (fun a => decide (key b ≤ key a)) fun a ha => by
    simpa using hbelow.le.trans ha
  have hk := hb.above
  rw [hb.upTo] at hupTo
  refine ⟨mem_filter.mpr ⟨hb.mem, by simpa using hbelow⟩, by omega, by omega⟩

/-- A record alone with its key separates the larger from the smaller ones. -/
lemma Descending.split_of_alone (hl : Descending key l) (hnd : l.Nodup) (hb : b ∈ l)
    (hal : ∀ a ∈ l, key a = key b → a = b) : ∃ before after, l = before ++ b :: after
      ∧ (∀ a ∈ before, key b < key a) ∧ ∀ a ∈ after, key a < key b := by
  obtain ⟨before, after, rfl⟩ := append_of_mem hb
  have hne : b ∉ before ∧ b ∉ after := by
    rw [nodup_append, nodup_cons] at hnd
    exact ⟨fun h => hnd.2.2 b h b mem_cons_self rfl, hnd.2.1.1⟩
  rw [Descending, pairwise_append, pairwise_cons] at hl
  refine ⟨before, after, rfl, fun a ha => ?_, fun a ha => ?_⟩
  · refine lt_of_le_of_ne (hl.2.2 a ha b mem_cons_self) fun heq => hne.1 ?_
    rw [← hal a (mem_append_left _ ha) heq.symm]
    exact ha
  · refine lt_of_le_of_ne (hl.2.1.1 a ha) fun heq => hne.2 ?_
    rw [← hal a (by simp [ha]) heq]
    exact ha

/-- A boundary stands at the same place in every descending arrangement. -/
theorem Boundary.split (h : Boundary key l k b) (hl : Descending key l) :
    ∃ before after, l = before ++ b :: after ∧ before.length + 1 = k
      ∧ (∀ a ∈ before, key b < key a) ∧ ∀ a ∈ after, key a < key b := by
  obtain ⟨before, after, rfl⟩ := append_of_mem h.mem
  have haft : ∀ a ∈ after, key a ≤ key b := (pairwise_cons.mp (pairwise_append.mp hl).2.1).1
  -- Records after `b` are not larger, records before it are at least as large.
  have habove : after.countP (fun a => decide (key b < key a)) = 0 := by
    rw [countP_eq_zero]
    intro a ha
    simpa using haft a ha
  have hcnt := h.above
  have hupTo := h.upTo
  rw [← h.upTo] at hcnt
  have hbef : ∀ a ∈ before, key b ≤ key a := by
    intro a ha
    exact (pairwise_append.mp hl).2.2 a ha b mem_cons_self
  have hlen : before.countP (fun a => decide (key b ≤ key a)) = before.length := by
    simpa using hbef
  have hle : before.countP (fun a => decide (key b < key a)) ≤ before.length := countP_le_length
  have hzr : after.countP (fun a => decide (key b ≤ key a)) = 0 := by
    simp at hcnt
    omega
  have hfl : before.countP (fun a => decide (key b < key a)) = before.length := by
    simp at hcnt
    omega
  refine ⟨before, after, rfl, ?_, ?_, ?_⟩
  · simp at hupTo
    omega
  · simpa [countP_eq_length] using hfl
  · simpa [countP_eq_zero] using hzr

lemma Boundary.take_drop (h : Boundary key l k b) (hl : Descending key l) :
    (l.take k).getLast? = some b ∧ l.drop k = l.filter fun a => decide (key a < key b) := by
  obtain ⟨before, after, rfl, rfl, hbef, haft⟩ := h.split hl
  have hspl : before ++ b :: after = (before ++ [b]) ++ after := by simp
  have hlen : (before ++ [b]).length = before.length + 1 := by simp
  constructor
  · rw [hspl, take_left' hlen, getLast?_concat]
  · rw [hspl, drop_left' hlen, filter_append, filter_eq_nil_iff.mpr, filter_eq_self.mpr, nil_append]
    · simpa using haft
    · intro a ha
      rw [mem_append, mem_singleton] at ha
      rcases ha with ha | rfl
      · simpa using (hbef a ha).le
      · simp

/-- Without ties, every place has a boundary. -/
theorem exists_boundary (hl : Descending key l) (hnd : (l.map key).Nodup) (hk : 1 ≤ k)
    (hlen : k ≤ l.length) : ∃ b, Boundary key l k b := by
  induction l generalizing k with
  | nil => simp at hlen; omega
  | cons a l ih =>
    rw [Descending, pairwise_cons] at hl
    rw [map_cons, nodup_cons] at hnd
    have hlt : ∀ c ∈ l, key c < key a := by
      intro c hc
      refine lt_of_le_of_ne (hl.1 c hc) fun heq => hnd.1 ?_
      rw [← heq]
      exact mem_map_of_mem hc
    rcases Nat.lt_or_ge 1 k with h | h
    · obtain ⟨b, hb⟩ := ih (k := k - 1) hl.2 hnd.2 (by omega) (by simp at hlen; omega)
      have hba := hlt b hb.mem
      refine ⟨b, mem_cons_of_mem _ hb.mem, ?_, ?_⟩
      · rw [countP_cons_of_pos (by simpa using hba), hb.above]
        omega
      · rw [countP_cons_of_pos (by simpa using hba.le), hb.upTo]
        omega
    · obtain rfl : k = 1 := by omega
      refine ⟨a, mem_cons_self, ?_, ?_⟩
      · rw [countP_cons_of_neg (by simp), countP_eq_zero.mpr]
        intro c hc
        simpa using (hlt c hc).le
      · rw [countP_cons_of_pos (by simp), countP_eq_zero.mpr]
        intro c hc
        simpa using hlt c hc
