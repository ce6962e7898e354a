import Mathlib.Data.List.Nodup

/-!
# Tables of records with pairwise different keys

A map whose values carry their own key is a list of records no two of which have the same key.
`Table key` is that list together with the fact; `load`, `put` and `delete` are the operations of
the map, and `mem_put` and `mem_delete` say what is in it afterwards.  Everything else follows from
these two and from `load_eq_some_iff`.

The order of the records means nothing: two tables are compared by what they answer to `load`.

`Changed f ks t t'` says that `t'` is `t` with `f` applied to the records with keys in `ks`.
Changes of different records add up (`Changed.trans`), so a loop that changes records one at a time
is described by the list of the keys it has been at.
-/

/-- Records with pairwise different keys. -/
structure Table {α κ : Type} (key : α → κ) where
  all : List α
  nodup : (all.map key).Nodup

namespace Table

open List Function

variable {α κ : Type} [DecidableEq κ] {key : α → κ}

def empty : Table key := ⟨[], List.nodup_nil⟩

def load (t : Table key) (k : κ) : Option α := t.all.find? fun a => decide (key a = k)

def delete (t : Table key) (k : κ) : Table key where
  all := t.all.filter fun a => decide (key a ≠ k)
  nodup := t.nodup.sublist (List.filter_sublist.map _)

/-- The table with a record stored under its key, in place of the one that was there. -/
def put (t : Table key) (a : α) : Table key where
  all := a :: (t.delete (key a)).all
  nodup := by
    rw [List.map_cons, List.nodup_cons]
    exact ⟨by simp [delete], (t.delete (key a)).nodup⟩

def filter (t : Table key) (p : α → Bool) : Table key where
  all := t.all.filter p
  nodup := t.nodup.sublist (List.filter_sublist.map _)

variable {t t' : Table key} {k k' : κ} {a b : α}

lemma load_eq_none_iff : t.load k = none ↔ ∀ a ∈ t.all, key a ≠ k := by
  simp [load]

/-- A record is found under its own key, and under no other. -/
theorem load_eq_some_iff : t.load k = some a ↔ a ∈ t.all ∧ key a = k := by
  constructor
  · intro h
    exact ⟨mem_of_find?_eq_some h, by simpa using find?_some h⟩
  · rintro ⟨ha, rfl⟩
    cases hld : t.load (key a) with
    | none => exact absurd rfl (load_eq_none_iff.mp hld a ha)
    | some b =>
      have hb : b ∈ t.all := mem_of_find?_eq_some hld
      have hk : key b = key a := by simpa using find?_some hld
      rw [inj_on_of_nodup_map t.nodup hb ha hk]

lemma key_of_load (h : t.load k = some a) : key a = k := (load_eq_some_iff.mp h).2

lemma load_of_mem (h : a ∈ t.all) : t.load (key a) = some a := load_eq_some_iff.mpr ⟨h, rfl⟩

/-! ## What is in a table after an operation -/

lemma mem_delete : a ∈ (t.delete k).all ↔ a ∈ t.all ∧ key a ≠ k := by
  simp [delete]

omit [DecidableEq κ] in
lemma mem_filter {p : α → Bool} : a ∈ (t.filter p).all ↔ a ∈ t.all ∧ p a = true :=
  List.mem_filter

lemma load_of_load_filter {p : α → Bool} (h : (t.filter p).load k = some a) :
    t.load k = some a := by
  rw [load_eq_some_iff, mem_filter] at h
  exact load_eq_some_iff.mpr ⟨h.1.1, h.2⟩

lemma load_of_load_delete (h : (t.delete k').load k = some a) : t.load k = some a := by
  rw [load_eq_some_iff, mem_delete] at h
  exact load_eq_some_iff.mpr ⟨h.1.1, h.2⟩

lemma mem_put : b ∈ (t.put a).all ↔ b = a ∨ (b ∈ t.all ∧ key b ≠ key a) := by
  rw [← mem_delete]
  exact mem_cons

@[simp] lemma load_delete : (t.delete k).load k = none :=
  load_eq_none_iff.mpr fun _ ha => (mem_delete.mp ha).2

lemma load_delete_of_ne (h : k' ≠ k) : (t.delete k).load k' = t.load k' := by
  ext a
  rw [load_eq_some_iff, load_eq_some_iff, mem_delete]
  constructor
  · rintro ⟨⟨ha, _⟩, hk⟩
    exact ⟨ha, hk⟩
  · rintro ⟨ha, rfl⟩
    exact ⟨⟨ha, h⟩, rfl⟩

@[simp] lemma load_put_self : (t.put a).load (key a) = some a :=
  load_eq_some_iff.mpr ⟨mem_put.mpr (.inl rfl), rfl⟩

lemma load_put_of_ne (h : k ≠ key a) : (t.put a).load k = t.load k := by
  ext b
  rw [load_eq_some_iff, load_eq_some_iff, mem_put]
  constructor
  · rintro ⟨rfl | ⟨hb, _⟩, hk⟩
    · exact absurd hk.symm h
    · exact ⟨hb, hk⟩
  · rintro ⟨hb, rfl⟩
    exact ⟨.inr ⟨hb, h⟩, rfl⟩

/-- As functions of the key, the operations are updates. -/
lemma load_put : (t.put a).load = update t.load (key a) (some a) := by
  funext k
  by_cases h : k = key a
  · subst h
    simp
  · rw [load_put_of_ne h, update_of_ne h]

lemma load_delete_eq_update : (t.delete k).load = update t.load k none := by
  funext k'
  by_cases h : k' = k
  · subst h
    simp
  · rw [load_delete_of_ne h, update_of_ne h]

/-! ## Records that were not there before -/

lemma all_delete_of_fresh (h : t.load k = none) : (t.delete k).all = t.all := by
  have hne : ∀ a ∈ t.all, decide (key a ≠ k) = true := by
    simpa using load_eq_none_iff.mp h
  exact filter_eq_self.mpr hne

lemma all_put_of_fresh (h : t.load (key a) = none) : (t.put a).all = a :: t.all :=
  congrArg (a :: ·) (all_delete_of_fresh h)

lemma all_delete_put_of_fresh (h : t.load (key a) = none) :
    ((t.put a).delete (key a)).all = t.all := by
  have hput : ((t.put a).delete (key a)).all
      = (a :: t.all).filter fun b => decide (key b ≠ key a) := by
    rw [← all_put_of_fresh h]
    rfl
  rw [hput, filter_cons_of_neg (by simp)]
  exact all_delete_of_fresh h

lemma all_delete_of_append {l l' : List α} (h : t.all = l ++ a :: l') :
    (t.delete (key a)).all = l ++ l' := by
  have hnd : ((l ++ a :: l').map key).Nodup := h ▸ t.nodup
  rw [map_append, map_cons, nodup_append, nodup_cons] at hnd
  obtain ⟨_, ⟨hl', _⟩, hl⟩ := hnd
  have hkeep : ∀ b ∈ l, decide (key b ≠ key a) = true := fun b hb =>
    decide_eq_true (hl (key b) (mem_map_of_mem hb) (key a) mem_cons_self)
  have hkeep' : ∀ b ∈ l', decide (key b ≠ key a) = true := by
    intro b hb
    refine decide_eq_true fun heq => hl' ?_
    rw [← heq]
    exact mem_map_of_mem hb
  show t.all.filter _ = _
  rw [h, filter_append, filter_eq_self.mpr hkeep, filter_cons_of_neg (by simp),
    filter_eq_self.mpr hkeep']

/-! ## Counting records -/

lemma perm_delete (h : t.load k = some a) : t.all.Perm (a :: (t.delete k).all) := by
  refine (perm_ext_iff_of_nodup (List.Nodup.of_map _ t.nodup) ?_).mpr fun b => ?_
  · rw [nodup_cons]
    refine ⟨fun hmem => (mem_delete.mp hmem).2 (key_of_load h), ?_⟩
    exact List.Nodup.of_map _ (t.delete k).nodup
  · rw [mem_cons, mem_delete]
    obtain ⟨ha, hk⟩ := load_eq_some_iff.mp h
    constructor
    · intro hb
      by_cases hbk : key b = k
      · exact .inl (inj_on_of_nodup_map t.nodup hb ha (hbk.trans hk.symm))
      · exact .inr ⟨hb, hbk⟩
    · rintro (rfl | ⟨hb, _⟩)
      · exact ha
      · exact hb

lemma countP_delete (h : t.load k = some a) (p : α → Bool) :
    t.all.countP p = (t.delete k).all.countP p + if p a then 1 else 0 := by
  rw [(perm_delete h).countP_eq, countP_cons]

lemma length_delete (h : t.load k = some a) : t.all.length = (t.delete k).all.length + 1 := by
  simpa using countP_delete h fun _ => true

lemma countP_put (p : α → Bool) :
    (t.put a).all.countP p = (t.delete (key a)).all.countP p + if p a then 1 else 0 :=
  countP_cons

omit [DecidableEq κ] in
/-- A key is that of a selected record exactly if its record is selected. -/
lemma mem_keys_filter (p : α → Bool) (ha : a ∈ t.all) :
    key a ∈ (t.all.filter p).map key ↔ p a = true := by
  rw [mem_map]
  constructor
  · rintro ⟨b, hb, hk⟩
    rw [List.mem_filter] at hb
    rw [← inj_on_of_nodup_map t.nodup hb.1 ha hk]
    exact hb.2
  · intro hp
    exact ⟨a, List.mem_filter.mpr ⟨ha, hp⟩, rfl⟩

/-! ## Tables up to the order of their records -/

omit [DecidableEq κ] in
lemma nodup_all (t : Table key) : t.all.Nodup := List.Nodup.of_map _ t.nodup

/-- Tables that answer alike for the keys of the counted records have as many of them. -/
lemma countP_congr_of_load {p : α → Bool} (h : ∀ a, p a = true → t.load (key a) = t'.load (key a)) :
    t.all.countP p = t'.all.countP p := by
  rw [countP_eq_length_filter, countP_eq_length_filter]
  refine List.Perm.length_eq ?_
  rw [perm_ext_iff_of_nodup (t.nodup_all.filter _) (t'.nodup_all.filter _)]
  intro a
  rw [List.mem_filter, List.mem_filter]
  refine and_congr_left fun hp => ?_
  constructor
  · intro ha
    exact (load_eq_some_iff.mp ((h a hp).symm.trans (load_of_mem ha))).1
  · intro ha
    exact (load_eq_some_iff.mp ((h a hp).trans (load_of_mem ha))).1

/-! ## Changing some of the records -/

/-- `t'` is `t` with `f` applied to the records with keys in `ks`. -/
def Changed (f : α → α) (ks : List κ) (t t' : Table key) : Prop :=
  t'.all.Perm (t.all.map fun a => if key a ∈ ks then f a else a)

section Changed

variable {f : α → α} {ks ks' : List κ} {t'' : Table key}

lemma Changed.refl (f : α → α) (t : Table key) : Changed f [] t t := by
  simp [Changed]

lemma Changed.congr_keys (h : Changed f ks t t') (hks : ∀ k, k ∈ ks ↔ k ∈ ks') :
    Changed f ks' t t' := by
  unfold Changed at h ⊢
  simpa only [hks] using h

theorem Changed.trans (hf : ∀ a, key (f a) = key a) (h : Changed f ks t t')
    (h' : Changed f ks' t' t'') (hdisj : ks.Disjoint ks') : Changed f (ks ++ ks') t t'' := by
  refine List.Perm.trans h' ((List.Perm.map _ h).trans ?_)
  rw [map_map]
  refine List.Perm.of_eq (map_congr_left fun a _ => ?_)
  by_cases hks : key a ∈ ks
  · have hks' : key a ∉ ks' := fun h => hdisj hks h
    simp [hks, hks', hf]
  · simp [hks]

lemma changed_put (hf : ∀ a, key (f a) = key a) (ha : a ∈ t.all) :
    Changed f [key a] t (t.put (f a)) := by
  refine (perm_ext_iff_of_nodup (nodup_all _) ?_).mpr fun b => ?_
  · refine List.Nodup.of_map key ?_
    have hks : (t.all.map fun a' => if key a' ∈ [key a] then f a' else a').map key
        = t.all.map key := by
      rw [map_map]
      refine map_congr_left fun c _ => ?_
      show key (if key c ∈ [key a] then f c else c) = key c
      split_ifs
      · exact hf c
      · rfl
    rw [hks]
    exact t.nodup
  · rw [mem_put, mem_map, hf]
    constructor
    · rintro (rfl | ⟨hb, hne⟩)
      · exact ⟨a, ha, by simp⟩
      · exact ⟨b, hb, by simp [hne]⟩
    · rintro ⟨c, hc, rfl⟩
      by_cases hk : key c = key a
      · rw [inj_on_of_nodup_map t.nodup hc ha hk]
        simp
      · simp [hk, hc]

lemma changed_self (hfa : f a = a) (ha : a ∈ t.all) : Changed f [key a] t t := by
  have hmap : (t.all.map fun c => if key c ∈ [key a] then f c else c) = t.all := by
    conv_rhs => rw [← map_id t.all]
    refine map_congr_left fun c hc => ?_
    by_cases hk : key c = key a
    · rw [inj_on_of_nodup_map t.nodup hc ha hk]
      simp [hfa]
    · simp [hk]
  rw [Changed, hmap]

lemma Changed.mem_iff (h : Changed f ks t t') :
    b ∈ t'.all ↔ ∃ a ∈ t.all, (if key a ∈ ks then f a else a) = b := by
  rw [List.Perm.mem_iff h, mem_map]

lemma Changed.load (hf : ∀ a, key (f a) = key a) (h : Changed f ks t t')
    (hld : t.load k = some a) : t'.load k = some (if k ∈ ks then f a else a) := by
  obtain ⟨ha, rfl⟩ := load_eq_some_iff.mp hld
  refine load_eq_some_iff.mpr ⟨h.mem_iff.mpr ⟨a, ha, rfl⟩, ?_⟩
  split_ifs
  · exact hf a
  · rfl

lemma Changed.mem_of_notMem (h : Changed f ks t t') (ha : a ∈ t.all) (hk : key a ∉ ks) :
    a ∈ t'.all :=
  h.mem_iff.mpr ⟨a, ha, if_neg hk⟩

end Changed

end Table
