import Mailbox.Lib.Boundary
import Mailbox.Lib.Cursor

/-!
# Walking through pages

A walk reads a list page by page, each page after the last record of the one before.  The list is
arranged anew for every page: `arr k` is its arrangement for page `k`, in descending order of a key
that records may share.  Labels tell records apart.

**Without ties at the page ends**, every walk is complete, whatever the arrangements are
(`walk_from`): each page end is a `Boundary`, it stands at the same place in every arrangement, and
what comes after it is what is left.

**With a tie at a page end** there is a walk that is not.  Exchange the page end and its double from
that page on: the double is read twice if it stood before the page end, and never if it stood after
it (`not_complete_of_tie`).

`complete_iff` puts the two together.
-/

namespace PageWalk

open List Option

variable {α κ β : Type} [DecidableEq κ] [LinearOrder β] (label : α → κ) (key : α → β)

/-- What comes after the record with the given label; nothing, if there is no such record. -/
def after (l : List α) : Option κ → List α
  | none => l
  | some c =>
    match l.findIdx? fun a => decide (label a = c) with
    | none => []
    | some i => l.drop (i + 1)

/-- The walk from page `k` on.  `none` while it is still going. -/
def walk (limit : ℕ) (arr : ℕ → List α) : (fuel k : ℕ) → Option κ → Option (List α)
  | 0, _, _ => none
  | fuel + 1, k, cursor =>
    let rest := after label (arr k) cursor
    if limit < rest.length then
      match (rest.take limit).getLast? with
      | none => none
      | some b => (walk limit arr fuel (k + 1) (some (label b))).map (rest.take limit ++ ·)
    else some rest

/-- The walk ends, and has visited every record of the list once. -/
def Complete (limit : ℕ) (arr : ℕ → List α) (l : List α) : Prop :=
  ∃ fuel visited, walk label limit arr fuel 0 none = some visited ∧ visited.Perm l

/-- The arrangements of a list. -/
def Arranges (arr : ℕ → List α) (l : List α) : Prop :=
  ∀ k, Descending key (arr k) ∧ (arr k).Perm l

variable {label key} {limit : ℕ} {arr : ℕ → List α} {l : List α}

/-! ## One page -/

variable {fuel k : ℕ} {cursor : Option κ} {before rest : List α} {seen : List α} {b : α}

lemma walk_last (h : (after label (arr k) cursor).length ≤ limit) :
    walk label limit arr (fuel + 1) k cursor = some (after label (arr k) cursor) := by
  simp only [walk]
  rw [if_neg (by omega)]

lemma walk_next (h : limit < (after label (arr k) cursor).length)
    (hb : ((after label (arr k) cursor).take limit).getLast? = some b) :
    walk label limit arr (fuel + 1) k cursor
      = (walk label limit arr fuel (k + 1) (some (label b))).map
        ((after label (arr k) cursor).take limit ++ ·) := by
  simp only [walk, if_pos h, hb]

lemma walk_stable {fuel' : ℕ} {visited : List α} (hle : fuel ≤ fuel')
    (h : walk label limit arr fuel k cursor = some visited) :
    walk label limit arr fuel' k cursor = some visited := by
  induction fuel generalizing fuel' k cursor visited with
  | zero => cases h
  | succ fuel ih =>
    obtain ⟨fuel', rfl⟩ : ∃ n, fuel' = n + 1 := ⟨fuel' - 1, by omega⟩
    rcases Nat.lt_or_ge limit (after label (arr k) cursor).length with hmr | hl
    · cases hb : ((after label (arr k) cursor).take limit).getLast? with
      | none => simp [walk, hmr, hb] at h
      | some =>
        rw [walk_next hmr hb] at h ⊢
        obtain ⟨visited', hsn', rfl⟩ := map_eq_some_iff.mp h
        rw [ih (by omega) hsn']
        rfl
    · rw [walk_last hl] at h ⊢
      exact h

lemma walk_unique {fuel' : ℕ} {visited visited' : List α}
    (h : walk label limit arr fuel k cursor = some visited)
    (h' : walk label limit arr fuel' k cursor = some visited') : visited = visited' := by
  have hmax := walk_stable (le_max_left fuel fuel') h
  rw [walk_stable (le_max_right fuel fuel') h', some.injEq] at hmax
  exact hmax.symm

omit [LinearOrder β] in
/-- A record is found where it stands. -/
lemma after_split (hnd : ((before ++ b :: rest).map label).Nodup) :
    after label (before ++ b :: rest) (some (label b)) = rest := by
  rw [map_append, map_cons] at hnd
  have hfd : (before ++ b :: rest).findIdx? (fun a => decide (label a = label b))
      = some before.length := by
    rw [findIdx?_append, Cursor.findIdx?_of_not_mem fun hmem =>
      disjoint_of_nodup_append hnd hmem mem_cons_self]
    simp [findIdx?_cons]
  simp only [after, hfd]
  simp

lemma after_sublist (l : List α) (cursor : Option κ) : (after label l cursor).Sublist l := by
  cases cursor with
  | none => exact List.Sublist.refl _
  | some =>
    simp only [after]
    split
    · exact nil_sublist _
    · exact drop_sublist _ _

/-! ## Page ends without ties -/

omit [DecidableEq κ] in
lemma length_below (h : Boundary key l k b) :
    (l.filter fun a => decide (key a < key b)).length + k = l.length := by
  have hsum := length_eq_countP_add_countP (fun a => decide (key a < key b)) (l := l)
  rw [← countP_eq_length_filter, hsum, ← h.upTo]
  congr 1
  refine countP_congr fun a _ => ?_
  simp

/-- What comes after a record that is alone with its key. -/
lemma after_alone (harr : Arranges key arr l) (hnd : (l.map label).Nodup) (hb : b ∈ l)
    (hal : ∀ a ∈ l, key a = key b → a = b) (k : ℕ) :
    Descending key (after label (arr k) (some (label b)))
      ∧ (after label (arr k) (some (label b))).Perm (l.filter fun a => decide (key a < key b)) := by
  obtain ⟨hdesc, hpm⟩ := harr k
  have hlbls : ((arr k).map label).Nodup := (hpm.map label).nodup_iff.mpr hnd
  obtain ⟨before, rest, hspl, hbef, hr⟩ := hdesc.split_of_alone
    (List.Nodup.of_map _ hlbls) (hpm.mem_iff.mpr hb)
    fun a ha => hal a (hpm.mem_iff.mp ha)
  have hfilt : (arr k).filter (fun a => decide (key a < key b)) = rest := by
    rw [hspl, filter_append, filter_cons_of_neg (by simp), filter_eq_nil_iff.mpr,
      filter_eq_self.mpr, nil_append]
    · simpa using hr
    · intro a ha
      simpa using (hbef a ha).le
  rw [hspl] at hlbls hdesc
  have haft : after label (arr k) (some (label b)) = rest := by
    rw [hspl, after_split hlbls]
  rw [haft]
  refine ⟨(pairwise_cons.mp (pairwise_append.mp hdesc).2.1).2, ?_⟩
  rw [← hfilt]
  exact hpm.filter _

/-- A walk over what is left of the list: the records below some key, with a boundary at every page
end. -/
theorem walk_from (hlim : 1 ≤ limit) (harr : Arranges key arr l) (hnd : (l.map label).Nodup)
    (n : ℕ) {left : List α} (hn : left.length ≤ n)
    (haft : ∀ k, Descending key (after label (arr k) cursor)
      ∧ (after label (arr k) cursor).Perm left)
    (hlower : ∀ a ∈ left, a ∈ l ∧ ∀ c ∈ l, key c ≤ key a → c ∈ left)
    (hends : ∀ j, 1 ≤ j → j * limit < left.length → ∃ b, Boundary key left (j * limit) b) (k : ℕ) :
    ∃ visited, walk label limit arr (n + 1) k cursor = some visited ∧ visited.Perm left := by
  induction n generalizing left cursor k with
  | zero =>
    have hlast : (after label (arr k) cursor).length ≤ limit := by
      rw [(haft k).2.length_eq]
      omega
    exact ⟨_, walk_last hlast, (haft k).2⟩
  | succ n ih =>
    rcases Nat.lt_or_ge limit left.length with hmr | hlast
    · obtain ⟨b, hb⟩ := hends 1 le_rfl (by omega)
      rw [Nat.one_mul] at hb
      have hbl := hlower b hb.mem
      have hal : ∀ a ∈ l, key a = key b → a = b := fun a ha hk =>
        hb.alone (hbl.2 a ha hk.le) hk
      obtain ⟨hdesc, hpm⟩ := haft k
      obtain ⟨htake, hdrop⟩ := (hb.of_perm hpm.symm).take_drop hdesc
      -- What is left after this page are the records below its end.
      have hfilt : (l.filter fun a => decide (key a < key b)).Perm
          (left.filter fun a => decide (key a < key b)) := by
        have hl : l.Nodup := List.Nodup.of_map _ hnd
        have hleft : left.Nodup := by
          refine hpm.nodup_iff.mp ?_
          have hlbls := ((harr k).2.map label).nodup_iff.mpr hnd
          exact (List.Nodup.of_map _ hlbls).sublist (after_sublist _ _)
        refine (perm_ext_iff_of_nodup (hl.filter _) (hleft.filter _)).mpr fun a => ?_
        simp only [mem_filter, decide_eq_true_eq, and_congr_left_iff]
        exact fun hlt => ⟨fun ha => hbl.2 a ha hlt.le, fun ha => (hlower a ha).1⟩
      have hlen := length_below hb
      have hlower' : ∀ a ∈ left.filter (fun a => decide (key a < key b)),
          a ∈ l ∧ ∀ c ∈ l, key c ≤ key a → c ∈ left.filter fun a => decide (key a < key b) := by
        intro a ha
        rw [mem_filter, decide_eq_true_eq] at ha
        refine ⟨(hlower a ha.1).1, fun c hc hca => ?_⟩
        rw [mem_filter, decide_eq_true_eq]
        exact ⟨(hlower a ha.1).2 c hc hca, hca.trans_lt ha.2⟩
      have hends' : ∀ j, 1 ≤ j → j * limit < (left.filter fun a => decide (key a < key b)).length →
          ∃ b', Boundary key (left.filter fun a => decide (key a < key b)) (j * limit) b' := by
        intro j hj hlt
        have hnx : (j + 1) * limit < left.length := by
          rw [Nat.add_mul, Nat.one_mul]
          omega
        obtain ⟨b', hb'⟩ := hends (j + 1) (by omega) hnx
        rw [Nat.add_mul, Nat.one_mul, Nat.add_comm] at hb'
        exact ⟨b', hb.of_below hb' (Nat.mul_pos hj hlim)⟩
      have haft' := fun k => after_alone harr hnd hbl.1 hal k
      obtain ⟨visited, hsn, hpm'⟩ := ih (by omega)
        (fun k => ⟨(haft' k).1, (haft' k).2.trans hfilt⟩) hlower' hends' (k + 1)
      have hmr' : limit < (after label (arr k) cursor).length := by
        rw [hpm.length_eq]
        exact hmr
      refine ⟨_, by rw [walk_next hmr' htake, hsn]; rfl, ?_⟩
      have hr : ((after label (arr k) cursor).drop limit).Perm visited := by
        rw [hdrop]
        exact (hpm.filter _).trans hpm'.symm
      refine (hr.symm.append_left _).trans ?_
      rw [take_append_drop]
      exact hpm
    · have hlast' : (after label (arr k) cursor).length ≤ limit := by
        rw [(haft k).2.length_eq]
        exact hlast
      exact ⟨_, walk_last hlast', (haft k).2⟩

/-! ## A walk over one arrangement -/

/-- The label of the last record, where the next page starts. -/
def cursorAfter (label : α → κ) (seen : List α) : Option κ := seen.getLast?.map label

lemma after_cursorAfter {seen rest : List α} (hnd : ((seen ++ rest).map label).Nodup) :
    after label (seen ++ rest) (cursorAfter label seen) = rest := by
  rcases eq_nil_or_concat seen with rfl | ⟨before, b, rfl⟩
  · rfl
  · rw [concat_eq_append, append_assoc, singleton_append] at hnd ⊢
    simp only [cursorAfter, getLast?_concat, map_some]
    exact after_split hnd

lemma walk_page (hlim : 1 ≤ limit) {seen rest : List α}
    (harr : arr k = seen ++ rest) (hnd : ((seen ++ rest).map label).Nodup)
    (hmr : limit < rest.length) : walk label limit arr (fuel + 1) k (cursorAfter label seen)
      = (walk label limit arr fuel (k + 1) (cursorAfter label (seen ++ rest.take limit))).map
        (rest.take limit ++ ·) := by
  have hr : after label (arr k) (cursorAfter label seen) = rest := by
    rw [harr, after_cursorAfter hnd]
  have hne : rest.take limit ≠ [] := by
    intro hnil
    have hlen := congrArg length hnil
    rw [length_take, length_nil] at hlen
    omega
  obtain ⟨before, b, hb⟩ := eq_nil_or_concat (rest.take limit) |>.resolve_left hne
  rw [concat_eq_append] at hb
  have hl : (rest.take limit).getLast? = some b := by
    rw [hb, getLast?_concat]
  have hcur : cursorAfter label (seen ++ rest.take limit) = some (label b) := by
    rw [cursorAfter, hb, ← append_assoc, getLast?_concat, map_some]
  rw [hcur, walk_next (by rw [hr]; exact hmr) (by rw [hr]; exact hl), hr]

lemma walk_pages (hlim : 1 ≤ limit) (hnd : (l.map label).Nodup) (fuel : ℕ) {j : ℕ}
    (harr : ∀ k < j, arr k = l) (hlen : j * limit < l.length) :
    walk label limit arr (fuel + j) 0 none
      = (walk label limit arr fuel j (cursorAfter label (l.take (j * limit)))).map
        (l.take (j * limit) ++ ·) := by
  induction j generalizing fuel with
  | zero => simp [cursorAfter]
  | succ j ih =>
    rw [Nat.add_mul, Nat.one_mul] at hlen ⊢
    have hspl : arr j = l.take (j * limit) ++ l.drop (j * limit) := by
      rw [harr j (by omega), take_append_drop]
    have hlbls : ((l.take (j * limit) ++ l.drop (j * limit)).map label).Nodup := by
      rwa [take_append_drop]
    have hmr : limit < (l.drop (j * limit)).length := by
      rw [length_drop]
      omega
    have htake : l.take (j * limit) ++ (l.drop (j * limit)).take limit
        = l.take (j * limit + limit) := by
      rw [take_add]
    rw [← Nat.add_assoc, Nat.add_right_comm, ih (fuel + 1) (fun k hk => harr k (by omega))
      (by omega), walk_page hlim hspl hlbls hmr, htake, Option.map_map]
    congr 1
    funext rest
    simp only [Function.comp_apply, ← append_assoc, htake]

/-- An arrangement that stays is read to its end. -/
lemma walk_rest (hlim : 1 ≤ limit) (hnd : (l.map label).Nodup) {k₀ : ℕ}
    (harr : ∀ k, k₀ ≤ k → arr k = l) (n : ℕ) {seen rest : List α} (hn : rest.length ≤ n)
    (hl : l = seen ++ rest) (hk : k₀ ≤ k) :
    walk label limit arr (n + 1) k (cursorAfter label seen) = some rest := by
  have hlbls : ((seen ++ rest).map label).Nodup := hl ▸ hnd
  have hr : after label (arr k) (cursorAfter label seen) = rest := by
    rw [harr k hk, hl, after_cursorAfter hlbls]
  induction n generalizing seen rest k with
  | zero =>
    rw [walk_last (by rw [hr]; omega), hr]
  | succ n ih =>
    rcases Nat.lt_or_ge limit rest.length with hmr | hlast
    · have hl' : l = (seen ++ rest.take limit) ++ rest.drop limit := by
        rw [append_assoc, take_append_drop, hl]
      have hlbls' : (((seen ++ rest.take limit) ++ rest.drop limit).map label).Nodup := hl' ▸ hnd
      have hnx : after label (arr (k + 1)) (cursorAfter label (seen ++ rest.take limit))
          = rest.drop limit := by
        rw [harr (k + 1) (by omega), hl', after_cursorAfter hlbls']
      rw [walk_page hlim ((harr k hk).trans hl) hlbls hmr,
        ih (by rw [length_drop]; omega) hl' (by omega) hlbls' hnx, map_some,
        take_append_drop]
    · rw [walk_last (by rw [hr]; exact hlast), hr]

/-! ## Page ends with ties -/

lemma descending_exchange {before between rest : List α} {x y : α} (hk : key y = key x)
    (h : Descending key (before ++ x :: between ++ y :: rest)) :
    Descending key (before ++ y :: between ++ x :: rest) := by
  have hks : ∀ l : List α, Descending key l ↔ (l.map key).Pairwise fun a b => b ≤ a := by
    intro l
    rw [Descending, pairwise_map]
  rw [hks] at h ⊢
  simpa [hk] using h

lemma perm_exchange (before between rest : List α) (x y : α) :
    (before ++ y :: between ++ x :: rest).Perm (before ++ x :: between ++ y :: rest) := by
  classical
  refine perm_iff_count.mpr fun a => ?_
  simp only [count_append, count_cons]
  omega

/-- Read one arrangement up to `x`, and another one from there. -/
lemma walk_exchange (hlim : 1 ≤ limit) {first second before rest before' rest' : List α} {x : α}
    {j : ℕ} (hfst : first = before ++ x :: rest) (hj : before.length + 1 = j * limit)
    (hmr : j * limit < first.length) (hsec : second = before' ++ x :: rest')
    (hnd : (first.map label).Nodup) (hnd' : (second.map label).Nodup)
    (harr : ∀ k < j, arr k = first) (harr' : ∀ k, j ≤ k → arr k = second)
    (hcompl : Complete label limit arr l) : (before ++ x :: rest').Perm l := by
  obtain ⟨fuel, visited, hsn, hpm⟩ := hcompl
  have htake : first.take (j * limit) = before ++ [x] := by
    have hspl : before ++ x :: rest = (before ++ [x]) ++ rest := by simp
    rw [hfst, ← hj, hspl, take_left' (by simp)]
  have hsec' : second = (before' ++ [x]) ++ rest' := by simp [hsec]
  have hr := walk_rest hlim hnd' harr' rest'.length le_rfl hsec' (le_refl j)
  have hpages := walk_pages hlim hnd (rest'.length + 1) harr hmr
  have hcur : cursorAfter label (before ++ [x]) = cursorAfter label (before' ++ [x]) := by
    simp [cursorAfter]
  rw [htake, hcur, hr, map_some] at hpages
  rw [walk_unique hsn hpages] at hpm
  simpa using hpm

/-- A page end that ties with another record is the end of some walk that is not complete. -/
theorem not_complete_of_tie (hlim : 1 ≤ limit) {x y : α} {j : ℕ}
    (hdesc : Descending key (before ++ x :: rest)) (hpm : (before ++ x :: rest).Perm l)
    (hnd : (l.map label).Nodup) (hj : before.length + 1 = j * limit)
    (hmr : j * limit < l.length) (hy : y ∈ l) (hne : y ≠ x) (hkey : key y = key x) :
    ∃ arr, Arranges key arr l ∧ ¬ Complete label limit arr l := by
  have hlbls : ∀ {l' : List α}, l'.Perm l → (l'.map label).Nodup := fun hl' =>
    (hl'.map label).nodup_iff.mpr hnd
  -- Both arrangements, and the walk that changes from one to the other.
  have hwalk : ∀ {second before' rest' : List α}, Descending key second → second.Perm l →
      second = before' ++ x :: rest' → ¬ (before ++ x :: rest').Perm l →
      ∃ arr, Arranges key arr l ∧ ¬ Complete label limit arr l := by
    intro second before' rest' hdesc' hpm' hsec hn
    refine ⟨fun k => if k < j then before ++ x :: rest else second, fun k => ?_, fun h => hn ?_⟩
    · dsimp only
      split_ifs
      · exact ⟨hdesc, hpm⟩
      · exact ⟨hdesc', hpm'⟩
    · exact walk_exchange hlim rfl hj (by rwa [hpm.length_eq]) hsec (hlbls hpm)
        (hlbls hpm') (fun k hk => if_pos hk) (fun k hk => if_neg (by omega)) h
  have hl : l.Nodup := List.Nodup.of_map _ hnd
  have hspl := hpm.mem_iff.mpr hy
  rw [mem_append, mem_cons] at hspl
  rcases hspl with hbef | heq | hr
  · -- `y` is before `x`: it is read a second time.
    obtain ⟨b₁, b₂, rfl⟩ := append_of_mem hbef
    refine hwalk (descending_exchange hkey.symm hdesc) ((perm_exchange _ _ _ _ _).trans hpm)
      (append_assoc b₁ (x :: b₂) (y :: rest)) fun h => ?_
    have hnd' := h.nodup_iff.mpr hl
    simp [nodup_append] at hnd'
  · exact absurd heq hne
  · -- `y` is after `x`: it is not read at all.
    obtain ⟨r₁, r₂, rfl⟩ := append_of_mem hr
    have hdesc' : Descending key (before ++ x :: r₁ ++ y :: r₂) := by simpa using hdesc
    have hpm' : (before ++ x :: r₁ ++ y :: r₂).Perm l := by simpa using hpm
    refine hwalk (descending_exchange hkey hdesc') ((perm_exchange _ _ _ _ _).trans hpm') rfl
      fun h => ?_
    have hrd := h.mem_iff.mpr hy
    have hnd' := hpm'.nodup_iff.mpr hl
    simp [nodup_append] at hrd hnd'
    grind

lemma boundary_of_alone {x : α}
    (hdesc : Descending key (before ++ x :: rest)) (hnd : (before ++ x :: rest).Nodup)
    (hal : ∀ a ∈ before ++ x :: rest, key a = key x → a = x) :
    Boundary key (before ++ x :: rest) (before.length + 1) x := by
  rw [Descending, pairwise_append, pairwise_cons] at hdesc
  rw [nodup_append, nodup_cons] at hnd
  have hbef : ∀ a ∈ before, key x < key a := by
    intro a ha
    refine lt_of_le_of_ne (hdesc.2.2 a ha x mem_cons_self) fun heq => ?_
    exact hnd.2.2 a ha x mem_cons_self (hal a (by simp [ha]) heq.symm)
  have hr : ∀ a ∈ rest, key a < key x := by
    intro a ha
    refine lt_of_le_of_ne (hdesc.2.1.1 a ha) fun heq => hnd.2.1.1 ?_
    rw [← hal a (by simp [ha]) heq]
    exact ha
  refine ⟨by simp, ?_, ?_⟩
  · rw [countP_append, countP_eq_length.mpr (by simpa using hbef),
      countP_cons_of_neg (by simp), countP_eq_zero.mpr]
    intro a ha
    simpa using (hr a ha).le
  · rw [countP_append, countP_eq_length.mpr (by simpa using fun a ha => (hbef a ha).le),
      countP_cons_of_pos (by simp), countP_eq_zero.mpr]
    intro a ha
    simpa using hr a ha

/-- **Walks.**  Whatever the arrangements, the walk visits every record once — exactly if at every
page end stands a record that is alone with its key. -/
theorem complete_iff (hlim : 1 ≤ limit) (hnd : (l.map label).Nodup) {l₀ : List α}
    (hdesc : Descending key l₀) (hpm : l₀.Perm l) :
    (∀ arr, Arranges key arr l → Complete label limit arr l)
      ↔ ∀ j, 1 ≤ j → j * limit < l.length → ∃ b, Boundary key l (j * limit) b := by
  constructor
  · intro h j hj hmr
    have hpos : 1 ≤ j * limit := Nat.mul_pos hj hlim
    obtain ⟨before, x, rest, hl₀, hlen⟩ : ∃ before x rest,
        l₀ = before ++ x :: rest ∧ before.length + 1 = j * limit := by
      have hlt : j * limit - 1 < l₀.length := by
        rw [hpm.length_eq]
        omega
      refine ⟨l₀.take (j * limit - 1), l₀[j * limit - 1], l₀.drop (j * limit - 1 + 1), ?_, ?_⟩
      · rw [← drop_eq_getElem_cons hlt, take_append_drop]
      · rw [length_take]
        omega
    subst hl₀
    by_contra hno
    have htie : ¬ ∀ a ∈ before ++ x :: rest, key a = key x → a = x := by
      intro hal
      have hb := boundary_of_alone hdesc (hpm.nodup_iff.mpr (List.Nodup.of_map _ hnd)) hal
      exact hno ⟨x, hlen ▸ hb.of_perm hpm⟩
    simp only [not_forall] at htie
    obtain ⟨y, hy, hk, hne⟩ := htie
    obtain ⟨arr, harr, hn⟩ := not_complete_of_tie hlim hdesc hpm hnd hlen hmr
      (hpm.mem_iff.mp hy) hne hk
    exact hn (h arr harr)
  · intro h arr harr
    have hst : ∀ k, Descending key (after label (arr k) none)
        ∧ (after label (arr k) none).Perm l := harr
    obtain ⟨visited, hsn, hvisitedPerm⟩ := walk_from hlim harr hnd l.length le_rfl
      hst (fun a ha => ⟨ha, fun c hc _ => hc⟩) h 0
    exact ⟨_, visited, hsn, hvisitedPerm⟩

end PageWalk
