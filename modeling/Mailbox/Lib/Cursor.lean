import Mathlib.Data.List.Nodup

/-!
# A cursor into a log

A log is a list that only grows at its end.  A reader remembers the key of the last entry it has
taken: `seek` is what comes after that entry, or the whole log when there is none; `upTo` is what
comes before, with that entry.

* `seek_append` — when the entry is there, new entries come after everything else.
* `seek_append_cons` — entries before a cursor do not matter unless one has its key.
* `Reader` — a reader that takes entries one after the other: what it has taken is a contiguous part
  of the log, and the rest is what its cursor points at.  The log may grow (`Reader.append`), the
  reader may look again where its cursor points (`Reader.seek`), and it may take the next entry
  (`Reader.take`).  A reader whose cursor is the key of no entry starts wherever it first finds
  something; a *known* starting point stays fixed.
-/

namespace Cursor

open List

variable {α κ : Type} [DecidableEq κ] (key : α → κ)

/-- The entries after the first one with the given key; all of them when there is none. -/
def seek (k : κ) (l : List α) : List α :=
  match l.findIdx? (fun a => key a = k) with
  | some i => l.drop (i + 1)
  | none => l

/-- The entries up to the first one with the given key, that one included; none of them when there
is none. -/
def upTo (k : κ) (l : List α) : List α :=
  match l.findIdx? (fun a => key a = k) with
  | some i => l.take (i + 1)
  | none => []

variable {key} {k : κ} {l m : List α} {a : α}

lemma upTo_append_seek : upTo key k l ++ seek key k l = l := by
  unfold upTo seek
  split
  · exact take_append_drop _ _
  · rfl

lemma findIdx?_of_not_mem (h : k ∉ l.map key) : l.findIdx? (fun a => key a = k) = none := by
  rw [findIdx?_eq_none_iff]
  intro a ha
  simp only [decide_eq_false_iff_not]
  rintro rfl
  exact h (mem_map_of_mem ha)

lemma seek_of_not_mem (h : k ∉ l.map key) : seek key k l = l := by
  rw [seek, findIdx?_of_not_mem h]

lemma upTo_of_not_mem (h : k ∉ l.map key) : upTo key k l = [] := by
  rw [upTo, findIdx?_of_not_mem h]

/-- Right after an entry that is the first with its key. -/
lemma seek_append_cons (h : key a ∉ l.map key) : seek key (key a) (l ++ a :: m) = m := by
  have hfd : (l ++ a :: m).findIdx? (fun b => key b = key a) = some l.length := by
    rw [findIdx?_append, findIdx?_of_not_mem h]
    simp [findIdx?_cons]
  rw [seek, hfd]
  simp

lemma exists_findIdx? (h : k ∈ l.map key) : ∃ i, l.findIdx? (fun a => key a = k) = some i := by
  cases hfd : l.findIdx? (fun a => key a = k) with
  | some i => exact ⟨i, rfl⟩
  | none =>
    obtain ⟨a, ha, rfl⟩ := mem_map.mp h
    rw [findIdx?_eq_none_iff] at hfd
    simpa using hfd a ha

/-- The same place in what is left of a log: when the entry itself is gone, there is no such place,
and everything that is left comes after the cursor. -/
lemma seek_sublist [DecidableEq α] (h : l.Sublist m) (hm : (m.map key).Nodup) (ha : a ∈ m) :
    seek key (key a) l = if a ∈ l then l.filter (· ∈ seek key (key a) m) else l := by
  split_ifs with hal
  · obtain ⟨before, after, rfl⟩ := append_of_mem ha
    have hbef : key a ∉ before.map key := by
      intro hmem
      simp only [map_append, map_cons] at hm
      exact disjoint_of_nodup_append hm hmem mem_cons_self
    obtain ⟨l₁, l₂, rfl, h₁, h₂⟩ := sublist_append_iff.mp h
    have hnd : (before ++ a :: after).Nodup := hm.of_map
    have hl₁ : a ∉ l₁ := fun hmem => hbef (mem_map_of_mem (h₁.subset hmem))
    rcases sublist_cons_iff.mp h₂ with h₂ | ⟨rest, rfl, hr⟩
    · have haft := h₂.subset ((mem_append.mp hal).resolve_left hl₁)
      exact absurd haft (nodup_cons.mp hnd.of_append_right).1
    · have hgn : l₁.filter (· ∈ after) = [] := by
        refine filter_eq_nil_iff.mpr fun b hb => ?_
        simpa using fun hmem =>
          disjoint_of_nodup_append hnd (h₁.subset hb) (mem_cons_of_mem a hmem)
      have hr : rest.filter (· ∈ after) = rest :=
        filter_eq_self.mpr fun b hb => by simpa using hr.subset hb
      rw [seek_append_cons hbef, seek_append_cons fun hmem => hbef ((h₁.map key).subset hmem),
        filter_append, hgn, nil_append, filter_cons_of_neg, hr]
      simpa using (nodup_cons.mp hnd.of_append_right).1
  · refine seek_of_not_mem fun hmem => hal ?_
    obtain ⟨b, hb, hk⟩ := mem_map.mp hmem
    rwa [← inj_on_of_nodup_map hm (h.subset hb) ha hk]

/-- What is appended to a log comes after every entry of it. -/
lemma seek_append (h : k ∈ l.map key) : seek key k (l ++ m) = seek key k l ++ m := by
  obtain ⟨i, hi⟩ := exists_findIdx? h
  have hlt : i < l.length := (findIdx?_eq_some_iff_getElem.mp hi).1
  have happend : (l ++ m).findIdx? (fun a => key a = k) = some i := by
    rw [findIdx?_append, hi]
    rfl
  rw [seek, seek, hi, happend]
  exact drop_append_of_le_length hlt

lemma seek_upTo_append (h : k ∈ l.map key) : seek key k (upTo key k l ++ m) = m := by
  obtain ⟨i, hi⟩ := exists_findIdx? h
  obtain ⟨hlt, hat, hbef⟩ := findIdx?_eq_some_iff_getElem.mp hi
  have hfd : (l.take (i + 1) ++ m).findIdx? (fun a => key a = k) = some i := by
    rw [findIdx?_eq_some_iff_getElem]
    refine ⟨by simp; omega, ?_, fun j hj => ?_⟩
    · rw [getElem_append_left (by simp; omega), getElem_take]
      exact hat
    · rw [getElem_append_left (by simp; omega), getElem_take]
      exact hbef j hj
  have hlen : (l.take (i + 1)).length = i + 1 := by simp; omega
  rw [upTo, hi]
  rw [seek, hfd]
  show (l.take (i + 1) ++ m).drop (i + 1) = m
  rw [drop_append, hlen]
  simp

/-! ## Readers -/

variable (key)

/-- The reader has taken the entries `taken` of the log, and `rest` follows them.  If its starting
point is known, it has left out exactly the entries `start`.  Keys for which `unused` holds are
those of no entry, ever. -/
structure Reader (unused : κ → Prop) (start : List α) (known : Prop) (log taken rest : List α)
    (k : κ) : Prop where
  split : ∃ before, log = before ++ (taken ++ rest) ∧ (known → before = start)
  cursor : known ∨ taken ≠ [] → rest = seek key k log ∧ (k ∈ log.map key ∨ unused k)

variable {key} {unused : κ → Prop} {start log taken rest : List α} {known : Prop}

namespace Reader

omit [DecidableEq κ] in
lemma not_mem_of_unused (hk : unused k) (hlog : ∀ x ∈ log, ¬ unused (key x)) : k ∉ log.map key := by
  intro hmem
  obtain ⟨x, hx, rfl⟩ := mem_map.mp hmem
  exact hlog x hx hk

section

variable (h : Reader key unused start known log taken rest k)

include h

lemma append (hlog : ∀ x ∈ log ++ [a], ¬ unused (key x)) :
    Reader key unused start known (log ++ [a]) taken (rest ++ [a]) k := by
  obtain ⟨before, hspl, hkn⟩ := h.split
  refine ⟨⟨before, by rw [hspl]; simp, hkn⟩, fun hcur => ?_⟩
  obtain ⟨hr, hk⟩ := h.cursor hcur
  rcases hk with hk | hk
  · exact ⟨by rw [seek_append hk, hr], .inl (by simp [mem_map.mp hk])⟩
  · have hlog' : ∀ x ∈ log, ¬ unused (key x) := fun x hx => hlog x (mem_append_left _ hx)
    rw [seek_of_not_mem (not_mem_of_unused hk hlog')] at hr
    exact ⟨by rw [seek_of_not_mem (not_mem_of_unused hk hlog), hr], .inr hk⟩

/-- The reader looks where its cursor points. -/
lemma seek : Reader key unused start known log taken (Cursor.seek key k log) k := by
  by_cases hcur : known ∨ taken ≠ []
  · rw [← (h.cursor hcur).1]
    exact h
  · push Not at hcur
    refine ⟨⟨upTo key k log, ?_, fun hkn => absurd hkn hcur.1⟩, fun hkn => ?_⟩
    · rw [hcur.2, nil_append, upTo_append_seek]
    · exact absurd hkn (by simp [hcur])

lemma of_known (hkn : known) : Reader key unused start True log taken rest k := by
  obtain ⟨before, hspl, hbef⟩ := h.split
  exact ⟨⟨before, hspl, fun _ => hbef hkn⟩, fun _ => h.cursor (.inl hkn)⟩

lemma nodup (hlog : (log.map key).Nodup) : (taken.map key).Nodup := by
  obtain ⟨before, hspl, -⟩ := h.split
  rw [hspl, map_append, map_append] at hlog
  exact (hlog.of_append_right).of_append_left

end

lemma take (h : Reader key unused start known log taken (a :: rest) k)
    (hlog : (log.map key).Nodup) :
    Reader key unused start known log (taken ++ [a]) rest (key a) := by
  obtain ⟨before, hspl, hkn⟩ := h.split
  have hlog' : log = (before ++ taken) ++ a :: rest := by rw [hspl]; simp
  refine ⟨⟨before, by rw [hspl]; simp, hkn⟩, fun _ => ⟨?_, .inl ?_⟩⟩
  · rw [hlog', seek_append_cons]
    rw [hlog', map_append, map_cons, nodup_middle, nodup_cons] at hlog
    exact fun hmem => hlog.1 (mem_append_left _ hmem)
  · rw [hlog']
    simp

end Reader

end Cursor
