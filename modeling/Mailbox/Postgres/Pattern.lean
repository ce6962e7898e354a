import Mathlib.Data.List.Infix

/-!
# Substring search

Without full-text search, `Search` of `store/postgres/query.go` looks for a text with `ILIKE`.  It
puts the text between two `%` and a backslash in front of each `%` of the text; `_` and the
backslash itself stay what they are to `ILIKE`.
-/

namespace Mailbox.Postgres

open List

/-- Which characters `ILIKE` takes to be the same up to case.  The special ones have no other
case. -/
structure CaseFolding where
  fold : Char → Char
  caseless : ∀ c ∈ ['%', '_', '\\'], ∀ d, fold c = fold d → c = d

/-- The first character passes a test, and what follows it another one. -/
def headThen (test : Char → Bool) (rest : List Char → Bool) : List Char → Bool
  | [] => false
  | d :: t => test d && rest t

/-- `text ILIKE pattern`. -/
def ilike (F : CaseFolding) : List Char → List Char → Bool
  | [] => (·.isEmpty)
  | '%' :: p => fun t => t.tails.any (ilike F p)
  | '_' :: p => headThen (fun _ => true) (ilike F p)
  | '\\' :: c :: p => headThen (F.fold c == F.fold ·) (ilike F p)
  | c :: p => headThen (F.fold c == F.fold ·) (ilike F p)

variable (F : CaseFolding) {q p t : List Char}

/-- `strings.ReplaceAll(query, "%", "\\%")`. -/
def escaped (query : List Char) : List Char :=
  query.flatMap fun c => if c = '%' then ['\\', '%'] else [c]

def searchPattern (query : List Char) : List Char := '%' :: (escaped query ++ ['%'])

lemma headThen_iff {test : Char → Bool} {rest : List Char → Bool} :
    headThen test rest t = true ↔ ∃ d t', t = d :: t' ∧ test d = true ∧ rest t' = true := by
  cases t <;> simp [headThen]

lemma ilike_percent : ilike F ('%' :: p) t = true ↔ ∃ l r, t = l ++ r ∧ ilike F p r = true := by
  simp only [ilike, any_eq_true, mem_tails, List.IsSuffix]
  constructor
  · rintro ⟨r, ⟨l, rfl⟩, hr⟩
    exact ⟨l, r, rfl, hr⟩
  · rintro ⟨l, r, rfl, hr⟩
    exact ⟨r, ⟨l, rfl⟩, hr⟩

lemma ilike_literal {c : Char} (hc : c ≠ '%' ∧ c ≠ '_' ∧ c ≠ '\\') :
    ilike F (c :: p) = headThen (F.fold c == F.fold ·) (ilike F p) := by
  cases p <;> simp [ilike, hc]

lemma ilike_escaped (hq : '_' ∉ q ∧ '\\' ∉ q) : ilike F (escaped q ++ p) t = true
      ↔ ∃ l r, t = l ++ r ∧ q.map F.fold = l.map F.fold ∧ ilike F p r = true := by
  induction q generalizing t with
  | nil => simp [escaped]
  | cons c q ih =>
    simp only [mem_cons, not_or] at hq
    have hhd : ilike F (escaped (c :: q) ++ p) t
        = headThen (F.fold c == F.fold ·) (ilike F (escaped q ++ p)) t := by
      by_cases hc : c = '%'
      · simp [escaped, hc, ilike]
      · simp [escaped, hc, ilike_literal F ⟨hc, Ne.symm hq.1.1, Ne.symm hq.2.1⟩]
    rw [hhd, headThen_iff]
    constructor
    · rintro ⟨d, t', rfl, hd, ht'⟩
      obtain ⟨l, r, rfl, hl, hr⟩ := (ih ⟨hq.1.2, hq.2.2⟩).mp ht'
      exact ⟨d :: l, r, rfl, by simp [hl, beq_iff_eq.mp hd], hr⟩
    · rintro ⟨l, r, rfl, hl, hr⟩
      cases l with
      | nil => cases hl
      | cons d l =>
        rw [map_cons, map_cons, cons.injEq] at hl
        exact ⟨d, l ++ r, rfl, beq_iff_eq.mpr hl.1, (ih ⟨hq.1.2, hq.2.2⟩).mpr ⟨l, r, rfl, hl.2, hr⟩⟩

/-- The shortest text that the pattern of `q` takes, the first `%` apart.  A backslash takes the
character after it, which at the end is the second `%`. -/
def shortest : List Char → List Char
  | [] => []
  | '\\' :: q =>
    match q with
    | [] => ['%']
    | c :: q => (if c = '%' then '\\' else c) :: shortest q
  | c :: q => (if c = '_' then 'x' else c) :: shortest q

lemma ilike_shortest (q : List Char) : ilike F (escaped q ++ ['%']) (shortest q) = true := by
  fun_induction shortest q with
  | case1 => rfl
  | case2 => simp [escaped, ilike, headThen]
  | case3 c q ih =>
    by_cases hc : c = '%'
    · have hr : ilike F ('%' :: (escaped q ++ ['%'])) (shortest q) = true :=
        (ilike_percent F).mpr ⟨[], _, rfl, ih⟩
      simpa [escaped, hc, ilike, headThen] using hr
    · simpa [escaped, hc, ilike, headThen] using ih
  | case4 c q hc ih =>
    by_cases hpercent : c = '%'
    · simpa [escaped, hpercent, ilike, headThen] using ih
    · by_cases hany : c = '_'
      · simpa [escaped, hany, ilike, headThen] using ih
      · simpa [escaped, hpercent, hany, ilike_literal F ⟨hpercent, hany, hc⟩, headThen] using ih

lemma length_shortest (q : List Char) : (shortest q).length ≤ q.length := by
  fun_induction shortest q with
  | case3 c q ih =>
    simp only [length_cons]
    omega
  | case4 c q _ ih => simpa using ih
  | _ => simp

/-- It is shorter than the text, or another one, unless the text has no `_` and no backslash. -/
lemma shortest_ne (h : (shortest q).map F.fold = q.map F.fold) : '_' ∉ q ∧ '\\' ∉ q := by
  fun_induction shortest q with
  | case1 => simp
  | case2 =>
    simp at h
    exact absurd (F.caseless '%' (by decide) _ h) (by decide)
  | case3 c q ih =>
    have hlen := congrArg length h
    have := length_shortest q
    simp only [length_map, length_cons] at hlen
    omega
  | case4 c q hc ih =>
    rw [map_cons, map_cons, cons.injEq] at h
    have hany : c ≠ '_' := by
      rintro rfl
      exact absurd (F.caseless '_' (by decide) 'x' h.1.symm) (by decide)
    simpa [Ne.symm hany, Ne.symm hc] using ih h.2

/-- **Substring search is literal** exactly for the texts without `_` and without a backslash. -/
theorem ilike_searchPattern_iff (query : List Char) :
    (∀ text, ilike F (searchPattern query) text = true ↔ query.map F.fold <:+: text.map F.fold)
      ↔ '_' ∉ query ∧ '\\' ∉ query := by
  constructor
  · intro h
    have hmatch := (h (shortest query)).mp
      ((ilike_percent F).mpr ⟨[], _, rfl, ilike_shortest F query⟩)
    refine shortest_ne F (hmatch.eq_of_length_le ?_).symm
    simpa using length_shortest query
  · intro hq text
    rw [searchPattern, ilike_percent]
    constructor
    · rintro ⟨l, r, ht, hr⟩
      obtain ⟨m, r, rfl, hm, -⟩ := (ilike_escaped F hq).mp hr
      exact ⟨l.map F.fold, r.map F.fold, by simp [ht, hm]⟩
    · rintro ⟨l', r', ht⟩
      obtain ⟨lm, r, htext, hlm, -⟩ := List.map_eq_append_iff.mp ht.symm
      obtain ⟨l, m, rfl, -, hm⟩ := List.map_eq_append_iff.mp hlm
      refine ⟨l, m ++ r, by rw [htext, List.append_assoc], (ilike_escaped F hq).mpr ?_⟩
      exact ⟨m, r, rfl, hm.symm, (ilike_percent F).mpr ⟨r, [], by simp, rfl⟩⟩

/-- An alphabet with one case. -/
def oneCase : CaseFolding := ⟨id, fun _ _ _ h => h⟩

/-- `_` takes any character. -/
theorem searchPattern_underscore : ilike oneCase (searchPattern "a_b".toList) "axb".toList = true
      ∧ ¬ "a_b".toList.map oneCase.fold <:+: "axb".toList.map oneCase.fold := by
  decide

end Mailbox.Postgres
