import Mathlib.Data.List.DropRight
import Mailbox.Service.Validation

/-!
# MIME policies

`ValidateMIMEType` checks a content type against two lists of patterns.
-/

namespace Mailbox.Service

open List

section

-- `unicode.ToLower` beyond ASCII; nothing depends on it.
variable (lower : Char → Char) (lib : Library)

/-- `strings.ToLower`. -/
def toLower (s : String) : String := s.toLower.map fun c => if c.toNat < 128 then c else lower c

/-- `matchMIMEType`; a pattern may end in a wildcard, as in `image/*`. -/
def matchMIMEType (contentType pattern : String) : Bool :=
  let pattern := (toLower lower (trimSpace pattern)).toList
  let contentType := (toLower lower (trimSpace contentType)).toList
  pattern == contentType || "/*".toList.isSuffixOf pattern
    && (pattern.take (pattern.length - 2) ++ ['/']).isPrefixOf contentType

def validateMIMEType (contentType : String) (allowedTypes blockedTypes : List String) :
    Except String Unit :=
  -- The letters beyond ASCII are still to be lowered.
  let normalized := toLower lower (normalizeMIMEType contentType)
  if normalized = "" then .error "empty content type"
  else if blockedTypes.any (matchMIMEType lower normalized) then
    .error s!"content type {lib.quote contentType} is blocked"
  else if !allowedTypes.isEmpty && !allowedTypes.any (matchMIMEType lower normalized) then
    .error s!"content type {lib.quote contentType} is not allowed"
  else .ok ()

end

/-! ## Canonical forms -/

/-- The part before the first `;`, trimmed and with ASCII letters lowered. -/
def folded (contentType : String) : String :=
  (trimSpace (String.ofList (contentType.toList.takeWhile (· != ';')))).toLower

section

variable {α : Type} {p q : α → Bool}

lemma rdropWhile_cons_of_neg {a : α} (ha : p a = false) (l : List α) :
    (a :: l).rdropWhile p = a :: l.rdropWhile p := by
  by_cases h : (l.reverse.dropWhile p).isEmpty <;> simp_all [rdropWhile, dropWhile_append]

lemma rdropWhile_takeWhile_rdropWhile (hpq : ∀ a, p a = true → q a = true) (l : List α) :
    ((l.rdropWhile p).takeWhile q).rdropWhile p = (l.takeWhile q).rdropWhile p := by
  induction l using reverseRecOn with
  | nil => rfl
  | append_singleton l a ih =>
    cases ha : p a with
    | false => rw [rdropWhile_concat_neg _ _ _ (by simp [ha])]
    | true =>
      rw [rdropWhile_concat_pos _ _ _ ha, ih, takeWhile_append]
      split_ifs with hall
      · rw [takeWhile_cons_of_pos (hpq a ha), takeWhile_nil,
          rdropWhile_concat_pos _ _ _ ha, ( takeWhile_prefix q).eq_of_length hall]
      · rfl

/-- Trimming before and after comes to trimming after. -/
lemma trim_takeWhile_trim (hpq : ∀ a, p a = true → q a = true) (l : List α) :
    ((((l.dropWhile p).rdropWhile p).takeWhile q).dropWhile p).rdropWhile p
      = ((l.takeWhile q).dropWhile p).rdropWhile p := by
  induction l with
  | nil => rfl
  | cons a l ih =>
    cases ha : p a with
    | true => simpa [ha, hpq a ha] using ih
    | false =>
      have hl := rdropWhile_takeWhile_rdropWhile hpq l
      cases hq : q a <;> simp [ha, hq, rdropWhile_cons_of_neg ha, hl]

end

lemma normalizeMIMEType_eq (ct : String) : normalizeMIMEType ct = folded ct := by
  have htrim := trim_takeWhile_trim (p := isSpace) (q := (· != ';')) (by
    intro c hc
    rw [bne_iff_ne]
    rintro rfl
    cases hc) ct.toList
  have heq : trimSpace (String.ofList ((trimSpace ct).toList.takeWhile (· != ';')))
      = trimSpace (String.ofList (ct.toList.takeWhile (· != ';'))) := by
    simpa [trimSpace, rdropWhile] using congrArg String.ofList htrim
  rw [normalizeMIMEType, folded, ← heq]
  split_ifs with h
  · rw [h]
    show "" = String.map _ _
    simp [trimSpace]
  · rfl

/-! ## Verdicts -/

variable (lower : Char → Char) (lib : Library) (ct : String)

def accepts (allowed blocked : List String) : Bool :=
  (validateMIMEType lower lib ct allowed blocked).isOk

/-- The type matches one of the patterns. -/
def listed (patterns : List String) : Bool :=
  patterns.any (matchMIMEType lower (toLower lower (folded ct)))

lemma accepts_iff (allowed blocked : List String) : accepts lower lib ct allowed blocked = true ↔
    toLower lower (folded ct) ≠ "" ∧ listed lower ct blocked = false
      ∧ (allowed = [] ∨ listed lower ct allowed = true) := by
  rw [accepts, validateMIMEType, normalizeMIMEType_eq]
  rw [← listed, ← listed]
  split_ifs <;> simp_all [Except.isOk, Except.toBool, or_iff_not_imp_left]

variable {ct} in
lemma listed_mono {l l' : List String} (hsub : l ⊆ l') (h : listed lower ct l = true) :
    listed lower ct l' = true := by
  obtain ⟨pattern, hmem, hmatch⟩ := any_eq_true.mp h
  exact any_eq_true.mpr ⟨pattern, hsub hmem, hmatch⟩

/-- **MIME policies are canonical and monotone.** -/
theorem validateMIMEType_policy (ct' : String) (allowed allowed' blocked blocked' : List String) :
    (folded ct = folded ct' →
        accepts lower lib ct allowed blocked = accepts lower lib ct' allowed blocked)
      ∧ (listed lower ct blocked = true → accepts lower lib ct allowed blocked = false)
      ∧ (blocked ⊆ blocked' → accepts lower lib ct allowed blocked' = true →
          accepts lower lib ct allowed blocked = true)
      ∧ (allowed ≠ [] → allowed ⊆ allowed' → accepts lower lib ct allowed blocked = true →
          accepts lower lib ct allowed' blocked = true) := by
  refine ⟨fun heq => ?_, fun hl => ?_, fun hsub h => ?_, fun hne hsub h => ?_⟩
  · rw [Bool.eq_iff_iff, accepts_iff, accepts_iff]
    simp only [listed, heq]
  · rw [← Bool.not_eq_true, accepts_iff]
    simp [hl]
  · rw [accepts_iff] at h ⊢
    refine ⟨h.1, ?_, h.2.2⟩
    by_contra hl
    simp [listed_mono lower hsub (by simpa using hl)] at h
  · rw [accepts_iff] at h ⊢
    exact ⟨h.1, h.2.1, .inr (listed_mono lower hsub (h.2.2.resolve_left hne))⟩

end Mailbox.Service
