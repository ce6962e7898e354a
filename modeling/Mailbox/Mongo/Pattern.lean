import Mathlib.Computability.RegularExpressions
import Mailbox.Mongo.Search

/-!
# Escaped text

A pattern is read from left to right: a backslash in front of a metacharacter stands for that
character, a character that is no metacharacter for itself, and every other metacharacter is an
operator.  What `escapeRegex` makes of a text has no operators, whatever the text and whatever
follows it (`tokens_escapeRegex`).
-/

namespace Mailbox.Mongo

inductive Token where
  | literal (c : Char)
  | operator (c : Char)

def tokens : List Char → List Token
  | '\\' :: c :: p =>
    if c ∈ regexMetaChars then .literal c :: tokens p else .operator '\\' :: tokens (c :: p)
  | c :: p => (if c ∈ regexMetaChars then .operator c else .literal c) :: tokens p
  | [] => []

/-- The regular expression of a pattern without operators. -/
def literals : List Token → Option (RegularExpression Char)
  | [] => some 1
  | .literal c :: ts => (literals ts).map (.char c * ·)
  | .operator _ :: _ => none

lemma tokens_of_not_mem {c : Char} (hc : c ∉ regexMetaChars) (p : List Char) :
    tokens (c :: p) = .literal c :: tokens p := by
  have hne : c ≠ '\\' := by
    rintro rfl
    exact hc (by decide)
  cases p <;> simp [tokens, hne, hc]

lemma tokens_escapeRegex (s : String) (p : List Char) :
    tokens ((escapeRegex s).toList ++ p) = s.toList.map .literal ++ tokens p := by
  have hescape : (escapeRegex s).toList
      = s.toList.flatMap fun c => if c ∈ regexMetaChars then ['\\', c] else [c] := by
    rw [escapeRegex, String.toList_join, List.flatMap_map]
    congr
    funext c
    split_ifs <;> simp
  rw [hescape]
  induction s.toList with
  | nil => rfl
  | cons c l ih =>
    by_cases hc : c ∈ regexMetaChars
    · simp [tokens, hc, ih]
    · simp [tokens_of_not_mem hc, hc, ih]

lemma matches_literals (l : List Char) :
    ∃ r, literals (l.map .literal) = some r ∧ r.matches' = {l} := by
  induction l with
  | nil => exact ⟨1, rfl, rfl⟩
  | cons c l ih =>
    obtain ⟨r, hr, hmatch⟩ := ih
    refine ⟨.char c * r, by simp [literals, hr], ?_⟩
    rw [RegularExpression.matches'_mul, hmatch]
    exact Set.image2_singleton

/-- **Escaped text is literal.**  The pattern denotes the text and nothing else, different texts
have different patterns, and what follows the pattern is read as it is read without it. -/
theorem escapeRegex_literal (s : String) :
    (∃ r, literals (tokens (escapeRegex s).toList) = some r ∧ r.matches' = {s.toList})
      ∧ (∀ t, escapeRegex t = escapeRegex s → t = s)
      ∧ ∀ p, tokens ((escapeRegex s).toList ++ p) = s.toList.map .literal ++ tokens p := by
  have htokens : ∀ s, tokens (escapeRegex s).toList = s.toList.map .literal := by
    intro s
    simpa [tokens] using tokens_escapeRegex s []
  refine ⟨?_, fun t ht => ?_, tokens_escapeRegex s⟩
  · rw [htokens]
    exact matches_literals s.toList
  · have hliteral := htokens t
    rw [ht, htokens] at hliteral
    refine String.toList_injective (List.map_injective_iff.mpr ?_ hliteral.symm)
    intro c d hcd
    exact Token.literal.inj hcd

end Mailbox.Mongo
