import Mathlib.Logic.Relation

/-!
# Conversations

A log of posts, newest first.  A post brings some items and may answer one that is there; a post
that answers nothing opens a conversation under a token of its own.

* `Bears log x t` — the item `x` stands under the token `t`: that of the item its post answers, or
  its post's own.
* `Linked log` — the equivalence that makes one class of the items of a post and of the item it
  answers.
* **`linked_iff`** — in a log whose posts bring new items and new tokens, two items are linked
  exactly if they stand under one token.
-/

namespace Conversation

open List

structure Post (ι τ : Type) where
  items : List ι
  parent : Option ι
  token : τ

variable {ι τ : Type} {log : List (Post ι τ)} {p : Post ι τ} {x y : ι} {t t' : τ}

def Bears : List (Post ι τ) → ι → τ → Prop
  | [], _, _ => False
  | p :: log, x, t =>
    (x ∈ p.items ∧ p.parent.elim (t = p.token) fun y => Bears log y t) ∨ Bears log x t

/-- What a post may be in a log: its items and its token are new, and it answers an old item. -/
structure Extends (p : Post ι τ) (log : List (Post ι τ)) : Prop where
  items : ∀ x ∈ p.items, ∀ q ∈ log, x ∉ q.items
  parent : ∀ y, p.parent = some y → ∃ q ∈ log, y ∈ q.items
  token : ∀ q ∈ log, q.token ≠ p.token

def WellFormed : List (Post ι τ) → Prop
  | [] => True
  | p :: log => Extends p log ∧ WellFormed log

inductive Related (log : List (Post ι τ)) : ι → ι → Prop
  | sibling {p : Post ι τ} {x y : ι} : p ∈ log → x ∈ p.items → y ∈ p.items → Related log x y
  | reply {p : Post ι τ} {x y : ι} : p ∈ log → x ∈ p.items → p.parent = some y → Related log x y

def Linked (log : List (Post ι τ)) : ι → ι → Prop := Relation.EqvGen (Related log)

lemma Related.cons (h : Related log x y) : Related (p :: log) x y := by
  cases h with
  | sibling hp hx hy => exact .sibling (mem_cons_of_mem _ hp) hx hy
  | reply hp hx hpar => exact .reply (mem_cons_of_mem _ hp) hx hpar

lemma Linked.cons (h : Linked log x y) : Linked (p :: log) x y :=
  Relation.EqvGen.mono (fun _ _ => Related.cons) x y h

lemma mem_of_bears (h : Bears log x t) : ∃ p ∈ log, x ∈ p.items := by
  induction log with
  | nil => exact h.elim
  | cons p log ih =>
    rcases h with ⟨hx, _⟩ | h
    · exact ⟨p, mem_cons_self, hx⟩
    · obtain ⟨q, hq, hx⟩ := ih h
      exact ⟨q, mem_cons_of_mem _ hq, hx⟩

/-- An item that a post brings does not stand under a token before. -/
lemma Extends.not_bears (h : Extends p log) (hx : x ∈ p.items) : ¬ Bears log x t := by
  intro hbears
  obtain ⟨q, hq, hmem⟩ := mem_of_bears hbears
  exact h.items x hx q hq hmem

section

variable (hlog : WellFormed log)

include hlog

lemma exists_bears (hp : p ∈ log) (hx : x ∈ p.items) : ∃ t, Bears log x t := by
  induction log generalizing p x with
  | nil => cases hp
  | cons q log ih =>
    obtain ⟨hq, hlog⟩ := hlog
    rcases mem_cons.mp hp with rfl | hp
    · cases hpar : p.parent with
      | none => exact ⟨p.token, .inl ⟨hx, by rw [hpar]; rfl⟩⟩
      | some y =>
        obtain ⟨r, hr, hy⟩ := hq.parent y hpar
        obtain ⟨t, ht⟩ := ih hlog hr hy
        exact ⟨t, .inl ⟨hx, by rw [hpar]; exact ht⟩⟩
    · obtain ⟨t, ht⟩ := ih hlog hp hx
      exact ⟨t, .inr ht⟩

lemma Bears.unique (h : Bears log x t) (h' : Bears log x t') : t = t' := by
  induction log generalizing x with
  | nil => exact h.elim
  | cons p log ih =>
    obtain ⟨hp, hlog⟩ := hlog
    rcases h with ⟨hx, ht⟩ | h
    · rcases h' with ⟨_, ht'⟩ | h'
      · cases hpar : p.parent with
        | none =>
          rw [hpar] at ht ht'
          exact Eq.trans ht (Eq.symm ht')
        | some =>
          rw [hpar] at ht ht'
          exact ih hlog ht ht'
      · exact absurd h' (hp.not_bears hx)
    · rcases h' with ⟨hx, _⟩ | h'
      · exact absurd h (hp.not_bears hx)
      · exact ih hlog h h'

lemma Related.bears (hxy : Related log x y) (h : Bears log x t) : Bears log y t := by
  induction log with
  | nil => exact h.elim
  | cons p log ih =>
    obtain ⟨hp, hlog⟩ := hlog
    rcases h with ⟨hx, ht⟩ | h
    · -- The item is new, so it is this post that makes the relation.
      cases hxy with
      | sibling hq hx' hy =>
        rcases mem_cons.mp hq with rfl | hq
        · exact .inl ⟨hy, ht⟩
        · exact absurd hx' (hp.items x hx _ hq)
      | reply hq hx' hpar =>
        rcases mem_cons.mp hq with rfl | hq
        · rw [hpar] at ht
          exact .inr ht
        · exact absurd hx' (hp.items x hx _ hq)
    · have hold : ∀ q ∈ p :: log, x ∈ q.items → q ∈ log := by
        intro q hq hx
        rcases mem_cons.mp hq with rfl | hq
        · exact absurd h (hp.not_bears hx)
        · exact hq
      refine .inr (ih hlog ?_ h)
      cases hxy with
      | sibling hq hx hy => exact .sibling (hold _ hq hx) hx hy
      | reply hq hx hpar => exact .reply (hold _ hq hx) hx hpar

lemma Linked.bears_iff (hxy : Linked log x y) (t : τ) : Bears log x t ↔ Bears log y t := by
  induction hxy with
  | rel x y hrel =>
    refine ⟨hrel.bears hlog, fun hy => ?_⟩
    obtain ⟨t', ht'⟩ : ∃ t', Bears log x t' := by
      cases hrel with
      | sibling hp hx | reply hp hx => exact exists_bears hlog hp hx
    rwa [← (hrel.bears hlog ht').unique hlog hy]
  | refl => exact Iff.rfl
  | symm x y _ ih => exact ih.symm
  | trans x y z _ _ ih ih' => exact ih.trans ih'

end

/-- Every item is linked to one of the post that has opened its conversation. -/
lemma Bears.root (h : Bears log x t) : ∃ p ∈ log, p.token = t ∧ ∃ z ∈ p.items, Linked log x z := by
  induction log generalizing x with
  | nil => exact h.elim
  | cons p log ih =>
    rcases h with ⟨hx, ht⟩ | h
    · cases hpar : p.parent with
      | none =>
        rw [hpar] at ht
        exact ⟨p, mem_cons_self, Eq.symm ht, x, hx, .refl x⟩
      | some y =>
        rw [hpar] at ht
        obtain ⟨q, hq, htoken, z, hz, hlinked⟩ := ih ht
        have hxy : Linked (p :: log) x y := .rel x y (.reply mem_cons_self hx hpar)
        exact ⟨q, mem_cons_of_mem _ hq, htoken, z, hz, .trans x y z hxy hlinked.cons⟩
    · obtain ⟨q, hq, htoken, z, hz, hlinked⟩ := ih h
      exact ⟨q, mem_cons_of_mem _ hq, htoken, z, hz, hlinked.cons⟩

lemma WellFormed.eq_of_token (hlog : WellFormed log) {q : Post ι τ} (hp : p ∈ log) (hq : q ∈ log)
    (h : p.token = q.token) : p = q := by
  induction log with
  | nil => cases hp
  | cons r log ih =>
    obtain ⟨hr, hlog⟩ := hlog
    rcases mem_cons.mp hp with rfl | hp'
    · rcases mem_cons.mp hq with rfl | hq'
      · rfl
      · exact absurd h.symm (hr.token q hq')
    · rcases mem_cons.mp hq with rfl | hq'
      · exact absurd h (hr.token p hp')
      · exact ih hlog hp' hq'

/-- **One conversation, one token.** -/
theorem linked_iff (hlog : WellFormed log) (hx : Bears log x t) (hy : Bears log y t') :
    Linked log x y ↔ t = t' := by
  constructor
  · intro hxy
    exact ((hxy.bears_iff hlog t).mp hx).unique hlog hy
  · rintro rfl
    obtain ⟨p, hp, hpt, z, hz, hxz⟩ := hx.root
    obtain ⟨q, hq, hqt, z', hz', hyz'⟩ := hy.root
    obtain rfl := hlog.eq_of_token hp hq (hpt.trans hqt.symm)
    have hsibling : Linked log z z' := .rel z z' (.sibling hp hz hz')
    exact .trans x z y hxz (.trans z z' y hsibling (.symm y z' hyz'))

end Conversation
