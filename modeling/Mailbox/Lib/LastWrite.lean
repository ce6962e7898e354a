import Mathlib.Data.List.AList

/-!
# Last write wins, and the conjunction of what survives

A map filled by writing a list of entries keeps, for each key, the **last** entry only.  Here such a
map is read as a conjunction: each surviving entry is a condition on a datum.

* `writeAll`, `lastWrite` — the map after a list of writes, and what is left at one key, with
  `lookup_writeAll` relating the two.
* `Holds` — the conjunction of the entries of a map.
* `Fieldwise` — conditions at different keys look at different parts of the datum, so that one part
  can be exchanged without touching the others.  So `exists_holds` builds one datum out of one
  witness per key.
* **`holds_writeAll_iff_forall`** — exactly when the conjunction of the survivors is the
  conjunction of everything that was written.
-/

namespace LastWrite

variable {κ β D : Type} [DecidableEq κ]

/-! ## Writing a list of entries -/

/-- The map after writing the entries of `ws` into `m`, from left to right. -/
def writeAll (ws : List (κ × β)) (m : AList fun _ : κ => β) : AList fun _ : κ => β :=
  ws.foldl (fun m w => m.insert w.1 w.2) m

/-- What the last entry of `ws` with key `k` wrote. -/
def lastWrite (k : κ) : List (κ × β) → Option β
  | [] => none
  | w :: ws => (lastWrite k ws).or (if w.1 = k then some w.2 else none)

/-- **A write list leaves its last write at each key**, and leaves every other key alone. -/
theorem lookup_writeAll (k : κ) (ws : List (κ × β)) (m : AList fun _ : κ => β) :
    (writeAll ws m).lookup k = (lastWrite k ws).or (m.lookup k) := by
  induction ws generalizing m with
  | nil => simp [writeAll, lastWrite]
  | cons w ws ih =>
    have hstep : writeAll (w :: ws) m = writeAll ws (m.insert w.1 w.2) := rfl
    rw [hstep, ih, lastWrite, Option.or_assoc]
    by_cases hk : w.1 = k
    · subst hk
      simp
    · rw [AList.lookup_insert_ne (Ne.symm hk)]
      simp [hk]

lemma lastWrite_append (k : κ) (ws ws' : List (κ × β)) :
    lastWrite k (ws ++ ws') = (lastWrite k ws').or (lastWrite k ws) := by
  induction ws with
  | nil => simp [lastWrite]
  | cons w ws ih => simp [lastWrite, ih, Option.or_assoc]

lemma mem_of_lastWrite {k : κ} {b : β} {ws : List (κ × β)} (h : lastWrite k ws = some b) :
    (k, b) ∈ ws := by
  induction ws with
  | nil => simp [lastWrite] at h
  | cons w ws ih =>
    rw [lastWrite, Option.or_eq_some_iff] at h
    rcases h with h | ⟨_, h⟩
    · exact List.mem_cons_of_mem _ (ih h)
    · split_ifs at h with hk
      rw [Option.some.injEq] at h
      subst hk h
      exact List.mem_cons_self

lemma exists_lastWrite_of_mem {w : κ × β} {ws : List (κ × β)} (h : w ∈ ws) :
    ∃ b, lastWrite w.1 ws = some b := by
  induction ws with
  | nil => simp at h
  | cons w' ws ih =>
    rw [lastWrite]
    rcases List.mem_cons.mp h with h | h
    · subst h
      cases lastWrite w.1 ws with
      | none => exact ⟨w.2, by simp⟩
      | some b => exact ⟨b, by simp⟩
    · obtain ⟨b, hb⟩ := ih h
      exact ⟨b, by simp [hb]⟩

/-- When no key is written twice with different values, the map is what was written. -/
lemma lookup_writeAll_empty_iff {ws : List (κ × β)}
    (hws : ∀ k b b', (k, b) ∈ ws → (k, b') ∈ ws → b = b') {k : κ} {b : β} :
    (writeAll ws ∅).lookup k = some b ↔ (k, b) ∈ ws := by
  rw [lookup_writeAll, AList.lookup_empty, Option.or_none]
  refine ⟨mem_of_lastWrite, fun h => ?_⟩
  obtain ⟨b', hb'⟩ := exists_lastWrite_of_mem h
  rw [hb', hws k b' b (mem_of_lastWrite hb') h]

/-! ## Reading the map as a conjunction -/

section Conjunction

variable (sem : κ → β → D → Prop)

/-- The datum satisfies every entry of the map. -/
def Holds (m : AList fun _ : κ => β) (d : D) : Prop :=
  ∀ k b, m.lookup k = some b → sem k b d

/-- Conditions at different keys look at different parts of the datum: the part behind any one
key can be taken from another datum, leaving what the other keys see unchanged. -/
def Fieldwise : Prop :=
  ∀ (k : κ) (d d' : D), ∃ e : D,
    (∀ b, sem k b e ↔ sem k b d') ∧ ∀ k' b, k' ≠ k → (sem k' b e ↔ sem k' b d)

variable {sem}

lemma holds_writeAll_empty (ws : List (κ × β)) (d : D) :
    Holds sem (writeAll ws ∅) d ↔ ∀ k b, lastWrite k ws = some b → sem k b d := by
  simp [Holds, lookup_writeAll]

/-- Conditions that can be met one at a time can be met together. -/
theorem exists_holds [Nonempty D] (hsem : Fieldwise sem) (m : AList fun _ : κ => β)
    (h : ∀ k b, m.lookup k = some b → ∃ d, sem k b d) : ∃ d, Holds sem m d := by
  -- Only the finitely many keys of the map matter; take care of them one after the other.
  have walk : ∀ ks : List κ, ∃ d, ∀ k ∈ ks, ∀ b, m.lookup k = some b → sem k b d := by
    intro ks
    induction ks with
    | nil => exact ⟨Classical.arbitrary D, by simp⟩
    | cons k ks ih =>
      obtain ⟨d, hd⟩ := ih
      cases hk : m.lookup k with
      | none =>
        refine ⟨d, fun k' hk' b hb => ?_⟩
        rcases List.mem_cons.mp hk' with rfl | hk'
        · rw [hk] at hb
          cases hb
        · exact hd k' hk' b hb
      | some b₀ =>
        obtain ⟨d', hd'⟩ := h k b₀ hk
        obtain ⟨e, hsm, hoth⟩ := hsem k d d'
        refine ⟨e, fun k' hk' b hb => ?_⟩
        by_cases hkk : k' = k
        · subst hkk
          rw [hk, Option.some.injEq] at hb
          subst hb
          exact (hsm _).mpr hd'
        · have hmem : k' ∈ ks := (List.mem_cons.mp hk').resolve_left hkk
          exact (hoth k' b hkk).mpr (hd k' hmem b hb)
  obtain ⟨d, hd⟩ := walk m.keys
  refine ⟨d, fun k b hb => hd k ?_ b hb⟩
  have hmem : k ∈ m := AList.lookup_isSome.mp (by rw [hb]; rfl)
  exact AList.mem_keys.mp hmem

/-- Two ways in which what survives can still say everything that was written: what is left at
some key is never met, so that neither side ever holds, or the last write at each key implies
the earlier ones there. -/
def Faithful (sem : κ → β → D → Prop) (ws : List (κ × β)) : Prop :=
  (∃ k b, lastWrite k ws = some b ∧ ∀ d, ¬ sem k b d) ∨
    ∀ w ∈ ws, ∀ b, lastWrite w.1 ws = some b → ∀ d, sem w.1 b d → sem w.1 w.2 d

/-- **Exactly when overwriting loses nothing.**  The conjunction of the surviving entries agrees,
on every datum, with the conjunction of all entries written, precisely for the `Faithful` write
lists. -/
theorem holds_writeAll_iff_forall [Nonempty D] (hsem : Fieldwise sem) (ws : List (κ × β)) :
    (∀ d, Holds sem (writeAll ws ∅) d ↔ ∀ w ∈ ws, sem w.1 w.2 d) ↔ Faithful sem ws := by
  constructor
  · intro h
    by_cases hdead : ∃ k b, lastWrite k ws = some b ∧ ∀ d, ¬ sem k b d
    · exact Or.inl hdead
    · refine Or.inr fun w hw b hb d hd => ?_
      push Not at hdead
      -- One datum `d₀` meets all survivors; give it the part of `d` behind the key of `w`.
      obtain ⟨d₀, hd₀⟩ := exists_holds hsem (writeAll ws ∅)
        (fun k b hkb => hdead k b (by simpa [lookup_writeAll] using hkb))
      obtain ⟨e, hsm, hoth⟩ := hsem w.1 d₀ d
      have he : Holds sem (writeAll ws ∅) e := by
        intro k b' hkb
        by_cases hk : k = w.1
        · subst hk
          rw [lookup_writeAll, hb] at hkb
          cases hkb
          exact (hsm b).mpr hd
        · exact (hoth k b' hk).mpr (hd₀ k b' hkb)
      exact (hsm w.2).mp ((h e).mp he w hw)
  · rintro (⟨k, b, hb, hdead⟩ | himp) d
    · constructor
      · intro h
        exact absurd ((holds_writeAll_empty ws d).mp h k b hb) (hdead d)
      · intro h
        exact absurd (h _ (mem_of_lastWrite hb)) (hdead d)
    · rw [holds_writeAll_empty]
      constructor
      · intro h w hw
        obtain ⟨b, hb⟩ := exists_lastWrite_of_mem hw
        exact himp w hw b hb d (h w.1 b hb)
      · intro h k b hb
        exact h _ (mem_of_lastWrite hb)

end Conjunction

end LastWrite
