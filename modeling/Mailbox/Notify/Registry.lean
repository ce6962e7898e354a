import Mathlib.Data.Fintype.Basic
import Mathlib.Data.List.AList
import Mailbox.Lib.Pool

/-!
# The streams of a notifier

`addStream` and `removeStream` of `notify/notifier.go`, with `Close` of `notify/stream.go`.  The
notifier keeps a map from users to lists of open streams.  A list has a lock, but whether it is in
the map is not decided under that lock: `Subscribe` takes the list out of the map first and appends
its stream to it later, and `Close` deletes the map's entry when it has emptied the list.  A list
that was deleted in between gets the stream all the same, and no push finds it there.

* `StreamTask` — where a stream is on its way from `Subscribe` to the end of `Close`; a step is one
  operation on the map or one edit of a list under its lock.

**`open_streams_reachable`**: open streams stay reachable while all deletes are quiet.
-/

namespace Mailbox.Notify

open Pool Function AList

variable {ι : Type}

/-- `Notifier.streams` and the `userStreams` objects, by their addresses.  `Subscribe` makes a new
object each time, and drops it when the map has one already. -/
structure Registry (ι : Type) where
  streams : AList fun _ : String => ℕ
  lists : ℕ → List ι
  locked : ℕ → Bool
  fresh : ℕ

/-- Where a stream is. -/
inductive StreamTask where
  | new
  | loaded (us : ℕ)
  | opened
  | closing
  | found (us : ℕ)
  | deleting (us : ℕ)
  | closed
  deriving DecidableEq, Repr

def StreamTask.isLoaded : StreamTask → Bool
  | .loaded _ => true
  | _ => false

def StreamTask.isDeleting : StreamTask → Bool
  | .deleting _ => true
  | _ => false

section Step

variable [DecidableEq ι] (user : ι → String)

/-- One step of `addStream`, then of `Close` and `removeStream`.  A locked list makes the caller
wait. -/
def streamStep (i : ι) (r : Registry ι) : StreamTask → Registry ι × StreamTask
  | .new =>
    -- n.streams.LoadOrStore(userID, &userStreams{})
    match r.streams.lookup (user i) with
    | some us => (r, .loaded us)
    | none =>
      ({ r with
          streams := r.streams.insert (user i) r.fresh
          lists := Function.update r.lists r.fresh []
          locked := Function.update r.locked r.fresh false
          fresh := r.fresh + 1 }, .loaded r.fresh)
  | .loaded us =>
    if r.locked us then (r, .loaded us)
    else ({ r with lists := Function.update r.lists us (r.lists us ++ [i]) }, .opened)
  | .opened => (r, .closing)
  | .closing =>
    -- n.streams.Load(userID)
    match r.streams.lookup (user i) with
    | none => (r, .closed)
    | some us => (r, .found us)
  | .found us =>
    if r.locked us then (r, .found us)
    else if (r.lists us).erase i = [] then
      -- The lock is kept until the entry is deleted.
      ({ r with
          lists := Function.update r.lists us []
          locked := Function.update r.locked us true }, .deleting us)
    else ({ r with lists := Function.update r.lists us ((r.lists us).erase i) }, .closed)
  | .deleting us =>
    -- n.streams.Delete(userID)
    ({ r with
        streams := r.streams.erase (user i)
        locked := Function.update r.locked us false }, .closed)
  | .closed => (r, .closed)

end Step

/-- A notifier without streams. -/
def streamsStart : Config ι (Registry ι) StreamTask where
  shared := ⟨∅, fun _ => [], fun _ => false, 0⟩
  loc := fun _ => .new

section Statement

variable (user : ι → String)

/-- Every open stream is in the list that the map has for its user. -/
def Reachable (c : Config ι (Registry ι) StreamTask) : Prop :=
  ∀ i, c.loc i = .opened → ∃ us, c.shared.streams.lookup (user i) = some us ∧ i ∈ c.shared.lists us

/-- The step does not delete the entry of a user for whom a `Subscribe` is about to append. -/
def QuietDelete (i : ι) (c : Config ι (Registry ι) StreamTask) : Prop :=
  ∀ us, c.loc i = .deleting us → ∀ j us', c.loc j = .loaded us' → user j ≠ user i

instance [Fintype ι] (i : ι) (c : Config ι (Registry ι) StreamTask) :
    Decidable (QuietDelete user i c) :=
  decidable_of_iff
    ((c.loc i).isDeleting = true → ∀ j, (c.loc j).isLoaded = true → user j ≠ user i) <| by
      constructor
      · intro h us hi j us' hj
        exact h (by rw [hi]; rfl) j (by rw [hj]; rfl)
      · intro h hi j hj
        cases hdeleting : c.loc i <;> rw [hdeleting] at hi <;> cases hi
        cases hloaded : c.loc j <;> rw [hloaded] at hj <;> cases hj
        exact h _ hdeleting j _ hloaded

end Statement

/-! ## Where a stream is listed -/

section Listed

variable (user : ι → String)

/-- What the map and the lists say about a stream, by where it is. -/
def Listed (r : Registry ι) (i : ι) : StreamTask → Prop
  | .new => True
  | .loaded us => r.streams.lookup (user i) = some us
  | .opened => ∃ us, r.streams.lookup (user i) = some us ∧ i ∈ r.lists us
  | .closing => ∃ us, r.streams.lookup (user i) = some us ∧ i ∈ r.lists us
  | .found us => r.streams.lookup (user i) = some us ∧ i ∈ r.lists us
  | .deleting us =>
    r.streams.lookup (user i) = some us ∧ r.lists us = [] ∧ r.locked us = true
  | .closed => True

/-- The invariant of the runs whose deletes are quiet. -/
structure Orderly (c : Config ι (Registry ι) StreamTask) : Prop where
  listed : ∀ i, Listed user c.shared i (c.loc i)
  old : ∀ u us, c.shared.streams.lookup u = some us → us < c.shared.fresh
  distinct : ∀ u u' us, c.shared.streams.lookup u = some us →
    c.shared.streams.lookup u' = some us → u = u'
  single : ∀ i j us, c.loc i = .deleting us → c.loc j = .deleting us → i = j

lemma Orderly.reachable {c : Config ι (Registry ι) StreamTask} (h : Orderly user c) :
    Reachable user c := by
  intro i hi
  have hlst := h.listed i
  rw [hi] at hlst
  exact hlst

end Listed

variable {us : ℕ}

section Runs

variable {user : ι → String} {r r' : Registry ι} {t : StreamTask} {j : ι}

/-- What is said about a stream stays true when the map keeps the entry of its user, its own place
in a list is kept, and a list that is being deleted stays empty and locked. -/
lemma Listed.mono (h : Listed user r j t)
    (hlk : r'.streams.lookup (user j) = r.streams.lookup (user j))
    (hlists : ∀ us, r.streams.lookup (user j) = some us → j ∈ r.lists us → j ∈ r'.lists us)
    (hdeleting : ∀ us, t = .deleting us → r.streams.lookup (user j) = some us → r.lists us = [] →
      r.locked us = true → r'.lists us = [] ∧ r'.locked us = true) : Listed user r' j t := by
  cases t with
  | new | closed => trivial
  | loaded => exact hlk.trans h
  | opened | closing =>
    obtain ⟨us, hus, hj⟩ := h
    exact ⟨us, hlk.trans hus, hlists us hus hj⟩
  | found us => exact ⟨hlk.trans h.1, hlists us h.1 h.2⟩
  | deleting us => exact ⟨hlk.trans h.1, hdeleting us rfl h.1 h.2.1 h.2.2⟩

/-- A stream about which something is said has an entry for its user in the map. -/
lemma Listed.lookup_ne_none (h : Listed user r j t) (hw : t ≠ .new) (hcl : t ≠ .closed) :
    ∃ us, r.streams.lookup (user j) = some us := by
  cases t with
  | new => exact absurd rfl hw
  | closed => exact absurd rfl hcl
  | loaded us => exact ⟨us, h⟩
  | opened | closing => exact ⟨_, h.choose_spec.1⟩
  | found us | deleting us => exact ⟨us, h.1⟩

lemma Orderly.ne_of_unlocked {c : Config ι (Registry ι) StreamTask} (h : Orderly user c)
    {us' : ℕ} (hus : c.shared.locked us = false) (hj : c.loc j = .deleting us') : us' ≠ us := by
  rintro rfl
  have hlst := h.listed j
  rw [hj] at hlst
  rw [hlst.2.2] at hus
  cases hus

variable [DecidableEq ι] {c : Config ι (Registry ι) StreamTask} {i : ι}

section

variable (h : Orderly user c)

include h

/-- What has to be shown of a step: of the stream that takes it, of the others, and of the map. -/
lemma orderly_stepAt
    (hstep : streamStep user i c.shared (c.loc i) = (r, t)) (hself : Listed user r i t)
    (hoth : ∀ j ≠ i, Listed user r j (c.loc j))
    (hold : ∀ u us, r.streams.lookup u = some us → us < r.fresh)
    (hdist : ∀ u u' us, r.streams.lookup u = some us → r.streams.lookup u' = some us → u = u')
    (hone : ∀ us, t = .deleting us → ∀ j ≠ i, c.loc j ≠ .deleting us) :
    Orderly user (stepAt (streamStep user) c i) := by
  have hshd : (stepAt (streamStep user) c i).shared = r := by rw [stepAt_shared, hstep]
  have hloc : ∀ j, (stepAt (streamStep user) c i).loc j = if j = i then t else c.loc j := by
    intro j
    by_cases hj : j = i
    · subst hj
      simp [hstep]
    · simp [hj]
  refine ⟨fun j => ?_, hshd ▸ hold, hshd ▸ hdist, fun j k us hj hk => ?_⟩
  · rw [hshd, hloc]
    split_ifs with hj
    · exact hj ▸ hself
    · exact hoth j hj
  · rw [hloc] at hj hk
    split_ifs at hj hk with hji hki hki
    · rw [hji, hki]
    · exact absurd hk (hone us hj k hki)
    · exact absurd hj (hone us hk j hji)
    · exact h.single j k us hj hk

/-- A step that leaves the map as it is. -/
lemma orderly_stepAt_of_lists
    (hstep : streamStep user i c.shared (c.loc i) = (r, t)) (hself : Listed user r i t)
    (hoth : ∀ j ≠ i, Listed user r j (c.loc j)) (hstreams : r.streams = c.shared.streams)
    (hfr : r.fresh = c.shared.fresh)
    (hone : ∀ us, t = .deleting us → ∀ j ≠ i, c.loc j ≠ .deleting us) :
    Orderly user (stepAt (streamStep user) c i) := by
  refine orderly_stepAt h hstep hself hoth ?_ ?_ hone
  · rw [hstreams, hfr]
    exact h.old
  · rw [hstreams]
    exact h.distinct

omit [DecidableEq ι] in
/-- Edits of an unlocked list that keep the other streams. -/
lemma Orderly.listed_of_edit {l : List ι} {b : Bool}
    (hus : c.shared.locked us = false) (hl : ∀ j ≠ i, j ∈ c.shared.lists us → j ∈ l) :
    ∀ j ≠ i, Listed user { c.shared with
      lists := update c.shared.lists us l
      locked := update c.shared.locked us b } j (c.loc j) := by
  intro j hj
  refine (h.listed j).mono rfl ?_ ?_
  · intro us' _ hmem
    by_cases hus' : us' = us
    · subst hus'
      simpa using hl j hj hmem
    · simpa [update_of_ne hus'] using hmem
  · intro us' hdeleting _ hemp hlo
    have hne := h.ne_of_unlocked hus hdeleting
    simp only [update_of_ne hne]
    exact ⟨hemp, hlo⟩

lemma Orderly.new (hi : c.loc i = .new) : Orderly user (stepAt (streamStep user) c i) := by
  cases hlk : c.shared.streams.lookup (user i) with
  | some us =>
    have hstep : streamStep user i c.shared (c.loc i) = (c.shared, .loaded us) := by
      rw [hi, streamStep, hlk]
    exact orderly_stepAt_of_lists h hstep hlk (fun j _ => h.listed j) rfl rfl (by simp)
  | none =>
    have hstep : streamStep user i c.shared (c.loc i) = ({ c.shared with
          streams := c.shared.streams.insert (user i) c.shared.fresh
          lists := update c.shared.lists c.shared.fresh []
          locked := update c.shared.locked c.shared.fresh false
          fresh := c.shared.fresh + 1 }, .loaded c.shared.fresh) := by
      rw [hi, streamStep, hlk]
    have hent : ∀ u, (c.shared.streams.insert (user i) c.shared.fresh).lookup u
        = if u = user i then some c.shared.fresh else c.shared.streams.lookup u := by
      intro u
      split_ifs with hu
      · rw [hu, lookup_insert]
      · exact lookup_insert_ne hu
    refine orderly_stepAt h hstep ?_ ?_ ?_ ?_ (by simp)
    · show (c.shared.streams.insert (user i) c.shared.fresh).lookup (user i) = _
      rw [hent, if_pos rfl]
    · intro j hj
      by_cases hu : user j = user i
      · -- Nothing is known about the streams of a user without an entry.
        have hnothing : c.loc j = .new ∨ c.loc j = .closed := by
          by_contra hn
          rw [not_or] at hn
          obtain ⟨us, hus⟩ := (h.listed j).lookup_ne_none hn.1 hn.2
          rw [hu, hlk] at hus
          cases hus
        rcases hnothing with hw | hcl
        · rw [hw]
          trivial
        · rw [hcl]
          trivial
      · refine (h.listed j).mono ?_ ?_ ?_
        · show (c.shared.streams.insert (user i) c.shared.fresh).lookup (user j) = _
          rw [hent, if_neg hu]
        · intro us hus hmem
          have hne : us ≠ c.shared.fresh := Nat.ne_of_lt (h.old _ us hus)
          simpa [update_of_ne hne] using hmem
        · intro us _ hus hemp hlo
          have hne : us ≠ c.shared.fresh := Nat.ne_of_lt (h.old _ us hus)
          simp only [update_of_ne hne]
          exact ⟨hemp, hlo⟩
    · intro u us hus
      have hus' := (hent u).symm.trans hus
      split_ifs at hus' with hu
      · cases hus'
        exact Nat.lt_succ_self _
      · exact Nat.lt_succ_of_lt (h.old u us hus')
    · intro u u' us hus hus'
      have hus₁ := (hent u).symm.trans hus
      have hus₂ := (hent u').symm.trans hus'
      split_ifs at hus₁ hus₂ with hu hu' hu'
      · rw [hu, hu']
      · cases hus₁
        exact absurd (h.old u' _ hus₂) (lt_irrefl _)
      · cases hus₂
        exact absurd (h.old u _ hus₁) (lt_irrefl _)
      · exact h.distinct u u' us hus₁ hus₂

lemma Orderly.loaded (hi : c.loc i = .loaded us) : Orderly user (stepAt (streamStep user) c i) := by
  have hlst := h.listed i
  rw [hi] at hlst
  cases hlo : c.shared.locked us with
  | true =>
    have hstep : streamStep user i c.shared (c.loc i) = (c.shared, .loaded us) := by
      rw [hi, streamStep, if_pos hlo]
    exact orderly_stepAt_of_lists h hstep hlst (fun j _ => h.listed j) rfl rfl (by simp)
  | false =>
    have hstep : streamStep user i c.shared (c.loc i) = ({ c.shared with
          lists := update c.shared.lists us (c.shared.lists us ++ [i])
          locked := update c.shared.locked us false }, .opened) := by
      rw [hi, streamStep, if_neg (by simp [hlo]), ← hlo, update_eq_self]
    refine orderly_stepAt_of_lists h hstep ⟨us, hlst, by simp⟩ ?_ rfl rfl (by simp)
    exact h.listed_of_edit hlo fun j _ hmem => List.mem_append_left _ hmem

lemma Orderly.found (hi : c.loc i = .found us) : Orderly user (stepAt (streamStep user) c i) := by
  have hlst := h.listed i
  rw [hi] at hlst
  cases hlo : c.shared.locked us with
  | true =>
    have hstep : streamStep user i c.shared (c.loc i) = (c.shared, .found us) := by
      rw [hi, streamStep, if_pos hlo]
    exact orderly_stepAt_of_lists h hstep hlst (fun j _ => h.listed j) rfl rfl (by simp)
  | false =>
    by_cases hl : (c.shared.lists us).erase i = []
    · have hstep : streamStep user i c.shared (c.loc i) = ({ c.shared with
            lists := update c.shared.lists us []
            locked := update c.shared.locked us true }, .deleting us) := by
        rw [hi, streamStep, if_neg (by simp [hlo]), if_pos hl]
      refine orderly_stepAt_of_lists h hstep ⟨hlst.1, by simp, by simp⟩ ?_ rfl rfl ?_
      · refine h.listed_of_edit hlo fun j hj hmem => ?_
        rw [← hl]
        exact (List.mem_erase_of_ne hj).mpr hmem
      · rintro _ ⟨⟩ j - hj
        exact h.ne_of_unlocked hlo hj rfl
    · have hstep : streamStep user i c.shared (c.loc i) = ({ c.shared with
            lists := update c.shared.lists us ((c.shared.lists us).erase i)
            locked := update c.shared.locked us false }, .closed) := by
        rw [hi, streamStep, if_neg (by simp [hlo]), if_neg hl, ← hlo, update_eq_self]
      refine orderly_stepAt_of_lists h hstep trivial ?_ rfl rfl (by simp)
      exact h.listed_of_edit hlo fun j hj hmem => (List.mem_erase_of_ne hj).mpr hmem

/-- The entry is deleted: nothing may be known about the other streams of the user. -/
lemma Orderly.deleting (hi : c.loc i = .deleting us)
    (hquiet : QuietDelete user i c) : Orderly user (stepAt (streamStep user) c i) := by
  have hlst := h.listed i
  rw [hi] at hlst
  have hstep : streamStep user i c.shared (c.loc i) = ({ c.shared with
      streams := c.shared.streams.erase (user i)
      locked := update c.shared.locked us false }, .closed) := by
    rw [hi, streamStep]
  have hent : ∀ u us', (c.shared.streams.erase (user i)).lookup u = some us' →
      c.shared.streams.lookup u = some us' := by
    intro u us' hus'
    by_cases hu : u = user i
    · rw [hu, lookup_erase] at hus'
      cases hus'
    · rwa [lookup_erase_ne hu] at hus'
  refine orderly_stepAt h hstep trivial ?_ ?_ ?_ (by simp)
  · intro j hj
    by_cases hu : user j = user i
    · have hoth := h.listed j
      have hus : ∀ us', c.shared.streams.lookup (user j) = some us' → us' = us := by
        intro us' hus'
        rw [hu, hlst.1] at hus'
        exact (Option.some.inj hus').symm
      cases hloc : c.loc j with
      | new | closed => trivial
      | loaded us' => exact absurd hu (hquiet us hi j us' hloc)
      | opened | closing =>
        rw [hloc] at hoth
        obtain ⟨us', hus', hmem⟩ := hoth
        rw [hus us' hus', hlst.2.1] at hmem
        cases hmem
      | found us' =>
        rw [hloc] at hoth
        have hmem := hoth.2
        rw [hus us' hoth.1, hlst.2.1] at hmem
        cases hmem
      | deleting us' =>
        rw [hloc] at hoth
        rw [hus us' hoth.1] at hloc
        exact absurd (h.single j i us hloc hi) hj
    · refine (h.listed j).mono (lookup_erase_ne hu) (fun _ _ hmem => hmem) ?_
      intro us' hdeleting hus' hemp hlo
      have hne : us' ≠ us := by
        rintro rfl
        exact hu (h.distinct _ _ us' hus' hlst.1)
      simp only [update_of_ne hne]
      exact ⟨hemp, hlo⟩
  · exact fun u us' hus' => h.old u us' (hent u us' hus')
  · exact fun u u' us' hus' hus'' => h.distinct u u' us' (hent u us' hus') (hent u' us' hus'')

/-- **One step keeps the streams in order, if it is not a delete that a `Subscribe` waits for.** -/
lemma Orderly.step (hquiet : QuietDelete user i c) :
    Orderly user (stepAt (streamStep user) c i) := by
  have hlst := h.listed i
  cases hi : c.loc i with
  | new => exact h.new hi
  | loaded => exact h.loaded hi
  | opened =>
    rw [hi] at hlst
    have hstep : streamStep user i c.shared (c.loc i) = (c.shared, .closing) := by
      rw [hi, streamStep]
    exact orderly_stepAt_of_lists h hstep hlst (fun j _ => h.listed j) rfl rfl (by simp)
  | closing =>
    rw [hi] at hlst
    obtain ⟨us, hus, hmem⟩ := hlst
    have hstep : streamStep user i c.shared (c.loc i) = (c.shared, .found us) := by
      rw [hi, streamStep, hus]
    exact orderly_stepAt_of_lists h hstep ⟨hus, hmem⟩ (fun j _ => h.listed j) rfl rfl (by simp)
  | found => exact h.found hi
  | deleting => exact h.deleting hi hquiet
  | closed =>
    have hstep : streamStep user i c.shared (c.loc i) = (c.shared, .closed) := by
      rw [hi, streamStep]
    exact orderly_stepAt_of_lists h hstep trivial (fun j _ => h.listed j) rfl rfl (by simp)

end

omit [DecidableEq ι] in
lemma orderly_start : Orderly user (streamsStart : Config ι (Registry ι) StreamTask) :=
  ⟨fun _ => trivial, fun _ _ h => (by cases h), fun _ _ _ h => (by cases h),
    fun _ _ _ h => (by cases h)⟩

/-- After a delete that a `Subscribe` waits for, that `Subscribe` opens a stream that the map does
not lead to. -/
lemma Orderly.unreachable (h : Orderly user c) (hloud : ¬ QuietDelete user i c) :
    ∃ j, ¬ Reachable user (run (streamStep user) [i, j] c) := by
  simp only [QuietDelete] at hloud
  push Not at hloud
  obtain ⟨us, hi, j, us', hj, hu⟩ := hloud
  have hlst := h.listed i
  rw [hi] at hlst
  have hlst' := h.listed j
  rw [hj] at hlst'
  have hus : us' = us := by
    have hlk : c.shared.streams.lookup (user j) = some us' := hlst'
    rw [hu, hlst.1] at hlk
    exact (Option.some.inj hlk).symm
  subst hus
  have hne : j ≠ i := ne_of_apply_ne c.loc (by simp [hi, hj])
  refine ⟨j, fun hreachable => ?_⟩
  -- The entry is gone, the lock is free, and the stream is appended to the list that was dropped.
  let c₁ := stepAt (streamStep user) c i
  have hshd : c₁.shared = { c.shared with
      streams := c.shared.streams.erase (user i)
      locked := update c.shared.locked us' false } := by
    show (streamStep user i c.shared (c.loc i)).1 = _
    rw [hi, streamStep]
  have hj₁ : c₁.loc j = .loaded us' := (stepAt_loc_of_ne hne).trans hj
  have hstep : streamStep user j c₁.shared (c₁.loc j) = ({ c₁.shared with
            lists := update c₁.shared.lists us' (c₁.shared.lists us' ++ [j]) }, .opened) := by
    rw [hj₁, streamStep, if_neg (by rw [hshd]; simp)]
  obtain ⟨us, hlk, -⟩ := hreachable j (by
    show (stepAt (streamStep user) c₁ j).loc j = .opened
    rw [stepAt_loc_self, hstep])
  have hgn : (stepAt (streamStep user) c₁ j).shared.streams.lookup (user j) = none := by
    rw [stepAt_shared, hstep]
    rw [hshd, hu]
    exact lookup_erase _ _
  rw [show (run (streamStep user) [i, j] c).shared = (stepAt (streamStep user) c₁ j).shared
    from rfl, hgn] at hlk
  cases hlk

end Runs

/-- **Open streams stay reachable as long as all deletes are quiet.**  In every such run every open
stream is in the list under its user, in every state.  In every other run, the first delete that is
not, and one further step of the `Subscribe` it disturbs, lead to an open stream that is not. -/
theorem open_streams_reachable [DecidableEq ι] (user : ι → String) (schedule : List ι) :
    (Along (streamStep user) (QuietDelete user) schedule streamsStart →
      Always (streamStep user) (Reachable user) schedule streamsStart)
    ∧ (¬ Along (streamStep user) (QuietDelete user) schedule streamsStart →
      ∃ before i after j, schedule = before ++ i :: after
        ∧ ¬ Reachable user (run (streamStep user) (before ++ [i, j]) streamsStart)) := by
  have hstep : ∀ (c : Config ι (Registry ι) StreamTask) (i : ι), Orderly user c →
      QuietDelete user i c → Orderly user (stepAt (streamStep user) c i) :=
    fun c i h hquiet => h.step hquiet
  refine ⟨fun hquiet => ?_, fun hloud => ?_⟩
  · exact (along_always hstep orderly_start hquiet).imp fun c h => h.reachable
  · obtain ⟨before, i, after, rfl, hi, hbef⟩ := exists_of_not_along hloud
    obtain ⟨j, hj⟩ := (along_induction hstep orderly_start hbef).unreachable hi
    refine ⟨before, i, after, j, rfl, ?_⟩
    rw [run_append]
    exact hj

/-- The second stream is opened after the first one has been closed and its list deleted. -/
theorem open_streams_reachable_in_turn :
    Always (streamStep fun _ : Fin 2 => "bob") (Reachable fun _ => "bob")
      [0, 0, 0, 0, 0, 0, 1, 1] streamsStart := by
  refine (open_streams_reachable (fun _ : Fin 2 => "bob") [0, 0, 0, 0, 0, 0, 1, 1]).1 ?_
  decide

/-- Two streams of the same user: the second `Subscribe` takes the list, the first stream is closed
and its list deleted, and the second stream ends up in the list that nobody finds. -/
theorem open_stream_lost : ¬ Reachable (fun _ : Fin 2 => "bob")
      (run (streamStep fun _ => "bob") [0, 0, 1, 0, 0, 0, 0, 1] streamsStart) := by
  intro h
  obtain ⟨us, hlk, -⟩ := h 1 (by decide)
  cases hlk

end Mailbox.Notify
