import Mathlib.Data.Fintype.Basic
import Mailbox.Service.CleanupReleases

/-!
# Enforcing quotas

`enforceUserQuota` of `quota_enforce.go`, with an attachment manager: while the user is over their
quota, fetch the oldest messages and, for each of them, release its attachments and *then* delete
it.  Any number of enforcement runs for one user go on at the same time, or one after the other.
The atomic steps are the count, a page, the release of one reference, and one `HardDelete`.

The policy, the results of queries, which deletes fail, and when a context is cancelled are a
parameter (`Surroundings`).

A reference is released on behalf of a message before anybody knows whether the delete will succeed,
and whether the message is still there at all.  **`quota_releases_once_iff`** says when this goes
well.
-/

namespace Mailbox.Service

open Memory Pool List Function Table

/-! ## The steps of a run -/

/-- `QuotaPolicy`, with the age that messages must have to be deleted. -/
structure EnforcedPolicy extends QuotaPolicy where
  deleteOlderThan : ℤ

/-- What the runs find outside of themselves; numbers count the steps of a run. -/
structure Surroundings (ι : Type) where
  userID : String
  getQuota : ι → Except Error (Option EnforcedPolicy)
  now : ι → Time
  count : ι → List Filter → Messages → Except Error ℤ
  find : ι → ℕ → Finder
  /-- The failures of `HardDelete`. -/
  hardDeleteFault : ι → ℕ → Option Error
  ctxErr : ι → ℕ → Option Error

/-- The variables of the loop. -/
structure Progress where
  filters : List Filter
  excess : ℤ
  deleted : ℕ
  /-- How many messages of the current page have been deleted. -/
  progress : ℕ

inductive EnforcePhase where
  | start
  /-- about to fetch a page -/
  | query (p : Progress)
  /-- between two messages of a page -/
  | page (p : Progress) (msgs : List Message)
  /-- at a message, with the references still to release before it is deleted -/
  | message (p : Progress) (msg : Message) (refs : List String) (msgs : List Message)
  | returned (deleted : ℕ) (err : Option Error)

structure Enforcer where
  phase : EnforcePhase
  ticks : ℕ

def quotaDeleteBatchSize : ℤ := 500

variable {ι : Type} (env : Surroundings ι)

/-- From the policy to the excess: what is to be deleted, or the end of the call. -/
def beginEnforcement (i : ι) (messages : Messages) : EnforcePhase :=
  match env.getQuota i with
  | .error e => .returned 0 (some (.wrap "get quota" e))
  | .ok none => .returned 0 none
  | .ok (some policy) =>
    if policy.maxMessages ≤ 0 then .returned 0 none
    else if policy.exceedAction ≠ .deleteOldest then .returned 0 none
    else if policy.deleteOlderThan ≤ 0 then .returned 0 none
    else
      match env.count i [ownerIs env.userID] messages with
      | .error e => .returned 0 (some (.wrap "count messages" e))
      | .ok count =>
        let excess := count - policy.maxMessages
        if excess ≤ 0 then .returned 0 none
        else
          let cutoff := env.now i - policy.deleteOlderThan
          let createdBefore := ((messageFilter "CreatedAt").lessThan (.utc cutoff)).1
          .query ⟨[ownerIs env.userID, createdBefore], excess, 0, 0⟩

/-- The head of the loop: the next page, or the end of the call. -/
def fetchPage (i : ι) (ticks : ℕ) (p : Progress) (messages : Messages) : EnforcePhase :=
  match env.ctxErr i ticks with
  | some e => .returned p.deleted (some e)
  | none =>
    let remaining := p.excess - p.deleted
    if remaining ≤ 0 then .returned p.deleted none
    else
      let limit := if remaining < quotaDeleteBatchSize then remaining else quotaDeleteBatchSize
      match env.find i ticks p.filters
          { limit := limit, sortBy := "created_at", sortOrder := .asc } messages with
      | .error e => .returned p.deleted (some (.wrap "find old messages" e))
      | .ok list =>
        if list.messages.length = 0 then .returned p.deleted none
        else .page { p with progress := 0 } list.messages

def enforcerPhase (i : ι) (ticks : ℕ) (s : Depot) : EnforcePhase → Depot × EnforcePhase
  | .start => (s, beginEnforcement env i s.messages)
  | .query p => (s, fetchPage env i ticks p s.messages)
  -- A page without a single success ends the loop.
  | .page p [] => (s, if p.progress = 0 then .returned p.deleted none else .query p)
  | .page p (msg :: msgs) =>
    match env.ctxErr i ticks with
    | some e => (s, .returned p.deleted (some e))
    | none => (s, .message p msg (attachmentIDs msg) msgs)
  | .message p msg (a :: refs) msgs =>
    ({ s with released := s.released ++ [(msg.id, a)] }, .message p msg refs msgs)
  | .message p msg [] msgs =>
    match env.hardDeleteFault i ticks with
    | some _ => (s, .page p msgs)
    | none =>
      match Store.hardDelete msg.id (.of s.messages) with
      | (.error _, _) => (s, .page p msgs)
      | (.ok _, store) =>
        ({ s with messages := store.messages },
          .page { p with deleted := p.deleted + 1, progress := p.progress + 1 } msgs)
  | .returned deleted err => (s, .returned deleted err)

def enforcerStep (i : ι) (s : Depot) (w : Enforcer) : Depot × Enforcer :=
  ((enforcerPhase env i w.ticks s w.phase).1,
    ⟨(enforcerPhase env i w.ticks s w.phase).2, w.ticks + 1⟩)

def allEnforcers (messages : Messages) : Config ι Depot Enforcer where
  shared := ⟨messages, []⟩
  loc _ := ⟨.start, 0⟩

def Enforcer.Returned (w : Enforcer) : Prop :=
  match w.phase with
  | .returned _ _ => True
  | _ => False

instance (w : Enforcer) : Decidable w.Returned :=
  match w with
  | ⟨.returned _ _, _⟩ => isTrue trivial
  | ⟨.start, _⟩ | ⟨.query _, _⟩ | ⟨.page _ _, _⟩ | ⟨.message _ _ _ _, _⟩ => isFalse id

/-! ## What a step does -/

namespace EnforcePhase

/-- The message that a run is at, and the references it has still to release for it. -/
def hand : EnforcePhase → Option (Message × List String)
  | .message _ msg refs _ => some (msg, refs)
  | _ => none

/-- The messages that a run has read and not got to yet. -/
def ahead : EnforcePhase → List Message
  | .page _ msgs => msgs
  | .message _ _ _ msgs => msgs
  | _ => []

/-- The run is at the message with the given ID. -/
def Holds (phase : EnforcePhase) (id : String) : Prop := ∃ msg refs,
  phase.hand = some (msg, refs) ∧ msg.id = id

instance (phase : EnforcePhase) (id : String) : Decidable (phase.Holds id) :=
  match phase with
  | .message _ msg refs _ =>
    decidable_of_iff (msg.id = id) ⟨fun h => ⟨msg, refs, rfl, h⟩, fun ⟨_, _, h, hid⟩ => by
      cases h
      exact hid⟩
  | .start | .query _ | .page _ _ | .returned _ _ => isFalse fun ⟨_, _, h, _⟩ => by cases h

lemma not_holds {phase : EnforcePhase} (h : phase.hand = none) (id : String) :
    ¬ phase.Holds id := by
  rintro ⟨_, _, hhd, _⟩
  rw [h] at hhd
  cases hhd

end EnforcePhase

open EnforcePhase

lemma Enforcer.Returned.hand {w : Enforcer} (h : w.Returned) : w.phase.hand = none := by
  rw [Enforcer.Returned] at h
  split at h
  · rename_i heq
    rw [heq]
    rfl
  · cases h

section Cases

variable {env} {i : ι} {ticks : ℕ} {s : Depot}

variable (env) in
lemma beginEnforcement_quiet (i : ι) (messages : Messages) :
    (beginEnforcement env i messages).hand = none
      ∧ (beginEnforcement env i messages).ahead = [] := by
  rw [beginEnforcement]
  split
  · exact ⟨rfl, rfl⟩
  · exact ⟨rfl, rfl⟩
  · split_ifs
    · exact ⟨rfl, rfl⟩
    · exact ⟨rfl, rfl⟩
    · exact ⟨rfl, rfl⟩
    · split
      · exact ⟨rfl, rfl⟩
      · simp only
        split_ifs <;> exact ⟨rfl, rfl⟩

variable (env) in
lemma fetchPage_quiet (i : ι) (ticks : ℕ) (p : Progress) (messages : Messages) :
    (fetchPage env i ticks p messages).hand = none
      ∧ ((fetchPage env i ticks p messages).ahead = [] ∨ ∃ filters opts list,
        env.find i ticks filters opts messages = .ok list
          ∧ (fetchPage env i ticks p messages).ahead = list.messages) := by
  rw [fetchPage]
  split
  · exact ⟨rfl, .inl rfl⟩
  · simp only
    split_ifs
    · exact ⟨rfl, .inl rfl⟩
    all_goals
      split
      · exact ⟨rfl, .inl rfl⟩
      · split_ifs
        · exact ⟨rfl, .inl rfl⟩
        · exact ⟨rfl, .inr ⟨_, _, _, ‹_›, rfl⟩⟩

variable (env i ticks s) in
/-- The steps of a run, by what they do. -/
inductive EnforceMove (phase : EnforcePhase) : Depot → EnforcePhase → Prop where
  /-- It reads, or returns. -/
  | quiet (phase' : EnforcePhase) (hhand : phase.hand = none) (hhand' : phase'.hand = none)
      (hahead : ∀ m ∈ phase'.ahead, m ∈ phase.ahead ∨ ∃ filters opts list,
        env.find i ticks filters opts s.messages = .ok list ∧ m ∈ list.messages) :
      EnforceMove phase s phase'
  /-- It gets to a message. -/
  | start (p : Progress) (msg : Message) (msgs : List Message)
      (hphase : phase = .page p (msg :: msgs))
      (hctx : env.ctxErr i ticks = none) :
      EnforceMove phase s (.message p msg (attachmentIDs msg) msgs)
  | release (p : Progress) (msg : Message) (a : String) (refs : List String) (msgs : List Message)
      (hphase : phase = .message p msg (a :: refs) msgs) :
      EnforceMove phase { s with released := s.released ++ [(msg.id, a)] }
        (.message p msg refs msgs)
  | delete (p p' : Progress) (msg m : Message) (msgs : List Message)
      (hphase : phase = .message p msg [] msgs) (hload : s.messages.load msg.id = some m) :
      EnforceMove phase { s with messages := s.messages.delete msg.id } (.page p' msgs)
  /-- The delete fails. -/
  | fail (p : Progress) (msg : Message) (msgs : List Message)
      (hphase : phase = .message p msg [] msgs)
      (hreason : env.hardDeleteFault i ticks ≠ none ∨ msg.id = "" ∨ s.messages.load msg.id = none
        ∨ ∃ m, s.messages.load msg.id = some m ∧ m.isDraft = true) :
      EnforceMove phase s (.page p msgs)

variable (env i ticks s) in
lemma enforceMove (phase : EnforcePhase) :
    EnforceMove env i ticks s phase (enforcerPhase env i ticks s phase).1
      (enforcerPhase env i ticks s phase).2 := by
  cases phase with
  | start =>
    obtain ⟨hhd, hahead⟩ := beginEnforcement_quiet env i s.messages
    refine .quiet _ rfl hhd fun m hm => ?_
    have hnil : m ∈ (beginEnforcement env i s.messages).ahead := hm
    rw [hahead] at hnil
    cases hnil
  | query p =>
    obtain ⟨hhd, hahead⟩ := fetchPage_quiet env i ticks p s.messages
    refine .quiet _ rfl hhd fun m hm => ?_
    have hmem : m ∈ (fetchPage env i ticks p s.messages).ahead := hm
    rcases hahead with hnil | ⟨filters, opts, list, hls, hpg⟩
    · rw [hnil] at hmem
      cases hmem
    · rw [hpg] at hmem
      exact .inr ⟨filters, opts, list, hls, hmem⟩
  | page p msgs =>
    cases msgs with
    | nil =>
      simp only [enforcerPhase]
      split_ifs <;> exact .quiet _ rfl rfl fun m hm => by cases hm
    | cons msg msgs =>
      simp only [enforcerPhase]
      split
      · exact .quiet _ rfl rfl fun m hm => by cases hm
      · exact .start p msg msgs rfl ‹_›
  | message p msg refs msgs =>
    cases refs with
    | cons a refs => exact .release p msg a refs msgs rfl
    | nil =>
      simp only [enforcerPhase]
      cases hflt : env.hardDeleteFault i ticks with
      | some e =>
        exact .fail p msg msgs rfl (.inl (by rw [hflt]; exact Option.some_ne_none e))
      | none =>
        simp only [Store.hardDelete]
        by_cases hid : msg.id = ""
        · rw [if_pos hid]
          exact .fail p msg msgs rfl (.inr (.inl hid))
        · rw [if_neg hid]
          cases hld : s.messages.load msg.id with
          | none => exact .fail p msg msgs rfl (.inr (.inr (.inl hld)))
          | some m =>
            cases hdr : m.isDraft with
            | true =>
              simp only [hdr, if_true]
              exact .fail p msg msgs rfl (.inr (.inr (.inr ⟨m, hld, hdr⟩)))
            | false =>
              simp only [hdr, Bool.false_eq_true, if_false]
              exact .delete p _ msg m msgs rfl hld
  | returned => exact .quiet _ rfl rfl fun m hm => by cases hm

end Cases

/-! ## What holds in every run -/

/-- Queries return stored messages that are no drafts. -/
def Finder.Proper (find : Finder) : Prop :=
  ∀ filters opts t list, find filters opts t = .ok list →
    ∀ m ∈ list.messages, m ∈ t.all ∧ m.isDraft = false

lemma proper_memoryFinder (now : Time) {range : Range}
    (hrg : ∀ l, (range l).Perm l) : (memoryFinder now range).Proper := by
  intro filters opts t list h m hm
  rw [memoryFinder] at h
  split at h
  · cases h
  · cases h
    obtain ⟨hmem, hsel⟩ := mem_find hrg ‹_› hm
    refine ⟨hmem, ?_⟩
    rw [selects, Bool.and_eq_true, Bool.and_eq_true, Bool.not_eq_true'] at hsel
    exact hsel.1.1

/-- How often a reference of a message has been released. -/
def Depot.count (s : Depot) (m : Message) (a : String) : ℕ := s.released.count (m.id, a)

/-- How often a run has still to release it. -/
def EnforcePhase.pending (phase : EnforcePhase) (m : Message) (a : String) : ℕ :=
  match phase.hand with
  | none => 0
  | some (msg, refs) => if msg.id = m.id then refs.count a else 0

lemma count_released (s : Depot) (msg m : Message) (a b : String) :
    Depot.count { s with released := s.released ++ [(msg.id, a)] } m b
      = s.count m b + if msg.id = m.id then [a].count b else 0 := by
  rw [Depot.count, Depot.count, count_append]
  congr 1
  by_cases hid : msg.id = m.id
  · rw [if_pos hid, hid]
    simp [count_singleton]
  · rw [if_neg hid, count_eq_zero]
    simp [Ne.symm hid]

variable {ticks : ℕ} {s s' : Depot} {phase phase' : EnforcePhase}

section Moves

variable {env} {i : ι}

section

variable (h : EnforceMove env i ticks s phase s' phase')

include h

/-- Releases are not taken back, and what a run has still to release it releases. -/
lemma EnforceMove.count_le (m : Message) (a : String) : s.count m a ≤ s'.count m a
      ∧ s.count m a + phase.pending m a ≤ s'.count m a + phase'.pending m a := by
  cases h with
  | quiet phase' hhd =>
    refine ⟨le_rfl, ?_⟩
    rw [pending, hhd]
    exact Nat.le_add_right _ _
  | start p msg msgs hph =>
    refine ⟨le_rfl, ?_⟩
    rw [hph]
    exact Nat.le_add_right _ _
  | release p msg b refs msgs hph =>
    rw [count_released, hph]
    refine ⟨Nat.le_add_right _ _, ?_⟩
    show s.count m a + (if msg.id = m.id then (b :: refs).count a else 0)
      ≤ s.count m a + _ + if msg.id = m.id then refs.count a else 0
    split_ifs
    · rw [← singleton_append, count_append]
      omega
    · omega
  | delete p p' msg m' msgs hph | fail p msg msgs hph =>
    refine ⟨le_rfl, ?_⟩
    rw [hph]
    show s.count m a + (if msg.id = m.id then ([] : List String).count a else 0) ≤ s.count m a + 0
    simp

lemma EnforceMove.other {m : Message} (hn : ¬ phase.Holds m.id) :
    (∀ a, s'.count m a = s.count m a) ∧ s'.messages.load m.id = s.messages.load m.id := by
  cases h with
  | release p msg b refs msgs hph =>
    have hid : msg.id ≠ m.id := fun hid => hn ⟨msg, b :: refs, by rw [hph]; rfl, hid⟩
    exact ⟨fun a => by rw [count_released, if_neg hid, Nat.add_zero], rfl⟩
  | delete p p' msg m' msgs hph =>
    have hid : msg.id ≠ m.id := fun hid => hn ⟨msg, [], by rw [hph]; rfl, hid⟩
    exact ⟨fun a => rfl, load_delete_of_ne (hid.symm)⟩
  | _ => exact ⟨fun a => rfl, rfl⟩

lemma EnforceMove.taken {id : String} (hn : ¬ phase.Holds id) (hholds : phase'.Holds id) :
    ∃ p msg msgs, phase = .page p (msg :: msgs) ∧ env.ctxErr i ticks = none ∧ msg.id = id
      ∧ phase'.hand = some (msg, attachmentIDs msg) := by
  cases h with
  | quiet phase' hhd hhd' => exact absurd hholds (not_holds hhd' id)
  | start p msg msgs hph hctx =>
    obtain ⟨_, _, ⟨⟩, hid⟩ := hholds
    exact ⟨p, msg, msgs, hph, hctx, hid, rfl⟩
  | release p msg b refs msgs hph =>
    obtain ⟨_, _, ⟨⟩, hid⟩ := hholds
    exact absurd ⟨msg, b :: refs, by rw [hph]; rfl, hid⟩ hn
  | delete | fail => exact absurd hholds (not_holds rfl id)

end

end Moves

/-- What is known of the messages a run deals with. -/
structure PhaseInv (t : Messages) (s : Depot) (phase : EnforcePhase) : Prop where
  ahead : ∀ m ∈ phase.ahead, m ∈ t.all ∧ m.isDraft = false
  hand : ∀ msg refs, phase.hand = some (msg, refs) → msg ∈ t.all ∧ msg.isDraft = false
    ∧ (∀ a ∈ refs, a ∈ attachmentIDs msg)
    ∧ ∀ a, (attachmentIDs msg).count a ≤ s.count msg a + refs.count a

/-- What holds in every run over the messages of `t`: the references of a message that is gone have
been released, and those of a message that a run is at have been released or are in its hands. -/
structure EnforceInv (t : Messages) (c : Config ι Depot Enforcer) : Prop where
  stored : ∀ m ∈ c.shared.messages.all, m ∈ t.all
  gone : ∀ m ∈ t.all, c.shared.messages.load m.id = none →
    ∀ a, (attachmentIDs m).count a ≤ c.shared.count m a
  listed : ∀ m ∈ t.all, ∀ a, a ∉ attachmentIDs m → c.shared.count m a = 0
  phases : ∀ i, PhaseInv t c.shared (c.loc i).phase

section Inv

variable {env} {t : Messages} {i : ι}

lemma PhaseInv.mono (h : PhaseInv t s phase) (hle : ∀ m a, s.count m a ≤ s'.count m a) :
    PhaseInv t s' phase where
  ahead := h.ahead
  hand msg refs hhd := by
    obtain ⟨hmem, hdr, hrf, hcnt⟩ := h.hand msg refs hhd
    exact ⟨hmem, hdr, hrf, fun a => (hcnt a).trans (Nat.add_le_add_right (hle msg a) _)⟩

lemma PhaseInv.move (h : PhaseInv t s phase) (hfd : (env.find i ticks).Proper)
    (hst : ∀ m ∈ s.messages.all, m ∈ t.all)
    (hmv : EnforceMove env i ticks s phase s' phase') : PhaseInv t s' phase' := by
  cases hmv with
  | quiet phase' hhd hhd' hahead =>
    refine ⟨fun m hm => ?_, fun msg refs hmsg => ?_⟩
    · rcases hahead m hm with hm | ⟨filters, opts, list, hls, hm⟩
      · exact h.ahead m hm
      · obtain ⟨hmem, hdr⟩ := hfd _ _ _ _ hls m hm
        exact ⟨hst m hmem, hdr⟩
    · rw [hhd'] at hmsg
      cases hmsg
  | start p msg msgs hph =>
    rw [hph] at h
    refine ⟨fun m hm => h.ahead m (mem_cons_of_mem _ hm), ?_⟩
    rintro _ _ ⟨⟩
    obtain ⟨hmem, hdr⟩ := h.ahead msg mem_cons_self
    exact ⟨hmem, hdr, fun a ha => ha, fun a => Nat.le_add_left _ _⟩
  | release p msg b refs msgs hph =>
    rw [hph] at h
    refine ⟨h.ahead, ?_⟩
    rintro _ _ ⟨⟩
    obtain ⟨hmem, hdr, hrf, hcnt⟩ := h.hand msg (b :: refs) rfl
    refine ⟨hmem, hdr, fun a ha => hrf a (mem_cons_of_mem _ ha), fun a => ?_⟩
    refine (hcnt a).trans ?_
    rw [count_released, if_pos rfl, ← singleton_append, count_append]
    omega
  | delete p p' msg m msgs hph | fail p msg msgs hph =>
    rw [hph] at h
    refine ⟨h.ahead, ?_⟩
    rintro _ _ ⟨⟩

lemma enforceInv_start (t : Messages) :
    EnforceInv t (allEnforcers t : Config ι Depot Enforcer) where
  stored m hm := hm
  gone m hm hgn := by
    rw [show (allEnforcers t : Config ι Depot Enforcer).shared.messages = t from rfl,
      load_of_mem hm] at hgn
    cases hgn
  listed m hm a ha := rfl
  phases i := ⟨fun m hm => by (cases hm), fun msg refs h => by (cases h)⟩

variable [DecidableEq ι]

variable (env) in
lemma stepAt_move (c : Config ι Depot Enforcer) (i : ι) :
    EnforceMove env i (c.loc i).ticks c.shared (c.loc i).phase
      (stepAt (enforcerStep env) c i).shared ((stepAt (enforcerStep env) c i).loc i).phase := by
  rw [stepAt_loc_self]
  exact enforceMove env i _ _ _

lemma enforceInv_step (hfd : ∀ i n, (env.find i n).Proper) (c : Config ι Depot Enforcer) (i : ι)
    (h : EnforceInv t c) : EnforceInv t (stepAt (enforcerStep env) c i) := by
  have hmv := stepAt_move env c i
  have hloc : ∀ j ≠ i, (stepAt (enforcerStep env) c i).loc j = c.loc j := fun _ => stepAt_loc_of_ne
  generalize stepAt (enforcerStep env) c i = c' at *
  have hph := (h.phases i).move (hfd i _) h.stored hmv
  have hle : ∀ m a, c.shared.count m a ≤ c'.shared.count m a := fun m a => (hmv.count_le m a).1
  have hphases : ∀ j, PhaseInv t c'.shared (c'.loc j).phase := by
    intro j
    by_cases hji : j = i
    · rw [hji]
      exact hph
    · rw [hloc j hji]
      exact (h.phases j).mono hle
  have hr : (∀ m ∈ c'.shared.messages.all, m ∈ t.all)
      ∧ ∀ m ∈ t.all, c'.shared.messages.load m.id = none →
        c.shared.messages.load m.id = none ∨ (c.loc i).phase.hand = some (m, []) := by
    generalize c'.shared = s' at hmv
    generalize (c'.loc i).phase = phase' at hmv
    cases hmv with
    | delete p p' msg m' msgs hph =>
      refine ⟨fun m hm => h.stored m (mem_delete.mp hm).1, fun m hm hgn => ?_⟩
      by_cases hid : m.id = msg.id
      · have hmsg := ((h.phases i).hand msg [] (by rw [hph]; rfl)).1
        rw [inj_on_of_nodup_map t.nodup hm hmsg hid, hph]
        exact .inr rfl
      · rw [load_delete_of_ne hid] at hgn
        exact .inl hgn
    | _ => exact ⟨h.stored, fun m _ hgn => .inl hgn⟩
  refine ⟨hr.1, fun m hm hgn a => ?_, fun m hm a ha => ?_, hphases⟩
  · -- A message that has just been deleted has had its references released.
    rcases hr.2 m hm hgn with hgn | hhd
    · exact (h.gone m hm hgn a).trans (hle m a)
    · have hcnt := ((h.phases i).hand m [] hhd).2.2.2 a
      exact hcnt.trans (hle m a)
  · have hlst := h.listed m hm a ha
    generalize c'.shared = s' at hmv ⊢
    generalize (c'.loc i).phase = phase' at hmv
    cases hmv with
    | release p msg b refs msgs hph =>
      obtain ⟨hmsg, _, hrf, _⟩ := (h.phases i).hand msg (b :: refs) (by rw [hph]; rfl)
      rw [count_released, hlst, Nat.zero_add]
      split_ifs with hid
      · obtain rfl : msg = m := inj_on_of_nodup_map t.nodup hmsg hm hid
        refine count_eq_zero.mpr fun hab => ha ?_
        rw [mem_singleton.mp hab]
        exact hrf b mem_cons_self
      · rfl
    | _ => exact hlst

end Inv

/-! ## Orderly runs -/

/-- The condition on a step: a run gets to a message with attachments while it is stored and no
other run is at it, and the delete that follows does not fail. -/
def Orderly (i : ι) (c : Config ι Depot Enforcer) : Prop :=
  match (c.loc i).phase with
  | .page _ (msg :: _) =>
    env.ctxErr i (c.loc i).ticks = none → attachmentIDs msg ≠ [] →
      c.shared.messages.load msg.id ≠ none ∧ ∀ j, ¬ (c.loc j).phase.Holds msg.id
  | .message _ msg [] _ =>
    attachmentIDs msg ≠ [] → env.hardDeleteFault i (c.loc i).ticks = none
  | _ => True

instance [Fintype ι] (i : ι) (c : Config ι Depot Enforcer) : Decidable (Orderly env i c) :=
  match h : (c.loc i).phase with
  | .page _ (msg :: _) =>
    decidable_of_iff (env.ctxErr i (c.loc i).ticks = none → attachmentIDs msg ≠ [] →
      c.shared.messages.load msg.id ≠ none ∧ ∀ j, ¬ (c.loc j).phase.Holds msg.id)
      (by rw [Orderly, h])
  | .message _ msg [] _ =>
    decidable_of_iff (attachmentIDs msg ≠ [] → env.hardDeleteFault i (c.loc i).ticks = none)
      (by rw [Orderly, h])
  | .start | .query _ | .page _ [] | .message _ _ (_ :: _) _ | .returned _ _ =>
    isTrue (by rw [Orderly, h]; trivial)

/-- The ledger of a message in an orderly run: nobody, or one run, is at it. -/
structure OrderlyInv (m : Message) (s : Depot) (phases : ι → EnforcePhase) : Prop where
  alone : ∀ i j, (phases i).Holds m.id → (phases j).Holds m.id → i = j
  held : ∀ i refs, (phases i).hand = some (m, refs) → s.messages.load m.id ≠ none
    ∧ ∀ a, s.count m a + refs.count a = (attachmentIDs m).count a
  free : (∀ i, ¬ (phases i).Holds m.id) → ∀ a,
    s.count m a = if (s.messages.load m.id).isSome then 0 else (attachmentIDs m).count a

variable {refs : List String} {c : Config ι Depot Enforcer} {t : Messages} {m : Message}

section OrderlyRuns

variable {env} [DecidableEq ι] {i : ι} {s : Depot} {phases : ι → EnforcePhase}

/-- A step that has nothing to do with the message. -/
lemma OrderlyInv.other (h : OrderlyInv m s phases) (hn : ¬ (phases i).Holds m.id)
    (hn' : ¬ phase'.Holds m.id) (hcnt : ∀ a, s'.count m a = s.count m a)
    (hld : s'.messages.load m.id = s.messages.load m.id) :
    OrderlyInv m s' (update phases i phase') := by
  have hholds : ∀ j, (update phases i phase' j).Holds m.id ↔ (phases j).Holds m.id := by
    intro j
    by_cases hji : j = i
    · rw [hji, update_self]
      exact iff_of_false hn' hn
    · rw [update_of_ne hji]
  refine ⟨fun j k hj hk => h.alone j k ((hholds j).mp hj) ((hholds k).mp hk),
    fun j refs hj => ?_, fun hfree a => ?_⟩
  · have hji : j ≠ i := by
      rintro rfl
      rw [update_self] at hj
      exact hn' ⟨m, refs, hj, rfl⟩
    rw [update_of_ne hji] at hj
    simp only [hld, hcnt]
    exact h.held j refs hj
  · rw [hcnt, hld]
    exact h.free (fun j hj => hfree j ((hholds j).mpr hj)) a

/-- A step that takes the message into one run's hands. -/
lemma OrderlyInv.take (hoth : ∀ j ≠ i, ¬ (phases j).Holds m.id)
    (hhd : phase'.hand = some (m, refs)) (hld : s'.messages.load m.id ≠ none)
    (hcnt : ∀ a, s'.count m a + refs.count a = (attachmentIDs m).count a) :
    OrderlyInv m s' (update phases i phase') := by
  have honly : ∀ j, (update phases i phase' j).Holds m.id → j = i := by
    intro j hj
    by_contra hji
    rw [update_of_ne hji] at hj
    exact hoth j hji hj
  refine ⟨fun j k hj hk => (honly j hj).trans (honly k hk).symm, fun j refs' hj => ?_,
    fun hfree => absurd ?_ (hfree i)⟩
  · obtain rfl : j = i := honly j ⟨m, refs', hj, rfl⟩
    rw [update_self, hhd] at hj
    cases hj
    exact ⟨hld, hcnt⟩
  · rw [update_self]
    exact ⟨m, refs, hhd, rfl⟩

/-- A step that lets go of a message, which is gone. -/
lemma OrderlyInv.drop (hoth : ∀ j ≠ i, ¬ (phases j).Holds m.id) (hn' : ¬ phase'.Holds m.id)
    (hld : s'.messages.load m.id = none) (hcnt : ∀ a, s'.count m a = (attachmentIDs m).count a) :
    OrderlyInv m s' (update phases i phase') := by
  have hnb : ∀ j, ¬ (update phases i phase' j).Holds m.id := by
    intro j
    by_cases hji : j = i
    · rw [hji, update_self]
      exact hn'
    · rw [update_of_ne hji]
      exact hoth j hji
  refine ⟨fun j _ hj => absurd hj (hnb j), fun j refs hj => ?_, fun _ a => ?_⟩
  · exact absurd ⟨m, refs, hj, rfl⟩ (hnb j)
  · rw [hld, hcnt]
    rfl

omit [DecidableEq ι] in
lemma OrderlyInv.not_holds (h : OrderlyInv m s phases)
    (hhd : (phases i).hand = some (m, refs)) : ∀ j ≠ i, ¬ (phases j).Holds m.id :=
  fun j hji hj => hji (h.alone j i hj ⟨m, refs, hhd, rfl⟩)

lemma orderlyInv_step (hi : t.Named) (hm : m ∈ t.all)
    (hatt : attachmentIDs m ≠ []) (c : Config ι Depot Enforcer) (i : ι) (h : EnforceInv t c)
    (ho : OrderlyInv m c.shared fun j => (c.loc j).phase) (hok : Orderly env i c) :
    OrderlyInv m (stepAt (enforcerStep env) c i).shared
      fun j => ((stepAt (enforcerStep env) c i).loc j).phase := by
  have hphases : (fun j => ((stepAt (enforcerStep env) c i).loc j).phase)
      = update (fun j => (c.loc j).phase) i ((stepAt (enforcerStep env) c i).loc i).phase := by
    funext j
    by_cases hji : j = i
    · rw [hji, update_self]
    · rw [update_of_ne hji, stepAt_loc_of_ne hji]
  rw [hphases]
  have hmv := stepAt_move env c i
  generalize (stepAt (enforcerStep env) c i).shared = s' at hmv ⊢
  generalize ((stepAt (enforcerStep env) c i).loc i).phase = phase' at hmv ⊢
  by_cases hbef : (c.loc i).phase.Holds m.id
  · obtain ⟨msg, refs, hhd, hid⟩ := hbef
    obtain ⟨hmsg, hdr, _⟩ := (h.phases i).hand msg refs hhd
    obtain rfl : msg = m := inj_on_of_nodup_map t.nodup hmsg hm hid
    have hoth := ho.not_holds hhd
    obtain ⟨hld, hcnt⟩ := ho.held i _ hhd
    cases hmv with
    | quiet phase' hhd' => cases hhd.symm.trans hhd'
    | start p msg' msgs hph => rw [hph] at hhd; cases hhd
    | release p msg' b refs msgs hph =>
      rw [hph] at hhd
      cases hhd
      refine OrderlyInv.take hoth rfl hld fun a => ?_
      rw [count_released, if_pos rfl, ← hcnt a]
      simp only [count_cons, count_nil]
      omega
    | delete p p' msg' m' msgs hph =>
      rw [hph] at hhd
      cases hhd
      exact OrderlyInv.drop hoth (not_holds rfl _) load_delete hcnt
    | fail p msg' msgs hph hreason =>
      -- The message is there, and its delete cannot fail.
      rw [Orderly, hph] at hok
      rw [hph] at hhd
      cases hhd
      rcases hreason with hflt | hemp | hgn | ⟨m', hld', hdr'⟩
      · exact absurd (hok hatt) hflt
      · exact absurd hemp (hi msg hmsg)
      · exact absurd hgn hld
      · obtain ⟨hm', hid'⟩ := load_eq_some_iff.mp hld'
        rw [inj_on_of_nodup_map t.nodup (h.stored m' hm') hmsg hid', hdr] at hdr'
        cases hdr'
  · obtain ⟨hcnt, hld⟩ := hmv.other hbef
    by_cases haft : phase'.Holds m.id
    · obtain ⟨p, msg, msgs, hph, hctx, hid, hhd'⟩ := hmv.taken hbef haft
      have hmsg := ((h.phases i).ahead msg (by rw [hph]; exact mem_cons_self)).1
      obtain rfl : msg = m := inj_on_of_nodup_map t.nodup hmsg hm hid
      rw [Orderly, hph] at hok
      obtain ⟨hst, hnb⟩ := hok hctx hatt
      refine OrderlyInv.take (fun j _ => hnb j) hhd' (hld ▸ hst) fun a => ?_
      rw [hcnt, ho.free hnb a, if_pos (Option.isSome_iff_ne_none.mpr hst), Nat.zero_add]
    · exact ho.other hbef haft hcnt hld

/-- The ledgers of all messages with attachments. -/
def OrderlyState (t : Messages) (c : Config ι Depot Enforcer) : Prop :=
  EnforceInv t c ∧ ∀ m ∈ t.all, attachmentIDs m ≠ [] →
    OrderlyInv m c.shared fun j => (c.loc j).phase

omit [DecidableEq ι] in
lemma orderlyState_start (t : Messages) :
    OrderlyState t (allEnforcers t : Config ι Depot Enforcer) := by
  refine ⟨enforceInv_start t, fun m hm hatt => ?_⟩
  refine ⟨fun i _ hi => absurd hi (not_holds rfl _), fun i refs hi => (nomatch hi), fun _ a => ?_⟩
  show 0 = if (t.load m.id).isSome then 0 else _
  rw [load_of_mem hm]
  rfl

lemma orderlyState_step (hfd : ∀ i n, (env.find i n).Proper) (hi : t.Named)
    (c : Config ι Depot Enforcer) (i : ι) (h : OrderlyState t c) (hok : Orderly env i c) :
    OrderlyState t (stepAt (enforcerStep env) c i) :=
  ⟨enforceInv_step hfd c i h.1, fun m hm hatt =>
    orderlyInv_step hi hm hatt c i h.1 (h.2 m hm hatt) hok⟩

/-- Each reference has been released at most once, and none of a message that is stored. -/
def ReleasedOnce (t : Messages) (s : Depot) : Prop :=
  ∀ m ∈ t.all, ∀ a, s.count m a ≤ (attachmentIDs m).count a
    ∧ (s.messages.load m.id ≠ none → s.count m a = 0)

omit [DecidableEq ι] in
lemma OrderlyState.releasedOnce (h : OrderlyState t c)
    (hdn : ∀ i, (c.loc i).Returned) : ReleasedOnce t c.shared := by
  intro m hm a
  by_cases hatt : attachmentIDs m = []
  · have hzr := h.1.listed m hm a (by rw [hatt]; exact not_mem_nil)
    exact ⟨hzr ▸ Nat.zero_le _, fun _ => hzr⟩
  · have hnb : ∀ i, ¬ (c.loc i).phase.Holds m.id :=
      fun i => not_holds (hdn i).hand m.id
    have hcnt := (h.2 m hm hatt).free hnb a
    split_ifs at hcnt with hsome
    · exact ⟨hcnt ▸ Nat.zero_le _, fun _ => hcnt⟩
    · exact ⟨hcnt.le, fun hld => absurd (Option.isSome_iff_ne_none.mpr hld) hsome⟩

end OrderlyRuns

/-! ## Runs that are not orderly -/

section Disorder

variable {env} [DecidableEq ι]

/-- Too much has been released for the message, or is going to be; or it is still there although its
references have been released. -/
inductive Disorder (m : Message) (c : Config ι Depot Enforcer) : Prop where
  | one (i : ι) (h : ∀ a, 2 * (attachmentIDs m).count a
      ≤ c.shared.count m a + (c.loc i).phase.pending m a)
  | two (i j : ι) (hij : i ≠ j) (h : ∀ a, 2 * (attachmentIDs m).count a
      ≤ c.shared.count m a + (c.loc i).phase.pending m a + (c.loc j).phase.pending m a)
  | left (hload : c.shared.messages.load m.id ≠ none) (hfree : ∀ i, ¬ (c.loc i).phase.Holds m.id)
      (h : ∀ a, (attachmentIDs m).count a ≤ c.shared.count m a)

lemma disorder_step (hm : m ∈ t.all) (c : Config ι Depot Enforcer) (k : ι) (h : EnforceInv t c)
    (hd : Disorder m c) : Disorder m (stepAt (enforcerStep env) c k) := by
  have hmv := stepAt_move env c k
  have hle := hmv.count_le m
  cases hd with
  | one i hone =>
    refine .one i fun a => (hone a).trans ?_
    by_cases hik : i = k
    · rw [hik]
      exact (hle a).2
    · rw [stepAt_loc_of_ne hik]
      exact Nat.add_le_add_right (hle a).1 _
  | two i j hij htwo =>
    refine .two i j hij fun a => (htwo a).trans ?_
    have hk := hle a
    by_cases hik : i = k
    · have hjk : j ≠ k := fun hjk => hij (hik.trans hjk.symm)
      rw [hik, stepAt_loc_of_ne hjk]
      omega
    · by_cases hjk : j = k
      · rw [hjk, stepAt_loc_of_ne hik]
        omega
      · rw [stepAt_loc_of_ne hik, stepAt_loc_of_ne hjk]
        omega
  | left hld hfree hleft =>
    obtain ⟨hcnt, hld'⟩ := hmv.other (hfree k)
    by_cases haft : ((stepAt (enforcerStep env) c k).loc k).phase.Holds m.id
    · -- Somebody gets to the message again.
      obtain ⟨p, msg, msgs, hph, _, hid, hhd'⟩ := hmv.taken (hfree k) haft
      have hmsg := ((h.phases k).ahead msg (by rw [hph]; exact mem_cons_self)).1
      obtain rfl : msg = m := inj_on_of_nodup_map t.nodup hmsg hm hid
      refine .one k fun a => ?_
      have hreleased := hleft a
      rw [hcnt, pending, hhd']
      simp only [if_true]
      omega
    · refine .left (hld' ▸ hld) (fun j => ?_) fun a => (hleft a).trans (hle a).1
      by_cases hjk : j = k
      · rw [hjk]
        exact haft
      · rw [stepAt_loc_of_ne hjk]
        exact hfree j

omit [DecidableEq ι] in
lemma Disorder.not_releasedOnce (hd : Disorder m c) (hm : m ∈ t.all)
    (hatt : attachmentIDs m ≠ []) (hdn : ∀ i, (c.loc i).Returned) : ¬ ReleasedOnce t c.shared := by
  intro honce
  have hpd : ∀ i a, (c.loc i).phase.pending m a = 0 := by
    intro i a
    rw [pending, (hdn i).hand]
  obtain ⟨a, ha⟩ := exists_mem_of_ne_nil _ hatt
  have hpos := count_pos_iff.mpr ha
  obtain ⟨hcnt, hst⟩ := honce m hm a
  cases hd with
  | one i hone =>
    have htwice := hone a
    rw [hpd] at htwice
    omega
  | two i j hij htwo =>
    have htwice := htwo a
    rw [hpd, hpd] at htwice
    omega
  | left hld hfree hleft =>
    have hzr := hst hld
    have hle := hleft a
    omega

lemma disorder_of_not_orderly {i : ι} (h : OrderlyState t c) (hn : ¬ Orderly env i c) :
    ∃ m ∈ t.all, attachmentIDs m ≠ [] ∧ Disorder m (stepAt (enforcerStep env) c i) := by
  rw [Orderly] at hn
  split at hn
  · rename_i p msg msgs hph
    simp only [Classical.not_imp, not_and_or, not_forall, not_not] at hn
    obtain ⟨hctx, hatt, hn⟩ := hn
    have hstep : enforcerStep env i c.shared (c.loc i)
        = (c.shared, ⟨.message p msg (attachmentIDs msg) msgs, (c.loc i).ticks + 1⟩) := by
      simp only [enforcerStep, enforcerPhase, hph, hctx]
    have hshd : (stepAt (enforcerStep env) c i).shared = c.shared := by
      rw [stepAt_shared, hstep]
    have hmsg : msg ∈ t.all := ((h.1.phases i).ahead msg (by rw [hph]; exact mem_cons_self)).1
    have hpd : ∀ a, ((stepAt (enforcerStep env) c i).loc i).phase.pending msg a
        = (attachmentIDs msg).count a := by
      intro a
      rw [stepAt_loc_self, hstep]
      simp only [pending, hand, if_true]
    refine ⟨msg, hmsg, hatt, ?_⟩
    rcases hn with hgn | ⟨j, hholds⟩
    · refine .one i fun a => ?_
      have hcnt := h.1.gone msg hmsg hgn a
      rw [hpd, hshd]
      omega
    · obtain ⟨msg', refs, hhd, hid⟩ := hholds
      obtain ⟨hmsg', _, _, hcnt⟩ := (h.1.phases j).hand msg' refs hhd
      obtain rfl : msg' = msg := inj_on_of_nodup_map t.nodup hmsg' hmsg hid
      have hij : i ≠ j := by
        rintro rfl
        rw [hph] at hhd
        cases hhd
      refine .two i j hij fun a => ?_
      have hle := hcnt a
      have hpd' : (c.loc j).phase.pending msg' a = refs.count a := by
        simp only [pending, hhd, if_true]
      rw [hpd, hshd, stepAt_loc_of_ne (hij.symm), hpd']
      omega
  · rename_i p msg msgs hph
    simp only [Classical.not_imp] at hn
    obtain ⟨hatt, hflt⟩ := hn
    obtain ⟨e, hflt⟩ := Option.ne_none_iff_exists'.mp hflt
    have hstep : enforcerStep env i c.shared (c.loc i)
        = (c.shared, ⟨.page p msgs, (c.loc i).ticks + 1⟩) := by
      simp only [enforcerStep, enforcerPhase, hph, hflt]
    have hhd : (c.loc i).phase.hand = some (msg, []) := by
      rw [hph]
      rfl
    have hmsg := ((h.1.phases i).hand msg _ hhd).1
    have ho := h.2 msg hmsg hatt
    obtain ⟨hld, hcnt⟩ := ho.held i _ hhd
    refine ⟨msg, hmsg, hatt, .left ?_ (fun j => ?_) fun a => ?_⟩
    · rw [stepAt_shared, hstep]
      exact hld
    · by_cases hji : j = i
      · rw [hji, stepAt_loc_self, hstep]
        exact not_holds rfl _
      · rw [stepAt_loc_of_ne hji]
        exact ho.not_holds hhd j hji
    · have hle := hcnt a
      rw [stepAt_shared, hstep]
      exact hle.ge
  · exact absurd trivial hn

/-- The disorder of one message, in a run. -/
def DisorderlyState (t : Messages) (m : Message) (c : Config ι Depot Enforcer) : Prop :=
  EnforceInv t c ∧ Disorder m c

/-- **Quota enforcement releases each reference at most once**, and none of a message that is still
stored, if and only if the run is orderly: every message with attachments is worked on by one run
at a time, while it is there, and its delete does not fail. -/
theorem quota_releases_once_iff (hfind : ∀ i n, (env.find i n).Proper) (t : Messages)
    (hids : t.Named) (schedule : List ι)
    (hdone : ∀ i, ((run (enforcerStep env) schedule (allEnforcers t)).loc i).Returned) :
    ReleasedOnce t (run (enforcerStep env) schedule (allEnforcers t)).shared
      ↔ Along (enforcerStep env) (Orderly env) schedule (allEnforcers t) := by
  constructor
  · intro honce
    by_contra hn
    obtain ⟨before, i, after, rfl, hbad, hbef⟩ := exists_of_not_along hn
    have hst : OrderlyState t (run (enforcerStep env) before (allEnforcers t)) :=
      along_induction (orderlyState_step hfind hids) (orderlyState_start t) hbef
    obtain ⟨m, hm, hatt, hd⟩ := disorder_of_not_orderly hst hbad
    rw [run_append, run_cons] at honce hdone
    have hl : DisorderlyState t m (run (enforcerStep env) after
        (stepAt (enforcerStep env) (run (enforcerStep env) before (allEnforcers t)) i)) := by
      refine run_induction after (fun c k h => ?_) ⟨enforceInv_step hfind _ i hst.1, hd⟩
      exact ⟨enforceInv_step hfind c k h.1, disorder_step hm c k h.1 h.2⟩
    exact hl.2.not_releasedOnce hm hatt hdone honce
  · intro hok
    have hst : OrderlyState t (run (enforcerStep env) schedule (allEnforcers t)) :=
      along_induction (orderlyState_step hfind hids) (orderlyState_start t) hok
    exact hst.releasedOnce hdone

end Disorder

/-! ## Two messages, one too many -/

/-- The older of two messages has an attachment. -/
def overQuotaMessages : Messages :=
  (Table.empty.put { letter "m" 0 with attachments := [⟨"a", "", "", 0, "", 0⟩] }).put
    (letter "n" 1)
where
  letter (id : String) (createdAt : Time) : Message :=
    { Store.newDraft createdAt "u" with id := id, isDraft := false, folderID := folderInbox }

/-- Runs that allow for one message, over the in-memory store. -/
def oneAllowed (hardDeleteFault : ι → ℕ → Option Error) : Surroundings ι where
  userID := "u"
  getQuota _ := .ok (some ⟨⟨1, .deleteOldest⟩, 5⟩)
  now _ := 10
  count _ filters t := .ok (Store.count 10 filters (.of t))
  find _ _ := memoryFinder 10 id
  hardDeleteFault := hardDeleteFault
  ctxErr _ _ := none

lemma proper_oneAllowed (hardDeleteFault : ι → ℕ → Option Error) (i : ι) (n : ℕ) :
    ((oneAllowed hardDeleteFault).find i n).Proper :=
  proper_memoryFinder 10 fun _ => .refl _

theorem quota_releases_once_alone : ReleasedOnce overQuotaMessages
      (run (enforcerStep (oneAllowed fun _ _ => none)) (List.replicate 7 ())
        (allEnforcers overQuotaMessages)).shared :=
  (quota_releases_once_iff (proper_oneAllowed _) overQuotaMessages (by decide)
    (List.replicate 7 ()) (by decide +kernel)).mpr (by decide +kernel)

/-- Two runs that get to the message at the same time. -/
def collided : Config Bool Depot Enforcer :=
  run (enforcerStep (oneAllowed fun _ _ => none))
    [true, false, true, false, true, false, true, false, true, false, true, true, false]
    (allEnforcers overQuotaMessages)

/-- One run whose delete fails. -/
def stranded : Config Unit Depot Enforcer :=
  run (enforcerStep (oneAllowed fun _ _ => some (.text "unavailable"))) (List.replicate 6 ())
    (allEnforcers overQuotaMessages)

/-- Two runs release the attachment twice.  A run whose delete fails leaves a message whose
attachment has been released. -/
theorem quota_releases_twice :
    (∀ i, (collided.loc i).Returned) ∧ collided.shared.released = [("m", "a"), ("m", "a")]
      ∧ (∀ i, (stranded.loc i).Returned) ∧ stranded.shared.released = [("m", "a")]
      ∧ stranded.shared.messages.all.map Message.id = ["n", "m"] :=
  ⟨by decide +kernel, by decide +kernel, by decide +kernel, by decide +kernel, by decide +kernel⟩

end Mailbox.Service
