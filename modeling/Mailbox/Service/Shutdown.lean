import Mailbox.Lib.Machine
import Mailbox.Lib.Semaphore

/-!
# Shutting down with sends in flight

`Close` sets the state of the service to disconnected, acquires all permits of the send semaphore to
wait for the sends in flight, gives them back, and goes on to close the store.  A send checks the
state, prepares its draft, acquires one permit, writes to the store and releases its permit.

**Interleavings.**  `State.next` is one atomic step of one of any number of senders, or of `Close`.
A party that has to wait does nothing on its turn.

**What the semaphore does.**  While `Close` has all permits no send has one (`Inv.not_holding`), so
a drain that succeeds leaves no send in the middle of its writes.

**What it does not.**  The state is not looked at again after the acquisition.  A send that has been
checked and stands before the semaphore while `Close` drains gets its permit afterwards.
`no_late_write_iff`: this, and a drain that gives up, are the only ways a send can write after the
shutdown.
-/

namespace Mailbox.Service.Shutdown

open Function

/-! ## The parties and their steps -/

/-- `MaxConcurrentSends` after `applyDefaults`. -/
def maxConcurrentSends (configured : ℤ) : ℕ := if configured ≤ 0 then 10 else configured.toNat

lemma maxConcurrentSends_pos (configured : ℤ) : 0 < maxConcurrentSends configured := by
  rw [maxConcurrentSends]
  split <;> omega

/-- Where a call of `sendDraft` stands: not begun, past `checkAccess`, past `sendSem.Acquire`, or
returned. -/
inductive SendPhase where
  | idle
  | checked
  | holding
  | returned
  deriving DecidableEq, Repr

/-- Where the call of `Close` stands that has changed the state: it waits for the permits, has them,
has finished draining, or has closed the store. -/
inductive ClosePhase where
  | serving
  | waiting
  | draining
  | drained
  | closed
  deriving DecidableEq, Repr

/-- `Close` is done with waiting for sends. -/
def ClosePhase.isDrained : ClosePhase → Bool
  | .drained => true
  | .closed => true
  | _ => false

/-- The permits that a send has. -/
def SendPhase.permits : SendPhase → ℕ
  | .holding => 1
  | _ => 0

lemma SendPhase.permits_of_ne {phase : SendPhase} (h : phase ≠ .holding) : phase.permits = 0 := by
  cases phase with
  | holding => exact absurd rfl h
  | _ => rfl

/-- The permits that `Close` has. -/
def ClosePhase.permits (size : ℕ) : ClosePhase → ℕ
  | .draining => size
  | _ => 0

/-- The service and its sends.  `writes` are the writes to the store, each with its sender and with
where `Close` stood at the time. -/
structure State (ι : Type) (size : ℕ) where
  connected : Bool
  sendSem : Semaphore size
  validUserID : ι → Bool
  senders : ι → SendPhase
  closing : ClosePhase
  writes : List (ι × ClosePhase)

/-- One step of a send, or of `Close`. -/
inductive Turn (ι : Type) where
  | checkAccess (i : ι)
  | acquire (i : ι)
  /-- The draft is found invalid, or the context ends before there is a permit. -/
  | giveUp (i : ι)
  | write (i : ι)
  | release (i : ι)
  | disconnect
  | acquireAll
  /-- The shutdown timeout ends before there are the permits. -/
  | timeout
  | releaseAll
  | closeStore

/-- A turn of a send. -/
def Turn.IsSend {ι : Type} : Turn ι → Prop
  | .checkAccess _ | .acquire _ | .giveUp _ | .write _ | .release _ => True
  | _ => False

variable {ι : Type} [DecidableEq ι] {size : ℕ}

namespace State

def setSender (c : State ι size) (i : ι) (phase : SendPhase) : State ι size :=
  { c with senders := Function.update c.senders i phase }

def hasAccess (c : State ι size) (i : ι) : Bool := c.connected && c.validUserID i

/-- One turn. -/
def next (c : State ι size) : Turn ι → State ι size
  | .checkAccess i =>
    if c.senders i = .idle then
      c.setSender i (if c.hasAccess i then .checked else .returned)
    else c
  | .acquire i =>
    if c.senders i = .checked then
      match c.sendSem.acquire 1 with
      | none => c
      | some sem => { c with sendSem := sem }.setSender i .holding
    else c
  | .giveUp i => if c.senders i = .checked then c.setSender i .returned else c
  | .write i =>
    if c.senders i = .holding then { c with writes := c.writes ++ [(i, c.closing)] } else c
  | .release i =>
    if c.senders i = .holding then
      { c with sendSem := c.sendSem.release 1 }.setSender i .returned
    else c
  -- The compare-and-swap: a second call of `Close` returns here.
  | .disconnect => if c.connected then { c with connected := false, closing := .waiting } else c
  | .acquireAll =>
    if c.closing = .waiting then
      match c.sendSem.acquire size with
      | none => c
      | some sem => { c with sendSem := sem, closing := .draining }
    else c
  | .timeout => if c.closing = .waiting then { c with closing := .drained } else c
  | .releaseAll =>
    if c.closing = .draining then
      { c with sendSem := c.sendSem.release size, closing := .drained }
    else c
  | .closeStore => if c.closing = .drained then { c with closing := .closed } else c

def run (turns : List (Turn ι)) (c : State ι size) : State ι size := turns.foldl next c

/-- A connected service before the first send. -/
def start (size : ℕ) (validUserID : ι → Bool) : State ι size where
  connected := true
  sendSem := .idle
  validUserID := validUserID
  senders _ := .idle
  closing := .serving
  writes := []

/-- No send has written to the store after `Close` was done with waiting for sends. -/
def NoLateWrite (c : State ι size) : Prop := ∀ w ∈ c.writes, w.2.isDrained = false

/-- What the steps with which `Close` finishes draining have to find: no send between its access
check and its permit, and after a timeout no send with a permit either. -/
def Clear (c : State ι size) : Turn ι → Prop
  | .releaseAll => c.closing = .draining → ∀ i, c.senders i ≠ .checked
  | .timeout => c.closing = .waiting → ∀ i, c.senders i ≠ .checked ∧ c.senders i ≠ .holding
  | _ => True

instance (c : State ι size) : Decidable c.NoLateWrite :=
  inferInstanceAs (Decidable (∀ w ∈ c.writes, _))

/-! ## What every turn preserves -/

/-- The permits of each party; `none` is `Close`. -/
def share (c : State ι size) : Option ι → ℕ
  | none => c.closing.permits size
  | some i => (c.senders i).permits

/-- The permits that are out are those the parties have; once the state has changed it stays; and
once `Close` has drained, no send is on its way to the store any more. -/
structure Inv (c : State ι size) : Prop where
  disconnected : c.closing ≠ .serving → c.connected = false
  shares : c.sendSem.Accounts c.share
  quiet : c.closing.isDrained = true → ∀ i, c.senders i ≠ .checked ∧ c.senders i ≠ .holding
  early : c.NoLateWrite

variable {c : State ι size} {i : ι}

lemma share_setSender (c : State ι size) (i : ι) (phase : SendPhase) :
    (c.setSender i phase).share = update c.share (some i) phase.permits := by
  funext k
  cases k with
  | none => rfl
  | some j =>
    by_cases hj : j = i
    · subst hj
      simp [share, setSender]
    · simp [share, setSender, hj]

lemma share_closing (c : State ι size) (phase : ClosePhase) :
    ({ c with closing := phase } : State ι size).share
      = update c.share none (phase.permits size) := by
  funext k
  cases k <;> rfl

omit [DecidableEq ι] in
lemma inv_start (size : ℕ) (validUserID : ι → Bool) : (start size validUserID).Inv where
  disconnected h := absurd rfl h
  shares := by
    have hshare : (start size validUserID).share = fun _ => 0 := by
      funext k
      cases k <;> rfl
    rw [hshare]
    exact Semaphore.accounts_idle
  quiet h := by cases h
  early := by simp [NoLateWrite, start]

section

variable (h : c.Inv)

include h

omit [DecidableEq ι] in
lemma Inv.not_holding (hdrain : c.closing = .draining) (i : ι) : c.senders i ≠ .holding := by
  intro hhold
  have hall : c.share none = size := by
    simp [share, hdrain, ClosePhase.permits]
  have hno : c.share (some i) = 0 := h.shares.eq_zero_of_full hall (by simp)
  simp [share, hhold, SendPhase.permits] at hno

lemma Inv.setSender {sem : Semaphore size} {phase : SendPhase}
    (hshr : sem.Accounts (update c.share (some i) phase.permits))
    (hquiet : c.closing.isDrained = true → phase ≠ .checked ∧ phase ≠ .holding) :
    (State.setSender { c with sendSem := sem } i phase).Inv where
  disconnected := h.disconnected
  shares := by
    rw [share_setSender]
    exact hshr
  quiet := by
    intro hdrd j
    by_cases hj : j = i
    · subst hj
      simpa [State.setSender] using hquiet hdrd
    · simpa [State.setSender, hj] using h.quiet hdrd j
  early := h.early

lemma Inv.setClosing {sem : Semaphore size} {phase : ClosePhase}
    (hshr : sem.Accounts (update c.share none (phase.permits size)))
    (hserving : c.closing ≠ .serving)
    (hquiet : phase.isDrained = true → ∀ i, c.senders i ≠ .checked ∧ c.senders i ≠ .holding) :
    ({ c with sendSem := sem, closing := phase } : State ι size).Inv where
  disconnected _ := h.disconnected hserving
  shares := by
    rw [← share_closing] at hshr
    exact hshr
  quiet := hquiet
  early := h.early

/-- A party that has as many permits before a step as after it needs no semaphore for it. -/
lemma Inv.shares_update {k : Option ι} {n : ℕ} (hn : n = c.share k) :
    c.sendSem.Accounts (update c.share k n) := by
  rw [hn, update_eq_self]
  exact h.shares

lemma Inv.shares_releaseAll (hdrain : c.closing = .draining) :
    (c.sendSem.release size).Accounts (update c.share none 0) := by
  have hall : c.share none = size := by simp [share, hdrain, ClosePhase.permits]
  have hshr := h.shares.release hall.ge
  rwa [hall, Nat.sub_self] at hshr

lemma Inv.send {t : Turn ι} (ht : t.IsSend) : (c.next t).Inv := by
  cases t with
  | checkAccess =>
    rw [next]
    split
    next hidle =>
      refine h.setSender (h.shares_update ?_) ?_
      · simp only [share, hidle]
        split <;> rfl
      · intro hdrd
        -- After the state change nobody passes the check.
        have hserving : c.closing ≠ .serving := by
          intro hserving
          rw [hserving] at hdrd
          cases hdrd
        simp [hasAccess, h.disconnected hserving]
    · exact h
  | acquire i =>
    rw [next]
    split
    next hchk =>
      split
      · exact h
      next sem hsem =>
        have hshr := h.shares.acquire hsem (some i)
        simp only [share, hchk, SendPhase.permits, Nat.zero_add] at hshr
        refine h.setSender hshr ?_
        intro hdrd
        exact absurd hchk (h.quiet hdrd i).1
    · exact h
  | giveUp =>
    rw [next]
    split
    next hchk =>
      refine h.setSender (h.shares_update ?_) (by simp)
      simp [share, hchk, SendPhase.permits]
    · exact h
  | write i =>
    rw [next]
    split
    next hhold =>
      refine ⟨h.disconnected, h.shares, h.quiet, ?_⟩
      intro w hw
      rcases List.mem_append.mp hw with hw | hw
      · exact h.early w hw
      · rw [List.mem_singleton.mp hw]
        by_contra hdrd
        exact (h.quiet (by simpa using hdrd) i).2 hhold
    · exact h
  | release i =>
    rw [next]
    split
    next hhold =>
      have hone : c.share (some i) = 1 := by simp [share, hhold, SendPhase.permits]
      have hshr := h.shares.release hone.ge
      rw [hone] at hshr
      exact h.setSender hshr (by simp)
    · exact h
  | _ => exact absurd ht (by simp [Turn.IsSend])

theorem Inv.next {t : Turn ι} (hclear : c.Clear t) : (c.next t).Inv := by
  cases t with
  | disconnect =>
    rw [State.next]
    split
    next hconnected =>
      have hserving : c.closing = .serving := by
        by_contra hne
        rw [h.disconnected hne] at hconnected
        cases hconnected
      refine ⟨fun _ => rfl, ?_, ?_, h.early⟩
      · have hshr : c.sendSem.Accounts (update c.share none 0) :=
          h.shares_update (by simp [share, hserving, ClosePhase.permits])
        exact (share_closing c .waiting) ▸ hshr
      · rintro ⟨⟩
    · exact h
  | acquireAll =>
    rw [State.next]
    split
    next hwait =>
      split
      · exact h
      next sem hsem =>
        have hshr := h.shares.acquire hsem none
        simp only [share, hwait, ClosePhase.permits, Nat.zero_add] at hshr
        refine h.setClosing hshr (by simp [hwait]) ?_
        rintro ⟨⟩
    · exact h
  | timeout =>
    rw [State.next]
    split
    next hwait =>
      refine h.setClosing (h.shares_update ?_) (by simp [hwait]) fun _ => hclear hwait
      simp [share, hwait, ClosePhase.permits]
    · exact h
  | releaseAll =>
    rw [State.next]
    split
    next hdrain =>
      refine h.setClosing (h.shares_releaseAll hdrain) (by simp [hdrain]) ?_
      intro _ i
      exact ⟨hclear hdrain i, h.not_holding hdrain i⟩
    · exact h
  | closeStore =>
    rw [State.next]
    split
    next hdrd =>
      refine h.setClosing (h.shares_update ?_) (by simp [hdrd]) ?_
      · simp [share, hdrd, ClosePhase.permits]
      · intro _
        exact h.quiet (by simp [hdrd, ClosePhase.isDrained])
    · exact h
  | _ => exact h.send trivial

theorem Inv.run {turns : List (Turn ι)}
    (hclear : ∀ e ∈ Machine.steps State.next turns c, e.1.Clear e.2) : (c.run turns).Inv := by
  have hl := Machine.steps_induction (fun _ _ hinv => hinv.next) hclear h turns.length
  rwa [List.take_length] at hl

end

/-! ## A send that was overlooked -/

lemma late_of_holding (hdrd : c.closing.isDrained = true) (hhold : c.senders i = .holding) :
    ¬ (c.run [.write i]).NoLateWrite := by
  intro hearly
  have hwrite : (i, c.closing) ∈ (c.run [.write i]).writes := by
    simp [run, State.next, hhold]
  rw [hearly _ hwrite] at hdrd
  cases hdrd

/-- A send that has passed its check gets a permit, when nobody else has one, and then writes. -/
lemma late_of_checked (hsize : 0 < size) (hdrd : c.closing.isDrained = true)
    (hchk : c.senders i = .checked) (hshr : c.sendSem.Accounts c.share)
    (hfree : ∀ k, c.share k = 0) : ¬ (c.run [.acquire i, .write i]).NoLateWrite := by
  obtain ⟨sem, hsem⟩ := hshr.exists_acquire hfree hsize
  have hacq : c.next (.acquire i) = State.setSender { c with sendSem := sem } i .holding := by
    simp [State.next, hchk, hsem]
  have hlate := late_of_holding (c := c.next (.acquire i)) (i := i)
  rw [hacq] at hlate
  show ¬ ((c.next (.acquire i)).run [.write i]).NoLateWrite
  rw [hacq]
  exact hlate hdrd (by simp [State.setSender])

/-- After a drain that was not clear there is a send that can still write. -/
lemma Inv.exists_late (h : c.Inv) (hsize : 0 < size) {t : Turn ι} (ht : ¬ c.Clear t) :
    ∃ more : List (Turn ι), (∀ u ∈ more, u.IsSend) ∧ ¬ ((c.next t).run more).NoLateWrite := by
  cases t with
  | releaseAll =>
    simp only [Clear, not_forall, not_not] at ht
    obtain ⟨hdrain, i, hchk⟩ := ht
    refine ⟨[.acquire i, .write i], by simp [Turn.IsSend], ?_⟩
    rw [State.next, if_pos hdrain]
    refine late_of_checked hsize rfl hchk ?_ ?_
    · exact (share_closing c .drained) ▸ h.shares_releaseAll hdrain
    · rintro (_ | j)
      · rfl
      · exact SendPhase.permits_of_ne (h.not_holding hdrain j)
  | timeout =>
    simp only [Clear, not_forall, not_and_or, not_not] at ht
    obtain ⟨hwait, i, hi⟩ := ht
    rw [State.next, if_pos hwait]
    -- Either some send has a permit, or nobody has and the one that was checked can get it.
    by_cases hhold : ∃ j, c.senders j = .holding
    · obtain ⟨j, hj⟩ := hhold
      exact ⟨[.write j], by simp [Turn.IsSend], late_of_holding rfl hj⟩
    · rw [not_exists] at hhold
      refine ⟨[.acquire i, .write i], by simp [Turn.IsSend], ?_⟩
      refine late_of_checked hsize rfl (hi.resolve_right (hhold i)) ?_ ?_
      · have hzr : c.sendSem.Accounts (update c.share none 0) :=
          h.shares_update (by simp [share, hwait, ClosePhase.permits])
        exact (share_closing c .drained) ▸ hzr
      · rintro (_ | j)
        · rfl
        · exact SendPhase.permits_of_ne (hhold j)
  | _ => exact absurd trivial ht

lemma clear_of_isSend {turns : List (Turn ι)} (hsends : ∀ t ∈ turns, t.IsSend) :
    ∀ e ∈ Machine.steps State.next turns c, e.1.Clear e.2 := by
  intro e he
  obtain ⟨before, after, rfl, -⟩ := Machine.exists_of_mem_steps he
  have hsend : e.2.IsSend := hsends e.2 (by simp)
  cases ht : e.2 with
  | releaseAll | timeout => simp [ht, Turn.IsSend] at hsend
  | _ => trivial

end State

open State in
/-- **Shutdown excludes sends — from a drain that is clear.**  However many sends there are,
whatever the limit, and however they interleave with `Close`: at no point, and in no way the sends
can go on from there, is the store written after the drain, exactly when the drain ends `Clear`. -/
theorem no_late_write_iff (configured : ℤ) (validUserID : ι → Bool) (turns : List (Turn ι)) :
    (∀ n more, (∀ t ∈ more, t.IsSend) → ((start (maxConcurrentSends configured) validUserID).run
        (turns.take n ++ more)).NoLateWrite)
      ↔ ∀ e ∈ Machine.steps next turns (start (maxConcurrentSends configured) validUserID),
        e.1.Clear e.2 := by
  have hst := inv_start (maxConcurrentSends configured) validUserID
  constructor
  · intro hearly
    by_contra hunclear
    obtain ⟨before, t, after, rfl, ht, hbef⟩ := Machine.exists_first_of_not_steps hunclear
    obtain ⟨more, hsends, hlate⟩ :=
      (hst.run hbef).exists_late (maxConcurrentSends_pos configured) ht
    refine hlate ?_
    have hrun := hearly (before ++ [t]).length more hsends
    rw [List.append_cons before t after, List.take_left, run, List.foldl_append,
      List.foldl_append] at hrun
    exact hrun
  · intro hclear n more hsends
    refine (hst.run ?_).early
    rw [Machine.steps_append]
    intro e he
    rcases List.mem_append.mp he with he | he
    · refine hclear e ?_
      rw [← List.take_append_drop n turns, Machine.steps_append]
      exact List.mem_append_left _ he
    · exact clear_of_isSend hsends e he

/-- A send passes its access check.  `Close` comes in between, finds the semaphore free, and closes
the store; then the send gets its permit. -/
def overtaken : List (Turn ℕ) :=
  [.checkAccess 0, .disconnect, .acquireAll, .releaseAll, .closeStore, .acquire 0, .write 0]

/-- A send is in flight when `Close` stops waiting for it. -/
def abandoned : List (Turn ℕ) :=
  [.checkAccess 0, .acquire 0, .write 0, .disconnect, .acquireAll, .timeout, .write 0]

/-- Both write to the store after the drain. -/
theorem late_writes :
    ((State.start (maxConcurrentSends 0) fun _ => true).run overtaken).writes = [(0, .closed)]
      ∧ ¬ ((State.start (maxConcurrentSends 0) fun _ => true).run overtaken).NoLateWrite
      ∧ ((State.start (maxConcurrentSends 0) fun _ => true).run abandoned).writes
        = [(0, .serving), (0, .drained)]
      ∧ ¬ ((State.start (maxConcurrentSends 0) fun _ => true).run abandoned).NoLateWrite := by
  decide

end Mailbox.Service.Shutdown
