import Mailbox.Lib.Pool
import Mailbox.Memory.Create

/-!
# Concurrent idempotent creation

`CreateMessageIdempotent` of `store/memory/create.go`, taken apart into the atomic operations on the
two maps: the index `LoadOrStore`, the message `Load`, the index `Delete` and the message `Store`.

Between its `LoadOrStore` and its `Store` a caller has reserved a key for a message that does not
exist yet.  Another caller that looks for the message then takes the entry for stale, removes it,
and reserves the key for itself.  `Reserved` is the invariant of the runs in which nobody looks too
early; `Missed` is what remains of a caller that does.
-/

namespace Mailbox.Memory

open Pool Store

/-! ## The atomic steps -/

/-- Where a call of `CreateMessageIdempotent` stands. -/
inductive CreatePC where
  /-- about to `LoadOrStore` the index entry -/
  | loadOrStore (attempt : ℕ)
  /-- about to `Load` the message of the entry it found -/
  | load (attempt : ℕ) (newMsgID existingID : String)
  /-- about to `Delete` the index entry -/
  | delete (attempt : ℕ) (newMsgID : String)
  /-- about to `Store` the message -/
  | store (newMsgID : String)
  | done (result : IdempotentCreateResult)

variable {ι : Type} (uuid : ℕ → String) (now : ι → Time) (data : ι → MessageData)
  (idempotencyKey : String)

/-- The check before the loop. -/
def createStart : CreatePC :=
  if idempotencyKey = "" then .done (.err (.sentinel .invalidIdempotencyKey)) else .loadOrStore 0

/-- The head of the loop: two attempts. -/
def createAttempt (attempt : ℕ) (newMsgID : String) : CreatePC :=
  if attempt < 2 then .loadOrStore attempt else .store newMsgID

def createStep (i : ι) (s : Store) : CreatePC → Store × CreatePC
  | .loadOrStore attempt =>
    let newMsgID := uuid s.drawn
    let s := { s with drawn := s.drawn + 1 }
    match s.idempotencyIdx.lookup (Store.idxKey (data i).ownerID idempotencyKey) with
    | none =>
      ({ s with
        idempotencyIdx :=
          s.idempotencyIdx.insert (Store.idxKey (data i).ownerID idempotencyKey) newMsgID },
        .store newMsgID)
    | some existingID => (s, .load attempt newMsgID existingID)
  | .load attempt newMsgID existingID =>
    match s.messages.load existingID with
    | some m => (s, .done (.ok m false))
    | none => (s, .delete attempt newMsgID)
  | .delete attempt newMsgID =>
    ({ s with
      idempotencyIdx :=
        s.idempotencyIdx.erase (Store.idxKey (data i).ownerID idempotencyKey) },
      createAttempt (attempt + 1) newMsgID)
  | .store newMsgID =>
    let m := newMessageFromData (data i) newMsgID (now i)
    (s.put m, .done (.ok m true))
  | .done result => (s, .done result)

/-! ## The statement -/

/-- All callers use one owner and one key; the key is not in the index, and the IDs drawn are
new. -/
structure CreateRace (ownerID : String) (s : Store) : Prop where
  key : idempotencyKey ≠ ""
  owner : ∀ i, (data i).ownerID = ownerID
  free : s.idempotencyIdx.lookup (Store.idxKey ownerID idempotencyKey) = none
  unused : s.messages.load (uuid s.drawn) = none
  injective : Function.Injective uuid

def allCreate (s : Store) : Config ι Store CreatePC := ⟨s, fun _ => createStart idempotencyKey⟩

def AllReturned (c : Config ι Store CreatePC) : Prop := ∀ i, ∃ result, c.loc i = .done result

/-- One new message, made by one caller; all the others return it. -/
def CreatedOnce (ownerID : String) (s : Store) (c : Config ι Store CreatePC) : Prop :=
  ∃ winner id,
    let m := newMessageFromData (data winner) id (now winner)
    c.shared.messages.all.Perm (m :: s.messages.all)
      ∧ c.shared.idempotencyIdx.lookup (Store.idxKey ownerID idempotencyKey) = some id
      ∧ c.loc winner = .done (.ok m true)
      ∧ ∀ j ≠ winner, c.loc j = .done (.ok m false)

/-- The step is not a look for a message that is not there. -/
def EntryStored (i : ι) (c : Config ι Store CreatePC) : Prop :=
  ∀ attempt newMsgID existingID, c.loc i = .load attempt newMsgID existingID →
    c.shared.messages.load existingID ≠ none

/-! ## Runs without early looks -/

variable {n : ℕ}

section Runs

variable {uuid now data idempotencyKey} {key ownerID : String} {s : Store}
  {c : Config ι Store CreatePC} {i : ι} {winner : ι}

/-- A caller that has not returned, and knows at most of the entry `id`. -/
def Waiting (id : String) (pc : CreatePC) : Prop :=
  pc = .loadOrStore 0 ∨ ∃ newMsgID, newMsgID ≠ id ∧ pc = .load 0 newMsgID id

/-- A caller other than the one that made the message `m`. -/
def WaitingOrReturned (m : Message) (pc : CreatePC) : Prop :=
  Waiting m.id pc ∨ pc = .done (.ok m false)

/-- The key is free, or reserved for a message to come, or the message is there. -/
inductive Reserved (uuid : ℕ → String) (now : ι → Time) (data : ι → MessageData)
    (idempotencyKey ownerID : String) (s : Store) (c : Config ι Store CreatePC) : Prop where
  | free (hshared : c.shared = s) (hall : ∀ i, c.loc i = .loadOrStore 0)
  | pending (winner : ι)
      (hidx : c.shared.idempotencyIdx.lookup (Store.idxKey ownerID idempotencyKey)
        = some (uuid s.drawn))
      (hmsgs : c.shared.messages = s.messages) (hdrawn : s.drawn < c.shared.drawn)
      (hwinner : c.loc winner = .store (uuid s.drawn))
      (hothers : ∀ j ≠ winner, Waiting (uuid s.drawn) (c.loc j))
  | stored (winner : ι) (m : Message)
      (hm : m = newMessageFromData (data winner) (uuid s.drawn) (now winner))
      (hidx : c.shared.idempotencyIdx.lookup (Store.idxKey ownerID idempotencyKey)
        = some (uuid s.drawn))
      (hmsgs : c.shared.messages = s.messages.put m) (hdrawn : s.drawn < c.shared.drawn)
      (hwinner : c.loc winner = .done (.ok m true))
      (hothers : ∀ j ≠ winner, WaitingOrReturned m (c.loc j))

lemma CreateRace.ne_uuid (hrace : CreateRace uuid data key ownerID s) {m : ℕ}
    (h : n < m) : uuid m ≠ uuid n :=
  fun heq => (Nat.ne_of_lt h).symm (hrace.injective heq)

variable (uuid now) in
/-- The `LoadOrStore` that finds the key free. -/
lemma createStep_reserves (attempt : ℕ) (hown : (data i).ownerID = ownerID)
    (h : s.idempotencyIdx.lookup (idxKey ownerID key) = none) :
    createStep uuid now data key i s (.loadOrStore attempt) = ({ s with
            idempotencyIdx :=
              s.idempotencyIdx.insert (idxKey ownerID key) (uuid s.drawn)
            drawn := s.drawn + 1 },
          .store (uuid s.drawn)) := by
  subst hown
  simp [createStep, h]

variable (uuid now) in
/-- The `LoadOrStore` that finds an entry. -/
lemma createStep_finds (attempt : ℕ) (hown : (data i).ownerID = ownerID) {existingID : String}
    (h : s.idempotencyIdx.lookup (idxKey ownerID key) = some existingID) :
    createStep uuid now data key i s (.loadOrStore attempt)
      = ({ s with drawn := s.drawn + 1 }, .load attempt (uuid s.drawn) existingID) := by
  subst hown
  simp [createStep, h]

variable [DecidableEq ι]

section

variable (hrace : CreateRace uuid data key ownerID s)

include hrace

lemma reserved_of_free (hshd : c.shared = s) (hall : ∀ i, c.loc i = .loadOrStore 0) (i : ι) :
    Reserved uuid now data key ownerID s (stepAt (createStep uuid now data key) c i) := by
  have hstep := createStep_reserves uuid now 0 (hrace.owner i) hrace.free
  refine .pending i ?_ ?_ ?_ ?_ fun j hj => .inl ?_
  · simp [hall i, hshd, hstep]
  · simp [hall i, hshd, hstep]
  · simp [hall i, hshd, hstep]
  · simp [hall i, hshd, hstep]
  · rw [stepAt_loc_of_ne hj, hall j]

lemma reserved_of_pending (hidx : c.shared.idempotencyIdx.lookup (idxKey ownerID key)
      = some (uuid s.drawn))
    (hms : c.shared.messages = s.messages) (hdrw : s.drawn < c.shared.drawn)
    (hwin : c.loc winner = .store (uuid s.drawn))
    (hoth : ∀ j ≠ winner, Waiting (uuid s.drawn) (c.loc j)) (hok : EntryStored i c) :
    Reserved uuid now data key ownerID s (stepAt (createStep uuid now data key) c i) := by
  by_cases hi : i = winner
  · -- The winner stores its message.
    subst hi
    refine .stored i _ rfl ?_ ?_ ?_ ?_ fun j hj => .inl ?_
    · simpa [hwin, createStep] using hidx
    · simp [hwin, createStep, hms]
    · simpa [hwin, createStep] using hdrw
    · simp [hwin, createStep]
    · rw [stepAt_loc_of_ne hj]
      exact hoth j hj
  · rcases hoth i hi with hld | ⟨newMsgID, hw, hld⟩
    · have hstep := createStep_finds uuid now 0 (hrace.owner i) hidx
      refine .pending winner ?_ ?_ ?_ ?_ (forall_ne_stepAt _ hoth fun _ => .inr ?_)
      · simpa [hld, hstep] using hidx
      · simpa [hld, hstep] using hms
      · simpa [hld, hstep] using Nat.lt_succ_of_lt hdrw
      · simpa [Ne.symm hi] using hwin
      · exact ⟨uuid c.shared.drawn, hrace.ne_uuid hdrw, by simp [hld, hstep]⟩
    · -- Nobody looks for a message that has not been stored.
      refine absurd ?_ (hok _ _ _ hld)
      rw [hms, hrace.unused]

lemma reserved_of_stored
    {m : Message} (hm : m = newMessageFromData (data winner) (uuid s.drawn) (now winner))
    (hidx : c.shared.idempotencyIdx.lookup (idxKey ownerID key) = some (uuid s.drawn))
    (hms : c.shared.messages = s.messages.put m) (hdrw : s.drawn < c.shared.drawn)
    (hwin : c.loc winner = .done (.ok m true))
    (hoth : ∀ j ≠ winner, WaitingOrReturned m (c.loc j)) :
    Reserved uuid now data key ownerID s (stepAt (createStep uuid now data key) c i) := by
  have hid : m.id = uuid s.drawn := by rw [hm]; rfl
  by_cases hi : i = winner
  · subst hi
    refine .stored i m hm ?_ ?_ ?_ ?_ (forall_ne_stepAt _ hoth fun h => absurd rfl h)
    · simpa [hwin, createStep] using hidx
    · simpa [hwin, createStep] using hms
    · simpa [hwin, createStep] using hdrw
    · simp [hwin, createStep]
  · have hwin' : (stepAt (createStep uuid now data key) c i).loc winner
        = .done (.ok m true) := by
      rw [stepAt_loc_of_ne (Ne.symm hi), hwin]
    rcases hoth i hi with (hld | ⟨newMsgID, hw, hld⟩) | hdn
    · have hstep := createStep_finds uuid now 0 (hrace.owner i) hidx
      refine .stored winner m hm ?_ ?_ ?_ hwin' (forall_ne_stepAt _ hoth fun _ => .inl (.inr ?_))
      · simpa [hld, hstep] using hidx
      · simpa [hld, hstep] using hms
      · simpa [hld, hstep] using Nat.lt_succ_of_lt hdrw
      · rw [hid]
        exact ⟨uuid c.shared.drawn, hrace.ne_uuid hdrw, by simp [hld, hstep]⟩
    · have hfn : c.shared.messages.load m.id = some m := by
        rw [hms]
        exact Table.load_put_self
      refine .stored winner m hm ?_ ?_ ?_ hwin' (forall_ne_stepAt _ hoth fun _ => .inr ?_)
      · simpa [hld, createStep, hfn] using hidx
      · simpa [hld, createStep, hfn] using hms
      · simpa [hld, createStep, hfn] using hdrw
      · simp [hld, createStep, hfn]
    · refine .stored winner m hm ?_ ?_ ?_ hwin' (forall_ne_stepAt _ hoth fun _ => .inr ?_)
      · simpa [hdn, createStep] using hidx
      · simpa [hdn, createStep] using hms
      · simpa [hdn, createStep] using hdrw
      · simp [hdn, createStep]

lemma reserved_step (hc : Reserved uuid now data key ownerID s c) (hok : EntryStored i c) :
    Reserved uuid now data key ownerID s (stepAt (createStep uuid now data key) c i) := by
  cases hc with
  | free hshd hall => exact reserved_of_free hrace hshd hall i
  | pending winner hidx hms hdrw hwin hoth =>
    exact reserved_of_pending hrace hidx hms hdrw hwin hoth hok
  | stored winner m hm hidx hms hdrw hwin hoth =>
    exact reserved_of_stored hrace hm hidx hms hdrw hwin hoth

end

omit [DecidableEq ι] in
lemma Reserved.createdOnce [Nonempty ι] (hrace : CreateRace uuid data key ownerID s)
    (hc : Reserved uuid now data key ownerID s c) (hall : AllReturned c) :
    CreatedOnce now data key ownerID s c := by
  cases hc with
  | free _ hst =>
    obtain ⟨result, hdn⟩ := hall (Classical.arbitrary ι)
    rw [hst] at hdn
    cases hdn
  | pending winner _ _ _ hwin =>
    obtain ⟨result, hdn⟩ := hall winner
    rw [hwin] at hdn
    cases hdn
  | stored winner m hm hidx hms _ hwin hoth =>
    subst hm
    refine ⟨winner, uuid s.drawn, ?_, hidx, hwin, fun j hj => ?_⟩
    · rw [hms, Table.all_put_of_fresh (a := newMessageFromData _ _ _) hrace.unused]
    · obtain ⟨result, hdn⟩ := hall j
      rcases hoth j hj with (h | ⟨_, _, h⟩) | h
      · rw [h] at hdn
        cases hdn
      · rw [h] at hdn
        cases hdn
      · exact h

/-! ## Early looks -/

/-- A caller that will not return `id`, as long as the index does not lead it there. -/
inductive Elsewhere (id : String) : CreatePC → Prop where
  | loadOrStore : Elsewhere id (.loadOrStore 1)
  | load {newMsgID existingID : String} (hnew : newMsgID ≠ id) (hexisting : existingID ≠ id) :
      Elsewhere id (.load 1 newMsgID existingID)
  | delete {newMsgID : String} (hnew : newMsgID ≠ id) : Elsewhere id (.delete 1 newMsgID)
  | store {newMsgID : String} (hnew : newMsgID ≠ id) : Elsewhere id (.store newMsgID)
  | done {m : Message} {created : Bool} (hm : m.id ≠ id) : Elsewhere id (.done (.ok m created))

/-- Caller `i` has looked for the message of `winner` before it was stored. -/
structure Missed (uuid : ℕ → String) (idempotencyKey ownerID : String) (n : ℕ) (winner i : ι)
    (c : Config ι Store CreatePC) : Prop where
  ne : i ≠ winner
  drawn : n < c.shared.drawn
  winner : c.loc winner = .store (uuid n) ∨ ∃ m, m.id = uuid n ∧ c.loc winner = .done (.ok m true)
  loser : (∃ newMsgID, newMsgID ≠ uuid n ∧ c.loc i = .delete 0 newMsgID)
    ∨ c.shared.idempotencyIdx.lookup (Store.idxKey ownerID idempotencyKey) ≠ some (uuid n)
      ∧ Elsewhere (uuid n) (c.loc i)

omit [DecidableEq ι] in
/-- No step leads the index back to an ID drawn earlier. -/
lemma createStep_idx_ne (hu : Function.Injective uuid) (hown : (data i).ownerID = ownerID)
    {s : Store} (hdrw : n < s.drawn) (pc : CreatePC)
    (h : s.idempotencyIdx.lookup (idxKey ownerID key) ≠ some (uuid n)) :
    (createStep uuid now data key i s pc).1.idempotencyIdx.lookup
      (idxKey ownerID key) ≠ some (uuid n) := by
  subst hown
  cases pc with
  | loadOrStore =>
    cases hl : s.idempotencyIdx.lookup (idxKey (data i).ownerID key) with
    | none =>
      rw [createStep_reserves uuid now _ rfl hl]
      simp only [AList.lookup_insert, ne_eq, Option.some.injEq]
      exact fun heq => (Nat.ne_of_lt hdrw) (hu heq).symm
    | some =>
      rw [createStep_finds uuid now _ rfl hl]
      exact h
  | load attempt newMsgID existingID =>
    cases hl : s.messages.load existingID <;> simpa [createStep, hl] using h
  | delete => simp [createStep]
  | store | done => simpa [createStep] using h

omit [DecidableEq ι] in
lemma createStep_drawn (s : Store) (pc : CreatePC) :
    s.drawn ≤ (createStep uuid now data key i s pc).1.drawn := by
  cases pc with
  | loadOrStore =>
    cases hl : s.idempotencyIdx.lookup (idxKey (data i).ownerID key) <;>
      simp [createStep, hl]
  | load attempt newMsgID existingID =>
    cases hl : s.messages.load existingID <;> simp [createStep, hl]
  | delete | store | done => simp [createStep]

variable (now) in
omit [DecidableEq ι] in
lemma elsewhere_step (hu : Function.Injective uuid) (hown : (data i).ownerID = ownerID)
    {s : Store} (hdrw : n < s.drawn) {pc : CreatePC}
    (h : s.idempotencyIdx.lookup (idxKey ownerID key) ≠ some (uuid n))
    (hpc : Elsewhere (uuid n) pc) : Elsewhere (uuid n) (createStep uuid now data key i s pc).2 := by
  subst hown
  have hw : uuid s.drawn ≠ uuid n := fun heq => (Nat.ne_of_lt hdrw) (hu heq).symm
  cases hpc with
  | loadOrStore =>
    cases hl : s.idempotencyIdx.lookup (idxKey (data i).ownerID key) with
    | none =>
      rw [createStep_reserves uuid now _ rfl hl]
      exact .store hw
    | some =>
      rw [createStep_finds uuid now _ rfl hl]
      refine .load hw ?_
      rintro rfl
      exact h hl
  | @load newMsgID existingID hw' hexisting =>
    cases hl : s.messages.load existingID with
    | none => simpa [createStep, hl] using Elsewhere.delete hw'
    | some m =>
      have hm : m.id ≠ uuid n := by
        rw [Table.key_of_load hl]
        exact hexisting
      simpa [createStep, hl] using Elsewhere.done hm
  | delete hw' => simpa [createStep, createAttempt] using Elsewhere.store hw'
  | store hw' => exact .done hw'
  | done hm => exact .done hm

variable (now) in
lemma missed_step (hu : Function.Injective uuid) (hown : ∀ i, (data i).ownerID = ownerID)
    (j : ι) (h : Missed uuid key ownerID n winner i c) :
    Missed uuid key ownerID n winner i (stepAt (createStep uuid now data key) c j) := by
  refine ⟨h.ne, lt_of_lt_of_le h.drawn (createStep_drawn c.shared (c.loc j)), ?_, ?_⟩
  · by_cases hj : winner = j
    · subst hj
      refine .inr ?_
      rcases h.winner with hsto | ⟨m, hm, hdn⟩
      · exact ⟨newMessageFromData (data winner) (uuid n) (now winner), rfl,
          by simp [hsto, createStep]⟩
      · exact ⟨m, hm, by simp [hdn, createStep]⟩
    · rw [stepAt_loc_of_ne hj]
      exact h.winner
  · by_cases hj : i = j
    · subst hj
      refine .inr ?_
      rcases h.loser with ⟨newMsgID, hw, hdel⟩ | ⟨hidx, helse⟩
      · refine ⟨?_, ?_⟩
        · simp [hdel, createStep, hown]
        · simpa [hdel, createStep, createAttempt] using Elsewhere.loadOrStore
      · refine ⟨createStep_idx_ne hu (hown i) h.drawn _ hidx, ?_⟩
        simpa using elsewhere_step now hu (hown i) h.drawn hidx helse
    · rw [stepAt_loc_of_ne hj]
      rcases h.loser with hdel | ⟨hidx, helse⟩
      · exact .inl hdel
      · exact .inr ⟨createStep_idx_ne hu (hown j) h.drawn _ hidx, helse⟩

lemma missed_of_not_entryStored
    (hc : Reserved uuid now data key ownerID s c) (hearly : ¬ EntryStored i c) :
    ∃ winner, Missed uuid key ownerID s.drawn winner i
      (stepAt (createStep uuid now data key) c i) := by
  simp only [EntryStored, not_forall, not_not] at hearly
  obtain ⟨attempt, newMsgID, existingID, hi, hmiss⟩ := hearly
  cases hc with
  | free _ hall =>
    rw [hall i] at hi
    cases hi
  | pending winner hidx hms hdrw hwin hoth =>
    have hne : i ≠ winner := ne_of_apply_ne c.loc (by simp [hi, hwin])
    rcases hoth i hne with h | ⟨newMsgID', hw, h⟩
    · rw [h] at hi
      cases hi
    · rw [h] at hi
      cases hi
      refine ⟨winner, hne, ?_, .inl ?_, .inl ⟨newMsgID, hw, ?_⟩⟩
      · simpa [h, createStep, hmiss] using hdrw
      · rw [stepAt_loc_of_ne hne.symm, hwin]
      · simp [h, createStep, hmiss]
  | stored winner m hm hidx hms _ hwin hoth =>
    -- The message is there, so nobody misses it.
    have hfn : c.shared.messages.load m.id = some m := by
      rw [hms]
      exact Table.load_put_self
    have hne : i ≠ winner := ne_of_apply_ne c.loc (by simp [hi, hwin])
    rcases hoth i hne with (h | ⟨newMsgID', hw, h⟩) | h
    · rw [h] at hi
      cases hi
    · rw [h] at hi
      cases hi
      rw [hmiss] at hfn
      cases hfn
    · rw [h] at hi
      cases hi

omit [DecidableEq ι] in
lemma Missed.not_createdOnce (h : Missed uuid key ownerID n winner i c) :
    ¬ CreatedOnce now data key ownerID s c := by
  rintro ⟨w, id, _, _, hw, hoth⟩
  have hsm : ∀ j, ∃ created, c.loc j
      = .done (.ok (newMessageFromData (data w) id (now w)) created) := by
    intro j
    rcases eq_or_ne j w with rfl | hj
    · exact ⟨true, hw⟩
    · exact ⟨false, hoth j hj⟩
  obtain ⟨created, hwin⟩ := hsm winner
  obtain ⟨created', hloser⟩ := hsm i
  have hid : id = uuid n := by
    rcases h.winner with hsto | ⟨m, hm, hdn⟩
    · rw [hsto] at hwin
      cases hwin
    · rw [hdn] at hwin
      cases hwin
      exact hm
  rcases h.loser with ⟨_, _, hdel⟩ | ⟨_, helse⟩
  · rw [hdel] at hloser
    cases hloser
  · rw [hloser] at helse
    cases helse with
    | done hm => exact hm hid

end Runs

/-- **Atomicity of idempotent creation.**  However many callers create a message under one new key,
and however they interleave: if no caller looks for a message that has been reserved but not stored,
once all have returned there is one new message, one caller has created it and all others return it;
and a run that ends so has no such look. -/
theorem created_once_iff [DecidableEq ι] [Nonempty ι] (ownerID : String) (s : Store)
    (hrace : CreateRace uuid data idempotencyKey ownerID s) (schedule : List ι) :
    (Along (createStep uuid now data idempotencyKey) EntryStored schedule
          (allCreate idempotencyKey s) →
        Always (createStep uuid now data idempotencyKey)
          (fun c => AllReturned c → CreatedOnce now data idempotencyKey ownerID s c) schedule
          (allCreate idempotencyKey s))
      ∧ (CreatedOnce now data idempotencyKey ownerID s
            (run (createStep uuid now data idempotencyKey) schedule (allCreate idempotencyKey s)) →
          Along (createStep uuid now data idempotencyKey) EntryStored schedule
            (allCreate idempotencyKey s)) := by
  have hst : Reserved uuid now data idempotencyKey ownerID s
      (allCreate (ι := ι) idempotencyKey s) :=
    .free rfl fun _ => by simp [allCreate, createStart, hrace.key]
  refine ⟨fun halong => ?_, fun honce => ?_⟩
  · exact (along_always (fun _ _ => reserved_step hrace) hst halong).imp
      fun _ hc hall => hc.createdOnce hrace hall
  · by_contra hn
    obtain ⟨before, i, after, rfl, hearly, hbef⟩ := exists_of_not_along hn
    have hreserved := along_induction (fun _ _ => reserved_step hrace) hst hbef
    obtain ⟨winner, hmissed⟩ := missed_of_not_entryStored hreserved hearly
    rw [run_append, run_cons] at honce
    have hend := run_induction after
      (fun _ j => missed_step now hrace.injective hrace.owner j) hmissed
    exact hend.not_createdOnce honce

/-- A caller's data, and two callers with it. -/
def raceData : MessageData :=
  { ownerID := "u", senderID := "v", recipientIDs := ["u"], subject := "hi", body := "",
    headers := ∅, metadata := ∅, status := .delivered, folderID := folderInbox, attachments := [],
    threadID := "", replyToID := "", externalID := "", expiresAt := none, availableAt := none }

lemma raceData_race : CreateRace unaryID (fun _ : Bool => raceData) "k" "u" new where
  key := by decide
  owner := fun _ => rfl
  free := rfl
  unused := rfl
  injective := unaryID_injective

/-- The first caller stores its message before the second one looks for it. -/
theorem created_once_two_callers :
    CreatedOnce (fun _ : Bool => 0) (fun _ => raceData) "k" "u" Store.new
      (run (createStep unaryID (fun _ : Bool => 0) (fun _ => raceData) "k")
        [true, false, true, false] (allCreate "k" Store.new)) := by
  refine ((created_once_iff unaryID (fun _ : Bool => 0) (fun _ => raceData) "k" "u" Store.new
    raceData_race [true, false, true, false]).1 ?_).run ?_
  · refine ⟨fun _ _ _ h => CreatePC.noConfusion h, fun _ _ _ h => CreatePC.noConfusion h,
      fun _ _ _ h => CreatePC.noConfusion h, fun _ _ _ h => ?_, trivial⟩
    obtain ⟨⟩ := h
    exact Option.some_ne_none _
  · exact fun i => Bool.rec ⟨_, rfl⟩ ⟨_, rfl⟩ i

/-- The second caller looks for the message before the first one has stored it: both create one. -/
theorem created_twice_by_early_look :
    let c := run (createStep unaryID (fun _ : Bool => 0) (fun _ => raceData) "k")
      [true, false, false, false, true, false, false] (allCreate "k" Store.new)
    c.loc true = .done (.ok (newMessageFromData raceData (unaryID 0) 0) true)
      ∧ c.loc false = .done (.ok (newMessageFromData raceData (unaryID 2) 0) true)
      ∧ c.shared.messages.all.length = 2 :=
  ⟨rfl, rfl, rfl⟩

end Mailbox.Memory
