import Mailbox.Memory.Write

/-!
# Creating messages in the in-memory store

`store/memory/create.go`, run without interference: `CreateMessage`, `CreateMessageIdempotent`
with its loop over the idempotency index, and the maintenance deletes.  An index entry whose message
is gone is stale; the loop removes it and tries once more.

For a key that is not in the index, `createMessageIdempotent_of_fresh` says all there is to say:
one new message under the next ID.
-/

namespace Mailbox.Memory

namespace Store

variable (uuid : ℕ → String) (now : Time)

/-- `CreateMessage` creates a new message from the given data. -/
def createMessage (data : MessageData) (s : Store) : Message × Store :=
  let m := newMessageFromData data (uuid s.drawn) now
  (m, { s with
    messages := s.messages.put m
    externalIdx :=
      if m.externalID = "" then s.externalIdx else s.externalIdx.insert m.externalID m.id
    drawn := s.drawn + 1 })

/-- The loop of `CreateMessageIdempotent`: the existing message, or the ID reserved for a new one.
When the attempts run out, the last ID drawn is used. -/
def reserve (idxKey : String) : ℕ → String → Store → (Message ⊕ String) × Store
  | 0, newMsgID, s => (.inr newMsgID, s)
  | attempts + 1, _, s =>
    let newMsgID := uuid s.drawn
    let s := { s with drawn := s.drawn + 1 }
    match s.idempotencyIdx.lookup idxKey with
    | none =>
      (.inr newMsgID, { s with idempotencyIdx := s.idempotencyIdx.insert idxKey newMsgID })
    | some existingID =>
      match s.messages.load existingID with
      | some m => (.inl m, s)
      | none =>
        reserve idxKey attempts newMsgID { s with idempotencyIdx := s.idempotencyIdx.erase idxKey }

/-- The key of the idempotency index. -/
def idxKey (ownerID idempotencyKey : String) : String := ownerID ++ ":" ++ idempotencyKey

/-- `CreateMessageIdempotent` creates a message or returns the existing one, and whether it was
created. -/
def createMessageIdempotent (data : MessageData) (idempotencyKey : String) (s : Store) :
    IdempotentCreateResult × Store :=
  if idempotencyKey = "" then (.err (.sentinel .invalidIdempotencyKey), s)
  else
    match reserve uuid (idxKey data.ownerID idempotencyKey) 2 "" s with
    | (.inl m, s) => (.ok m false, s)
    | (.inr newMsgID, s) =>
      let m := newMessageFromData data newMsgID now
      (.ok m true, s.put m)

variable {key : String} {s : Store}

/-- A key that is not in the index gets a new message under the next ID. -/
lemma createMessageIdempotent_of_fresh (data : MessageData) (hk : key ≠ "")
    (hfr : s.idempotencyIdx.lookup (idxKey data.ownerID key) = none) :
    createMessageIdempotent uuid now data key s =
      (.ok (newMessageFromData data (uuid s.drawn) now) true,
        { s with
          messages := s.messages.put (newMessageFromData data (uuid s.drawn) now)
          idempotencyIdx :=
            s.idempotencyIdx.insert (idxKey data.ownerID key) (uuid s.drawn)
          drawn := s.drawn + 1 }) := by
  simp [createMessageIdempotent, reserve, hk, hfr]

lemma createMessageIdempotent_of_stored {data : MessageData} {id : String}
    {m : Message} (hk : key ≠ "")
    (hidx : s.idempotencyIdx.lookup (idxKey data.ownerID key) = some id)
    (hld : s.messages.load id = some m) : createMessageIdempotent uuid now data key s
      = (.ok m false, { s with drawn := s.drawn + 1 }) := by
  simp [createMessageIdempotent, reserve, hk, hidx, hld]

/-- Without a stored message under the text, a new one is filed there; which ID it has depends on
the index alone. -/
lemma createMessageIdempotent_of_not_stored (data : MessageData) (s : Store)
    (hk : key ≠ "") : ∃ n ≥ s.drawn, ∃ idx : AList fun _ : String => String,
      (∀ text, idx.lookup text = if text = idxKey data.ownerID key then some (uuid n)
        else s.idempotencyIdx.lookup text)
      ∧ ∀ t : Messages, (¬ ∃ id m, s.idempotencyIdx.lookup (idxKey data.ownerID key) = some id
            ∧ t.load id = some m) →
        createMessageIdempotent uuid now data key { s with messages := t }
          = (.ok (newMessageFromData data (uuid n) now) true,
            ⟨t.put (newMessageFromData data (uuid n) now), idx, s.externalIdx, n + 1⟩) := by
  cases hidx : s.idempotencyIdx.lookup (idxKey data.ownerID key) with
  | none =>
    refine ⟨s.drawn, le_rfl, _, fun text => ?_, fun t _ => by
      simp [createMessageIdempotent, reserve, hk, hidx]; rfl⟩
    split_ifs with htext
    · rw [htext, AList.lookup_insert]
    · exact AList.lookup_insert_ne htext
  | some id =>
    -- The entry is stale: it is removed, and the second attempt files the message.
    refine ⟨s.drawn + 1, Nat.le_succ _, _, fun text => ?_, fun t h => by
      have hld := Option.eq_none_iff_forall_not_mem.mpr fun m hm => h ⟨id, m, rfl, hm⟩
      simp [createMessageIdempotent, reserve, hk, hidx, hld]; rfl⟩
    split_ifs with htext
    · rw [htext, AList.lookup_insert]
    · rw [AList.lookup_insert_ne htext, AList.lookup_erase_ne htext]

lemma createMessageIdempotent_cases (data : MessageData) (key : String) (s : Store) :
    let r := createMessageIdempotent uuid now data key s
    s.drawn ≤ r.2.drawn
      ∧ ((∃ e, r.1 = .err e) ∧ r.2.messages = s.messages
        ∨ (∃ m, r.1 = .ok m false) ∧ r.2.messages = s.messages
        ∨ ∃ n, s.drawn ≤ n ∧ n < r.2.drawn
            ∧ r.1 = .ok (newMessageFromData data (uuid n) now) true
            ∧ r.2.messages = s.messages.put (newMessageFromData data (uuid n) now)) := by
  by_cases hk : key = ""
  · rw [createMessageIdempotent, if_pos hk]
    exact ⟨le_rfl, .inl ⟨⟨_, rfl⟩, rfl⟩⟩
  · by_cases hst : ∃ id m, s.idempotencyIdx.lookup (idxKey data.ownerID key)
        = some id ∧ s.messages.load id = some m
    · obtain ⟨id, m, hidx, hld⟩ := hst
      rw [createMessageIdempotent_of_stored uuid now hk hidx hld]
      exact ⟨Nat.le_succ _, .inr (.inl ⟨⟨m, rfl⟩, rfl⟩)⟩
    · obtain ⟨n, hn, _, _, hmk⟩ := createMessageIdempotent_of_not_stored uuid now data s hk
      rw [show createMessageIdempotent _ _ data key s = _ from hmk s.messages hst]
      exact ⟨Nat.le_succ_of_le hn, .inr (.inr ⟨n, hn, Nat.lt_succ_self n, rfl, rfl⟩)⟩

/-! ## Maintenance -/

/-- `DeleteMessagesByIDs` deletes the specified messages and returns the IDs that were actually
deleted. -/
def deleteMessagesByIDs : List String → Store → List String × Store
  | [], s => ([], s)
  | id :: ids, s =>
    match s.messages.load id with
    | none => deleteMessagesByIDs ids s
    | some _ =>
      let (deleted, s) := deleteMessagesByIDs ids (s.remove id)
      (id :: deleted, s)

lemma all_deleteMessagesByIDs (ids : List String) (s : Store) :
    (deleteMessagesByIDs ids s).2.messages.all
      = s.messages.all.filter fun m => decide (m.id ∉ ids) := by
  induction ids generalizing s with
  | nil => simp [deleteMessagesByIDs]
  | cons id ids ih =>
    rw [deleteMessagesByIDs]
    cases hld : s.messages.load id with
    | none =>
      have hne := Table.load_eq_none_iff.mp hld
      simp only [ih]
      refine List.filter_congr fun m hm => ?_
      simp [hne m hm]
    | some =>
      simp only [ih, Table.delete, List.filter_filter]
      refine List.filter_congr fun m _ => ?_
      simp [Bool.and_comm]

/-- Every ID that is reported stands for a message that is gone. -/
lemma length_deleteMessagesByIDs (ids : List String) (s : Store) :
    (deleteMessagesByIDs ids s).1.length + (deleteMessagesByIDs ids s).2.messages.all.length
      = s.messages.all.length := by
  induction ids generalizing s with
  | nil => exact Nat.zero_add _
  | cons id ids ih =>
    rw [deleteMessagesByIDs]
    cases hld : s.messages.load id with
    | none => exact ih s
    | some =>
      have hlen := Table.length_delete hld
      have hih : _ = (s.messages.delete id).all.length :=
        ih (s.remove id)
      simp only [List.length_cons]
      omega

/-- The shape of the maintenance calls: collect IDs in a first pass, delete them in a second one,
and count. -/
def deleteCollected (expired : Message → Bool) (s : Store) : ℕ × Store :=
  let (deleted, s) := deleteMessagesByIDs ((s.messages.all.filter expired).map Message.id) s
  (deleted.length, s)

variable (cutoff : Time)

def expiredTrash (m : Message) : Bool :=
  !m.isDraft && decide (m.folderID = folderTrash) && decide (m.updatedAt < cutoff)

def expiredMessage (m : Message) : Bool :=
  !m.isDraft && decide (m.createdAt < cutoff)

def expiredTTL (now : Time) (m : Message) : Bool :=
  !m.isDraft && m.expiresAt.any fun expiresAt => decide (expiresAt < now)

def deleteExpiredTrash : Store → ℕ × Store := deleteCollected (expiredTrash cutoff)

def deleteExpiredMessages : Store → ℕ × Store :=
  deleteCollected (expiredMessage cutoff)

def deleteTTLExpiredMessages (now : Time) : Store → ℕ × Store := deleteCollected (expiredTTL now)

end Store

/-- IDs of increasing length, one possible sequence of new IDs. -/
def unaryID (n : ℕ) : String := String.ofList (List.replicate (n + 1) 'i')

lemma unaryID_injective : Function.Injective unaryID := by
  intro n m h
  have hlen := congrArg String.length h
  simpa [unaryID] using hlen

lemma unaryID_ne_empty (n : ℕ) : unaryID n ≠ "" := by
  intro h
  have hlen := congrArg String.length h
  simp [unaryID] at hlen

end Mailbox.Memory
