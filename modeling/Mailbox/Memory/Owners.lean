import Mailbox.Lib.Machine
import Mailbox.Memory.Edits

/-!
# Idempotency keys of several owners

`CreateMessageIdempotent` looks a call up under one text: the owner, a colon and the key.  Neither
part is checked for colons, so calls for two owners can meet under one text, and the second is given
the first owner's message.

A stored message found under a text was made by a call for its owner, with a key that gives that
text (`FiledKeys`).  So owners stay apart exactly when no two of the pairs in use give one text.
-/

namespace Mailbox.Memory

/-- The calls that create messages under a key, and those that delete messages. -/
inductive KeyCall where
  | create (now : Time) (data : MessageData) (idempotencyKey : String)
  | delete (now : Time) (id : String)
  | hardDelete (id : String)

/-- The owners and keys used so far are kept beside the store. -/
def KeyCall.step (uuid : ℕ → String) : Store × List (String × String) → KeyCall →
      (Store × List (String × String)) × Option IdempotentCreateResult
  | (s, used), create now data idempotencyKey =>
    let (result, s) := s.createMessageIdempotent uuid now data idempotencyKey
    ((s, (data.ownerID, idempotencyKey) :: used), some result)
  | (s, used), delete now id => (((Store.delete now id s).2, used), none)
  | (s, used), hardDelete id => (((s.hardDelete id).2, used), none)

/-- A call with an owner and a key from the given set. -/
def KeyCall.Within (pairs : Set (String × String)) : KeyCall → Prop
  | create _ data idempotencyKey => (data.ownerID, idempotencyKey) ∈ pairs
  | _ => True

/-- A creation returns a message of its owner, and an old one only if the owner has used the key. -/
def Apart : (Store × List (String × String)) × KeyCall × Option IdempotentCreateResult → Prop
  | ((_, used), .create _ data idempotencyKey, result) =>
    ∃ m created, result = some (.ok m created) ∧ m.ownerID = data.ownerID
      ∧ (created = false → (data.ownerID, idempotencyKey) ∈ used)
  | _ => True

namespace Store

variable {s : Store}

lemma idempotencyIdx_mutate (update : Update) (id : String) :
    (mutate update id s).2.idempotencyIdx = s.idempotencyIdx := by
  grind [mutate]

lemma idempotencyIdx_hardDelete (id : String) :
    (s.hardDelete id).2.idempotencyIdx = s.idempotencyIdx := by
  grind [hardDelete]

end Store

variable {uuid : ℕ → String} {pairs : Set (String × String)}

/-- Every indexed ID has been drawn, and a message stored under it was made for its owner with a key
that gives the indexed text. -/
structure FiledKeys (uuid : ℕ → String) (pairs : Set (String × String))
    (s : Store × List (String × String)) : Prop where
  within : ∀ p ∈ s.2, p ∈ pairs
  drawn : ∀ {text id}, s.1.idempotencyIdx.lookup text = some id → ∃ n < s.1.drawn, id = uuid n
  made : ∀ {text id m}, s.1.idempotencyIdx.lookup text = some id → s.1.messages.load id = some m →
    ∃ key, (m.ownerID, key) ∈ s.2 ∧ text = Store.idxKey m.ownerID key

/-- Deletions leave the index alone, and no message changes its owner. -/
lemma FiledKeys.of_edits (now : Time) {s t : Store} {used : List (String × String)}
    {ids : Set String} (h : FiledKeys uuid pairs (s, used)) (hedits : Edits now ids s t)
    (hidx : t.idempotencyIdx = s.idempotencyIdx) : FiledKeys uuid pairs (t, used) where
  within := h.within
  drawn := by
    simp only [hidx, hedits.drawn]
    exact h.drawn
  made := by
    intro text id m hid hld
    obtain ⟨orig, hor, hct⟩ := hedits.content hld
    rw [eq_of_content Message.ownerID (fun _ => rfl) hct]
    exact h.made (hidx ▸ hid) hor

/-- One call: where no two pairs give the same text, it keeps the owners apart. -/
lemma FiledKeys.step (hu : Function.Injective uuid) (hks : ∀ p ∈ pairs, p.2 ≠ "")
    (hinj : Set.InjOn (fun p => Store.idxKey p.1 p.2) pairs)
    {s : Store × List (String × String)} (h : FiledKeys uuid pairs s) (call : KeyCall)
    (hcl : call.Within pairs) :
    FiledKeys uuid pairs (call.step uuid s).1 ∧ Apart (s, call, (call.step uuid s).2) := by
  cases call with
  | delete now id =>
    exact ⟨h.of_edits now (Store.edits_mutate Update.editsAt_delete id)
      (Store.idempotencyIdx_mutate _ id), trivial⟩
  | hardDelete id =>
    exact ⟨h.of_edits 0 (Store.edits_hardDelete id) (Store.idempotencyIdx_hardDelete id), trivial⟩
  | create now data key =>
    have hwithin : ∀ p ∈ (data.ownerID, key) :: s.2, p ∈ pairs :=
      List.forall_mem_cons.mpr ⟨hcl, h.within⟩
    by_cases hst : ∃ id m, s.1.idempotencyIdx.lookup (Store.idxKey data.ownerID key) = some id
        ∧ s.1.messages.load id = some m
    · obtain ⟨id, m, hidx, hld⟩ := hst
      obtain ⟨key', hmem, htext⟩ := h.made hidx hld
      have hpair := hinj hcl (h.within _ hmem) htext
      simp only [KeyCall.step,
        Store.createMessageIdempotent_of_stored uuid now (hks _ hcl) hidx hld]
      refine ⟨⟨hwithin, fun hid => ?_, fun hid hm => ?_⟩, m, false, rfl,
        (congrArg Prod.fst hpair).symm, fun _ => hpair ▸ hmem⟩
      · obtain ⟨n, hn, rfl⟩ := h.drawn hid
        exact ⟨n, Nat.lt_succ_of_lt hn, rfl⟩
      · obtain ⟨key', hmem, htext⟩ := h.made hid hm
        exact ⟨key', List.mem_cons_of_mem _ hmem, htext⟩
    · obtain ⟨n, hn, idx, hlk, hmk⟩ :=
        Store.createMessageIdempotent_of_not_stored uuid now data s.1 (hks _ hcl)
      simp only [KeyCall.step, show s.1.createMessageIdempotent uuid now data key = _ from
        hmk s.1.messages hst]
      refine ⟨⟨hwithin, fun {text id} hid => ?_, fun {text id m} hid hm => ?_⟩, _, true, rfl, rfl,
        nofun⟩
      all_goals
        simp only [hlk] at hid
        split_ifs at hid with htext
      · exact ⟨n, Nat.lt_succ_self n, (Option.some.inj hid).symm⟩
      · obtain ⟨n', hn', rfl⟩ := h.drawn hid
        exact ⟨n', Nat.lt_succ_of_lt (Nat.lt_of_lt_of_le hn' hn), rfl⟩
      · cases hid
        obtain rfl := Option.some.inj (Table.load_put_self.symm.trans hm)
        exact ⟨key, List.mem_cons_self, htext⟩
      · -- An ID drawn earlier is not the new one.
        obtain ⟨n', hn', rfl⟩ := h.drawn hid
        have hne : uuid n' ≠ (newMessageFromData data (uuid n) now).id := fun heq =>
          (Nat.lt_of_lt_of_le hn' hn).ne (hu heq)
        obtain ⟨key', hmem, htext⟩ := h.made hid ((Table.load_put_of_ne hne).symm.trans hm)
        exact ⟨key', List.mem_cons_of_mem _ hmem, htext⟩

/-- A message with nothing but an owner. -/
def emptyData (ownerID : String) : MessageData :=
  ⟨ownerID, "", [], "", "", ∅, ∅, .sent, folderInbox, [], [], "", "", "", none, {}, none, {}⟩

/-- **Idempotency keys keep owners apart** in all runs with some pairs of owners and keys, exactly
when no two of these pairs give the same text. -/
theorem apart_iff_injOn (huuid : Function.Injective uuid) (hkeys : ∀ p ∈ pairs, p.2 ≠ "") :
    (∀ calls : List KeyCall, (∀ call ∈ calls, call.Within pairs) →
        ∀ e ∈ Machine.trace (fun s call => call.step uuid s) calls (Store.new, []), Apart e)
      ↔ Set.InjOn (fun p => Store.idxKey p.1 p.2) pairs := by
  constructor
  · rintro hapart ⟨o, k⟩ hp ⟨o', k'⟩ hp' htext
    obtain ⟨m, created, hres, hown, -⟩ :=
      hapart [.create 0 (emptyData o) k, .create 0 (emptyData o') k']
        (by simp [KeyCall.Within, emptyData, hp, hp']) _ (List.mem_cons_of_mem _ List.mem_cons_self)
    have hno : Store.new.idempotencyIdx.lookup (Store.idxKey o k) = none := rfl
    simp only [KeyCall.step, Store.createMessageIdempotent_of_fresh uuid 0 (emptyData o)
      (hkeys _ hp) hno] at hres
    rw [Store.createMessageIdempotent_of_stored uuid 0 (hkeys _ hp') ?hidx Table.load_put_self]
      at hres
    case hidx =>
      rw [show Store.idxKey (emptyData o').ownerID k' = _ from htext.symm]
      exact AList.lookup_insert _
    cases hres
    obtain rfl : o = o' := hown
    simpa [Store.idxKey] using htext
  · intro hinj calls hcalls
    exact Machine.trace_forall (fun s call hcl (h : FiledKeys uuid pairs s) =>
      h.step huuid hkeys hinj call hcl) hcalls ⟨nofun, nofun, nofun⟩

/-- Ann's and Bob's calls with the same key. -/
theorem apart_iff_injOn_two : Set.InjOn (fun p => Store.idxKey p.1 p.2) {("ann", "k"), ("bob", "k")}
      ∧ ∀ e ∈ Machine.trace (fun s call => call.step unaryID s)
          [.create 0 (emptyData "ann") "k", .create 0 (emptyData "bob") "k"] (Store.new, []),
        Apart e := by
  have hinj : Set.InjOn (fun p => Store.idxKey p.1 p.2) {("ann", "k"), ("bob", "k")} := by
    delta Set.InjOn
    simp [Store.idxKey]
  exact ⟨hinj, (apart_iff_injOn unaryID_injective (by simp)).mpr hinj _
    (by simp [KeyCall.Within, emptyData])⟩

/-- The owner `a:b` asks for the key `c`, and is given the message that `a` has under `b:c`. -/
theorem apart_colon_fails : ∃ m, (Machine.trace (fun s call => KeyCall.step unaryID s call)
        [.create 0 (emptyData "a") "b:c", .create 0 (emptyData "a:b") "c"] (Store.new, [])).map
          (fun e => e.2.2) = [some (.ok m true), some (.ok m false)] ∧ m.ownerID = "a" :=
  ⟨_, rfl, rfl⟩

end Mailbox.Memory
