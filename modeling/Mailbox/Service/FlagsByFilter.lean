import Mailbox.Service.BulkRefinement
import Mailbox.Service.Edits
import Mailbox.Service.StatsRuns

/-!
# Flags of one message, and of every message that matches

`UpdateFlags` and `UpdateByFilter` take the same flags.  The first moves a message for the archived
flag and marks it for the read flag; the second never moves a message, and marks what it comes to as
unread when it is not told what to mark it as.

The store's bulk operation comes to every match.  The paginated loop — taken on a store without
bulk operations, and without a read flag — comes to a match if every page that ends before it keeps
its place (`Reached`).  **`updateByFilter_agrees_iff`** puts this together.
-/

namespace Mailbox.Service

open Memory MemoryMailbox

namespace MemoryMailbox

variable (m : MemoryMailbox)

/-- The messages of the user that match, before the call. -/
def matching (filters : List Filter) (s : Store) : List Message :=
  s.messages.all.filter (selects m.service.now (scopedFilters m.userID filters))

/-- The change that the paginated loop makes. -/
def flagOp (flags : Flags) : BulkOp := .updateRead (flags.read.getD false)

end MemoryMailbox

/-- "Fast path: native bulk update." -/
def fastPath (bulkUpdater : Bool) (flags : Flags) : Bool := bulkUpdater && flags.read.isSome

/-- The read state and the folder of a stored message. -/
def flagState (id : String) (s : Store) : Option (Bool × String) :=
  (s.messages.load id).map fun msg => (msg.isRead, msg.folderID)

/-- Every full page with more matches to come ends at a match that no other match ties with. -/
def TieFree (limit : ℕ) (matched : List Message) : Prop :=
  ∀ j ≥ 1, j * limit < matched.length → ∃ b, Boundary Message.createdAt matched (j * limit) b

/-- Every page that ends before the message ends at a match that is still selected once it has been
changed. -/
def Reached (now : Time) (u : String) (fs : List Filter) (limit : ℕ) (op : BulkOp) (s : Store)
    (msg : Message) : Prop :=
  ∀ j ≥ 1, j * limit < (op.selected now u fs s).length →
    ∀ b, Boundary Message.createdAt (op.selected now u fs s) (j * limit) b →
      b.createdAt ≤ msg.createdAt ∨ selects now (op.scope u fs) (op.effect now b) = true

/-- However the map is visited, once enough pages are through every match has the read state and the
folder that `UpdateFlags` on it alone would have given it. -/
def FlagsAgree (m : MemoryMailbox) (bulkUpdater : Bool) (filters : List Filter) (flags : Flags)
    (i : Instance) : Prop :=
  ∀ order : Ranges, order.Perm → ∃ enough, ∀ fuel ≥ enough,
    ∀ msg ∈ m.matching filters i.store,
      flagState msg.id (m.updateByFilterOn bulkUpdater order fuel filters flags i).state.store
        = flagState msg.id (m.updateFlags msg.id flags i).state.store

section Condition

variable (m : MemoryMailbox) (bulkUpdater : Bool) (filters : List Filter) (flags : Flags)
  (s : Store)

/-- The matches that the call comes to do not depend on how the map is visited. -/
def MemoryMailbox.Definite : Prop :=
  fastPath bulkUpdater flags = true ∨ TieFree m.maxQueryLimit.toNat (m.matching filters s)

/-- The call comes to the match, and marks it. -/
def MemoryMailbox.Marks (msg : Message) : Prop :=
  fastPath bulkUpdater flags = true ∨ Reached m.service.now m.userID filters m.maxQueryLimit.toNat
    (flagOp flags) s msg

/-- Every match is in the folder that the archived flag asks for; and the loop would not change its
read state, or comes to it just if there is a read flag. -/
def FlagsOK : Prop :=
  m.checkAccess = .ok () → ∀ msg ∈ m.matching filters s,
    flaggedFolder msg flags.archived = msg.folderID
      ∧ (msg.isRead = flags.read.getD false ∨ m.Definite bulkUpdater filters flags s
        ∧ (flags.read.isSome = true ↔ m.Marks bulkUpdater filters flags s msg))

end Condition

/-! ## The loop and the matches it comes to -/

variable {now : Time} {s : Store} {filters : List Filter} {fuel : ℕ} {ranges : Ranges}

section Loop

variable {u : String} {fs : List Filter} {limit : ℕ} {op : BulkOp}

/-- **The matches that the loop comes to**, when no page ends at a tie. -/
theorem fallback_reached (hlim : 1 ≤ limit) (hids : s.messages.Named)
    (hties : TieFree limit (op.selected now u fs s)) (hrng : ranges.Perm)
    (fuel : ℕ) (hfuel : (op.selected now u fs s).length < fuel) :
    ∃ n t ids, op.fallback now u fs limit fuel ranges s = some (n, { s with messages := t })
      ∧ Table.Changed (op.effect now) ids s.messages t
      ∧ ∀ msg ∈ op.selected now u fs s, msg.id ∈ ids ↔ Reached now u fs limit op s msg := by
  classical
  by_cases hlost : ∃ j, 1 ≤ j ∧ j * limit < (op.selected now u fs s).length
      ∧ ∃ b, Boundary Message.createdAt (op.selected now u fs s) (j * limit) b
        ∧ selects now (op.scope u fs) (op.effect now b) = false
  · -- The loop stops after the first page that loses its place.
    obtain ⟨hj, hmr, b, hb, hn⟩ := Nat.find_spec hlost
    generalize hfd : Nat.find hlost = j at *
    have hkeeps : ∀ i ≥ 1, i < j → ∀ b',
        Boundary Message.createdAt (op.selected now u fs s) (i * limit) b' →
          selects now (op.scope u fs) (op.effect now b') = true := by
      intro i hi hij b' hb'
      by_contra hn'
      exact Nat.find_min hlost (hfd ▸ hij)
        ⟨hi, (Nat.mul_le_mul_right _ hij.le).trans_lt hmr, b', hb', by simpa using hn'⟩
    obtain ⟨t, hrun, hchg⟩ := fallback_of_lostPlace hlim hids hb hn hj hmr (fun i hi hij => by
        obtain ⟨b', hb'⟩ := hties i hi ((Nat.mul_le_mul_right _ hij.le).trans_lt hmr)
        exact ⟨b', hb', hkeeps i hi hij b' hb'⟩)
      hrng fuel (lt_of_le_of_lt (Nat.le_mul_of_pos_right j hlim) (hmr.trans hfuel))
    refine ⟨_, t, _, hrun, hchg, fun msg hmsg => ?_⟩
    constructor
    · intro hsn i hi _ b' hb'
      have hmem : msg ∈ seen (op.selected now u fs s) (some b) :=
        eq_of_id_mem (mem_selected.mp hmsg).1 (fun _ => mem_all_of_mem_seen) hsn
      have hle := of_decide_eq_true (List.mem_filter.mp hmem).2
      rcases Nat.lt_or_ge i j with hij | hij
      · exact .inr (hkeeps i hi hij b' hb')
      · exact .inl ((hb.anti hb' (Nat.mul_le_mul_right _ hij)).trans hle)
    · intro hreached
      rcases hreached j hj hmr b hb with hle | hstill
      · exact List.mem_map_of_mem (List.mem_filter.mpr ⟨hmsg, decide_eq_true hle⟩)
      · rw [hn] at hstill
        cases hstill
  · have hstill : ∀ j ≥ 1, j * limit < (op.selected now u fs s).length → ∀ b,
        Boundary Message.createdAt (op.selected now u fs s) (j * limit) b →
          selects now (op.scope u fs) (op.effect now b) = true := by
      intro j hj hmr b hb
      by_contra hn
      exact hlost ⟨j, hj, hmr, b, hb, by simpa using hn⟩
    obtain ⟨t, hrun, hchg⟩ := fallback_of_keepsPlace hlim hids (fun j hj hmr => by
        obtain ⟨b, hb⟩ := hties j hj hmr
        exact ⟨b, hb, hstill j hj hmr b hb⟩)
      hrng fuel hfuel
    refine ⟨_, t, _, hrun, hchg, fun msg hmsg => iff_of_true (List.mem_map_of_mem hmsg) ?_⟩
    exact fun j hj hmr b hb => .inr (hstill j hj hmr b hb)

end Loop

/-! ## What the calls make of the flags -/

section Calls

variable {m : MemoryMailbox} {i : Instance} {id : String} {msg : Message} {flags : Flags}

lemma mem_matching (h : msg ∈ m.matching filters i.store) :
    msg ∈ i.store.messages.all ∧ Owns m.userID msg.id i.store msg := by
  obtain ⟨hmem, hsel⟩ := List.mem_filter.mp h
  rw [selects, Bool.and_eq_true, Bool.and_eq_true] at hsel
  obtain ⟨hown, hdr, _⟩ := (matchesFilters_scopedFilters m.userID filters msg).mp (by simp [hsel])
  exact ⟨hmem, Table.load_of_mem hmem, hown, hdr⟩

/-- The archived flag moves a message of the user; nothing is in the way. -/
lemma result_applyArchived (hpub : ∀ event, m.publishFault event = none) (hid : id ≠ "")
    (hon : Owns m.userID id i.store msg) (archived : Option Bool) :
    (m.applyArchived id msg archived i).result = .ok () := by
  have hmv : ∀ folderID, (Store.moveToFolder m.service.now id folderID {} i.store).1 = .ok () := by
    intro folderID
    simp [Store.moveToFolder, hid, Store.mutate_of_load hid hon.1 hon.2.2, Update.moveToFolder]
  cases archived with
  | none => rfl
  | some b =>
    have hres : (m.moveAndPublish id msg.folderID (flaggedFolder msg (some b)) (!msg.isRead) {}
        i).result = .ok () := by
      rw [MemoryMailbox.moveAndPublish, Service.moveAndPublish]
      split_ifs
      · rfl
      · rw [(opAndPublish_effect hpub _ _ i).2.2, hmv]
    simp only [applyArchived, Reply.wrap, hres]
    rfl

/-- `UpdateFlags` gives a message the flags it is told, and leaves the others. -/
lemma flagState_updateFlags (hpub : ∀ event, m.publishFault event = none)
    (haccess : m.checkAccess = .ok ()) (hid : id ≠ "") (hon : Owns m.userID id i.store msg)
    (flags : Flags) : flagState id (m.updateFlags id flags i).state.store
      = some (flags.read.getD msg.isRead, flaggedFolder msg flags.archived) := by
  rw [updateFlags, guarded, haccess]
  split_ifs with hno
  · simp [flagState, hno, Reply.done, hon.1, flaggedFolder]
  · have hg : getAndVerify m.userID id i.store = .ok msg := by
      simp [getAndVerify, get_of_load hid hon.1 hon.2.2, hon.2.1]
    have hok := result_applyArchived hpub hid hon flags.archived
    obtain ⟨msg', hon', hfo, hsm⟩ := (relocated_applyArchived hpub hid hon flags.archived).2 hok
    simp only [verified, hg, Reply.andThen, hok]
    generalize (m.applyArchived id msg flags.archived i).state = i' at hon' ⊢
    rw [← hfo, ← hsm]
    have hk : msg'.id = id := Table.key_of_load hon'.1
    have hmark : ∀ b, flagState id (Store.markRead m.service.now id b i'.store).2
        = some (b, msg'.folderID) := by
      intro b
      rw [Store.markRead, Store.mutate_of_load hid hon'.1 hon'.2.2]
      simp [flagState, Update.markRead, hk]
    rcases flags.read with _ | _ | _
    · simp [applyRead, Reply.done, flagState, hon'.1]
    · exact hmark false
    · show flagState id (m.opAndPublish _ _ i').state.store = _
      rw [(opAndPublish_effect hpub _ _ i').1]
      exact hmark true

/-- The store's own bulk update marks every match, and moves none. -/
lemma flagState_native (read : Bool) (hmsg : msg ∈ m.matching filters i.store) :
    flagState msg.id ((BulkOp.updateRead read).native m.service.now m.userID filters i.store).2
      = some (read, msg.folderID) := by
  obtain ⟨hmem, hsel⟩ := List.mem_filter.mp hmsg
  rw [flagState, load_native, Table.load_of_mem hmem]
  simp [BulkOp.hits, hsel, BulkOp.nativeEffect]

/-- What has been marked as asked for stays so, whatever else the loop comes to. -/
lemma flagState_pageLoop {folderID : String} {read : Bool}
    (h : flagState id s = some (read, folderID)) (fs : List Filter) (limit : ℤ) (order : Ranges)
    (fuel : ℕ) :
    flagState id (pageLoop now fs limit ((BulkOp.updateRead read).single now) fuel order "" 0 s).2
        = some (read, folderID) := by
  have hone : ∀ (s : Store) (id' : String), flagState id s = some (read, folderID) → True →
      flagState id (Store.markRead now id' read s).2 = some (read, folderID) := by
    intro s id' h _
    rw [Store.markRead, Store.mutate]
    split_ifs
    · exact h
    cases hld : s.messages.load id' with
    | none => exact h
    | some orig =>
      simp only
      split_ifs
      · exact h
      · by_cases heq : id = orig.id
        · rw [flagState, heq, Table.key_of_load hld, hld] at h
          simpa [Update.markRead, flagState, heq] using congrArg (Option.map Prod.snd) h
        · refine Eq.trans (congrArg (Option.map _) (Table.load_put_of_ne ?_)) h
          exact heq
  exact pageLoop_induction hone (fun _ _ _ _ _ _ _ _ => trivial) fuel "" 0 h

section

variable {bulkUpdater : Bool} (haccess : m.checkAccess = .ok ())

include haccess

lemma updateByFilterOn_paged
    (hslow : fastPath bulkUpdater flags = false) (order : Ranges) (fuel : ℕ) :
    m.updateByFilterOn bulkUpdater order fuel filters flags i
      = let r := pageLoop m.service.now (scopedFilters m.userID filters) m.maxQueryLimit
          ((flagOp flags).single m.service.now) fuel order "" 0 i.store
        ⟨r.1.map (·, none), i.setStore r.2, []⟩ := by
  unfold updateByFilterOn flagOp
  unfold fastPath at hslow
  rw [haccess]
  revert hslow
  cases flags.read <;> cases bulkUpdater <;> simp

/-- **What `UpdateByFilter` makes of a match**: it is marked if the call comes to it, and stays
where it is. -/
theorem flagState_updateByFilterOn
    (hlim : 0 < m.maxQueryLimit) (hi : i.store.messages.Named)
    (hdef : m.Definite bulkUpdater filters flags i.store) {order : Ranges}
    (hpm : order.Perm) (hfuel : (m.matching filters i.store).length < fuel) :
    (m.updateByFilterOn bulkUpdater order fuel filters flags i).result.isSome = true
      ∧ ∀ msg ∈ m.matching filters i.store, ∃ isRead,
        flagState msg.id (m.updateByFilterOn bulkUpdater order fuel filters flags i).state.store
            = some (isRead, msg.folderID)
          ∧ (m.Marks bulkUpdater filters flags i.store msg → isRead = flags.read.getD false)
          ∧ (¬m.Marks bulkUpdater filters flags i.store msg → isRead = msg.isRead) := by
  cases hpath : fastPath bulkUpdater flags with
  | true =>
    obtain ⟨rfl, hsome⟩ := Bool.and_eq_true_iff.mp hpath
    obtain ⟨read, hrd⟩ := Option.isSome_iff_exists.mp hsome
    simp only [updateByFilterOn, bulk, haccess, hrd]
    refine ⟨rfl, fun msg hmsg => ⟨read, flagState_native read hmsg, fun _ => rfl, ?_⟩⟩
    exact fun hn => absurd (Or.inl hpath) hn
  | false =>
    have hties := hdef.resolve_left (by simp [hpath])
    rw [updateByFilterOn_paged haccess hpath]
    have hfallback : 1 ≤ m.maxQueryLimit.toNat := by omega
    obtain ⟨n, t, ids, hrun, hchg, hreached⟩ := fallback_reached hfallback hi
      (show TieFree _ ((flagOp flags).selected _ _ _ _) from hties) hpm fuel hfuel
    have hpages := BulkOp.fallback_eq_some_iff.mp hrun
    rw [Int.toNat_of_nonneg hlim.le, show (flagOp flags).scope m.userID filters
      = scopedFilters m.userID filters from rfl] at hpages
    rw [hpages]
    refine ⟨rfl, fun msg hmsg => ?_⟩
    have hmem := hchg.mem_iff.mpr ⟨msg, (mem_matching hmsg).1, rfl⟩
    have hmarks : m.Marks bulkUpdater filters flags i.store msg ↔ msg.id ∈ ids := by
      simp [MemoryMailbox.Marks, hpath, hreached msg hmsg]
    by_cases hin : msg.id ∈ ids
    · rw [if_pos hin] at hmem
      refine ⟨flags.read.getD false, ?_, fun _ => rfl, fun hn => absurd (hmarks.mpr hin) hn⟩
      exact congrArg (Option.map _) (Table.load_of_mem hmem)
    · rw [if_neg hin] at hmem
      refine ⟨msg.isRead, ?_, fun hmark => absurd (hmarks.mp hmark) hin, fun _ => rfl⟩
      exact congrArg (Option.map _) (Table.load_of_mem hmem)

/-- Without knowing what the call comes to: a match that the loop would not change is as it was. -/
lemma flagState_of_marked
    (hmsg : msg ∈ m.matching filters i.store) (hrd : msg.isRead = flags.read.getD false)
    (order : Ranges) (fuel : ℕ) :
    flagState msg.id (m.updateByFilterOn bulkUpdater order fuel filters flags i).state.store
      = some (msg.isRead, msg.folderID) := by
  cases hpath : fastPath bulkUpdater flags with
  | true =>
    obtain ⟨rfl, hsome⟩ := Bool.and_eq_true_iff.mp hpath
    obtain ⟨read, hrd'⟩ := Option.isSome_iff_exists.mp hsome
    simp only [updateByFilterOn, bulk, haccess, hrd']
    rw [hrd, hrd']
    exact flagState_native read hmsg
  | false =>
    rw [updateByFilterOn_paged haccess hpath, hrd]
    refine flagState_pageLoop ?_ _ _ order fuel
    rw [flagState, Table.load_of_mem (mem_matching hmsg).1, Option.map_some, hrd]

end

end Calls

/-- **`UpdateByFilter` and `UpdateFlags`.**  Under `FlagsOK` the matches have the flags that single
updates would have given them.  When no page ends at a tie, or the store does the update, the call
returns and they have them only then. -/
theorem updateByFilter_agrees_iff (m : MemoryMailbox) (bulkUpdater : Bool) (filters : List Filter)
    (flags : Flags) (i : Instance) (hpublish : ∀ event, m.publishFault event = none)
    (hlimit : 0 < m.maxQueryLimit) (hids : i.store.messages.Named) :
    (FlagsOK m bulkUpdater filters flags i.store → FlagsAgree m bulkUpdater filters flags i)
      ∧ (m.Definite bulkUpdater filters flags i.store →
        (FlagsAgree m bulkUpdater filters flags i → FlagsOK m bulkUpdater filters flags i.store)
          ∧ ∀ order : Ranges, order.Perm →
            ∀ fuel > (m.matching filters i.store).length, (m.updateByFilterOn bulkUpdater order
              fuel filters flags i).result.isSome = true) := by
  cases haccess : m.checkAccess with
  | error e =>
    have hst : ∀ order fuel, m.updateByFilterOn bulkUpdater order fuel filters flags i
        = ⟨some (0, some e), i, []⟩ := by
      intro order fuel
      unfold updateByFilterOn bulk
      split <;> simp [haccess]
    refine ⟨fun _ order _ => ⟨0, fun fuel _ msg _ => ?_⟩, fun _ => ⟨fun _ hok => ?_, ?_⟩⟩
    · rw [hst, MemoryMailbox.updateFlags, MemoryMailbox.guarded, haccess]
      rfl
    · rw [haccess] at hok
      cases hok
    · intro order _ fuel _
      rw [hst]
      rfl
  | ok =>
    have hone : ∀ msg ∈ m.matching filters i.store, ∀ s isRead,
        flagState msg.id s = some (isRead, msg.folderID) →
          (flagState msg.id s = flagState msg.id (m.updateFlags msg.id flags i).state.store
            ↔ isRead = flags.read.getD msg.isRead
              ∧ flaggedFolder msg flags.archived = msg.folderID) := by
      intro msg hmsg s isRead hs
      obtain ⟨hmem, hon⟩ := mem_matching hmsg
      rw [hs, flagState_updateFlags hpublish haccess (hids msg hmem) hon, Option.some.injEq,
        Prod.mk.injEq, eq_comm (b := flaggedFolder _ _)]
    refine ⟨fun hok => ?_, fun hdef => ⟨fun h _ => ?_, ?_⟩⟩
    · intro order hpm
      refine ⟨(m.matching filters i.store).length + 1, fun fuel hfuel msg hmsg => ?_⟩
      obtain ⟨hfo, hrd | ⟨hdef, hiff⟩⟩ := hok haccess msg hmsg
      · rw [hone msg hmsg _ _ (flagState_of_marked haccess hmsg hrd order fuel)]
        refine ⟨?_, hfo⟩
        cases hflag : flags.read with
        | none => rfl
        | some => rw [hrd, hflag]; rfl
      · obtain ⟨isRead, hst, hmark, hleft⟩ :=
          (flagState_updateByFilterOn haccess hlimit hids hdef hpm hfuel).2 msg hmsg
        rw [hone msg hmsg _ _ hst]
        refine ⟨?_, hfo⟩
        cases hflag : flags.read with
        | none => exact hleft fun hmarks => by simp [hflag] at hiff; exact hiff hmarks
        | some =>
          rw [hmark (hiff.mp (by rw [hflag]; rfl)), hflag]
          rfl
    · intro msg hmsg
      obtain ⟨enough, hrun⟩ := h inOrder inOrder_perm
      obtain ⟨isRead, hst, hmark, hleft⟩ := (flagState_updateByFilterOn haccess hlimit hids
        hdef inOrder_perm (Nat.lt_of_lt_of_le (Nat.lt_succ_self _)
          (Nat.le_add_left _ enough))).2 msg hmsg
      obtain ⟨hrd, hfo⟩ := (hone msg hmsg _ _ hst).mp (hrun _ (Nat.le_add_right _ _) msg hmsg)
      refine ⟨hfo, ?_⟩
      by_cases hmarks : m.Marks bulkUpdater filters flags i.store msg
      · rw [hmark hmarks] at hrd
        cases hflag : flags.read with
        | none => rw [hflag] at hrd; exact .inl hrd.symm
        | some => exact .inr ⟨hdef, iff_of_true rfl hmarks⟩
      · rw [hleft hmarks] at hrd
        cases hflag : flags.read with
        | none => exact .inr ⟨hdef, iff_of_false (by simp) hmarks⟩
        | some => rw [hflag] at hrd; exact .inl hrd
    · exact fun order hpm fuel hfuel =>
        (flagState_updateByFilterOn haccess hlimit hids hdef hpm hfuel).1

/-- A message that has been read, alone in the store. -/
def oneRead : Instance := freshInstance (Table.empty.put { letterTo "m" "u" with isRead := true })

/-- Marking by filter what single updates would mark, with the store's own bulk update. -/
theorem updateByFilter_agrees_read :
    FlagsAgree (plainMemoryMailbox "u") true [] { read := some false } oneRead :=
  (updateByFilter_agrees_iff _ true [] _ oneRead (fun _ => rfl) (by decide) (by decide)).1
    fun _ _ _ => ⟨rfl, .inr ⟨.inl rfl, iff_of_true rfl (.inl rfl)⟩⟩

/-- `UpdateByFilter` over a message that has been read, with its flags afterwards. -/
def afterByFilter (bulkUpdater : Bool) (flags : Flags) : Bool × Option (Bool × String) :=
  let r := (plainMemoryMailbox "u").updateByFilterOn bulkUpdater inOrder 1 [] flags oneRead
  (r.result.isSome, flagState "m" r.state.store)

/-- Archiving by filter archives nothing, and marks the message unread when no read flag is given —
on a store with the bulk update and on one without. -/
theorem updateByFilter_disagrees : afterByFilter true { read := some true, archived := some true }
        = (true, some (true, folderInbox))
      ∧ afterByFilter true { archived := some true } = (true, some (false, folderInbox))
      ∧ afterByFilter false { archived := some true } = (true, some (false, folderInbox))
      ∧ flagState "m" ((plainMemoryMailbox "u").updateFlags "m" { archived := some true }
        oneRead).state.store = some (true, folderArchived) := by
  decide

end Mailbox.Service
