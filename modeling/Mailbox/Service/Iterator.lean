import Mailbox.Memory.Pages
import Mailbox.Service.Calls

/-!
# The batch iterator

`batchIterator` of `iterator.go` over any store that it can fetch batches from.

The iterator asks for a batch when it has handed out the one it has, and it takes a short batch for
the last one.  A full batch may be the last one too; the iterator learns that from an empty batch,
at the price of one more fetch.

**`enumerates_once`** is about every store that serves the messages after a cursor in one fixed
order.  `Progress` is what holds between two calls.
-/

namespace Mailbox.Service

open Memory MemoryMailbox List

/-- A store, as far as iterators use it. -/
structure QueryStore where
  find : List Filter → ListOptions → Except Error MessageList
  search : SearchQuery → Except Error MessageList

def QueryStore.fetch (store : QueryStore) : Fetch → Except Error (List Message)
  | .find filters opts => (store.find filters opts).map MessageList.messages
  | .search query => (store.search query).map MessageList.messages

@[simp] lemma Fetch.setCursor_setCursor (f : Fetch) (id id' : String) :
    (f.setCursor id).setCursor id' = f.setCursor id' := by
  cases f <;> rfl

/-! ## Next -/

namespace BatchIterator

/-- Fetching from a store; the state is the number of fetches. -/
def counting (store : QueryStore) (f : Fetch) (n : ℕ) : Option (Except Error (List Message)) × ℕ :=
  (some (store.fetch f), n + 1)

/-- The iterator after `k` calls of `Next`, with the number of fetches they made. -/
def afterCalls (store : QueryStore) (it : BatchIterator) : ℕ → BatchIterator × ℕ
  | 0 => (it, 0)
  | k + 1 =>
    let (it, n) := afterCalls store it k
    (next (.ok ()) (counting store) it n).2

/-- The result of the call of `Next` that follows `k` calls. -/
def nextAfter (store : QueryStore) (it : BatchIterator) (k : ℕ) : Option (Except Error Bool) :=
  (next (.ok ()) (counting store) (afterCalls store it k).1 (afterCalls store it k).2).1

/-- A new iterator; both kinds are set up in the same way. -/
def start (f : Fetch) (batchSize : ℤ) : BatchIterator where
  fetch := f
  batchSize := streamBatchSize batchSize

end BatchIterator

/-! ## Going through all batches -/

/-- The store answers a query, and every query for what comes after a message, with the next `b`
messages of one list. -/
structure Serves (store : QueryStore) (f : Fetch) (b : ℕ) (all : List Message) : Prop where
  first : store.fetch f = .ok (all.take b)
  next : ∀ before msg rest, all = before ++ msg :: rest →
    store.fetch (f.setCursor msg.id) = .ok (rest.take b)

namespace BatchIterator

variable {store : QueryStore} {f : Fetch} {b : ℕ} {all : List Message}

variable (f b all) in
/-- An iterator that has been called `k` times and has fetched `n` times: it is new, or stands in a
batch that follows `n - 1` full ones, or has come to the end. -/
inductive Progress : (k : ℕ) → BatchIterator → (n : ℕ) → Prop
  | start : Progress 0 { fetch := f, batchSize := b } 0
  | within {before batch rest : List Message} {last : Message} {idx n : ℕ}
      (hall : all = before ++ (batch ++ rest)) (hbatch : batch = (batch ++ rest).take b)
      (hbefore : before.length = n * b) (hlast : batch.getLast? = some last)
      (hpos : 1 ≤ idx) (hidx : idx ≤ batch.length) :
      Progress (before.length + idx)
        { fetch := f.setCursor last.id, batchSize := b, batch := batch, batchIdx := idx,
          fetched := true } (n + 1)
  | done {k n : ℕ} {it : BatchIterator} (hdone : it.done = true) (hk : all.length ≤ k)
      (hn : n ≤ all.length / b + 1) : Progress k it n

variable (store f b all) in
/-- What a call of `Next` does after `k` calls. -/
def Advances (k : ℕ) (it : BatchIterator) (n : ℕ) : Prop :=
  ∃ it' n', next (.ok ()) (counting store) it n = (some (.ok (decide (k < all.length))), it', n')
    ∧ Progress f b all (k + 1) it' n' ∧ ∀ msg, all[k]? = some msg → it'.current = .ok msg

variable {it : BatchIterator}

lemma advances_fetch {before rest : List Message} {n : ℕ} (hb : 1 ≤ b)
    (hdn : it.done = false) (hend : it.batch.length ≤ it.batchIdx)
    (hmr : ¬(it.fetched ∧ it.batch.length < it.batchSize)) (hsize : it.batchSize = b)
    (hcur : ∀ id, it.fetch.setCursor id = f.setCursor id)
    (hfetch : store.fetch it.fetch = .ok (rest.take b)) (hall : all = before ++ rest)
    (hbef : before.length = n * b) : Advances store f b all before.length it n := by
  simp only [Advances, next, hdn, counting, hfetch, if_neg (Nat.not_lt.mpr hend), if_neg hmr,
    Bool.false_eq_true, if_false]
  cases hl : (rest.take b).getLast? with
  | none =>
    -- The empty batch after the last full one.
    have hnil : rest = [] := by
      rw [getLast?_eq_none_iff, take_eq_nil_iff] at hl
      exact hl.resolve_left (by omega)
    subst hnil
    rw [append_nil] at hall
    subst hall
    have hn : n + 1 ≤ all.length / b + 1 := by rw [hbef, Nat.mul_div_cancel _ hb]
    exact ⟨{ it with batch := [], batchIdx := 0, done := true, fetched := true }, n + 1, by simp,
      .done rfl (by omega) hn, by simp⟩
  | some =>
    have hne : rest ≠ [] := by
      rintro rfl
      simp at hl
    have hpos : 0 < rest.length := length_pos_iff.mpr hne
    have hall' : all = before ++ (rest.take b ++ rest.drop b) := by
      rw [take_append_drop, hall]
    refine ⟨_, _, ?_, .within hall' ?_ hbef hl le_rfl ?_, ?_⟩
    · simp [hall, hcur, hsize, hpos]
    · rw [take_append_drop]
    · rw [length_take]
      omega
    · intro msg hmsg
      rw [hall, getElem?_append_right le_rfl, Nat.sub_self] at hmsg
      have hfst : (rest.take b)[0]? = some msg := by
        rw [getElem?_take_of_lt hb, hmsg]
      simp only [current, hfst]

/-- **One call** hands out the next message, if there is one. -/
lemma Progress.advances {k : ℕ} {n : ℕ} (hb : 1 ≤ b)
    (hserv : Serves store f b all) (h : Progress f b all k it n) :
    Advances store f b all k it n := by
  cases h with
  | start =>
    have hall : all = [] ++ all := rfl
    exact advances_fetch hb rfl le_rfl (by simp) rfl (fun _ => rfl) hserv.first hall (by simp)
  | @within before batch rest last idx n hall hbat hbef hl =>
    rcases Nat.lt_or_ge idx batch.length with hlt | hge
    · -- A message of the batch is left.
      have hk : before.length + idx < all.length := by
        rw [hall, length_append, length_append]
        omega
      refine ⟨_, _, ?_, .within hall hbat hbef hl (Nat.le_add_left 1 idx) hlt, ?_⟩
      · simp [next, hlt, hk]
      · intro msg hmsg
        rw [hall, getElem?_append_right (by omega), Nat.add_sub_cancel_left,
          getElem?_append_left hlt] at hmsg
        simp only [current, hmsg]
    · have hidx' : idx = batch.length := by omega
      subst hidx'
      rcases Nat.lt_or_ge batch.length b with hshort | hfl
      · -- A short batch was the last one.
        have hr : rest = [] := by
          have hlen := congrArg length hbat
          rw [length_take, length_append] at hlen
          exact length_eq_zero_iff.mp (by omega)
        have hlen : all.length = before.length + batch.length := by
          rw [hall, hr, append_nil, length_append]
        have hle : n ≤ all.length / b := by
          rw [Nat.le_div_iff_mul_le hb]
          omega
        refine ⟨⟨f.setCursor last.id, b, batch, batch.length, true, true⟩, n + 1, ?_,
          .done rfl (by omega) (by omega), ?_⟩
        · simp [next, hshort, hlen]
        · intro msg hmsg
          rw [getElem?_eq_none (by omega)] at hmsg
          cases hmsg
      · have hlen : batch.length = b := by
          have hlen := congrArg length hbat
          rw [length_take] at hlen
          omega
        have hspl : batch = batch.dropLast ++ [last] := (dropLast_append_getLast? last hl).symm
        have hnx : store.fetch (f.setCursor last.id) = .ok (rest.take b) := by
          refine hserv.next (before ++ batch.dropLast) last rest ?_
          calc all = before ++ (batch ++ rest) := hall
            _ = before ++ ((batch.dropLast ++ [last]) ++ rest) := by rw [← hspl]
            _ = _ := by simp
        have hall' : all = (before ++ batch) ++ rest := by rw [hall, append_assoc]
        have hbef' : (before ++ batch).length = (n + 1) * b := by
          rw [length_append, hbef, hlen, Nat.add_mul, Nat.one_mul]
        rw [← length_append]
        exact advances_fetch hb rfl le_rfl (by simp [hlen]) rfl
          (Fetch.setCursor_setCursor f last.id) hnx hall' hbef'
  | done hdn hk hn =>
    refine ⟨it, n, ?_, .done hdn (by omega) hn, ?_⟩
    · simp [next, hdn, hk]
    · intro msg hmsg
      rw [getElem?_eq_none hk] at hmsg
      cases hmsg

lemma one_le_streamBatchSize (batchSize : ℤ) : 1 ≤ streamBatchSize batchSize := by
  unfold streamBatchSize
  split_ifs <;> omega

variable {batchSize : ℤ}

lemma progress_afterCalls (hserv : Serves store f (streamBatchSize batchSize).toNat all) (k : ℕ) :
    Progress f (streamBatchSize batchSize).toNat all k
      (afterCalls store (start f batchSize) k).1 (afterCalls store (start f batchSize) k).2 := by
  have hsize := one_le_streamBatchSize batchSize
  induction k with
  | zero =>
    have hst : start f batchSize
        = { fetch := f, batchSize := ((streamBatchSize batchSize).toNat : ℤ) } := by
      rw [start, Int.toNat_of_nonneg (by omega)]
    simp only [afterCalls, hst]
    exact .start
  | succ k ih =>
    obtain ⟨it', n', hnx, hprog, _⟩ := ih.advances (by omega) hserv
    simp only [afterCalls, hnx]
    exact hprog

lemma Progress.fetches_le {k : ℕ} {n : ℕ} (hb : 1 ≤ b)
    (h : Progress f b all k it n) : n ≤ all.length / b + 1 := by
  cases h with
  | start => exact Nat.zero_le _
  | @within before batch rest last idx n hall hbat hbef =>
    have hle : n ≤ all.length / b := by
      rw [Nat.le_div_iff_mul_le hb, ← hbef, hall, length_append]
      omega
    omega
  | done hdn hk hn => exact hn

/-- **The iterator hands out every message once**, in the order of the store, and is at its end from
then on; it makes at most one fetch more than there are full batches. -/
theorem enumerates_once (store : QueryStore) (f : Fetch) (batchSize : ℤ) (all : List Message)
    (hserves : Serves store f (streamBatchSize batchSize).toNat all) (k : ℕ) :
    nextAfter store (start f batchSize) k = some (.ok (decide (k < all.length)))
      ∧ (∀ msg, all[k]? = some msg →
          (afterCalls store (start f batchSize) (k + 1)).1.current = .ok msg)
      ∧ (afterCalls store (start f batchSize) k).2
          ≤ all.length / (streamBatchSize batchSize).toNat + 1 := by
  have hsize := one_le_streamBatchSize batchSize
  have hprog := progress_afterCalls hserves k
  obtain ⟨it', n', hnx, _, hcurrent⟩ := hprog.advances (by omega) hserves
  refine ⟨?_, ?_, hprog.fetches_le (by omega)⟩
  · rw [nextAfter, hnx]
  · simp only [afterCalls, hnx]
    exact hcurrent

/-- A store that keeps the messages of all queries in one list. -/
def listQueries (all : List Message) : QueryStore where
  find _ opts := .ok (listing opts)
  search query := .ok (listing query.options)
where
  listing (opts : ListOptions) : MessageList :=
    let rest := PageWalk.after Message.id all (cursorOf opts.startAfter)
    ⟨rest.take opts.limit.toNat, all.length, decide (opts.limit < rest.length)⟩

lemma serves_listQueries {filters : List Filter}
    (hnd : (all.map Message.id).Nodup) (hi : ∀ msg ∈ all, msg.id ≠ "") :
    Serves (listQueries all) (.find filters (streamOptions batchSize))
      (streamBatchSize batchSize).toNat all where
  first := rfl
  next before msg rest hall := by
    have hid : msg.id ≠ "" := hi msg (by simp [hall])
    subst hall
    simp only [QueryStore.fetch, Fetch.setCursor, listQueries, listQueries.listing, cursorOf,
      if_neg hid, PageWalk.after_split hnd]
    rfl

/-- Two messages in batches of one: the third call fetches an empty batch. -/
theorem enumerates_two :
    Serves (listQueries [letterTo "b" "u", letterTo "a" "u"]) (.find [] (streamOptions 1)) 1
        [letterTo "b" "u", letterTo "a" "u"]
      ∧ nextAfter (listQueries [letterTo "b" "u", letterTo "a" "u"])
          (start (.find [] (streamOptions 1)) 1) 2 = some (.ok false)
      ∧ (afterCalls (listQueries [letterTo "b" "u", letterTo "a" "u"])
          (start (.find [] (streamOptions 1)) 1) 3).2 ≤ 3 :=
  have hserves := serves_listQueries (by decide) (by decide)
  ⟨hserves, (enumerates_once _ _ 1 _ hserves 2).1, (enumerates_once _ _ 1 _ hserves 3).2.2⟩

end BatchIterator
end Mailbox.Service
