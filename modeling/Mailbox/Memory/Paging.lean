import Mailbox.Lib.PageWalk
import Mailbox.Memory.Query

/-!
# Pages of a query

What one call of `Find` returns, newest messages first.  Whatever order `Range` takes, the sorted
list of matches is a descending arrangement of them (`Matches`), and a page is the piece of it
that starts after the cursor.  Three cases matter to a caller that pages through: the first page
(`find_first`), a page after a cursor that is still among the matches and ties with no other match
(`find_after`), and a cursor that has left the matches, which ends the listing (`find_gone`).
-/

namespace Mailbox.Memory

open List

lemma swapOrder_createdAt : ExchangeSort.SwapOrder (shouldSwap "created_at" false) where
  asymm {a b} h := by
    have hlt : a.createdAt < b.createdAt := by simpa [shouldSwap] using h
    simpa [shouldSwap] using hlt.le
  trans {a b c} h h' := by
    have hba : b.createdAt ≤ a.createdAt := by simpa [shouldSwap] using h
    have hcb : c.createdAt ≤ b.createdAt := by simpa [shouldSwap] using h'
    simpa [shouldSwap] using hcb.trans hba

/-- `all` is a descending arrangement of what the query selects. -/
structure Matches (now : Time) (filters : List Filter) (t : Messages) (all : List Message) :
    Prop where
  descending : Descending Message.createdAt all
  perm : all.Perm (t.all.filter (selects now filters))

variable {now : Time} {filters : List Filter}

namespace Matches

variable {t : Messages} {all : List Message}

lemma mem_iff (h : Matches now filters t all) {m : Message} :
    m ∈ all ↔ m ∈ t.all ∧ selects now filters m = true := by
  rw [h.perm.mem_iff, mem_filter]

lemma nodup_id (h : Matches now filters t all) : (all.map Message.id).Nodup := by
  rw [(h.perm.map _).nodup_iff]
  exact t.nodup.sublist (filter_sublist.map _)

end Matches

variable {range : Range}

lemma matches_sortMessages (now : Time) (filters : List Filter) (t : Messages)
    (hrange : ∀ l, (range l).Perm l) : Matches now filters t
      (sortMessages "" .unset ((range t.all).filter (selects now filters))) where
  descending := by
    have h := ExchangeSort.pairwise_sort swapOrder_createdAt
      ((range t.all).filter (selects now filters))
    refine h.imp fun {a b} hab => ?_
    simpa [shouldSwap] using hab
  perm := (ExchangeSort.sort_perm _).trans ((hrange _).filter _)

lemma pageOf_append (limit : ℕ) (hlim : 1 ≤ limit) (seen rest : List Message) :
    pageOf limit seen.length (seen ++ rest)
      = some ⟨rest.take limit, (seen ++ rest).length, decide (limit < rest.length)⟩ := by
  have hne : (limit : ℤ) ≠ 0 := by omega
  have hdrop : (seen ++ rest).drop seen.length = rest := drop_left
  simp only [pageOf, hne, if_false, hdrop, length_append]
  by_cases hl : limit < rest.length
  · have hstop : ¬ ((seen.length + rest.length : ℕ) : ℤ) < seen.length + limit := by omega
    have htake : ((seen.length : ℤ) + limit - seen.length).toNat = limit := by omega
    rw [if_neg hstop, if_neg (by omega), htake]
    congr 2
    simp
  · have htake : rest.take limit = rest := take_of_length_le (by omega)
    by_cases hstop : ((seen.length + rest.length : ℕ) : ℤ) < seen.length + limit
    · have hlen : (((seen.length + rest.length : ℕ) : ℤ) - seen.length).toNat = rest.length := by
        omega
      rw [if_pos hstop, if_neg (by omega), hlen, take_length, htake]
      simp [hl]
    · have hlen : ((seen.length : ℤ) + limit - seen.length).toNat = limit := by omega
      rw [if_neg hstop, if_neg (by omega), hlen]
      congr 2
      simp

variable {opts : ListOptions} {list : MessageList}

section Find

variable {limit : ℕ} {s : Store}

section

variable (hrange : ∀ l, (range l).Perm l) (h : s.find now range filters opts = some list)

include hrange h

/-- A page is cut from an arrangement of what is selected. -/
lemma find_sublist : ∃ all : List Message, all.Perm (s.messages.all.filter (selects now filters))
      ∧ list.messages.Sublist all := by
  refine ⟨sortMessages opts.sortBy opts.sortOrder
    ((range s.messages.all).filter (selects now filters)), ?_, ?_⟩
  · rw [sortMessages]
    exact (ExchangeSort.sort_perm _).trans ((hrange _).filter _)
  · have hpg : ∀ {start all}, pageOf opts.limit start all = some list →
        list.messages.Sublist all := by
      intro start all hpg
      rw [pageOf] at hpg
      split_ifs at hpg <;> cases hpg <;>
        exact (take_sublist _ _).trans (drop_sublist _ _)
    simp only [Store.find, page] at h
    split_ifs at h
    · exact hpg h
    · split at h
      · exact hpg h
      · cases h
        exact nil_sublist _

lemma mem_find {m : Message} (hm : m ∈ list.messages) :
    m ∈ s.messages.all ∧ selects now filters m = true := by
  obtain ⟨all, hpm, hsub⟩ := find_sublist hrange h
  rw [← mem_filter, ← hpm.mem_iff]
  exact hsub.subset hm

lemma nodup_find : (list.messages.map Message.id).Nodup := by
  obtain ⟨all, hpm, hsub⟩ := find_sublist hrange h
  refine List.Nodup.sublist (hsub.map _) ?_
  rw [(hpm.map _).nodup_iff]
  exact s.messages.nodup.sublist (filter_sublist.map _)

end

/-- The cursor of a call. -/
def cursorOf (startAfter : String) : Option String :=
  if startAfter = "" then none else some startAfter

/-- A page is the next piece of what is selected, in order, after the cursor. -/
lemma find_eq_after (hlim : 1 ≤ limit) {sortBy : String} {order : SortOrder} {all : List Message}
    (hall : sortMessages sortBy order ((range s.messages.all).filter (selects now filters)) = all)
    (startAfter : String) : s.find now range filters ⟨limit, sortBy, order, startAfter⟩ = some
        { messages := (PageWalk.after Message.id all (cursorOf startAfter)).take limit
          total := all.length
          hasMore :=
            decide (limit < (PageWalk.after Message.id all (cursorOf startAfter)).length) } := by
  rw [Store.find]
  rw [hall]
  by_cases hst : startAfter = ""
  · simpa [page, hst, cursorOf, PageWalk.after] using pageOf_append limit hlim [] all
  · simp only [page, hst, if_false, cursorOf, PageWalk.after]
    cases hidx : all.findIdx? fun m => decide (m.id = startAfter) with
    | none => simp
    | some i =>
      have hi : i + 1 ≤ all.length := (findIdx?_eq_some_iff_getElem.mp hidx).1
      have hpg := pageOf_append limit hlim (all.take (i + 1)) (all.drop (i + 1))
      rwa [take_append_drop, length_take, Nat.min_eq_left hi] at hpg

variable (now filters s) in
lemma find_first (hlim : 1 ≤ limit) (hrange : ∀ l, (range l).Perm l) :
    ∃ all, Matches now filters s.messages all
      ∧ s.find now range filters { limit := limit, startAfter := "" }
          = some ⟨all.take limit, all.length, decide (limit < all.length)⟩ :=
  ⟨_, matches_sortMessages now filters s.messages hrange, find_eq_after hlim rfl ""⟩

lemma find_after (hlim : 1 ≤ limit) (hrange : ∀ l, (range l).Perm l) {c : Message}
    (hid : c.id ≠ "") (hc : c ∈ s.messages.all) (hsel : selects now filters c = true)
    (hal : ∀ m ∈ s.messages.all, selects now filters m = true →
      m.createdAt = c.createdAt → m = c) : ∃ rest total, Descending Message.createdAt rest
      ∧ rest.Perm ((s.messages.all.filter (selects now filters)).filter
          fun m => decide (m.createdAt < c.createdAt))
      ∧ s.find now range filters { limit := limit, startAfter := c.id }
          = some ⟨rest.take limit, total, decide (limit < rest.length)⟩ := by
  have hall := matches_sortMessages now filters s.messages hrange
  generalize hdef : sortMessages "" .unset ((range s.messages.all).filter (selects now filters))
    = all at hall
  have harr : PageWalk.Arranges Message.createdAt (fun _ => all)
      (s.messages.all.filter (selects now filters)) := fun _ => ⟨hall.descending, hall.perm⟩
  obtain ⟨hdesc, hpm⟩ := PageWalk.after_alone harr
    (s.messages.nodup.sublist (filter_sublist.map _)) (mem_filter.mpr ⟨hc, hsel⟩)
    (fun m hm => hal m (mem_filter.mp hm).1 (mem_filter.mp hm).2) 0
  have hfd := find_eq_after hlim hdef c.id
  rw [cursorOf, if_neg hid] at hfd
  exact ⟨_, _, hdesc, hpm, hfd⟩

variable (limit s) in
/-- A cursor that is no longer selected ends the listing. -/
lemma find_gone (hrange : ∀ l, (range l).Perm l) {id : String} (hid : id ≠ "")
    (hgn : ∀ m ∈ s.messages.all, m.id = id → selects now filters m = false) :
    ∃ total, s.find now range filters { limit := limit, startAfter := id }
      = some ⟨[], total, false⟩ := by
  have hall := matches_sortMessages now filters s.messages hrange
  generalize hdef : sortMessages "" .unset ((range s.messages.all).filter (selects now filters))
    = all at hall
  have hno : all.findIdx? (fun m => decide (m.id = id)) = none := by
    rw [findIdx?_eq_none_iff]
    intro m hm
    obtain ⟨hmem, hsel⟩ := hall.mem_iff.mp hm
    rw [decide_eq_false_iff_not]
    intro heq
    rw [hgn m hmem heq] at hsel
    cases hsel
  refine ⟨all.length, ?_⟩
  simp only [Store.find, page, hdef, if_neg hid, hno]

end Find

end Mailbox.Memory
