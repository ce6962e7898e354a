import Mathlib.Data.String.Basic
import Mailbox.Memory.Paging

/-!
# Following pages

A caller follows `StartAfter` with the last ID it has been given until `HasMore` is false.  Every
call of `Find` collects the matches in the order the map has then, sorts them, and looks for the
cursor in the result: `followPages_eq_walk` makes that a walk over arrangements of the matches.
Conversely every arrangement is the one of some order of the map (`exists_range`), since the sort
leaves alone what is sorted.

`sortMessages` sorts by one field in one direction, which is to say by a key (`exists_key`); what is
known about walks then applies to every supported field and order.
-/

namespace Mailbox.Memory

open ExchangeSort PageWalk List

/-! ## Following pages -/

section Follow

variable (now : Time) (ranges : Ranges) (filters : List Filter)
  (limit : ℕ) (sortBy : String) (order : SortOrder) (s : Store)

/-- The pages from number `k` on, put together.  `none` while there are more; the map has an order
of its own on each call. -/
def followPages : (fuel k : ℕ) → (startAfter : String) → Option (List Message)
  | 0, _, _ => none
  | fuel + 1, k, startAfter =>
    match s.find now (ranges k) filters ⟨limit, sortBy, order, startAfter⟩ with
    | none => none
    | some list =>
      if list.hasMore then
        match list.messages.getLast? with
        | none => none
        | some last => (followPages fuel (k + 1) last.id).map (list.messages ++ ·)
      else some list.messages

/-- Following the pages comes to an end, and visits every message the query selects once. -/
def VisitsAll : Prop :=
  ∃ fuel visited, followPages now ranges filters limit sortBy order s fuel 0 "" = some visited
    ∧ visited.Perm (s.messages.all.filter (selects now filters))

/-- Whether one message has to come after another. -/
def comesAfter (sortBy : String) (order : SortOrder) (a b : Message) : Bool :=
  shouldSwap (if sortBy = "" then "created_at" else sortBy) (order == .asc) a b

/-- The list the pages of call `k` are cut from. -/
def arranged (k : ℕ) : List Message :=
  sortMessages sortBy order ((ranges k s.messages.all).filter (selects now filters))

end Follow

/-- `b` is the `k`-th message in the order of the listing, and no other shares its place: `k - 1` of
them have to come before it, and all others after it. -/
structure HasPlace (after : Message → Message → Bool) (l : List Message) (k : ℕ) (b : Message) :
    Prop where
  mem : b ∈ l
  above : l.countP (fun a => after b a) + 1 = k
  upTo : l.countP (fun a => !after a b) = k

/-! ## The order is that of a key -/

lemma exists_key_of_field {γ : Type} [LinearOrder γ] (field : Message → γ) (asc : Bool)
    {swap : Message → Message → Bool}
    (h : ∀ a b, swap a b = if asc then decide (field b < field a) else decide (field a < field b)) :
    ∃ (β : Type) (_ : LinearOrder β) (key : Message → β),
      ∀ a b, swap a b = decide (key a < key b) := by
  cases asc with
  | true => exact ⟨γᵒᵈ, inferInstance, fun m => OrderDual.toDual (field m), h⟩
  | false => exact ⟨γ, inferInstance, field, h⟩

/-- Newest first, oldest first, and so on: messages are sorted by a key, in descending order. -/
lemma exists_key (sortBy : String) (order : SortOrder) :
    ∃ (β : Type) (_ : LinearOrder β) (key : Message → β),
      ∀ a b, comesAfter sortBy order a b = decide (key a < key b) := by
  simp only [comesAfter]
  generalize (if sortBy = "" then "created_at" else sortBy) = field
  generalize (order == .asc) = asc
  by_cases hmade : field = "created_at"
  · exact exists_key_of_field Message.createdAt asc fun a b => by simp [shouldSwap, hmade]
  · by_cases hupdated : field = "updated_at"
    · exact exists_key_of_field Message.updatedAt asc fun a b => by simp [shouldSwap, hupdated]
    · by_cases hsubject : field = "subject"
      · exact exists_key_of_field Message.subject asc fun a b => by
          simp [shouldSwap, hsubject, -String.lt_iff_ltb]
      · -- An unsupported field sorts nothing.
        exact ⟨Unit, inferInstance, fun _ => (), by
          simp [shouldSwap, hmade, hupdated, hsubject]⟩

variable {β : Type} [LinearOrder β] {key : Message → β} {after : Message → Message → Bool}

lemma swapOrder_of_key (hkey : ∀ a b, after a b = decide (key a < key b)) :
    ExchangeSort.SwapOrder after where
  asymm {a b} h := by
    rw [hkey, decide_eq_true_eq] at h
    rw [hkey, decide_eq_false_iff_not, not_lt]
    exact h.le
  trans {a b c} h h' := by
    rw [hkey, decide_eq_false_iff_not, not_lt] at h h' ⊢
    exact h'.trans h

section Sorting

variable {γ : Type} [LinearOrder γ] {field : Message → γ} {sortBy : String}

/-- A list that is sorted by a field, up or down. -/
def SortedBy (field : Message → γ) (order : SortOrder) (l : List Message) : Prop :=
  l.Pairwise fun a b => if order = .asc then field a ≤ field b else field b ≤ field a

lemma sortedBy_sortMessages (order : SortOrder) (msgs : List Message)
    (h : ∀ a b, comesAfter sortBy order a b
      = if order == .asc then decide (field b < field a) else decide (field a < field b)) :
    SortedBy field order (sortMessages sortBy order msgs) := by
  obtain ⟨_, _, _, hkey⟩ := exists_key sortBy order
  refine (pairwise_sort (swapOrder_of_key hkey) msgs).imp fun {a b} hab => ?_
  rw [h] at hab
  by_cases ho : order = .asc
  · simpa [ho] using hab
  · simpa [ho] using hab

/-- **The store's sort is correct**, for each of its fields. -/
theorem sortMessages_sorts (order : SortOrder) (msgs : List Message) :
    (∀ sortBy, (sortMessages sortBy order msgs).Perm msgs)
      ∧ SortedBy Message.createdAt order (sortMessages "created_at" order msgs)
      ∧ SortedBy Message.updatedAt order (sortMessages "updated_at" order msgs)
      ∧ SortedBy Message.subject order (sortMessages "subject" order msgs) :=
  ⟨fun _ => sort_perm msgs,
    sortedBy_sortMessages order msgs fun a b => by simp [comesAfter, shouldSwap],
    sortedBy_sortMessages order msgs fun a b => by simp [comesAfter, shouldSwap],
    sortedBy_sortMessages order msgs fun a b => by
      simp [comesAfter, shouldSwap, -String.lt_iff_ltb]⟩

end Sorting

lemma hasPlace_iff (hkey : ∀ a b, after a b = decide (key a < key b)) {l : List Message} {k : ℕ}
    {b : Message} : HasPlace after l k b ↔ Boundary key l k b := by
  have hupTo : (fun a => !after a b) = fun a => decide (key b ≤ key a) := by
    funext a
    simp [hkey, ← decide_not]
  constructor
  · rintro ⟨hmem, habove, hcnt⟩
    rw [hupTo] at hcnt
    exact ⟨hmem, by simpa only [hkey] using habove, hcnt⟩
  · rintro ⟨hmem, habove, hcnt⟩
    rw [← hupTo] at hcnt
    exact ⟨hmem, by simpa only [hkey] using habove, hcnt⟩

/-! ## Calls of Find, and arrangements -/

section Calls

variable {now : Time} {ranges : Ranges} {filters : List Filter}
  {limit : ℕ} {sortBy : String} {order : SortOrder} {s : Store}

theorem followPages_eq_walk (hlim : 1 ≤ limit) (hrng : ranges.Perm)
    (hi : s.messages.Named) (fuel k : ℕ) (startAfter : String) :
    followPages now ranges filters limit sortBy order s fuel k startAfter
      = walk Message.id limit (arranged now ranges filters sortBy order s) fuel k
        (cursorOf startAfter) := by
  induction fuel generalizing k startAfter with
  | zero => rfl
  | succ fuel ih =>
    have hmem : ∀ m ∈ arranged now ranges filters sortBy order s k, m ∈ s.messages.all := by
      intro m hm
      rw [arranged, sortMessages, (sort_perm _).mem_iff, mem_filter, (hrng k _).mem_iff] at hm
      exact hm.1
    have hfd := find_eq_after hlim
      (show _ = arranged now ranges filters sortBy order s k from rfl) startAfter
    simp only [followPages, hfd, walk, decide_eq_true_eq]
    generalize hr : after Message.id (arranged now ranges filters sortBy order s k)
      (cursorOf startAfter) = rest
    split_ifs with hmr
    · cases hl : (rest.take limit).getLast? with
      | none => rfl
      | some last =>
        have hlastRest : last ∈ rest := mem_of_mem_take (mem_of_getLast? hl)
        have hlastAll : last ∈ s.messages.all := by
          rw [← hr] at hlastRest
          exact hmem last ((after_sublist _ _).subset hlastRest)
        simp only [ih, cursorOf, if_neg (hi last hlastAll)]
    · rw [take_of_length_le (by omega)]

section

variable (hkey : ∀ a b, comesAfter sortBy order a b = decide (key a < key b))

include hkey

lemma arranges_arranged (hrng : ranges.Perm) :
    PageWalk.Arranges key (arranged now ranges filters sortBy order s)
      (s.messages.all.filter (selects now filters)) := by
  intro k
  refine ⟨?_, (sort_perm _).trans ((hrng k _).filter _)⟩
  refine (pairwise_sort (swapOrder_of_key hkey) _).imp fun {a b} hab => ?_
  rw [hkey, decide_eq_false_iff_not, not_lt] at hab
  exact hab

/-- Every arrangement is the one of some order of the map. -/
lemma exists_range {arr : ℕ → List Message}
    (harr : PageWalk.Arranges key arr (s.messages.all.filter (selects now filters))) :
    ∃ ranges : Ranges, ranges.Perm
      ∧ arranged now ranges filters sortBy order s = arr := by
  classical
  -- What matches comes as arranged, what does not comes after it.
  refine ⟨fun k l => if l = s.messages.all then
      arr k ++ s.messages.all.filter (fun m => !selects now filters m) else l, ?_, ?_⟩
  · intro k l
    dsimp only
    split_ifs with hl
    · rw [hl]
      exact ((harr k).2.append_right _).trans (filter_append_perm _ _)
    · exact .refl l
  · funext k
    have hsld : (arr k).filter (selects now filters) = arr k := by
      refine filter_eq_self.mpr fun m hm => ?_
      exact (mem_filter.mp ((harr k).2.mem_iff.mp hm)).2
    have hno : (s.messages.all.filter fun m => !selects now filters m).filter
        (selects now filters) = [] := by
      simp
    simp only [arranged, if_true, filter_append, hsld, hno, append_nil]
    refine sort_of_pairwise ((harr k).1.imp fun {a b} hab => ?_)
    show comesAfter sortBy order a b = false
    rw [hkey, decide_eq_false_iff_not, not_lt]
    exact hab

end

end Calls

/-- **Pagination.**  Whatever order the map has on each call, following the pages visits every
selected message once — exactly if at every page end stands a message that shares its place in the
listing with no other. -/
theorem visitsAll_iff (now : Time) (filters : List Filter) {limit : ℕ} (hlimit : 1 ≤ limit)
    (sortBy : String) (order : SortOrder) (s : Store) (hids : s.messages.Named) :
    (∀ ranges : Ranges, ranges.Perm → VisitsAll now ranges filters limit sortBy order s)
      ↔ ∀ j, 1 ≤ j → j * limit < s.count now filters →
        ∃ b, HasPlace (comesAfter sortBy order) (s.messages.all.filter (selects now filters))
          (j * limit) b := by
  obtain ⟨β, _, key, hkey⟩ := exists_key sortBy order
  have hnd : ((s.messages.all.filter (selects now filters)).map Message.id).Nodup :=
    s.messages.nodup.sublist (List.filter_sublist.map _)
  have hsort : PageWalk.Arranges key (arranged now (fun _ l => l) filters sortBy order s)
      (s.messages.all.filter (selects now filters)) :=
    arranges_arranged hkey fun _ l => .refl l
  have hcompl := PageWalk.complete_iff hlimit hnd (hsort 0).1 (hsort 0).2
  rw [Store.count, List.countP_eq_length_filter]
  simp only [hasPlace_iff hkey]
  rw [← hcompl]
  constructor
  · intro h arr harr
    obtain ⟨ranges, hrng, rfl⟩ := exists_range hkey harr
    obtain ⟨fuel, visited, hsn, hpm⟩ := h ranges hrng
    rw [followPages_eq_walk hlimit hrng hids] at hsn
    exact ⟨fuel, visited, hsn, hpm⟩
  · intro h ranges hrng
    obtain ⟨fuel, visited, hsn, hpm⟩ := h _ (arranges_arranged hkey hrng)
    refine ⟨fuel, visited, ?_, hpm⟩
    rw [followPages_eq_walk hlimit hrng hids]
    exact hsn

/-- A message that arrived at the given time. -/
def arrived (id : String) (createdAt : Time) : Message :=
  { Store.newDraft createdAt "ann" with
    id := id
    isDraft := false }

/-- Two messages of the same time, and two newer ones. -/
def twins : Store :=
  .of <| (((Table.empty.put (arrived "b" 1)).put (arrived "a" 1)).put (arrived "c" 2)).put
        (arrived "d" 3)

/-- The map hands its messages out in one order, and on the next call in the other. -/
def alternating (k : ℕ) (l : List Message) : List Message := if k = 1 then l.reverse else l

lemma alternating_perm (k : ℕ) (l : List Message) : (alternating k l).Perm l := by
  unfold alternating
  split_ifs
  · exact reverse_perm l
  · exact .refl l

/-- Three at a time, the first page ends between the twins, and one of them is never seen. -/
theorem twins_not_visited : ¬ VisitsAll 5 alternating [] 3 "" .unset twins := by
  rintro ⟨fuel, visited, hsn, hpm⟩
  have hpages : followPages 5 alternating [] 3 "" .unset twins 2 0 ""
      = some [arrived "d" 3, arrived "c" 2, arrived "a" 1] := rfl
  have hi : twins.messages.Named := by decide
  rw [followPages_eq_walk (by omega) alternating_perm hi] at hsn hpages
  rw [PageWalk.walk_unique hsn hpages] at hpm
  exact absurd hpm.length_eq (by decide)

/-- Two at a time, it ends before them. -/
theorem twins_visited : VisitsAll 5 alternating [] 2 "" .unset twins := by
  refine (visitsAll_iff 5 [] (by omega) "" .unset twins (by decide)).mpr ?_ _ alternating_perm
  intro j hj hlt
  have hcnt : twins.count 5 [] = 4 := by decide
  obtain rfl : j = 1 := by omega
  have hmem : arrived "c" 2 ∈ twins.messages.all :=
    Table.mem_put.mpr (.inr ⟨Table.mem_put.mpr (.inl rfl), by decide⟩)
  exact ⟨arrived "c" 2, List.mem_filter.mpr ⟨hmem, rfl⟩, by decide, by decide⟩

end Mailbox.Memory
