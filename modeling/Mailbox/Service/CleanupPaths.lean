import Mailbox.Memory.Pages
import Mailbox.Service.BulkRefinement
import Mailbox.Service.Cleanup

/-!
# The two paths of a cleanup

A scan walks through the matches page by page, while nothing changes.  It keeps its place if every
call of `Find` visits the map in the same order, or if the order does not matter because the last
match of a full page ties with no other (`Steady`).  Then it finds every match
(`scan_of_steady`); without that, it still finds nothing but matches (`scan_sound`).

**`cleanup_paths_agree_iff`** compares the two paths.
-/

namespace Mailbox.Service

open Memory List Option Sweep

/-! ## The scan -/

/-- What has to be known of the order in which a scan visits the map, given its matches. -/
def Steady (ranges : Ranges) (matched : List Message) : Prop :=
  (∀ n l, ranges n l = ranges 0 l) ∨ ∀ j ≥ 1, j * scanBatchSize < matched.length →
        ∃ b, Boundary Message.createdAt matched (j * scanBatchSize) b

variable {fuel : ℕ} {cursor : String} {scanned found : Scanned} {now : Time} {ranges : Ranges}

section Scan

variable {filters : List Filter} {s : Store}

lemma scan_of_followPages {k : ℕ} {visited : List Message}
    (h : followPages now ranges filters scanBatchSize "" .unset s fuel k cursor = some visited)
    (scanned : Scanned) :
    scanExpiredMessages now filters s fuel (fun n => ranges (k + n)) cursor scanned
      = some (scanned.addPage visited) := by
  induction fuel generalizing k cursor visited scanned with
  | zero => cases h
  | succ fuel ih =>
    rw [followPages] at h
    rw [scanExpiredMessages]
    cases hfd : s.find now (ranges k) filters ⟨scanBatchSize, "", .unset, cursor⟩ with
    | none => simp [hfd] at h
    | some list =>
      simp only [hfd] at h ⊢
      cases hmr : list.hasMore with
      | false =>
        simp only [hmr, Bool.false_eq_true, if_false, some.injEq] at h
        simp [nextCursor, hmr, h]
      | true =>
        cases hl : list.messages.getLast? with
        | none => simp [hmr, hl] at h
        | some =>
          simp only [hmr, hl, if_true, map_eq_some_iff] at h
          obtain ⟨rest, hr, rfl⟩ := h
          have hnx := ih hr (scanned.addPage list.messages)
          simp only [nextCursor, hmr, hl, if_true, map_some]
          rw [Scanned.addPage_append, ← hnx]
          congr 1
          funext n
          rw [Nat.add_right_comm, Nat.add_assoc]

section

variable (hranges : ranges.Perm)

include hranges

/-- **A steady scan finds every match**, and comes to an end. -/
theorem scan_of_steady (hids : s.messages.Named)
    (hsteady : Steady ranges (s.messages.all.filter (selects now filters))) :
    ∃ l, l.Perm (s.messages.all.filter (selects now filters)) ∧ ∀ fuel > l.length,
      scanExpiredMessages now filters s fuel ranges "" .empty = some (Scanned.empty.addPage l) := by
  set hits := s.messages.all.filter (selects now filters)
  have harr : PageWalk.Arranges Message.createdAt (arranged now ranges filters "" .unset s) hits :=
    arranges_arranged (fun _ _ => by simp [comesAfter, shouldSwap]) hranges
  have hnd : (hits.map Message.id).Nodup :=
    s.messages.nodup.sublist (filter_sublist.map _)
  have hbat : 1 ≤ scanBatchSize := by decide
  obtain ⟨l, hwalk, hl⟩ : ∃ l, PageWalk.walk Message.id scanBatchSize
      (arranged now ranges filters "" .unset s)
      (hits.length + 1) 0 none = some l ∧ l.Perm hits := by
    rcases hsteady with hsm | hclear
    · -- The pages are cut from one list.
      have hone : ∀ k, 0 ≤ k → arranged now ranges filters "" .unset s k
          = arranged now ranges filters "" .unset s 0 := fun k _ => by
        rw [arranged, arranged, hsm k]
      exact ⟨_, PageWalk.walk_rest hbat (((harr 0).2.map _).nodup_iff.mpr hnd) hone _
        (harr 0).2.length_eq.le (nil_append _).symm le_rfl, (harr 0).2⟩
    · -- The pages end with matches that tie with no other.
      refine PageWalk.walk_from hbat harr hnd _ le_rfl ?_ ?_ hclear 0
      · exact harr
      · exact fun a ha => ⟨ha, fun c hc _ => hc⟩
  refine ⟨l, hl, fun fuel hfuel => ?_⟩
  rw [← hl.length_eq, show (none : Option String) = cursorOf "" from rfl] at hwalk
  have hpages := PageWalk.walk_stable hfuel hwalk
  rw [← followPages_eq_walk hbat hranges hids] at hpages
  simpa only [Nat.zero_add] using scan_of_followPages hpages .empty

/-- What the pages of a scan preserve, a scan preserves, whatever order it visits the map in: there
is nothing but matches on a page. -/
lemma scan_induction {p : Scanned → Prop}
    (hpg : ∀ scanned page, (∀ m ∈ page, m ∈ s.messages.all ∧ selects now filters m = true) →
      p scanned → p (scanned.addPage page))
    (h : scanExpiredMessages now filters s fuel ranges cursor scanned = some found)
    (hsc : p scanned) : p found := by
  induction fuel generalizing ranges cursor scanned with
  | zero => cases h
  | succ fuel ih =>
    rw [scanExpiredMessages] at h
    cases hfd : s.find now (ranges 0) filters
        { limit := scanBatchSize, startAfter := cursor } with
    | none => simp [hfd] at h
    | some list =>
      have hnx := hpg scanned list.messages (fun m => mem_find (hranges 0) hfd) hsc
      simp only [hfd] at h
      cases hcur : nextCursor list with
      | none =>
        simp only [hcur, some.injEq] at h
        rwa [← h]
      | some =>
        simp only [hcur] at h
        exact ih (fun n => hranges (n + 1)) h hnx

lemma scan_sound (h : scanExpiredMessages now filters s fuel ranges cursor scanned = some found) :
    ∀ id ∈ found.scannedIDs, id ∈ scanned.scannedIDs
      ∨ ∃ m ∈ s.messages.all, selects now filters m = true ∧ m.id = id := by
  refine scan_induction (p := fun found => ∀ id ∈ found.scannedIDs, id ∈ scanned.scannedIDs
    ∨ ∃ m ∈ s.messages.all, selects now filters m = true ∧ m.id = id) hranges ?_ h
    fun id hid => .inl hid
  intro scanned' page hpg hsc id hid
  rw [Scanned.scannedIDs_addPage, mem_append, List.mem_map] at hid
  rcases hid with hid | ⟨m, hm, rfl⟩
  · exact hsc id hid
  · obtain ⟨hmem, hsel⟩ := hpg m hm
    exact .inr ⟨m, hmem, hsel, rfl⟩

end

end Scan

/-! ## The sweeps -/

/-- The result of deleting what `p` holds of. -/
structure Swept (p : Message → Bool) (w : World) (r : ℕ × World) : Prop where
  messages : r.2.store.messages.all = w.store.messages.all.filter fun m => !p m
  count : r.1 + r.2.store.messages.all.length = w.store.messages.all.length

variable {r r' : ℕ × World}

section Sweeps

variable {p : Message → Bool} {w : World}

lemma swept_of_ids {l : List Message} (hl : l.Perm (w.store.messages.all.filter p))
    (hcnt : r.1 = (Store.deleteMessagesByIDs (l.map Message.id) w.store).1.length)
    (hsto : r.2.store = (Store.deleteMessagesByIDs (l.map Message.id) w.store).2) :
    Swept p w r := by
  refine ⟨?_, ?_⟩
  · rw [hsto, Store.all_deleteMessagesByIDs]
    refine filter_congr fun m hm => ?_
    rw [Bool.eq_iff_iff, decide_eq_true_eq, Bool.not_eq_true', ← Bool.not_eq_true, not_iff_not]
    constructor
    · intro hid
      obtain ⟨m', hm', heq⟩ := List.mem_map.mp hid
      obtain ⟨hmem, hp⟩ := mem_filter.mp (hl.mem_iff.mp hm')
      rwa [← inj_on_of_nodup_map w.store.messages.nodup hmem hm heq]
    · intro hp
      exact mem_map_of_mem (hl.mem_iff.mpr (mem_filter.mpr ⟨hm, hp⟩))
  · rw [hcnt, hsto]
    exact Store.length_deleteMessagesByIDs _ _

lemma Sweep.swept_bulk (sweep : Sweep) (w : World) : Swept sweep.expired w (sweep.bulk w) :=
  swept_of_ids (.refl _) rfl rfl

section

variable (sweep : Sweep) (hids : w.store.messages.Named) (hranges : ranges.Perm)

include hids hranges

/-- A steady scan leads to the deletion of what it selects. -/
lemma Sweep.swept_selected
    (hsteady : Steady ranges (w.store.messages.all.filter (selects now sweep.filters))) :
    ∃ r, Swept (selects now sweep.filters) w r
      ∧ ∃ enough, ∀ fuel ≥ enough, sweep.withAttachments now fuel ranges w = some r := by
  obtain ⟨l, hl, hsc⟩ := scan_of_steady hranges hids hsteady
  let deleted := Store.deleteMessagesByIDs (l.map Message.id) w.store
  let released := (Scanned.empty.addPage l).toRelease deleted.1
  refine ⟨(deleted.1.length, releaseRefs released { w with store := deleted.2 }),
    swept_of_ids hl rfl (store_releaseRefs _ _), l.length + 1, fun fuel hfuel => ?_⟩
  rw [withAttachments, hsc fuel hfuel]
  simp only [Scanned.scannedIDs_addPage]
  rfl

/-- If all that has expired is available, that is what has expired. -/
lemma Sweep.swept_withAttachments
    (hsteady : Steady ranges (w.store.messages.all.filter sweep.expired))
    (hav : ∀ m ∈ w.store.messages.all, sweep.expired m = true → isAvailableNow now m = true) :
    ∃ r, Swept sweep.expired w r
      ∧ ∃ enough, ∀ fuel ≥ enough, sweep.withAttachments now fuel ranges w = some r := by
  have hsm : ∀ m ∈ w.store.messages.all, selects now sweep.filters m = sweep.expired m := by
    intro m hm
    rw [selects_filters, Bool.and_eq_left_iff_imp]
    exact hav m hm
  rw [← filter_congr hsm] at hsteady
  obtain ⟨r, hsw, hfuel⟩ := sweep.swept_selected hids hranges hsteady
  refine ⟨r, ⟨?_, hsw.count⟩, hfuel⟩
  rw [hsw.messages]
  exact filter_congr fun m hm => by rw [hsm m hm]

end

/-- Without more ado, only what the scan selects can be gone. -/
lemma Sweep.mem_of_withAttachments (sweep : Sweep) (hranges : ranges.Perm)
    (h : sweep.withAttachments now fuel ranges w = some r) {m : Message}
    (hm : m ∈ w.store.messages.all) (hsel : selects now sweep.filters m = false) :
    m ∈ r.2.store.messages.all := by
  rw [withAttachments] at h
  cases hsc : scanExpiredMessages now sweep.filters w.store fuel ranges "" .empty with
  | none => simp [hsc] at h
  | some =>
    simp only [hsc, some.injEq] at h
    rw [← h, store_releaseRefs, Store.all_deleteMessagesByIDs, mem_filter]
    refine ⟨hm, decide_eq_true fun hid => ?_⟩
    rcases scan_sound hranges hsc m.id hid with hnil | ⟨m', hm', hsel', heq⟩
    · cases hnil
    · rw [inj_on_of_nodup_map w.store.messages.nodup hm' hm heq, hsel] at hsel'
      cases hsel'

lemma Swept.load_eq_none_iff (h : Swept p w r) {id : String} {msg : Message}
    (hld : w.store.messages.load id = some msg) :
    r.2.store.messages.load id = none ↔ p msg = true := by
  obtain ⟨hmem, hid⟩ := Table.load_eq_some_iff.mp hld
  rw [Table.load_eq_none_iff, h.messages]
  constructor
  · intro hno
    by_contra hp
    exact hno msg (mem_filter.mpr ⟨hmem, by simpa using hp⟩) hid
  · intro hp msg' hmsg' hid'
    obtain ⟨hmem', hp'⟩ := mem_filter.mp hmsg'
    rw [inj_on_of_nodup_map w.store.messages.nodup hmem' hmem (hid'.trans hid.symm), hp] at hp'
    cases hp'

lemma Swept.trans {q : Message → Bool} (h : Swept p w r) (h' : Swept q r.2 r') :
    Swept (fun m => p m || q m) w (r.1 + r'.1, r'.2) := by
  refine ⟨?_, ?_⟩
  · rw [h'.messages, h.messages, List.filter_filter]
    refine filter_congr fun m _ => ?_
    rw [Bool.not_or, Bool.and_comm]
  · have hcnt := h.count
    have hcnt' := h'.count
    show r.1 + r'.1 + r'.2.store.messages.all.length = _
    omega

lemma swept_nothing (w : World) : Swept (fun _ => false) w (0, w) :=
  ⟨by simp, Nat.zero_add _⟩

lemma Swept.same (h : Swept p w r) (h' : Swept p w r') :
    r.1 = r'.1 ∧ r.2.store.messages.all.Perm r'.2.store.messages.all := by
  have hms : r.2.store.messages.all = r'.2.store.messages.all := by
    rw [h.messages, h'.messages]
  have hcnt := h.count
  have hcnt' := h'.count
  rw [hms] at hcnt
  exact ⟨by omega, List.Perm.of_eq hms⟩

end Sweeps

/-! ## The calls -/

/-- With enough fuel, the two calls report the same count and leave the same messages. -/
def SameOutcome (aware bulk : ℕ → Option (ℕ × World)) : Prop :=
  ∃ enough, ∀ fuel ≥ enough, ∃ r r', aware fuel = some r ∧ bulk fuel = some r'
    ∧ r.1 = r'.1 ∧ r.2.store.messages.all.Perm r'.2.store.messages.all

/-- What `CleanupExpiredMessages` deletes in its first half, when retention is configured. -/
def pastRetention (now : Time) (messageRetention : ℤ) (m : Message) : Bool :=
  decide (0 < messageRetention) && (Sweep.retention (now - messageRetention)).expired m

variable {messageRetention : ℤ}

section Calls

variable {now : Time} {w : World} {ranges ranges' : Ranges}

/-- If the paths agree, what the bulk path deletes is available, for scans find nothing else. -/
lemma SameOutcome.available {aware bulk : ℕ → Option (ℕ × World)} (h : SameOutcome aware bulk)
    {p : Message → Bool} (hkept : ∀ fuel r m, aware fuel = some r → m ∈ w.store.messages.all →
      (∀ sweep : Sweep, selects now sweep.filters m = false) → m ∈ r.2.store.messages.all)
    (hswept : ∀ fuel, ∃ r, bulk fuel = some r ∧ Swept p w r) :
    ∀ m ∈ w.store.messages.all, p m = true → isAvailableNow now m = true := by
  intro m hm hp
  by_contra hav
  have hsel : ∀ sweep : Sweep, selects now sweep.filters m = false := by
    intro sweep
    rw [Sweep.selects_filters, Bool.eq_false_iff.mpr hav, Bool.and_false]
  obtain ⟨enough, hall⟩ := h
  obtain ⟨r, r', haware, hbulk, _, hpm⟩ := hall enough le_rfl
  obtain ⟨rbulk, hbulk', hsw⟩ := hswept enough
  obtain rfl : rbulk = r' := some.inj (hbulk'.symm.trans hbulk)
  -- It is still there with attachments, and gone without.
  have hmem := hpm.mem_iff.mp (hkept enough r m haware hm hsel)
  rw [hsw.messages, mem_filter, hp] at hmem
  cases hmem.2

lemma pastRetention_eq (now : Time) (messageRetention : ℤ) : pastRetention now messageRetention
      = if 0 < messageRetention then (retention (now - messageRetention)).expired
        else fun _ => false := by
  funext m
  rw [pastRetention]
  split_ifs with h
  · rw [decide_eq_true h, Bool.true_and]
  · rw [decide_eq_false h, Bool.false_and]

lemma swept_cleanupRetention (now : Time) (fuel : ℕ) (messageRetention : ℤ) (ranges : Ranges)
    (w : World) : ∃ r, cleanupRetention now fuel false messageRetention ranges w = some r
      ∧ Swept (pastRetention now messageRetention) w r := by
  rw [cleanupRetention, pastRetention_eq]
  by_cases hreten : 0 < messageRetention
  · rw [if_pos hreten, if_pos hreten]
    exact ⟨_, rfl, swept_bulk _ w⟩
  · rw [if_neg hreten, if_neg hreten]
    exact ⟨_, rfl, swept_nothing w⟩

lemma swept_cleanupExpiredMessages (now : Time) (fuel : ℕ) (messageRetention : ℤ)
    (ranges ranges' : Ranges) (w : World) :
    ∃ r, cleanupExpiredMessages now fuel false messageRetention ranges ranges' w = some r
      ∧ Swept (fun m => pastRetention now messageRetention m || (ttl now).expired m) w r := by
  obtain ⟨r, hr, hsw⟩ := swept_cleanupRetention now fuel messageRetention ranges w
  refine ⟨(r.1 + ((ttl now).bulk r.2).1, ((ttl now).bulk r.2).2), ?_, hsw.trans (swept_bulk _ _)⟩
  simp [cleanupExpiredMessages, hr]

lemma swept_cleanupRetention_managed (hids : w.store.messages.Named)
    (hranges : ranges.Perm)
    (hsteady : Steady ranges (w.store.messages.all.filter (pastRetention now messageRetention)))
    (hav : ∀ m ∈ w.store.messages.all, pastRetention now messageRetention m = true →
      isAvailableNow now m = true) :
    ∃ r, Swept (pastRetention now messageRetention) w r ∧ ∃ enough, ∀ fuel ≥ enough,
      cleanupRetention now fuel true messageRetention ranges w = some r := by
  rw [pastRetention_eq] at hsteady hav ⊢
  by_cases hreten : 0 < messageRetention
  · simp only [if_pos hreten] at hsteady hav ⊢
    obtain ⟨r, hsw, enough, haware⟩ := swept_withAttachments _ hids hranges hsteady hav
    refine ⟨r, hsw, enough, fun fuel hfuel => ?_⟩
    rw [cleanupRetention, if_pos hreten]
    exact haware fuel hfuel
  · simp only [if_neg hreten]
    refine ⟨(0, w), swept_nothing w, 0, fun fuel _ => ?_⟩
    rw [cleanupRetention, if_neg hreten]

lemma cleanupExpiredMessages_agree (hids : w.store.messages.Named)
    (hranges : ranges.Perm) (hranges' : ranges'.Perm)
    (hsteady : Steady ranges (w.store.messages.all.filter (pastRetention now messageRetention)))
    (hsteady' : Steady ranges' (w.store.messages.all.filter fun m =>
      !pastRetention now messageRetention m && (ttl now).expired m))
    (hav : ∀ m ∈ w.store.messages.all,
      pastRetention now messageRetention m = true ∨ (ttl now).expired m = true →
        isAvailableNow now m = true) :
    SameOutcome (fun fuel => cleanupExpiredMessages now fuel true messageRetention ranges ranges' w)
      fun fuel => cleanupExpiredMessages now fuel false messageRetention ranges ranges' w := by
  obtain ⟨r, hsw, enough, haware⟩ := swept_cleanupRetention_managed hids hranges hsteady
    fun m hm hpast => hav m hm (.inl hpast)
  have hmem : ∀ m ∈ r.2.store.messages.all, m ∈ w.store.messages.all := by
    intro m hm
    rw [hsw.messages] at hm
    exact mem_of_mem_filter hm
  -- The second half finds what is past its TTL and has not been deleted in the first.
  simp only [Bool.and_comm (!pastRetention now messageRetention _)] at hsteady'
  rw [← List.filter_filter, ← hsw.messages] at hsteady'
  obtain ⟨r', hsw', enough', haware'⟩ := swept_withAttachments (ttl now)
    (fun m hm => hids m (hmem m hm)) hranges' hsteady'
    fun m hm hexp => hav m (hmem m hm) (.inr hexp)
  refine ⟨max enough enough', fun fuel hfuel => ?_⟩
  obtain ⟨rbulk, hbulk, hsweptBulk⟩ :=
    swept_cleanupExpiredMessages now fuel messageRetention ranges ranges' w
  refine ⟨(r.1 + r'.1, r'.2), rbulk, ?_, hbulk, (hsw.trans hsw').same hsweptBulk⟩
  simp [cleanupExpiredMessages, haware fuel (le_trans (le_max_left _ _) hfuel),
    cleanupTTLExpiredWithAttachments_eq, haware' fuel (le_trans (le_max_right _ _) hfuel)]

/-- **The two paths of a cleanup.**  In whatever order the scans visit the map: if the two paths of
`CleanupTrash`, or of `CleanupExpiredMessages`, agree, then all that has expired is available.
If it is, and the scans keep their place, they agree. -/
theorem cleanup_paths_agree_iff (now : Time) (w : World)
    (hids : w.store.messages.Named) (ranges ranges' : Ranges)
    (hranges : ranges.Perm) (hranges' : ranges'.Perm) :
    (∀ trashRetention : ℤ,
      let agree := SameOutcome (fun fuel => cleanupTrash now fuel true trashRetention ranges w)
        fun fuel => cleanupTrash now fuel false trashRetention ranges w
      let due := w.store.messages.all.filter (Sweep.trash (now - trashRetention)).expired
      (agree → ∀ m ∈ due, isAvailableNow now m = true)
        ∧ (Steady ranges due → (∀ m ∈ due, isAvailableNow now m = true) → agree))
      ∧ ∀ messageRetention : ℤ,
        let agree := SameOutcome
          (fun fuel => cleanupExpiredMessages now fuel true messageRetention ranges ranges' w)
          fun fuel => cleanupExpiredMessages now fuel false messageRetention ranges ranges' w
        let due := w.store.messages.all.filter (pastRetention now messageRetention)
        let due' := w.store.messages.all.filter fun m =>
          !pastRetention now messageRetention m && (Sweep.ttl now).expired m
        (agree → ∀ m ∈ due ++ due', isAvailableNow now m = true)
          ∧ (Steady ranges due → Steady ranges' due' →
            (∀ m ∈ due ++ due', isAvailableNow now m = true) → agree) := by
  refine ⟨fun trashRetention => ⟨?_, ?_⟩, fun messageRetention => ⟨?_, ?_⟩⟩
  · intro hagr m hm
    obtain ⟨hmem, hexp⟩ := List.mem_filter.mp hm
    exact hagr.available (fun _ _ _ hr hm hsel => Sweep.mem_of_withAttachments _ hranges hr hm
      (hsel _)) (fun _ => ⟨_, rfl, Sweep.swept_bulk _ w⟩) m hmem hexp
  · intro hsteady hav
    obtain ⟨r, hsw, enough, haware⟩ := Sweep.swept_withAttachments _ hids hranges hsteady
      fun m hm hexp => hav m (List.mem_filter.mpr ⟨hm, hexp⟩)
    exact ⟨enough, fun fuel hfuel => ⟨r, _, haware fuel hfuel, rfl,
      hsw.same (Sweep.swept_bulk _ w)⟩⟩
  · intro hagr m hm
    refine hagr.available (fun fuel r m hr hm hsel => ?_)
      (fun fuel => swept_cleanupExpiredMessages now fuel messageRetention ranges ranges' w) m ?_ ?_
    · refine cleanupExpiredMessages_induction (P := fun w => m ∈ w.store.messages.all) hr ?_ hm
      rintro sweep order (rfl | rfl) w r hsweep hm
      · exact sweep.mem_of_withAttachments hranges hsweep hm (hsel sweep)
      · exact sweep.mem_of_withAttachments hranges' hsweep hm (hsel sweep)
    · exact (List.mem_append.mp hm).elim List.mem_of_mem_filter List.mem_of_mem_filter
    · grind
  · intro hsteady hsteady' hav
    refine cleanupExpiredMessages_agree hids hranges hranges' hsteady hsteady' ?_
    intro m hm hexp
    refine hav m (List.mem_append.mpr ?_)
    cases hpast : pastRetention now messageRetention m with
    | true => exact .inl (List.mem_filter.mpr ⟨hm, hpast⟩)
    | false =>
      have httl : (Sweep.ttl now).expired m = true := by simpa [hpast] using hexp
      exact .inr (List.mem_filter.mpr ⟨hm, by simp [hpast, httl]⟩)

/-- One message in trash, perhaps scheduled for later. -/
def oneInTrash (availableAt : Option Time) : World where
  store := .of (Table.empty.put
      { inboxMessage "m" 0 with folderID := folderTrash, availableAt := availableAt })
  refs := ∅
  addRefCalls := 0
  events := []

/-- A message that is available is deleted on either path. -/
theorem cleanup_paths_agree_on_available :
    SameOutcome (fun fuel => cleanupTrash 10 fuel true 5 inOrder (oneInTrash none))
      fun fuel => cleanupTrash 10 fuel false 5 inOrder (oneInTrash none) :=
  ((cleanup_paths_agree_iff 10 (oneInTrash none) (by decide) inOrder inOrder inOrder_perm
    inOrder_perm).1 5).2 (.inl fun _ _ => rfl) (by decide)

/-- One that is scheduled for later is deleted on the bulk path only. -/
theorem cleanup_paths_disagree_on_scheduled :
    (cleanupTrash 10 1 true 5 inOrder (oneInTrash (some 20))).map
        (fun r => (r.1, r.2.store.messages.all.map Message.id)) = some (0, ["m"])
      ∧ (cleanupTrash 10 1 false 5 inOrder (oneInTrash (some 20))).map
        (fun r => (r.1, r.2.store.messages.all.map Message.id)) = some (1, []) :=
  ⟨by decide, by decide⟩

end Calls

end Mailbox.Service
