import Mailbox.Memory.Paging
import Mailbox.Service.BulkSpec

/-!
# When the paginated fallback does what the native bulk operation does

The fallback changes the very messages it is paging through, and finds its place again by the ID
of the last message it has seen.  It keeps its place exactly as long as that message — the last
one of a full page — still matches the filters after it has been changed, and no other match was
created at the same time.

`Stage` is what holds between two pages: the messages newer than the cursor, the cursor included,
are changed and counted, and nothing else is.  From it follow the next page (`Stage.find`), the next
stage (`Stage.page`), and what the last page leaves behind (`Stage.last`).  `pageLoop_of_keepsPlace`
is the run.

**`fallback_refines_native`** compares the two implementations.
-/

namespace Mailbox.Service

open Memory List Option BulkOp

/-! ## The statement -/

/-- Two stores hold the same, up to update and read timestamps. -/
structure SameUpToTimes (s s' : Store) : Prop where
  messages : (s.messages.all.map forgetTimes).Perm (s'.messages.all.map forgetTimes)
  idempotencyIdx : s.idempotencyIdx = s'.idempotencyIdx
  externalIdx : s.externalIdx = s'.externalIdx
  drawn : s.drawn = s'.drawn

variable (matched : List Message) (now : Time)

/-- In whatever order the calls of `Find` visit the map, the fallback comes to an end with the
count of the native operation, and in its state up to timestamps. -/
def Refines (userID : String) (filters : List Filter) (limit : ℕ) (op : BulkOp)
    (s : Store) : Prop :=
  ∀ ranges : Ranges, ranges.Perm → ∃ enough, ∀ fuel ≥ enough, ∃ result,
      op.fallback now userID filters limit fuel ranges s = some result
        ∧ result.1 = (op.native now userID filters s).1
        ∧ SameUpToTimes result.2 (op.native now userID filters s).2

/-- What the operation's query selects before the operation. -/
def BulkOp.selected (userID : String) (filters : List Filter) (op : BulkOp)
    (s : Store) : List Message :=
  s.messages.all.filter (selects now (op.scope userID filters))

/-- Wherever a full page ends with more matches to come, it ends at a match that no other match
ties with, and that is still selected once it has been changed. -/
def KeepsPlace (userID : String) (filters : List Filter) (limit : ℕ) (op : BulkOp)
    (s : Store) : Prop :=
  ∀ j ≥ 1, j * limit < (op.selected now userID filters s).length →
    ∃ m, Boundary Message.createdAt (op.selected now userID filters s) (j * limit) m
      ∧ selects now (op.scope userID filters) (op.effect now m) = true

/-- The condition for the fallback.  `MarkAllRead` takes every message it changes out of its query
and must do with one page; its native operation also changes messages that are not available
yet, so there must be none. -/
def FallbackOK (userID : String) (filters : List Filter) (limit : ℕ) (s : Store) : BulkOp → Prop
  | .markAllRead folderID =>
    ((BulkOp.markAllRead folderID).selected now userID filters s).length ≤ limit
      ∧ ∀ m ∈ s.messages.all, m.isDraft = false → m.isRead = false → m.ownerID = userID →
          m.folderID = folderID → isAvailableNow now m = true
  | op => KeepsPlace now userID filters limit op s

/-! ## Between two pages -/

/-- The matches the fallback has been at, when it has got to the cursor. -/
def seen : Option Message → List Message
  | none => []
  | some c => matched.filter fun m => decide (c.createdAt ≤ m.createdAt)

/-- The matches still to come. -/
def remaining : Option Message → List Message
  | none => matched
  | some c => matched.filter fun m => decide (m.createdAt < c.createdAt)

/-- `StartAfter`. -/
def cursorID : Option Message → String
  | none => ""
  | some c => c.id

lemma seen_append_remaining (cursor : Option Message) :
    (seen matched cursor ++ remaining matched cursor).Perm matched := by
  cases cursor with
  | none => exact .refl _
  | some c =>
    have hn : (fun m : Message => decide (m.createdAt < c.createdAt))
        = fun m => !decide (c.createdAt ≤ m.createdAt) := by
      funext m
      rw [← decide_not]
      simp
    rw [seen, remaining, hn]
    exact filter_append_perm _ _

lemma length_seen_add_remaining (cursor : Option Message) :
    (seen matched cursor).length + (remaining matched cursor).length = matched.length := by
  rw [← length_append, (seen_append_remaining matched cursor).length_eq]

variable {matched : List Message} {m : Message}

lemma mem_seen_or_remaining (cursor : Option Message) :
    m ∈ matched ↔ m ∈ seen matched cursor ∨ m ∈ remaining matched cursor := by
  rw [← (seen_append_remaining matched cursor).mem_iff, mem_append]

variable {l rest : List Message} {p : Message → Bool} {b : Message} {ids : List String}
  {limit count j : ℕ} {cursor : Option Message} {t : Messages} {ranges : Ranges}

variable {now : Time} {u : String} {fs : List Filter} {op : BulkOp} {s : Store}

variable (now u fs op s) in
/-- The state of the fallback between two pages. -/
structure Stage (cursor : Option Message) (count : ℕ) (t : Messages) : Prop where
  changed : Table.Changed (op.effect now)
    ((seen (op.selected now u fs s) cursor).map Message.id) s.messages t
  count_eq : count = (seen (op.selected now u fs s) cursor).length
  boundary : ∀ c, cursor = some c → Boundary Message.createdAt (op.selected now u fs s) count c
  still : ∀ c, cursor = some c → selects now (op.scope u fs) (op.effect now c) = true

lemma mem_selected : m ∈ op.selected now u fs s
    ↔ m ∈ s.messages.all ∧ selects now (op.scope u fs) m = true :=
  mem_filter

lemma stage_start : Stage now u fs op s none 0 s.messages where
  changed := Table.Changed.refl _ _
  count_eq := rfl
  boundary := by
    rintro c ⟨⟩
  still := by
    rintro c ⟨⟩

lemma eq_of_id_mem (hm : m ∈ s.messages.all)
    (hl : ∀ m ∈ l, m ∈ s.messages.all) (hid : m.id ∈ l.map Message.id) : m ∈ l := by
  obtain ⟨m', hm', heq⟩ := mem_map.mp hid
  rw [← inj_on_of_nodup_map s.messages.nodup (hl m' hm') hm heq]
  exact hm'

lemma mem_all_of_mem_seen (hm : m ∈ seen (op.selected now u fs s) cursor) : m ∈ s.messages.all :=
  (mem_selected.mp ((mem_seen_or_remaining cursor).mpr (.inl hm))).1

lemma notMem_seen_of_remaining (hm : m ∈ remaining (op.selected now u fs s) cursor) :
    m.id ∉ (seen (op.selected now u fs s) cursor).map Message.id := by
  intro hid
  have hmem : m ∈ s.messages.all :=
    (mem_selected.mp ((mem_seen_or_remaining cursor).mpr (.inr hm))).1
  have hsn := eq_of_id_mem hmem (fun _ => mem_all_of_mem_seen) hid
  cases cursor with
  | none => simp [seen] at hsn
  | some =>
    have hle := (mem_filter.mp hsn).2
    have hlt := (mem_filter.mp hm).2
    rw [decide_eq_true_eq] at hle hlt
    exact absurd hlt (not_lt.mpr hle)

lemma Stage.mem_of_remaining (h : Stage now u fs op s cursor count t)
    (hm : m ∈ remaining (op.selected now u fs s) cursor) : m ∈ t.all :=
  h.changed.mem_of_notMem (mem_selected.mp ((mem_seen_or_remaining cursor).mpr (.inr hm))).1
    (notMem_seen_of_remaining hm)

/-- A map that fixes what a filter keeps does not change the filter's outcome. -/
lemma filter_map_of_fixed {g : Message → Message}
    (h : ∀ m ∈ l, p (g m) = true ∨ p m = true → g m = m) : (l.map g).filter p = l.filter p := by
  induction l with
  | nil => rfl
  | cons m l ih =>
    have htl := ih fun m' hm' => h m' (mem_cons_of_mem _ hm')
    by_cases hfix : p (g m) = true ∨ p m = true
    · have hg : g m = m := h m mem_cons_self hfix
      have hp : p m = true := by
        rcases hfix with hp | hp
        · rw [hg] at hp
          exact hp
        · exact hp
      rw [map_cons, hg, filter_cons_of_pos hp, filter_cons_of_pos hp, htl]
    · rw [not_or] at hfix
      rw [map_cons, filter_cons_of_neg hfix.1, filter_cons_of_neg hfix.2, htl]

/-- What is selected below the cursor is what was selected there before. -/
lemma Stage.perm_remaining {c : Message} (h : Stage now u fs op s (some c) count t) :
    ((t.all.filter (selects now (op.scope u fs))).filter
        fun m => decide (m.createdAt < c.createdAt)).Perm
      (remaining (op.selected now u fs s) (some c)) := by
  have hremg : remaining (op.selected now u fs s) (some c)
      = s.messages.all.filter fun m => decide (m.createdAt < c.createdAt)
          && selects now (op.scope u fs) m := by
    rw [remaining, selected, List.filter_filter]
  refine ((h.changed.filter _).filter _).trans (List.Perm.of_eq ?_)
  rw [hremg, List.filter_filter]
  refine filter_map_of_fixed fun m hm hp => ?_
  by_cases hid : m.id ∈ (seen (op.selected now u fs s) (some c)).map Message.id
  · -- A message that has been seen is not below the cursor, changed or not.
    have hsn := eq_of_id_mem hm (fun _ => mem_all_of_mem_seen) hid
    have hle : c.createdAt ≤ m.createdAt := by simpa using (mem_filter.mp hsn).2
    rw [if_pos hid] at hp
    simp only [Bool.and_eq_true, decide_eq_true_eq, effect_createdAt] at hp
    rcases hp with ⟨hlt, _⟩ | ⟨hlt, _⟩ <;> exact absurd hlt (not_lt.mpr hle)
  · exact if_neg hid

/-- A page that ends with `b` and what was seen before it are the matches down to `b`. -/
lemma mem_seen_boundary {before after : List Message} (hb : b ∈ remaining matched cursor)
    (hr : rest.Perm (remaining matched cursor))
    (hspl : rest = before ++ b :: after) (hbef : ∀ m ∈ before, b.createdAt < m.createdAt)
    (haft : ∀ m ∈ after, m.createdAt < b.createdAt) (m : Message) :
    m ∈ seen matched (some b) ↔ m ∈ seen matched cursor ∨ m ∈ before ++ [b] := by
  have hmem : m ∈ seen matched (some b) ↔ m ∈ matched ∧ b.createdAt ≤ m.createdAt := by
    simp [seen]
  rw [hmem]
  constructor
  · rintro ⟨hm, hle⟩
    refine ((mem_seen_or_remaining cursor).mp hm).imp id fun hm => ?_
    have hmrest := hr.mem_iff.mpr hm
    rw [hspl, mem_append, mem_cons] at hmrest
    rcases hmrest with hm | rfl | hm
    · exact mem_append_left _ hm
    · simp
    · exact absurd (haft m hm) (not_lt.mpr hle)
  · rintro (hm | hm)
    · refine ⟨(mem_seen_or_remaining cursor).mpr (.inl hm), ?_⟩
      cases cursor with
      | none => simp [seen] at hm
      | some =>
        have hbc := (mem_filter.mp hb).2
        have hcm := (mem_filter.mp hm).2
        rw [decide_eq_true_eq] at hbc hcm
        exact hbc.le.trans hcm
    · have hmrest : m ∈ rest := by
        rw [hspl]
        rcases mem_append.mp hm with hm | hm
        · exact mem_append_left _ hm
        · simp [mem_singleton.mp hm]
      refine ⟨(mem_seen_or_remaining cursor).mpr (.inr (hr.mem_iff.mp hmrest)), ?_⟩
      rcases mem_append.mp hm with hm | hm
      · exact (hbef m hm).le
      · rw [mem_singleton.mp hm]

/-! ## One page -/

section Page

variable (h : Stage now u fs op s cursor count t) (hlimit : 1 ≤ limit)
  (hids : s.messages.Named) (hranges : ranges.Perm) (fuel : ℕ)

include h hids

include hlimit in
/-- The next page is cut from a descending arrangement of the matches to come. -/
lemma Stage.find {range : Range} (hrg : ∀ l, (range l).Perm l) :
    ∃ rest total, Descending Message.createdAt rest
      ∧ rest.Perm (remaining (op.selected now u fs s) cursor)
      ∧ Store.find now range (op.scope u fs)
          { limit := limit, startAfter := cursorID cursor } { s with messages := t }
        = some ⟨rest.take limit, total, decide (limit < rest.length)⟩ := by
  cases cursor with
  | none =>
    obtain ⟨all, hall, hfd⟩ := find_first now (op.scope u fs)
      { s with messages := t } hlimit hrg
    refine ⟨all, _, hall.descending, hall.perm.trans ?_, hfd⟩
    have hchg : t.all.Perm s.messages.all := by
      have hpm := h.changed
      simpa [Table.Changed, seen] using hpm
    exact hchg.filter _
  | some c =>
    have hc := mem_selected.mp (h.boundary c rfl).mem
    have hsn : c.id ∈ (seen (op.selected now u fs s) (some c)).map Message.id := by
      refine mem_map_of_mem (mem_filter.mpr ⟨(h.boundary c rfl).mem, ?_⟩)
      simp
    have hmem : op.effect now c ∈ t.all := h.changed.mem_iff.mpr ⟨c, hc.1, if_pos hsn⟩
    have hal : ∀ m ∈ t.all, selects now (op.scope u fs) m = true →
        m.createdAt = (op.effect now c).createdAt → m = op.effect now c := by
      intro m hm hsel htime
      obtain ⟨a, ha, rfl⟩ := h.changed.mem_iff.mp hm
      rw [effect_createdAt] at htime
      by_cases hid : a.id ∈ (seen (op.selected now u fs s) (some c)).map Message.id
      · have hsel' := eq_of_id_mem ha (fun _ => mem_all_of_mem_seen) hid
        rw [if_pos hid, effect_createdAt] at htime
        rw [if_pos hid, (h.boundary c rfl).alone (mem_filter.mp hsel').1 htime]
      · rw [if_neg hid] at htime hsel
        have hac := (h.boundary c rfl).alone (mem_selected.mpr ⟨ha, hsel⟩) htime
        exact absurd (hac ▸ hsn) hid
    obtain ⟨rest, total, hdesc, hpm, hfd⟩ := find_after (s := { s with messages := t })
      hlimit hrg (by simpa using hids c hc.1) hmem (h.still c rfl) hal
    rw [effect_id] at hfd
    refine ⟨rest, total, hdesc, ?_, hfd⟩
    rw [effect_createdAt] at hpm
    exact hpm.trans h.perm_remaining

lemma Stage.applyPage (hr : rest.Perm (remaining (op.selected now u fs s) cursor)) (n : ℕ) :
    ∃ t', Service.applyPage (op.single now) (rest.take n) count { s with messages := t }
        = (count + (rest.take n).length, { s with messages := t' })
      ∧ Table.Changed (op.effect now) ((seen (op.selected now u fs s) cursor).map Message.id
            ++ (rest.take n).map Message.id) s.messages t' := by
  have hpg : ∀ m ∈ rest.take n, m ∈ remaining (op.selected now u fs s) cursor :=
    fun m hm => hr.mem_iff.mp (mem_of_mem_take hm)
  have hnd : ((rest.take n).map Message.id).Nodup := by
    have hremg : ((remaining (op.selected now u fs s) cursor).map Message.id).Nodup := by
      refine s.messages.nodup.sublist (List.Sublist.map _ ?_)
      cases cursor with
      | none => exact filter_sublist
      | some => exact filter_sublist.trans filter_sublist
    exact ((hr.map _).nodup_iff.mpr hremg).sublist ((take_sublist n rest).map _)
  obtain ⟨t', happly, hchg⟩ := applyPage_spec now op (s := { s with messages := t }) count hnd (by
      intro m hm
      have hsel := mem_selected.mp ((mem_seen_or_remaining cursor).mpr (.inr (hpg m hm)))
      have hdr : m.isDraft = false := by
        have hsel := hsel.2
        simp only [selects, Bool.and_eq_true, Bool.not_eq_true'] at hsel
        exact hsel.1.1
      exact ⟨h.mem_of_remaining (hpg m hm), hids m hsel.1, hdr⟩)
  refine ⟨t', happly, Table.Changed.trans (effect_id now op) h.changed hchg ?_⟩
  rw [disjoint_right]
  intro id hid
  obtain ⟨m, hm, rfl⟩ := mem_map.mp hid
  exact notMem_seen_of_remaining (hpg m hm)

include hlimit hranges

/-- A page with more to come: the loop goes on after its last message. -/
lemma Stage.pageLoop_full (hmr : limit < (remaining (op.selected now u fs s) cursor).length) :
    ∃ rest last t', Descending Message.createdAt rest
      ∧ rest.Perm (remaining (op.selected now u fs s) cursor)
      ∧ (rest.take limit).getLast? = some last
      ∧ Table.Changed (op.effect now) ((seen (op.selected now u fs s) cursor).map Message.id
            ++ (rest.take limit).map Message.id) s.messages t'
      ∧ pageLoop now (op.scope u fs) limit (op.single now) (fuel + 1) ranges
            (cursorID cursor) count { s with messages := t }
          = pageLoop now (op.scope u fs) limit (op.single now) fuel
              (fun n => ranges (n + 1)) last.id (count + limit) { s with messages := t' } := by
  obtain ⟨rest, total, hdesc, hr, hfd⟩ := h.find hlimit hids (hranges 0)
  obtain ⟨t', happly, hchg⟩ := h.applyPage hids hr limit
  have hlen : limit < rest.length := by rw [hr.length_eq]; exact hmr
  have htake : (rest.take limit).length = limit := by
    rw [length_take]
    omega
  obtain ⟨last, hl⟩ : ∃ last, (rest.take limit).getLast? = some last := by
    rw [← isSome_iff_exists, getLast?_isSome, ← length_pos_iff]
    omega
  refine ⟨rest, last, t', hdesc, hr, hl, hchg, ?_⟩
  rw [pageLoop, hfd]
  simp only [happly, hl, htake, decide_eq_true hlen]

/-- The last page: everything selected has been changed and counted. -/
lemma Stage.pageLoop_last (hl : (remaining (op.selected now u fs s) cursor).length ≤ limit) :
    ∃ t', pageLoop now (op.scope u fs) limit (op.single now) (fuel + 1) ranges
          (cursorID cursor) count { s with messages := t }
        = (some (op.selected now u fs s).length, { s with messages := t' })
      ∧ Table.Changed (op.effect now) ((op.selected now u fs s).map Message.id) s.messages t' := by
  obtain ⟨rest, total, _, hr, hfd⟩ := h.find hlimit hids (hranges 0)
  obtain ⟨t', happly, hchg⟩ := h.applyPage hids hr limit
  have hlen : rest.length ≤ limit := by rw [hr.length_eq]; exact hl
  rw [take_of_length_le hlen] at hfd happly hchg
  have hcnt : count + rest.length = (op.selected now u fs s).length := by
    rw [h.count_eq, hr.length_eq, length_seen_add_remaining]
  refine ⟨t', ?_, hchg.congr_keys fun id => ?_⟩
  · rw [pageLoop, hfd]
    simp only [happly, hcnt, decide_eq_false (not_lt.mpr hlen)]
  · rw [← map_append]
    exact (((hr.append_left _).trans (seen_append_remaining _ cursor)).map Message.id).mem_iff

/-- A full page that ends at a boundary has been at everything down to it. -/
lemma Stage.pageLoop_boundary
    (hb : Boundary Message.createdAt (op.selected now u fs s) (count + limit) b)
    (hmr : count + limit < (op.selected now u fs s).length) : ∃ t', Table.Changed (op.effect now)
          ((seen (op.selected now u fs s) (some b)).map Message.id) s.messages t'
      ∧ pageLoop now (op.scope u fs) limit (op.single now) (fuel + 1) ranges
            (cursorID cursor) count { s with messages := t }
          = pageLoop now (op.scope u fs) limit (op.single now) fuel
              (fun n => ranges (n + 1)) b.id (count + limit) { s with messages := t' } := by
  have hbelow : Boundary Message.createdAt (remaining (op.selected now u fs s) cursor) limit b := by
    cases cursor with
    | none =>
      rw [h.count_eq, seen, length_nil, Nat.zero_add] at hb
      exact hb
    | some c => exact (h.boundary c rfl).of_below hb hlimit
  have hremg : limit < (remaining (op.selected now u fs s) cursor).length := by
    have hsum := length_seen_add_remaining (op.selected now u fs s) cursor
    rw [← h.count_eq] at hsum
    omega
  obtain ⟨rest, last, t', hdesc, hr, hl, hchg, hloop⟩ :=
    h.pageLoop_full hlimit hids hranges fuel hremg
  obtain ⟨before, after, hspl, hlen, hbef, haft⟩ := (hbelow.of_perm hr.symm).split hdesc
  have htake : rest.take limit = before ++ [b] := by
    have happend : rest = (before ++ [b]) ++ after := by simp [hspl]
    rw [happend, ← hlen]
    exact take_left' (by simp)
  obtain rfl : b = last := by
    rw [htake, getLast?_concat, some.injEq] at hl
    exact hl
  have hsn := mem_seen_boundary hbelow.mem hr hspl hbef haft
  rw [← htake] at hsn
  refine ⟨t', hchg.congr_keys fun id => ?_, hloop⟩
  simp only [← map_append, List.mem_map, mem_append, hsn]

end Page

/-- At a boundary that is still selected, the loop has kept its place. -/
lemma stage_of_boundary (hb : Boundary Message.createdAt (op.selected now u fs s) count b)
    (hstill : selects now (op.scope u fs) (op.effect now b) = true)
    (hchg : Table.Changed (op.effect now)
      ((seen (op.selected now u fs s) (some b)).map Message.id) s.messages t) :
    Stage now u fs op s (some b) count t where
  changed := hchg
  count_eq := by rw [seen, ← countP_eq_length_filter, hb.upTo]
  boundary := by
    rintro c ⟨⟩
    exact hb
  still := by
    rintro c ⟨⟩
    exact hstill

lemma pageLoop_gone (hranges : ranges.Perm) (fuel count : ℕ)
    {id : String} (hid : id ≠ "")
    (hgn : ∀ m ∈ t.all, m.id = id → selects now (op.scope u fs) m = false) :
    pageLoop now (op.scope u fs) limit (op.single now) (fuel + 1) ranges id count
        { s with messages := t }
      = (some count, { s with messages := t }) := by
  obtain ⟨total, hfd⟩ := find_gone limit { s with messages := t } (hranges 0) hid hgn
  rw [pageLoop, hfd]
  rfl

lemma gone_of_changed (hchg : Table.Changed (op.effect now) ids s.messages t)
    (hb : b ∈ s.messages.all) (hid : b.id ∈ ids)
    (hn : selects now (op.scope u fs) (op.effect now b) = false) :
    ∀ m ∈ t.all, m.id = b.id → selects now (op.scope u fs) m = false := by
  intro m hm hmid
  obtain ⟨a, ha, rfl⟩ := hchg.mem_iff.mp hm
  have haid : a.id = b.id := by
    by_cases h : a.id ∈ ids
    · rw [if_pos h, effect_id] at hmid
      exact hmid
    · rw [if_neg h] at hmid
      exact hmid
  rw [inj_on_of_nodup_map s.messages.nodup ha hb haid, if_pos hid]
  exact hn

/-! ## Whole runs -/

section

variable (hlimit : 1 ≤ limit) (hids : s.messages.Named) (hranges : ranges.Perm)

include hlimit hids hranges

/-- **The run that keeps its place** changes and counts all it has selected. -/
theorem pageLoop_of_keepsPlace (hkeeps : KeepsPlace now u fs limit op s) {fuel : ℕ}
    (h : Stage now u fs op s cursor (j * limit) t)
    (hfuel : (remaining (op.selected now u fs s) cursor).length < fuel) :
    ∃ t', pageLoop now (op.scope u fs) limit (op.single now) fuel ranges
          (cursorID cursor) (j * limit) { s with messages := t }
        = (some (op.selected now u fs s).length, { s with messages := t' })
      ∧ Table.Changed (op.effect now) ((op.selected now u fs s).map Message.id) s.messages t' := by
  induction fuel generalizing ranges cursor j t with
  | zero => omega
  | succ fuel ih =>
    have hsum := length_seen_add_remaining (op.selected now u fs s) cursor
    rw [← h.count_eq] at hsum
    rcases Nat.lt_or_ge limit (remaining (op.selected now u fs s) cursor).length with hmr | hl
    · obtain ⟨b, hb, hstill⟩ := hkeeps (j + 1) (by omega) (by rw [Nat.succ_mul]; omega)
      rw [Nat.succ_mul] at hb
      obtain ⟨t', hchg, hloop⟩ := h.pageLoop_boundary hlimit hids hranges fuel hb (by omega)
      have hstage := stage_of_boundary hb hstill hchg
      rw [← Nat.succ_mul] at hstage
      have hsum' := length_seen_add_remaining (op.selected now u fs s) (some b)
      rw [← hstage.count_eq, Nat.succ_mul] at hsum'
      rw [hloop, ← Nat.succ_mul]
      exact ih (fun n l => hranges (n + 1) l) hstage (by omega)
    · exact h.pageLoop_last hlimit hids hranges fuel hl

/-- **The run that loses its place** after `j` pages stops there. -/
theorem pageLoop_of_lostPlace
    (hb : Boundary Message.createdAt (op.selected now u fs s) (j * limit) b)
    (hn : selects now (op.scope u fs) (op.effect now b) = false)
    (hmr : j * limit < (op.selected now u fs s).length) (hkeeps : ∀ i ≥ 1, i < j → ∃ m,
      Boundary Message.createdAt (op.selected now u fs s) (i * limit) m
        ∧ selects now (op.scope u fs) (op.effect now m) = true)
    {i : ℕ} (hij : i < j) (h : Stage now u fs op s cursor (i * limit) t) (fuel : ℕ)
    (hfuel : j - i < fuel) :
    ∃ t', pageLoop now (op.scope u fs) limit (op.single now) fuel ranges (cursorID cursor)
          (i * limit) { s with messages := t } = (some (j * limit), { s with messages := t' })
      ∧ Table.Changed (op.effect now) ((seen (op.selected now u fs s) (some b)).map Message.id)
          s.messages t' := by
  induction fuel generalizing ranges cursor i t with
  | zero => omega
  | succ fuel ih =>
    have hle : (i + 1) * limit ≤ j * limit := Nat.mul_le_mul_right _ (by omega)
    rw [Nat.succ_mul] at hle
    rcases Nat.lt_or_ge (i + 1) j with hlt | hge
    · obtain ⟨m, hm, hstill⟩ := hkeeps (i + 1) (by omega) hlt
      rw [Nat.succ_mul] at hm
      obtain ⟨t', hchg, hloop⟩ := h.pageLoop_boundary hlimit hids hranges fuel hm (by omega)
      have hstage := stage_of_boundary hm hstill hchg
      rw [← Nat.succ_mul] at hstage
      rw [hloop, ← Nat.succ_mul]
      exact ih (fun n l => hranges (n + 1) l) hlt hstage (by omega)
    · obtain rfl : j = i + 1 := by omega
      rw [Nat.succ_mul] at hb hmr ⊢
      obtain ⟨t', hchg, hloop⟩ := h.pageLoop_boundary hlimit hids hranges fuel hb hmr
      have hbmem := mem_selected.mp hb.mem
      have hsn : b.id ∈ (seen (op.selected now u fs s) (some b)).map Message.id :=
        mem_map_of_mem (mem_filter.mpr ⟨hb.mem, by simp⟩)
      obtain ⟨fuel, rfl⟩ : ∃ n, fuel = n + 1 := ⟨fuel - 1, by omega⟩
      rw [hloop]
      exact ⟨t', pageLoop_gone (fun n l => hranges (n + 1) l) fuel _ (hids b hbmem.1)
        (gone_of_changed hchg hbmem.1 hsn hn), hchg⟩

end

/-! ## Comparing the two implementations -/

/-- Changing the same messages, each in its own way, comes to the same up to timestamps. -/
lemma sameUpToTimes_of_changed {t' : Messages} (h : Table.Changed (op.effect now) ids s.messages t)
    (h' : Table.Changed (op.nativeEffect now) ids s.messages t') :
    SameUpToTimes { s with messages := t } { s with messages := t' } := by
  refine ⟨(h.map _).trans (List.Perm.trans ?_ (h'.map _).symm), rfl, rfl, rfl⟩
  rw [List.map_map, List.map_map]
  refine List.Perm.of_eq (map_congr_left fun m _ => ?_)
  by_cases hid : m.id ∈ ids
  · simp only [Function.comp, if_pos hid, forgetTimes_effect]
  · simp only [Function.comp, if_neg hid]

section Comparison

variable (hlimit : 1 ≤ limit) (hids : s.messages.Named)

include hlimit hids

lemma fallback_of_keepsPlace (hkeeps : KeepsPlace now u fs limit op s)
    (hranges : ranges.Perm) (fuel : ℕ)
    (hfuel : (op.selected now u fs s).length < fuel) : ∃ t, op.fallback now u fs limit fuel ranges s
        = some ((op.selected now u fs s).length, { s with messages := t })
      ∧ Table.Changed (op.effect now) ((op.selected now u fs s).map Message.id) s.messages t := by
  have hrun := pageLoop_of_keepsPlace (j := 0) hlimit hids hranges hkeeps
    (by rw [Nat.zero_mul]; exact stage_start) hfuel
  rw [Nat.zero_mul] at hrun
  simp only [fallback_eq_some_iff]
  exact hrun

lemma fallback_of_lostPlace (hb : Boundary Message.createdAt (op.selected now u fs s) (j * limit) b)
    (hn : selects now (op.scope u fs) (op.effect now b) = false) (hj : 1 ≤ j)
    (hmr : j * limit < (op.selected now u fs s).length) (hkeeps : ∀ i ≥ 1, i < j → ∃ m,
      Boundary Message.createdAt (op.selected now u fs s) (i * limit) m
        ∧ selects now (op.scope u fs) (op.effect now m) = true)
    (hranges : ranges.Perm) (fuel : ℕ) (hfuel : j < fuel) :
    ∃ t, op.fallback now u fs limit fuel ranges s = some (j * limit, { s with messages := t })
      ∧ Table.Changed (op.effect now) ((seen (op.selected now u fs s) (some b)).map Message.id)
          s.messages t := by
  have hrun := pageLoop_of_lostPlace (i := 0) hlimit hids hranges hb hn hmr hkeeps hj
    (by rw [Nat.zero_mul]; exact stage_start) fuel (by omega)
  rw [Nat.zero_mul] at hrun
  simp only [fallback_eq_some_iff]
  exact hrun

section

variable (hhits : ∀ m ∈ s.messages.all, op.hits now u fs m = selects now (op.scope u fs) m)

include hhits

/-- Keeping its place is enough when the native operation is after what the query selects. -/
lemma refines_of_keepsPlace (hkeeps : KeepsPlace now u fs limit op s) :
    Refines now u fs limit op s := by
  intro ranges hranges
  have hsld : s.messages.all.filter (op.hits now u fs)
      = op.selected now u fs s := filter_congr hhits
  refine ⟨(op.selected now u fs s).length + 1, fun fuel hfuel => ?_⟩
  obtain ⟨t, hrun, hchg⟩ := fallback_of_keepsPlace hlimit hids hkeeps hranges fuel hfuel
  obtain ⟨t', hnat, hchg'⟩ := native_spec now u fs op s
  rw [countP_eq_length_filter, hsld] at hnat
  rw [hsld] at hchg'
  refine ⟨_, hrun, ?_, ?_⟩
  · rw [hnat]
  · rw [hnat]
    exact sameUpToTimes_of_changed hchg hchg'

lemma keepsPlace_of_refines (hties : ((op.selected now u fs s).map Message.createdAt).Nodup)
    (h : Refines now u fs limit op s) : KeepsPlace now u fs limit op s := by
  intro j
  induction j using Nat.strong_induction_on with
  | _ j ih =>
    intro hj hmr
    have hall := matches_sortMessages now (op.scope u fs) s.messages fun l => .refl (id l)
    have hjpos : 1 ≤ j * limit := Nat.mul_pos hj hlimit
    obtain ⟨b, hb⟩ := exists_boundary hall.descending
      ((hall.perm.map _).nodup_iff.mpr hties) hjpos (by rw [hall.perm.length_eq]; exact hmr.le)
    have hb := hb.of_perm hall.perm
    refine ⟨b, hb, ?_⟩
    -- Otherwise the fallback would stop after `j` pages.
    by_contra hn
    obtain ⟨enough, hrun⟩ := h inOrder inOrder_perm
    obtain ⟨result, hres, hcnt, _⟩ := hrun (enough + j + 1) (by omega)
    obtain ⟨t, hstop, _⟩ := fallback_of_lostPlace hlimit hids hb (Bool.eq_false_iff.mpr hn) hj
      hmr (fun i hi hij => ih i hij hi ((Nat.mul_le_mul_right _ hij.le).trans_lt hmr))
      inOrder_perm (enough + j + 1) (by omega)
    have heq : result = (j * limit, { s with messages := t }) :=
      some.inj (hres.symm.trans hstop)
    obtain ⟨t', hnat, _⟩ := native_spec now u fs op s
    have hlen : s.messages.all.countP (op.hits now u fs) = (op.selected now u fs s).length := by
      rw [countP_eq_length_filter, filter_congr hhits]
      rfl
    rw [heq, hnat, hlen] at hcnt
    exact absurd hcnt hmr.ne

end

end Comparison

/-! ### Marking a folder as read -/

lemma selects_markAllRead (folderID : String) (m : Message) :
    selects now ((markAllRead folderID).scope u fs) m = true
      ↔ (markAllRead folderID).hits now u fs m = true ∧ isAvailableNow now m = true := by
  simp only [selects, scope, hits, matchesFilters, all_cons, all_nil,
    Bool.and_eq_true, Bool.not_eq_true', matchesFilter_ownerIs, matchesFilter_inFolder,
    matchesFilter_isReadFilter, decide_eq_true_eq, Bool.and_true]
  constructor
  · rintro ⟨⟨hdr, hav⟩, hown, hfo, hrd⟩
    exact ⟨⟨⟨⟨hdr, hrd⟩, hown⟩, hfo⟩, hav⟩
  · rintro ⟨⟨⟨⟨hdr, hrd⟩, hown⟩, hfo⟩, hav⟩
    exact ⟨⟨hdr, hav⟩, hown, hfo, hrd⟩

lemma hits_markAllRead (folderID : String) (m : Message) :
    (markAllRead folderID).hits now u fs m = true
      ↔ m.isDraft = false ∧ m.isRead = false ∧ m.ownerID = u ∧ m.folderID = folderID := by
  simp [hits, and_assoc]

/-- With more than one page, the fallback of `MarkAllRead` stops after the first. -/
lemma fallback_markAllRead_stops (folderID : String) (hlimit : 1 ≤ limit)
    (hids : s.messages.Named)
    (hmr : limit < ((markAllRead folderID).selected now u fs s).length)
    (hranges : ranges.Perm) (fuel : ℕ) :
    ∃ s', (markAllRead folderID).fallback now u fs limit (fuel + 2) ranges s
      = some (limit, s') := by
  obtain ⟨rest, last, t', _, hr, hl, hchg, hloop⟩ :=
    (show Stage now u fs (.markAllRead folderID) s none 0 s.messages from
      stage_start).pageLoop_full hlimit hids hranges (fuel + 1) hmr
  have hpg : last ∈ rest.take limit := mem_of_getLast? hl
  have hmem := mem_selected.mp (hr.mem_iff.mp (mem_of_mem_take hpg))
  -- A message that has been read is not unread.
  have hrd : ¬ selects now ((markAllRead folderID).scope u fs)
      ((markAllRead folderID).effect now last) = true := by
    rw [selects_markAllRead]
    simp [hits, effect]
  rw [Nat.zero_add] at hloop
  exact ⟨_, fallback_eq_some_iff.mpr (hloop.trans (pageLoop_gone (fun n l => hranges (n + 1) l)
    fuel limit (hids last hmem.1) (gone_of_changed hchg hmem.1
      (mem_append_right _ (mem_map_of_mem hpg)) (Bool.eq_false_iff.mpr hrd))))⟩

/-- Of two predicates one of which implies the other, both hold equally often only together. -/
lemma forall_of_countP_eq {q : Message → Bool}
    (hsubset : ∀ m ∈ l, p m = true → q m = true) (hcnt : l.countP p = l.countP q) :
    ∀ m ∈ l, q m = true → p m = true := by
  have hboth : (l.filter p).countP q = l.countP p := by
    rw [countP_eq_length_filter (p := p)]
    exact countP_eq_length.mpr fun m hm =>
      hsubset m (mem_filter.mp hm).1 (mem_filter.mp hm).2
  have hspl := countP_eq_countP_filter_add l q p
  have hzr : (l.filter fun m => !p m).countP q = 0 := by omega
  intro m hm hq
  by_contra hp
  exact countP_eq_zero.mp hzr m (mem_filter.mpr ⟨hm, by simpa using hp⟩) hq

variable (now u fs) in
/-- The condition for `MarkAllRead` is exact, with or without ties. -/
lemma refines_markAllRead_iff (folderID : String) (hlimit : 1 ≤ limit)
    (hids : s.messages.Named) : Refines now u fs limit (.markAllRead folderID) s
      ↔ FallbackOK now u fs limit s (.markAllRead folderID) := by
  set l := (markAllRead folderID).selected now u fs s with hl
  -- With a single page there is no place to lose.
  have hkeeps : l.length ≤ limit → KeepsPlace now u fs limit (.markAllRead folderID) s := by
    intro hle j hj (hmr : _ < l.length)
    have hlimitj : limit ≤ j * limit := Nat.le_mul_of_pos_left _ hj
    omega
  obtain ⟨t', hnat, _⟩ := native_spec now u fs (.markAllRead folderID) s
  have hsubset : ∀ m ∈ s.messages.all, selects now ((markAllRead folderID).scope u fs) m = true →
        (markAllRead folderID).hits now u fs m = true :=
    fun m _ hm => ((selects_markAllRead folderID m).mp hm).1
  constructor
  · intro h
    obtain ⟨enough, hrun⟩ := h inOrder inOrder_perm
    rcases Nat.lt_or_ge limit l.length with hmr | hle
    · obtain ⟨result, hres, hcnt, _⟩ := hrun (enough + 2) (by omega)
      obtain ⟨s', hstop⟩ := fallback_markAllRead_stops folderID hlimit hids hmr inOrder_perm enough
      rw [some.inj (hres.symm.trans hstop), hnat] at hcnt
      have hmono : l.length ≤ limit := by
        rw [show limit = _ from hcnt, hl, selected, ← countP_eq_length_filter]
        exact countP_mono_left hsubset
      exact absurd hmono (Nat.not_le.mpr hmr)
    · refine ⟨hle, fun m hm hdr hrd hown hfo => ?_⟩
      obtain ⟨result, hres, hcnt, _⟩ := hrun (enough + l.length + 1) (by omega)
      obtain ⟨t, hrun', _⟩ := fallback_of_keepsPlace hlimit hids (hkeeps hle) inOrder_perm
        (enough + l.length + 1) (show l.length < _ by omega)
      rw [some.inj (hres.symm.trans hrun'), hnat] at hcnt
      -- All that is counted is selected, so nothing is hit that is not.
      have hsld := forall_of_countP_eq hsubset (countP_eq_length_filter.trans hcnt) m hm
        ((hits_markAllRead folderID m).mpr ⟨hdr, hrd, hown, hfo⟩)
      exact ((selects_markAllRead folderID m).mp hsld).2
  · rintro ⟨hle, hav⟩
    refine refines_of_keepsPlace hlimit hids (fun m hm => ?_) (hkeeps hle)
    rw [Bool.eq_iff_iff, selects_markAllRead]
    refine ⟨fun hhit => ⟨hhit, ?_⟩, And.left⟩
    obtain ⟨hdr, hrd, hown, hfo⟩ := (hits_markAllRead folderID m).mp hhit
    exact hav m hm hdr hrd hown hfo

/-- **The fallback and the native operation.**  Under `FallbackOK` the paginated fallback of a bulk
operation returns the count of the native one and ends in the same state up to timestamps, in
whatever order the map is visited; when no two matches were created at the same time, only then. -/
theorem fallback_refines_native (now : Time) (userID : String) (filters : List Filter)
    (limit : ℕ) (op : BulkOp) (s : Store) (hlimit : 1 ≤ limit)
    (hids : s.messages.Named) :
    (FallbackOK now userID filters limit s op → Refines now userID filters limit op s)
      ∧ (((op.selected now userID filters s).map Message.createdAt).Nodup →
          Refines now userID filters limit op s → FallbackOK now userID filters limit s op) := by
  cases op with
  | markAllRead folderID =>
    have hiff := refines_markAllRead_iff now userID filters folderID hlimit hids
    exact ⟨hiff.mpr, fun _ => hiff.mp⟩
  | _ =>
    exact ⟨refines_of_keepsPlace hlimit hids fun _ _ => rfl,
      keepsPlace_of_refines hlimit hids fun _ _ => rfl⟩

def inboxMessage (id : String) (createdAt : Time) : Message :=
  { Store.newDraft createdAt "u" with
    id := id, status := .delivered, folderID := folderInbox, isDraft := false }

def twoInInbox : Store :=
  .of <| (Table.empty.put (inboxMessage "m1" 1)).put (inboxMessage "m2" 2)

/-- Within one page the fallback of a move does what the native operation does. -/
theorem fallback_refines_native_one_page :
    Refines 5 "u" [inFolder folderInbox] 2 (.move folderArchived) twoInInbox :=
  (fallback_refines_native 5 "u" [inFolder folderInbox] 2 (.move folderArchived) twoInInbox
    (by decide) (by decide)).1 (by
      intro j hj hmore
      have hlen : ((BulkOp.move folderArchived).selected 5 "u" [inFolder folderInbox]
          twoInInbox).length = 2 := by decide
      omega)

/-- Moving the inbox page by page, one message a page: the message the page ended at has left the
inbox, and the second message is never reached. -/
theorem move_fallback_stops_early :
    ((BulkOp.move folderArchived).fallback 5 "u" [inFolder folderInbox] 1 10 (fun _ l => l)
        twoInInbox).map Prod.fst = some 1
      ∧ ((BulkOp.move folderArchived).native 5 "u" [inFolder folderInbox] twoInInbox).1 = 2 := by
  decide

end Mailbox.Service
