import Mailbox.Service.Conservation

/-!
# What quota enforcement deletes

`enforceUserQuota` of `quota_enforce.go`, alone and with the in-memory store behind it.  It asks for
the oldest messages that may be deleted, up to 500 at a time, and asks again as long as there is
something left to do and the last page has seen a delete succeed; which deletes fail is arbitrary.

The loop trims the mailbox from its old end (`Trimming`): what is gone was allowed to go, no more is
gone or about to go than was in excess, and — unless a delete fails — what is gone is nowhere newer
than what could have gone as well.  The page in hand is a front of what is left.

**`enforceUserQuota_deletes_oldest`** is the outcome.  The loop comes to an end because a page
without a success is its last one, and any other page leaves fewer messages behind
(`halts_query`).
-/

namespace Mailbox.Service

open Memory Pool List

/-- What `deleteOldest` may delete. -/
def eligible (userID : String) (cutoff : Time) (m : Message) : Bool :=
  countsFor userID m && decide (m.createdAt < cutoff)

/-- The in-memory store, with deletes that fail. -/
def failingSurroundings (userID : String) (policy : EnforcedPolicy) (now : Time) (ranges : Ranges)
    (faults : ℕ → Option Error) : Surroundings Unit :=
  { memorySurroundings userID (.ok (some policy)) now ranges with
    hardDeleteFault := fun _ n => faults n }

/-! ## Trimming a store -/

/-- `gone` has been deleted from `t`, `s` is left, and `pending` is about to go; `ok` says that no
delete fails. -/
structure Trimming (ok : Prop) (old : Message → Bool) (t s : Messages) (excess : ℤ)
    (gone pending : List Message) : Prop where
  perm : t.all.Perm (gone ++ s.all)
  allowed : ∀ m ∈ gone, old m = true
  listed : pending.Subperm (s.all.filter old)
  bound : gone.length + pending.length ≤ excess
  sorted : ok → ∃ rest, (pending ++ rest).Perm (s.all.filter old)
    ∧ (gone ++ (pending ++ rest)).Pairwise fun a b => a.createdAt ≤ b.createdAt

lemma pairwise_oldest (msgs : List Message) :
    (sortMessages "created_at" .asc msgs).Pairwise fun a b => a.createdAt ≤ b.createdAt :=
  sortedBy_sortMessages .asc msgs fun a b => by simp [comesAfter, shouldSwap]

namespace Trimming

variable {ok : Prop} {old : Message → Bool} {t s : Messages} {excess : ℤ} {m : Message}
  {gone pending : List Message}

lemma start (h : 0 ≤ excess) : Trimming ok old t t excess [] [] where
  perm := .refl _
  allowed m hm := by cases hm
  listed := nil_subperm
  bound := by simpa using h
  sorted _ := ⟨_, ExchangeSort.sort_perm _, pairwise_oldest _⟩

/-- A page: a front of what may be deleted, in order. -/
lemma page (h : Trimming ok old t s excess gone []) {all : List Message}
    (hpm : all.Perm (s.all.filter old))
    (hsort : all.Pairwise fun a b => a.createdAt ≤ b.createdAt) {limit : ℕ}
    (hlim : gone.length + limit ≤ excess) : Trimming ok old t s excess gone (all.take limit) where
  perm := h.perm
  allowed := h.allowed
  listed := (take_sublist limit all).subperm.trans hpm.subperm
  bound := by
    have hlen := length_take_le limit all
    omega
  sorted hok := by
    obtain ⟨rest, hr, hpairs⟩ := h.sorted hok
    rw [pairwise_append] at hpairs
    refine ⟨all.drop limit, ?_⟩
    rw [take_append_drop, pairwise_append]
    exact ⟨hpm, hpairs.1, hsort, fun a ha b hb =>
      hpairs.2.2 a ha b ((hr.trans hpm.symm).mem_iff.mpr hb)⟩

section

variable (h : Trimming ok old t s excess gone (m :: pending))

include h

lemma skip (hok : ¬ok) : Trimming ok old t s excess gone pending where
  perm := h.perm
  allowed := h.allowed
  listed := (sublist_cons_self m pending).subperm.trans h.listed
  bound := by
    have hbound := h.bound
    rw [length_cons] at hbound
    omega
  sorted h' := absurd h' hok

lemma mem : m ∈ s.all ∧ old m = true :=
  mem_filter.mp (h.listed.subset mem_cons_self)

lemma delete : Trimming ok old t (s.delete m.id) excess (gone ++ [m]) pending := by
  obtain ⟨hm, hold⟩ := h.mem
  have hpm := Table.perm_delete (Table.load_of_mem hm)
  have hfilt := hpm.filter old
  rw [filter_cons_of_pos hold] at hfilt
  constructor
  case perm => simpa using h.perm.trans (hpm.append_left gone)
  case allowed => simpa [or_imp, forall_and, hold] using h.allowed
  case listed => exact (subperm_cons m).mp (h.listed.trans hfilt.subperm)
  case bound =>
    have hbound := h.bound
    simp only [length_cons, length_append, length_nil] at hbound ⊢
    omega
  case sorted =>
    intro hok
    obtain ⟨rest, hr, hpairs⟩ := h.sorted hok
    exact ⟨rest, (hr.trans hfilt).cons_inv, by simpa using hpairs⟩

end

/-- When all is deleted that has to be, or nothing is left to delete, it is the right number. -/
lemma length_eq (h : Trimming ok old t s excess gone [])
    (hend : gone.length = excess ∨ s.all.filter old = []) :
    (gone.length : ℤ) = min excess (t.all.countP old) := by
  have hcnt := h.perm.countP_eq old
  have hbound := h.bound
  rw [countP_append, countP_eq_length.mpr h.allowed] at hcnt
  rcases hend with heq | hno
  · omega
  · have hzr : s.all.countP old = 0 := by simp [countP_eq_length_filter, hno]
    omega

lemma oldest (h : Trimming ok old t s excess gone []) (hok : ok) {k : Message} (hm : m ∈ gone)
    (hk : k ∈ s.all) (hold : old k = true) : m.createdAt ≤ k.createdAt := by
  obtain ⟨rest, hr, hpairs⟩ := h.sorted hok
  exact (pairwise_append.mp hpairs).2.2 m hm k (hr.mem_iff.mpr (mem_filter.mpr ⟨hk, hold⟩))

end Trimming

/-! ## A run trims the store -/

variable {cutoff : Time} {phase : EnforcePhase} {m : Message}

section Run

variable {userID : String} {policy : EnforcedPolicy} {now : Time} {ranges : Ranges}
  {faults : ℕ → Option Error} {t : Messages} {s : Depot}

/-- The filters of the pages. -/
def quotaFilters (userID : String) (cutoff : Time) : List Filter :=
  [ownerIs userID, ((messageFilter "CreatedAt").lessThan (.utc cutoff)).1]

lemma selects_quotaFilters (h : isAvailableNow now m = true) :
    selects now (quotaFilters userID cutoff) m = eligible userID cutoff m := by
  have hmade : quotaFilters userID cutoff
      = [ownerIs userID, .mk .createdAt .lt (.utc cutoff)] := rfl
  rw [Bool.eq_iff_iff]
  simp [selects, eligible, countsFor, h, matchesFilters, hmade, matchesFilter, matchesScalar,
    goEq, compareValues, compare_lt_iff_lt, and_assoc]

/-- Where a run can be, from the count on. -/
def EnforcePhase.Trims (ok : Prop) (userID : String) (cutoff : Time) (t : Messages) (excess : ℤ)
    (s : Messages) : EnforcePhase → Prop :=
  let trimming deleted pending :=
    ∃ gone, gone.length = deleted ∧ Trimming ok (eligible userID cutoff) t s excess gone pending
  let loop (p : Progress) := p.filters = quotaFilters userID cutoff ∧ p.excess = excess
  fun
  | .start => False
  | .query p => loop p ∧ trimming p.deleted []
  | .page p msgs => loop p ∧ trimming p.deleted msgs ∧ (ok → 0 < p.progress + msgs.length)
  | .message p msg _ msgs => loop p ∧ trimming p.deleted (msg :: msgs)
  | .returned deleted err => err = none ∧ trimming deleted []
      ∧ (ok → deleted = excess ∨ s.all.filter (eligible userID cutoff) = [])

variable {excess : ℤ}

section

variable {ok : Prop} (hranges : ranges.Perm) (havail : ∀ m ∈ t.all, isAvailableNow now m = true)

include hranges havail

lemma trims_fetchPage {p : Progress} {messages : Messages}
    (h : EnforcePhase.Trims ok userID cutoff t excess messages (.query p)) (ticks : ℕ) :
    (fetchPage (failingSurroundings userID policy now ranges faults) () ticks p messages).Trims ok
      userID cutoff t excess messages := by
  obtain ⟨⟨hfilters, hexcess⟩, gone, hdeleted, htrim⟩ := h
  have hbound := htrim.bound
  simp only [fetchPage, failingSurroundings, memorySurroundings, hexcess, hfilters]
  by_cases hdn : excess - p.deleted ≤ 0
  · rw [if_pos hdn]
    exact ⟨rfl, ⟨gone, hdeleted, htrim⟩, fun _ => .inl (by omega)⟩
  · rw [if_neg hdn]
    obtain ⟨limit, hone, hle, hlim⟩ : ∃ limit : ℕ, 1 ≤ limit ∧ p.deleted + limit ≤ excess
        ∧ (if excess - p.deleted < quotaDeleteBatchSize then excess - p.deleted
          else quotaDeleteBatchSize) = limit :=
      ⟨(min (excess - p.deleted) 500).toNat, by omega, by omega, by
        simp only [quotaDeleteBatchSize]
        split_ifs <;> omega⟩
    have hsel : messages.all.filter (selects now (quotaFilters userID cutoff))
        = messages.all.filter (eligible userID cutoff) :=
      filter_congr fun m hm => selects_quotaFilters
        (havail m (htrim.perm.mem_iff.mpr (mem_append_right gone hm)))
    have hpm : (sortMessages "created_at" .asc ((ranges ticks messages.all).filter
        (selects now (quotaFilters userID cutoff)))).Perm
          (messages.all.filter (eligible userID cutoff)) := by
      rw [← hsel]
      exact (ExchangeSort.sort_perm _).trans ((hranges ticks messages.all).filter _)
    have hsort := pairwise_oldest
      ((ranges ticks messages.all).filter (selects now (quotaFilters userID cutoff)))
    rw [hlim, memoryFinder, find_eq_after hone rfl ""]
    simp only [cursorOf, if_true, PageWalk.after]
    generalize sortMessages _ _ _ = all at hpm hsort ⊢
    split_ifs with hemp
    · refine ⟨rfl, ⟨gone, hdeleted, htrim⟩, fun _ => .inr ?_⟩
      have hnil : all = [] := by
        rw [length_take] at hemp
        exact length_eq_zero_iff.mp (by omega)
      rw [hnil] at hpm
      exact hpm.nil_eq.symm
    · exact ⟨⟨rfl, rfl⟩, ⟨gone, hdeleted, htrim.page hpm hsort (by omega)⟩, fun _ => by omega⟩

lemma EnforcePhase.Trims.step (hok : ok → (∀ n, faults n = none) ∧ t.Named)
    (h : phase.Trims ok userID cutoff t excess s.messages) (ticks : ℕ) :
    let r := enforcerPhase (failingSurroundings userID policy now ranges faults) () ticks s phase
    r.2.Trims ok userID cutoff t excess r.1.messages := by
  cases phase with
  | start => exact h.elim
  | query => exact trims_fetchPage hranges havail h ticks
  | page p msgs =>
    obtain ⟨hloop, htrim, hprog⟩ := h
    cases msgs with
    | nil =>
      simp only [enforcerPhase]
      split_ifs with hzr
      · refine ⟨rfl, htrim, fun h => ?_⟩
        have hpos := hprog h
        simp [hzr] at hpos
      · exact ⟨hloop, htrim⟩
    | cons => exact ⟨hloop, htrim⟩
  | message p msg refs msgs =>
    cases refs with
    | cons => exact h
    | nil =>
      obtain ⟨hloop, gone, hdeleted, htrim⟩ := h
      obtain ⟨hmem, hold⟩ := htrim.mem
      have hdr : msg.isDraft = false := by
        simp only [eligible, countsFor, Bool.and_eq_true, Bool.not_eq_true'] at hold
        exact hold.1.1
      have hskip : ¬ok → EnforcePhase.Trims ok userID cutoff t excess s.messages (.page p msgs) :=
        fun hn => ⟨hloop, ⟨gone, hdeleted, htrim.skip hn⟩, fun h => absurd h hn⟩
      simp only [enforcerPhase, failingSurroundings]
      cases hflt : faults ticks with
      | some => exact hskip fun h => by simp [(hok h).1 ticks] at hflt
      | none =>
        by_cases hid : msg.id = ""
        · simp only [Store.hardDelete, hid, if_true]
          exact hskip fun h => (hok h).2 msg
            (htrim.perm.mem_iff.mpr (mem_append_right gone hmem)) hid
        · rw [Store.hardDelete_of_load hid (Table.load_of_mem hmem) hdr]
          exact ⟨hloop, ⟨_, by simp [hdeleted], htrim.delete⟩,
            fun _ => Nat.add_pos_left p.progress.succ_pos _⟩
  | returned => exact h

end

lemma trims_beginEnforcement (ok : Prop) (haction : policy.exceedAction = .deleteOldest)
    (hmax : 0 < policy.maxMessages) (hage : 0 < policy.deleteOlderThan)
    (havail : ∀ m ∈ t.all, isAvailableNow now m = true) :
    (beginEnforcement (failingSurroundings userID policy now ranges faults) () t).Trims ok userID
      (now - policy.deleteOlderThan) t
      (max 0 (t.all.countP (countsFor userID) - policy.maxMessages)) t := by
  have hcnt : Store.count now [ownerIs userID] (.of t)
      = t.all.countP (countsFor userID) :=
    countP_congr fun m hm => by rw [selects_ownerIs, havail m hm, Bool.true_and]
  simp only [beginEnforcement, failingSurroundings, memorySurroundings, hcnt, haction,
    if_neg (not_le.mpr hmax), if_neg (not_le.mpr hage), ne_eq, not_true_eq_false, if_false]
  split_ifs with hexcess
  · exact ⟨rfl, ⟨_, rfl, .start (le_max_left _ _)⟩, fun _ => .inl (by simp [hexcess])⟩
  · exact ⟨⟨rfl, (max_eq_right (not_le.mp hexcess).le).symm⟩, _, rfl, .start (le_max_left _ _)⟩

end Run

/-! ## The loop comes to an end -/

section Halts

variable {env : Surroundings Unit} {s : Depot} {p : Progress}

/-- Whenever a run gets here, it returns. -/
def Halts (env : Surroundings Unit) (s : Depot) (phase : EnforcePhase) : Prop :=
  ∀ ticks, ∃ s' w, Solo (enforcerStep env) () s ⟨phase, ticks⟩ s' w ∧ w.Returned

lemma Halts.of_step (h : ∀ ticks,
    Halts env (enforcerPhase env () ticks s phase).1 (enforcerPhase env () ticks s phase).2) :
    Halts env s phase := by
  intro ticks
  obtain ⟨s', w, hsolo, hret⟩ := h ticks (ticks + 1)
  exact ⟨s', w, .step hsolo, hret⟩

lemma halts_returned (s : Depot) (deleted : ℕ) (err : Option Error) :
    Halts env s (.returned deleted err) :=
  fun _ => ⟨_, _, .refl _ _, trivial⟩

/-- Further on in a page: the store is smaller by then, or nothing has been deleted. -/
def Further (s : Depot) (p : Progress) (s' : Depot) (p' : Progress) : Prop :=
  s'.messages.all.length < s.messages.all.length ∨ s'.messages = s.messages ∧ p' = p

lemma Further.trans {s' s'' : Depot} {p' p'' : Progress} (h : Further s p s' p')
    (h' : Further s' p' s'' p'') : Further s p s'' p'' := by
  rcases h with hlt | ⟨hs, rfl⟩
  · rcases h' with hlt' | ⟨hs', rfl⟩
    · exact .inl (hlt'.trans hlt)
    · exact .inl (by rwa [hs'])
  · rwa [Further, hs] at h'

lemma halts_message {msg : Message} {msgs : List Message} (refs : List String)
    (h : ∀ s' p', Further s p s' p' → Halts env s' (.page p' msgs)) :
    Halts env s (.message p msg refs msgs) := by
  induction refs generalizing s with
  | cons a refs ih => exact .of_step fun ticks => ih h
  | nil =>
    refine .of_step fun ticks => ?_
    have hmv := enforceMove env () ticks s (.message p msg [] msgs)
    generalize enforcerPhase env () ticks s (.message p msg [] msgs) = r at hmv ⊢
    obtain ⟨s', phase'⟩ := r
    cases hmv with
    | quiet _ hhd => cases hhd
    | start _ _ _ hph | release _ _ _ _ _ hph => cases hph
    | delete _ p' _ m _ hph hld =>
      cases hph
      refine h _ p' (.inl ?_)
      have hlen := Table.length_delete hld
      simp only
      omega
    | fail _ _ _ hph =>
      cases hph
      exact h _ p (.inr ⟨rfl, rfl⟩)

lemma halts_page (msgs : List Message)
    (h : ∀ s' p', Further s p s' p' → Halts env s' (.page p' [])) : Halts env s (.page p msgs) := by
  induction msgs generalizing s p with
  | nil => exact h s p (.inr ⟨rfl, rfl⟩)
  | cons msg msgs ih =>
    refine .of_step fun ticks => ?_
    simp only [enforcerPhase]
    split
    · exact halts_returned _ _ _
    · exact halts_message _ fun s' p' hfurther =>
        ih fun s'' p'' hfurther' => h s'' p'' (hfurther.trans hfurther')

/-- After a page without a success the run returns, and otherwise the store is smaller. -/
theorem halts_query (s : Depot) (p : Progress) : Halts env s (.query p) := by
  induction hn : s.messages.all.length using Nat.strong_induction_on generalizing s p with
  | _ n ih =>
    refine .of_step fun ticks => ?_
    have hpg : ∀ msgs, Halts env s (.page { p with progress := 0 } msgs) := by
      refine fun msgs => halts_page msgs fun s' p' hfurther => .of_step fun ticks' => ?_
      simp only [enforcerPhase]
      split_ifs with hzr
      · exact halts_returned _ _ _
      · rcases hfurther with hlt | ⟨_, rfl⟩
        · exact ih _ (hn ▸ hlt) s' p' rfl
        · exact absurd rfl hzr
    simp only [enforcerPhase, fetchPage]
    split
    · exact halts_returned _ _ _
    · split_ifs
      · exact halts_returned _ _ _
      all_goals
        split
        · exact halts_returned _ _ _
        · split_ifs
          · exact halts_returned _ _ _
          · exact hpg _

lemma halts_start (s : Depot) : Halts env s .start := by
  refine .of_step fun ticks => ?_
  simp only [enforcerPhase, beginEnforcement]
  repeat' split
  all_goals first | exact halts_returned _ _ _ | exact halts_query _ _

end Halts

/-! ## The outcome -/

/-- **Enforcement deletes the oldest.**  Whichever deletes fail, the run returns without an error.
It has deleted no more than was in excess, and nothing but messages of the user from before the
cutoff.  If no delete fails, it has deleted as many of these as it could and had to, and none that
is left is older than one that is gone. -/
theorem enforceUserQuota_deletes_oldest (userID : String) (policy : EnforcedPolicy) (now : Time)
    (ranges : Ranges) (faults : ℕ → Option Error) (t : Messages)
    (haction : policy.exceedAction = .deleteOldest) (hmax : 0 < policy.maxMessages)
    (hage : 0 < policy.deleteOlderThan) (hranges : ranges.Perm)
    (havail : ∀ m ∈ t.all, isAvailableNow now m = true) : ∃ n deleted,
      let c := run (enforcerStep (failingSurroundings userID policy now ranges faults))
        (replicate n ()) (allEnforcers t)
      let left := c.shared.messages.all
      let cutoff := now - policy.deleteOlderThan
      let excess := max 0 (t.all.countP (countsFor userID) - policy.maxMessages)
      (c.loc ()).phase = .returned deleted none
        ∧ (∀ m ∈ left, m ∈ t.all) ∧ left.length + deleted = t.all.length
        ∧ (deleted : ℤ) ≤ excess
        ∧ (∀ m ∈ t.all, m ∉ left → m.ownerID = userID ∧ m.createdAt < cutoff)
        ∧ ((∀ n, faults n = none) → t.Named →
          (deleted : ℤ) = min excess (t.all.countP (eligible userID cutoff))
            ∧ ∀ m ∈ t.all, m ∉ left → ∀ k ∈ left, eligible userID cutoff k = true →
              m.createdAt ≤ k.createdAt) := by
  generalize henv : failingSurroundings userID policy now ranges faults = env
  have hhalts : Halts env ⟨t, []⟩ .start := halts_start _
  obtain ⟨s, w, hsolo, hret⟩ := hhalts 0
  obtain ⟨n, hshd, hloc⟩ := Solo.run (c := allEnforcers t) hsolo
  -- From the first step on, the run trims the store.
  let ok : Prop := (∀ n, faults n = none) ∧ t.Named
  let trims (c : Config Unit Depot Enforcer) : Prop :=
    (c.loc ()).phase = .start ∧ c.shared.messages = t
      ∨ (c.loc ()).phase.Trims ok userID (now - policy.deleteOlderThan) t
        (max 0 (t.all.countP (countsFor userID) - policy.maxMessages)) c.shared.messages
  have hstep : ∀ c i, trims c → trims (stepAt (enforcerStep env) c i) := by
    intro c i hc
    refine .inr ?_
    rw [stepAt_loc_self, ← henv]
    rcases hc with ⟨hst, hshd⟩ | htrims
    · show (enforcerPhase _ () _ c.shared (c.loc ()).phase).2.Trims _ _ _ _ _ _
      simp only [stepAt_shared, enforcerStep, hst, enforcerPhase, hshd]
      exact trims_beginEnforcement ok haction hmax hage havail
    · exact htrims.step hranges havail id _
  have htrims : trims (run (enforcerStep env) (replicate n ()) (allEnforcers t)) :=
    run_induction _ hstep (.inl ⟨rfl, rfl⟩)
  obtain ⟨phase, ticks⟩ := w
  simp only [trims, hshd, hloc] at htrims
  cases phase with
  | returned =>
    obtain ⟨rfl, ⟨gone, rfl, htrim⟩, hend⟩ := htrims.resolve_left (by simp)
    have hgn : ∀ m ∈ t.all, m ∉ s.messages.all → m ∈ gone := fun m hm hn =>
      (mem_append.mp (htrim.perm.mem_iff.mp hm)).resolve_right hn
    refine ⟨n, gone.length, ?_⟩
    simp only [hshd, hloc]
    refine ⟨trivial, fun m hm => htrim.perm.mem_iff.mpr (mem_append_right _ hm),
      by rw [htrim.perm.length_eq, length_append, Nat.add_comm], by simpa using htrim.bound,
      fun m hm hn => ?_, fun hfaults hi => ?_⟩
    · have hold := htrim.allowed m (hgn m hm hn)
      simp only [eligible, countsFor, Bool.and_eq_true, decide_eq_true_eq] at hold
      exact ⟨hold.1.2, hold.2⟩
    · exact ⟨htrim.length_eq (hend ⟨hfaults, hi⟩), fun m hm hn k hk =>
        htrim.oldest ⟨hfaults, hi⟩ (hgn m hm hn) hk⟩
  | _ => exact hret.elim

/-- One message is allowed, and one of two goes. -/
theorem enforceUserQuota_deletes_one :
    ∃ n, let c := run (enforcerStep (failingSurroundings "u" ⟨⟨1, .deleteOldest⟩, 5⟩ 10 inOrder
          fun _ => none)) (replicate n ()) (allEnforcers overQuotaMessages)
      (c.loc ()).phase = .returned 1 none ∧ c.shared.messages.all.length = 1 := by
  obtain ⟨n, deleted, hph, -, hlen, -, -, hexact⟩ := enforceUserQuota_deletes_oldest "u"
    ⟨⟨1, .deleteOldest⟩, 5⟩ 10 inOrder (fun _ => none) overQuotaMessages rfl (by decide) (by decide)
    inOrder_perm (by decide)
  obtain rfl : deleted = 1 := Int.ofNat.inj (hexact (fun _ => rfl) (by decide)).1
  exact ⟨n, hph, Nat.succ.inj hlen⟩

end Mailbox.Service
