import Mailbox.Lib.Ledger
import Mailbox.Service.StatsTasks

/-!
# Refreshing the cache while events are under way

An entry of the statistics cache is refreshed from the store under its lock, but the handlers of
events run when the events arrive.  A refresh that falls between a write and its event reads a store
that has the message already, and then the handler counts it once more.

The account of a user — messages in the store, cached total, what is written and not counted — moves
as a `Ledger` account does (`follows_statsAccount`).  So what counts is the **last refresh** of the
entry (`refreshed_total_agrees`).
-/

namespace Mailbox.Service

open Memory Pool List StatsCache MailboxStats

/-! ## The account of a user -/

variable {t now : Time} {s : Store}

section Accounts

open Ledger

variable {ι : Type} {jobs : ι → StatsJob}

/-- A user's messages in the store, their cached total, and what is written and not counted yet. -/
def statsAccount [Fintype ι] (u : String) (c : Config ι StatsState StatsTask) : Account where
  stored := mailCount u (fun _ => true) c.shared.store
  counter := (c.shared.cache.cached u).map MailboxStats.totalMessages
  pending := ∑ i, (c.loc i).owed u

/-- What a step of a task means for a user. -/
def StatsTask.move (u : String) (s : StatsState) : StatsTask → Move
  | .send (a :: _) => if a.counted u = 0 then .write (a.wrote u) else .increase
  | .hardDelete userID messageID _ _ =>
    match Store.hardDelete messageID s.store with
    | (.error _, _) => .quiet
    | (.ok _, _) => if userID = u then .write (-1) else .quiet
  | .countDeleted userID _ _ => if userID = u then .decrease else .quiet
  | .refresh userID _ => if userID = u then .refresh else .quiet
  | _ => .quiet

open StatsTask

def statsMove (u : String) (i : ι) (c : Config ι StatsState StatsTask) : Move :=
  (c.loc i).move u c.shared

section Steps

variable {i : ι} {cache : StatsCache} {u : String}

lemma totalMessages_mailboxStats (hfil : Filed jobs t s) (hnow : t ≤ now) :
    (s.mailboxStats now u).totalMessages = mailCount u (fun _ => true) s := by
  have hv := mailboxStats_value now u s .total
  rw [value] at hv
  rw [hv, tally, mailCount]
  refine congrArg _ (countP_congr fun m hm => ?_)
  have hav := hfil.available m.id m (Table.load_of_mem hm)
  cases hdr : m.isDraft with
  | true => simp [visible, hdr]
  | false =>
    simp [visible, hdr, Counter.ofMessage, Counter.counts, isAvailableNow_mono hnow (hav hdr)]

lemma cached_count (a : SendStep) (cache : StatsCache) :
    ((a.count cache).cached u).map totalMessages
      = ((cache.cached u).map totalMessages).map (· + a.counted u) := by
  cases a with
  | countSent v =>
    simp only [SendStep.count, SendStep.counted, cached_updateCachedStats]
    cases cache.cached u with
    | none => simp
    | some =>
      by_cases hv : u = v
      · subst hv
        simp [countSent, setFolder]
      · simp [hv, Ne.symm hv]
  | countReceived v =>
    simp only [SendStep.count, SendStep.counted, cached_updateCachedStats]
    cases cache.cached u with
    | none => simp
    | some =>
      by_cases hv : u = v
      · subst hv
        simp [countReceived, setFolder]
      · simp [hv, Ne.symm hv]
  | _ => simp [SendStep.count, SendStep.counted, Function.comp_def]

lemma cached_countDeleted (v folderID : String) (wasUnread : Bool) (cache : StatsCache) :
    ((cache.updateCachedStats v (countDeleted folderID wasUnread)).cached u).map totalMessages
      = if v = u then ((cache.cached u).map totalMessages).map fun n => if 0 < n then n - 1 else n
        else (cache.cached u).map totalMessages := by
  rw [cached_updateCachedStats]
  by_cases hv : u = v
  · subst hv
    cases cache.cached u with
    | none => simp
    | some stats =>
      have hvalue := value_countDeleted stats .total folderID wasUnread
      simp only [Counter.isFolder, Counter.counts, value, decrement] at hvalue
      by_cases htot : 0 < stats.totalMessages
      · simpa [htot] using hvalue
      · simpa [htot] using hvalue
  · simp [hv, Ne.symm hv]

lemma step_account (hfil : Filed jobs t s) {task : StatsTask} (hsound : task.Sound jobs t i s)
    (pending : ℤ) :
    let next := task.step ⟨s, cache⟩
    (⟨mailCount u (fun _ => true) next.1.store, (next.1.cache.cached u).map totalMessages,
        pending - task.owed u + next.2.owed u⟩ : Account)
      = (task.move u ⟨s, cache⟩).apply ⟨mailCount u (fun _ => true) s,
          (cache.cached u).map totalMessages, pending⟩ := by
  have hquiet : pending - 0 + 0 = pending := by omega
  cases task with
  | send steps =>
    cases steps with
    | nil => simp [step, move, Move.apply]
    | cons a =>
      simp only [step, move, StatsTask.owed, SendStep.owed,
        mailCount_write hsound.1 fun _ _ => rfl, cached_count]
      split_ifs with hzr
      · simp only [Move.apply, hzr, Int.add_zero, Option.map_id']
        congr 1
        omega
      · have hone : a.counted u = 1 ∧ a.wrote u = 0 := by
          cases a with
          | countSent | countReceived =>
            simp only [SendStep.counted] at hzr ⊢
            split_ifs at hzr ⊢
            · exact ⟨rfl, rfl⟩
            · exact absurd rfl hzr
          | _ => exact absurd rfl hzr
        simp only [Move.apply, hone.1, hone.2, Int.add_zero]
        congr 1
        omega
  | permanentlyDelete userID messageID =>
    simp only [step, move, Move.apply]
    cases getAndVerify userID messageID s with
    | error => simp [StatsTask.owed]
    | ok =>
      simp only
      split_ifs <;> simp [StatsTask.owed]
  | hardDelete userID messageID =>
    simp only [step, move]
    by_cases hid : messageID = ""
    · simp [Store.hardDelete, hid, StatsTask.owed, Move.apply]
    · cases hld : s.messages.load messageID with
      | none => simp [Store.hardDelete, hid, hld, StatsTask.owed, Move.apply]
      | some m =>
        cases hdr : m.isDraft with
        | true => simp [Store.hardDelete, hid, hld, hdr, StatsTask.owed, Move.apply]
        | false =>
          rw [Store.hardDelete_of_load hid hld hdr]
          have hown := hsound.2 m hld
          simp only [StatsTask.owed, mailCount_delete hld hdr, hown, and_true]
          split_ifs
          · simp only [Move.apply]
            congr 1
            omega
          · simp [Move.apply]
  | countDeleted =>
    simp only [step, move, StatsTask.owed, cached_countDeleted]
    split_ifs
    · simp only [Move.apply]
      congr 1
      omega
    · simp [Move.apply]
  | refresh userID =>
    simp only [step, move, StatsTask.owed, cached_refresh, hquiet]
    by_cases hu : u = userID
    · subst hu
      simp [Move.apply, totalMessages_mailboxStats hfil hsound]
    · simp [Move.apply, hu, Ne.symm hu]
  | done => simp [step, move, StatsTask.owed, Move.apply]

variable [Fintype ι] [DecidableEq ι]

section

variable (hdisjoint : ∀ i j, i ≠ j → ∀ id ∈ (jobs i).ids, id ∉ (jobs j).ids)

include hdisjoint

/-- **The account of a user follows the workers.** -/
lemma follows_statsAccount (u : String) :
    Follows statsTaskStep (statsAccount u) (statsMove u) (StatsInv jobs t) where
  preserved c i h := h.step hdisjoint i
  apply c i h := by
    simp only [statsAccount, sum_stepAt, statsMove]
    exact step_account h.filed (h.covers i).sound (∑ j, (c.loc j).owed u)

/-- A deletion that is not counted yet has been of a message that was. -/
lemma room_statsAccount {c : Config ι StatsState StatsTask} (h : StatsInv jobs t c)
    (hmv : statsMove u i c = .decrease) :
    (statsAccount u c).pending < (statsAccount u c).stored := by
  have howed : (c.loc i).owed u < 0 := by
    rw [statsMove] at hmv
    cases htask : c.loc i with
    | send steps =>
      rw [htask] at hmv
      cases steps with
      | nil => cases hmv
      | cons =>
        simp only [move] at hmv
        split_ifs at hmv
    | hardDelete =>
      rw [htask] at hmv
      simp only [move] at hmv
      split at hmv
      · cases hmv
      · split_ifs at hmv
    | countDeleted =>
      rw [htask] at hmv
      simp only [move] at hmv
      split_ifs at hmv with hu
      simp [StatsTask.owed, hu]
    | refresh =>
      rw [htask] at hmv
      simp only [move] at hmv
      split_ifs at hmv
    | _ =>
      rw [htask] at hmv
      cases hmv
  calc ∑ j, (c.loc j).owed u
      < ∑ j, mailCount u (fun id => decide (id ∈ (jobs j).ids)) c.shared.store := by
        refine Finset.sum_lt_sum (fun j _ => (h.covers j).covered u) ⟨i, Finset.mem_univ i, ?_⟩
        exact howed.trans_le (Int.natCast_nonneg _)
    _ ≤ mailCount u (fun _ => true) c.shared.store := by
        have hsum := sum_countP_le c.shared.store.messages.all
          (fun m => decide (m.ownerID = u) && !m.isDraft)
          (fun j m => decide (m.id ∈ (jobs j).ids)) ?_
        · simpa [mailCount] using hsum
        · intro j k m hj hk
          by_contra hne
          exact hdisjoint j k hne m.id (of_decide_eq_true hj) (of_decide_eq_true hk)

end

end Steps

end Accounts

/-! ## The start of a run -/

/-- The jobs have IDs of their own for the messages they send, nothing is scheduled for later, and
refreshes read the clock after `t`. -/
structure StatsJobs {ι : Type} (jobs : ι → StatsJob) (t : Time) (s : Store) : Prop where
  nodup : ∀ i, (jobs i).ids.Nodup
  disjoint : ∀ i j, i ≠ j → ∀ id ∈ (jobs i).ids, id ∉ (jobs j).ids
  new : ∀ i, ∀ id ∈ (jobs i).ids, id ≠ "" ∧ s.messages.load id = none
  arrived : ∀ i, ∀ copy ∈ (jobs i).copies,
    copy.isDraft = false ∧ copy.availableAt = none ∧ copy.folderID ≠ folderTrash
  refreshed : ∀ i u now, jobs i = .refresh u now → t ≤ now
  available : ∀ msg ∈ s.messages.all, msg.isDraft = false → isAvailableNow t msg = true

variable {copies : List Message} {rest : List SendStep}

section Start

variable {ids : List String}

/-- The copies are created one after the other, and then they are all there. -/
lemma sound_create (hnd : (copies.map Message.id).Nodup)
    (hcps : ∀ copy ∈ copies, copy.id ∈ ids ∧ s.messages.load copy.id = none
      ∧ copy.isDraft = false ∧ copy.availableAt = none ∧ copy.folderID ≠ folderTrash)
    (hr : ∀ s' : Store, (∀ copy ∈ copies, s'.messages.load copy.id = some copy) →
      SendStep.Sound ids s' rest) : SendStep.Sound ids s (copies.map .create ++ rest) := by
  -- A copy that has been created stays, since the others have other IDs.
  suffices hkp : ∀ kept : List Message, (∀ copy ∈ kept, s.messages.load copy.id = some copy) →
      (∀ copy ∈ kept, copy.id ∉ copies.map Message.id) →
      (∀ s' : Store, (∀ copy ∈ kept ++ copies, s'.messages.load copy.id = some copy) →
        SendStep.Sound ids s' rest) →
      SendStep.Sound ids s (copies.map .create ++ rest) from
    hkp [] (by simp) (by simp) hr
  clear hr
  induction copies generalizing s with
  | nil =>
    intro kept hkp _ hr
    exact hr s (by simpa using hkp)
  | cons copy copies ih =>
    intro kept hkp hw hr
    rw [map_cons, nodup_cons] at hnd
    rw [forall_mem_cons] at hcps
    refine ⟨hcps.1, ih hnd.2 (fun copy' hcp' => ?_) (kept ++ [copy]) ?_ ?_ ?_⟩
    · obtain ⟨hid, hno, harr⟩ := hcps.2 copy' hcp'
      refine ⟨hid, ?_, harr⟩
      have hne : copy'.id ≠ copy.id := fun heq =>
        hnd.1 (heq ▸ mem_map_of_mem hcp')
      exact (Table.load_put_of_ne hne).trans hno
    · intro copy' hcp'
      rcases mem_append.mp hcp' with hmem | hmem
      · have hne : copy'.id ≠ copy.id := fun heq =>
          hw copy' hmem (by rw [heq]; exact mem_cons_self)
        exact (Table.load_put_of_ne hne).trans (hkp copy' hmem)
      · rw [mem_singleton.mp hmem]
        exact Table.load_put_self
    · intro copy' hcp'
      rcases mem_append.mp hcp' with hmem | hmem
      · exact fun h => hw copy' hmem (mem_cons_of_mem _ h)
      · rw [mem_singleton.mp hmem]
        exact hnd.1
    · intro s' hs'
      exact hr s' (by simpa using hs')

lemma sound_discard (hnd : (copies.map Message.id).Nodup)
    (hcps : ∀ copy ∈ copies, copy.id ∈ ids ∧ copy.id ≠ "" ∧ copy.isDraft = false
      ∧ s.messages.load copy.id = some copy)
    (hr : ∀ s' : Store, (∀ id ∉ copies.map Message.id,
      s'.messages.load id = s.messages.load id) → SendStep.Sound ids s' rest) :
    SendStep.Sound ids s (copies.map .discard ++ rest) := by
  induction copies generalizing s with
  | nil => exact hr s fun _ _ => rfl
  | cons copy copies ih =>
    rw [map_cons, nodup_cons] at hnd
    rw [forall_mem_cons] at hcps
    obtain ⟨⟨hid, hemp, hdr, hld⟩, hcps⟩ := hcps
    have hother : ∀ id ≠ copy.id,
        ((SendStep.discard copy).write s).messages.load id = s.messages.load id := by
      intro id hne
      rw [load_write, SendStep.effect, if_neg fun h => hne h.1]
    refine ⟨⟨hid, hemp, copy, hld, rfl, hdr⟩, ih hnd.2 (fun copy' hcp' => ?_) fun s' hs' => ?_⟩
    · obtain ⟨hid', hemp', hdr', hld'⟩ := hcps copy' hcp'
      have hne : copy'.id ≠ copy.id := fun heq => hnd.1 (heq ▸ mem_map_of_mem hcp')
      exact ⟨hid', hemp', hdr', (hother _ hne).trans hld'⟩
    · refine hr s' fun id hid' => ?_
      rw [map_cons, mem_cons, not_or] at hid'
      exact (hs' id hid'.2).trans (hother id hid'.1)

lemma sound_sendSteps {draftID : String} {copy : Message} {copies : List (Message × Bool)}
    (hnd : ((copy :: copies.map Prod.fst).map Message.id).Nodup)
    (hcps : ∀ c ∈ copy :: copies.map Prod.fst, c.id ≠ "" ∧ s.messages.load c.id = none
      ∧ c.isDraft = false ∧ c.availableAt = none ∧ c.folderID ≠ folderTrash) :
    SendStep.Sound ((copy :: copies.map Prod.fst).map Message.id) s
      (StatsJob.sendSteps draftID now copy copies) := by
  refine sound_create hnd (fun c hc => ⟨mem_map_of_mem hc, (hcps c hc).2⟩) fun s' hs' => ?_
  have hdiscard : ((copies.filter (!·.2)).map (SendStep.discard ·.1))
      = ((copies.filter (!·.2)).map Prod.fst).map SendStep.discard := by
    rw [map_map]
    rfl
  have hmem : ∀ c ∈ (copies.filter (!·.2)).map Prod.fst, c ∈ copy :: copies.map Prod.fst := by
    intro c hc
    obtain ⟨d, hd, rfl⟩ := mem_map.mp hc
    exact mem_cons_of_mem _ (mem_map_of_mem (mem_filter.mp hd).1)
  rw [hdiscard]
  rw [map_cons, nodup_cons] at hnd
  refine sound_discard ?_ (fun c hc => ?_) fun s'' hs'' => ?_
  · exact hnd.2.sublist ((filter_sublist.map _).map _)
  · obtain ⟨hemp, -, hdr, -⟩ := hcps c (hmem c hc)
    exact ⟨mem_map_of_mem (hmem c hc), hemp, hdr, hs' c (hmem c hc)⟩
  · split_ifs
    · refine ⟨mem_map_of_mem mem_cons_self, trivial, trivial, ?_⟩
      generalize copies.filter (·.2) = delivered
      generalize SendStep.write _ _ = s₁
      induction delivered generalizing s₁ with
      | nil => trivial
      | cons c delivered ih => exact ⟨trivial, ih _⟩
    · -- The rollbacks before have left the sender's copy alone.
      obtain ⟨hemp, -, hdr, -⟩ := hcps copy mem_cons_self
      refine ⟨⟨mem_map_of_mem mem_cons_self, hemp, copy, ?_, rfl, hdr⟩, trivial⟩
      rw [hs'' copy.id fun hid => hnd.1 ?_, hs' copy mem_cons_self]
      exact (filter_sublist.map Prod.fst).map Message.id |>.subset hid

variable {ι : Type} {jobs : ι → StatsJob}

lemma statsInv_start {start : StatsState} (h : StatsJobs jobs t start.store) :
    StatsInv jobs t (statsStart jobs start) where
  filed :=
    { available := fun _ m hm => h.available m (Table.load_eq_some_iff.mp hm).1
      new := by
        intro j id m hm hid
        cases (h.new j id hid).2.symm.trans hm }
  covers i :=
    { sound := by
        simp only [statsStart]
        cases hjob : jobs i with
        | send =>
          have hnd := h.nodup i
          have hw := h.new i
          have harr := h.arrived i
          simp only [StatsJob.ids, hjob, StatsJob.copies] at hnd hw harr
          simp only [StatsJob.task, StatsTask.Sound, StatsJob.ids, hjob, StatsJob.copies]
          refine sound_sendSteps hnd fun c hc => ?_
          obtain ⟨hemp, hno⟩ := hw c.id (mem_map_of_mem hc)
          exact ⟨hemp, hno, harr c hc⟩
        | permanentlyDelete => trivial
        | refresh u now => exact h.refreshed i u now hjob
      covered := fun u => by
        simp only [statsStart, owed_task]
        exact Int.natCast_nonneg _ }

end Start

/-! ## The cached total at the end -/

/-- The user's cached total, if there is one, is that of the store. -/
def TotalAgrees {ι : Type} (t : Time) (u : String) (c : Config ι StatsState StatsTask) : Prop :=
  ∀ stats, c.shared.cache.cached u = some stats →
    stats.totalMessages = (c.shared.store.mailboxStats t u).totalMessages

section Runs

open Ledger

variable {ι : Type} [Fintype ι] [DecidableEq ι] {jobs : ι → StatsJob} {t : Time}

/-- At the last refresh of the user's entry, as many copies for the user are written and not counted
as messages of the user are deleted and not counted: with no event of theirs under way, none are. -/
def RefreshBalanced (u : String) (jobs : ι → StatsJob) (schedule : List ι) (start : StatsState) :
    Prop :=
  Balanced statsTaskStep (statsAccount u) (statsMove u) schedule (statsStart jobs start)

/-- No handler of a deletion finds the user's cached total at zero. -/
def NeverAtZero (u : String) (jobs : ι → StatsJob) (schedule : List ι) (start : StatsState) :
    Prop :=
  Along statsTaskStep
    (fun i c => statsMove u i c = .decrease → (statsAccount u c).Positive) schedule
    (statsStart jobs start)

omit [DecidableEq ι] in
lemma exact_iff_totalAgrees {c : Config ι StatsState StatsTask} (hfil : Filed jobs t c.shared.store)
    (hdn : StatsDone c) {t' : Time} (ht : t ≤ t') (u : String) :
    (statsAccount u c).Exact ↔ TotalAgrees t' u c := by
  have hpd : (statsAccount u c).pending = 0 :=
    Finset.sum_eq_zero fun i _ => owed_of_finished (hdn i)
  simp only [Account.Exact, hpd, Int.add_zero, TotalAgrees, totalMessages_mailboxStats hfil ht]
  simp [statsAccount]

/-- **A refresh must not fall between a write and its event.**  When all jobs are done and all
events handled, the cached total of a user is that of the store if the last refresh was balanced;
and it is not otherwise, unless a decrement has been lost at zero. -/
theorem refreshed_total_agrees {start : StatsState} (hjobs : StatsJobs jobs t start.store)
    (hstart : ∀ u, TotalAgrees t u (statsStart jobs start)) (schedule : List ι)
    (hdone : StatsDone (run statsTaskStep schedule (statsStart jobs start))) {t' : Time}
    (ht : t ≤ t') (u : String) : (RefreshBalanced u jobs schedule start →
        TotalAgrees t' u (run statsTaskStep schedule (statsStart jobs start)))
      ∧ (NeverAtZero u jobs schedule start →
        TotalAgrees t' u (run statsTaskStep schedule (statsStart jobs start)) →
          RefreshBalanced u jobs schedule start) := by
  have hinv := statsInv_start hjobs
  have hfoll := follows_statsAccount (t := t) hjobs.disjoint u
  have hend := run_induction schedule (fun _ i hc => hc.step hjobs.disjoint i) hinv
  rw [← exact_iff_totalAgrees hend.filed hdone ht u]
  constructor
  · intro hbal
    refine exact_run hfoll (fun c i hc => room_statsAccount hjobs.disjoint hc) hinv hbal
      fun _ => ?_
    intro n hn
    obtain ⟨stats, hss, rfl⟩ := Option.map_eq_some_iff.mp hn
    have hpd : (statsAccount u (statsStart jobs start)).pending = 0 :=
      Finset.sum_eq_zero fun i _ => owed_task u (jobs i)
    rw [hpd, Int.add_zero, hstart u stats hss]
    exact totalMessages_mailboxStats hinv.filed (Int.le_refl t)
  · intro hzr hexact
    exact (balanced_of_exact_run hfoll hinv hzr hexact).1

end Runs

/-! ## A note that is counted twice -/

/-- `alice` sends a note to `bob`, and somebody asks for the statistics of `bob`. -/
def noteAndRefresh : Fin 2 → StatsJob
  | 0 => .send "" 1 { letterTo "a" "alice" with folderID := folderOutbox, status := .queued }
      [(letterTo "b" "bob", true)]
  | 1 => .refresh "bob" 1

/-- Nothing is stored, and nothing is cached. -/
def nothingStored : StatsState := ⟨Store.new, ∅⟩

lemma statsJobs_noteAndRefresh : StatsJobs noteAndRefresh 1 nothingStored.store where
  nodup := by decide
  disjoint := by decide
  new := by decide
  arrived := by decide
  refreshed i u now hjob := by
    match i with
    | 0 => cases hjob
    | 1 =>
      cases hjob
      exact Int.le_refl 1
  available msg hmsg := by cases hmsg

lemma totalAgrees_nothingStored (u : String) :
    TotalAgrees 1 u (statsStart noteAndRefresh nothingStored) := by
  rintro stats ⟨⟩

/-- The refresh comes when everything is handled. -/
theorem refreshed_total_agrees_after_note : TotalAgrees 1 "bob"
      (run statsTaskStep [0, 0, 0, 0, 0, 0, 1] (statsStart noteAndRefresh nothingStored)) := by
  refine (refreshed_total_agrees statsJobs_noteAndRefresh totalAgrees_nothingStored
    [0, 0, 0, 0, 0, 0, 1] (by unfold StatsDone; decide +kernel) (Int.le_refl 1) "bob").1 ?_
  intro c hc
  have hpd : (Ledger.lastRefresh statsTaskStep (statsMove "bob") [0, 0, 0, 0, 0, 0, 1]
      (statsStart noteAndRefresh nothingStored)).map (fun c => (statsAccount "bob" c).pending)
        = some 0 := by decide +kernel
  rw [hc] at hpd
  exact Option.some.inj hpd

/-- The refresh comes after the copies are written and before the event is handled: the store has
one message for `bob`, and the cache says two. -/
theorem refreshed_total_counts_twice : StatsJobs noteAndRefresh 1 nothingStored.store ∧ StatsDone
        (run statsTaskStep [0, 0, 1, 0, 0, 0, 0] (statsStart noteAndRefresh nothingStored))
      ∧ ¬ TotalAgrees 1 "bob"
        (run statsTaskStep [0, 0, 1, 0, 0, 0, 0] (statsStart noteAndRefresh nothingStored)) := by
  refine ⟨statsJobs_noteAndRefresh, by unfold StatsDone; decide +kernel, fun h => ?_⟩
  have hcd : ((run statsTaskStep [0, 0, 1, 0, 0, 0, 0]
      (statsStart noteAndRefresh nothingStored)).shared.cache.cached "bob").map
        MailboxStats.totalMessages = some 2 := by decide +kernel
  obtain ⟨stats, hss, htot⟩ := Option.map_eq_some_iff.mp hcd
  have hagrees := h stats hss
  rw [htot] at hagrees
  revert hagrees
  decide +kernel

end Mailbox.Service
