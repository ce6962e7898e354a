import Mailbox.Lib.Machine
import Mailbox.Service.Compose

/-!
# Quotas that reject

Under the policy `reject`, nothing is delivered to a user who has reached the limit.  What is
compared with the limit is the number that `Count` returns, and `Count` leaves out the messages that
are scheduled for later.  They are stored nevertheless, and turn up when their time has come.

So the limit bounds what a user stores as long as nothing is hidden from `Count` when it matters:
**`storedFor_bounded`**.

Hooks may rewrite the recipients of a draft; they are assumed to name nobody twice.
-/

namespace Mailbox.Service

open Memory UserMailbox List

/-! ## Counting -/

variable (userID : String)

/-- How many messages are stored for a user. -/
def storedFor (w : World) : ℕ :=
  w.store.messages.all.countP (countsFor userID)

/-- How many of them a quota check counts. -/
def visibleTo (now : Time) (w : World) : ℕ := w.store.count now [ownerIs userID]

/-! ## One transmission -/

namespace UserMailbox

section Transmission

variable {uuid : ℕ → String} {now : Time} {faults : Faults} {managed : Bool} {m : UserMailbox World}
  (hm : m.service.backend = memoryBackend uuid now faults managed) (huuid : IDSource uuid)
  {draft : Message} (env : Envelope) {deliverTo : List String} {w : World}
  (hw : Fresh uuid w.store) (htargets : (deliveryTargets draft deliverTo).Nodup)
  {r : String} (hother : m.userID ≠ r)

include hw hother in
lemma visibleTo_deliveryStart :
    visibleTo r now (deliveryStart uuid now m draft env w) = visibleTo r now w := by
  show (withSenderCopy uuid now m draft env w).store.messages.all.countP _ = _
  have hsender : ¬ selects now [ownerIs r] (senderCopy uuid now m draft env w) = true := by
    rw [selects_ownerIs]
    simp [countsFor, senderCopy, newMessageFromData, senderData, hother]
  rw [all_withSenderCopy env hw, countP_cons_of_neg hsender]
  rfl

lemma checkQuota_of_mem_delivered
    (hr : r ∈ (delivered uuid now faults m draft env deliverTo w).map Prod.fst) :
    (m.checkQuota r (deliveryStart uuid now m draft env w)).isOk = true := by
  have hserv := (mem_filter.mp (delivered_sublist.subset hr)).2
  rw [serves, Bool.and_eq_true, Bool.and_eq_true] at hserv
  exact hserv.1.1

include hm huuid hw htargets hother in
lemma storedFor_of_delivers (h : Delivers uuid now faults m draft env deliverTo w) :
    storedFor r (m.transmit draft env deliverTo w).state
      = ((delivered uuid now faults m draft env deliverTo w).map Prod.fst).count r
        + storedFor r w := by
  refine countP_transmit hm huuid env hw htargets h (fun msg hmsg => ?_) ?_ fun q _ => ?_
  · simp only [countsFor, Bool.and_eq_true, Bool.not_eq_true'] at hmsg
    exact hmsg.1
  · simp [countsFor, sentCopy, senderCopy, newMessageFromData, senderData, hother]
  · simp only [countsFor, copyAt, newMessageFromData, recipientData, Bool.not_false, Bool.true_and]
    exact decide_eq_true_iff

variable {N : ℕ} (hN : 0 < N) (hcache : m.service.statsTotal = none)
  {getQuota : String → Except Error (Option QuotaPolicy)}
  (hprovider : m.service.quotaProvider = some getQuota)
  (hquota : getQuota r = .ok (some ⟨N, .reject⟩))

include hm hN hcache hprovider hquota in
lemma checkQuota_isOk_iff (w : World) : (m.checkQuota r w).isOk = true ↔ visibleTo r now w < N := by
  have hlim : ¬ (N : ℤ) ≤ 0 := by omega
  simp only [checkQuota, hprovider, hquota, if_true, checkQuotaWithPolicy, hlim, if_false, hcache,
    hm, memoryBackend]
  rw [← visibleTo]
  split_ifs with hcnt
  · simp only [Except.isOk, Except.toBool, Bool.false_eq_true, false_iff]
    omega
  · simp only [Except.isOk, Except.toBool, true_iff]
    omega

include hm huuid hw htargets hother hN hcache hprovider hquota in
/-- **One transmission** stores at most one message for a user, and none for a user who sees as many
as the limit allows. -/
theorem storedFor_transmit :
    storedFor r (m.transmit draft env deliverTo w).state ≤ storedFor r w + 1
      ∧ (N ≤ visibleTo r now w →
        storedFor r (m.transmit draft env deliverTo w).state = storedFor r w) := by
  by_cases hdelv : Delivers uuid now faults m draft env deliverTo w
  · rw [storedFor_of_delivers hm huuid env hw htargets hother hdelv]
    have hnd : ((delivered uuid now faults m draft env deliverTo w).map Prod.fst).Nodup :=
      (htargets.filter _).sublist delivered_sublist
    have hone := nodup_iff_count_le_one.mp hnd r
    refine ⟨by omega, fun hfl => ?_⟩
    have hno : r ∉ (delivered uuid now faults m draft env deliverTo w).map Prod.fst := by
      intro hmem
      have hok := checkQuota_of_mem_delivered env hmem
      rw [checkQuota_isOk_iff hm hN hcache hprovider hquota,
        visibleTo_deliveryStart env hw hother] at hok
      omega
    rw [count_eq_zero.mpr hno, Nat.zero_add]
  · rw [storedFor, (transmit_fails hm huuid env hw htargets hdelv).2.1, storedFor]
    exact ⟨Nat.le_succ _, fun _ => rfl⟩

end Transmission

end UserMailbox

/-! ## Postings -/

/-- A draft, and the mailbox it is sent from at some time. -/
structure Posting where
  mailbox : MemoryMailbox
  draft : Draft

variable {uuid : ℕ → String} {r : String} {N : ℕ}

namespace Posting

def now (p : Posting) : Time := p.mailbox.service.now

def post (w : World) (p : Posting) : World := (p.draft.send p.mailbox.toUserMailbox w).1.state

/-- Sent by somebody else than `r`, who may store `N` messages and has further ones rejected.  The
stats cache is disabled. -/
structure Limited (uuid : ℕ → String) (r : String) (N : ℕ) (p : Posting) : Prop where
  ids : p.mailbox.uuid = uuid
  other : p.mailbox.userID ≠ r
  cache : p.mailbox.service.statsTotal = none
  quota : ∃ getQuota, p.mailbox.service.quotaProvider = some getQuota
    ∧ getQuota r = .ok (some ⟨N, .reject⟩)
  hooks : ∀ h ∈ p.mailbox.service.plugins, ∀ userID draft, draft.recipientIDs.Nodup →
    (h.beforeSend userID draft).2.recipientIDs.Nodup

section Limited

variable {p : Posting}

lemma Limited.nodup_targets (hp : p.Limited uuid r N) {hooked : Message} {targets : List String}
    (h : p.mailbox.Ready p.draft.message p.draft.deliverTo targets hooked) :
    (deliveryTargets hooked targets).Nodup := by
  obtain ⟨⟨_, hrcp, _⟩, htargets⟩ := p.mailbox.prepareDraft_frame p.draft.message p.draft.deliverTo
  have hprepared : (p.mailbox.prepareDraft p.draft.message
      p.draft.deliverTo).2.recipientIDs.Nodup := by
    rw [hrcp]
    exact (firstOccurrences_deduplicateRecipients _).nodup
  have hnd := p.mailbox.beforeSend_induction hp.hooks hprepared
  rw [h.hooks] at hnd
  rw [deliveryTargets, htargets targets h.prepared]
  split_ifs
  · exact hnd
  · exact (firstOccurrences_deduplicateRecipients _).nodup

lemma Limited.post_cases (hp : p.Limited uuid r N) (w : World) :
    p.post w = w ∨ ∃ hooked env targets, (deliveryTargets hooked targets).Nodup
      ∧ p.post w = (p.mailbox.transmit hooked env targets w).state := by
  by_cases hrdy : ∃ targets hooked, p.mailbox.Ready p.draft.message p.draft.deliverTo targets hooked
  · obtain ⟨targets, hooked, hrdy⟩ := hrdy
    rw [post, Draft.send, sendDraft_of_ready hrdy]
    rcases p.mailbox.computeTTLFields p.draft.ttl p.draft.scheduleAt with e | ⟨expires, available⟩
    · exact .inl rfl
    · exact .inr ⟨hooked, _, targets, hp.nodup_targets hrdy, rfl⟩
  · obtain ⟨_, _, hn⟩ := sendDraft_of_not_ready hrdy
    rw [post, Draft.send, hn]
    exact .inl rfl

/-- **One posting** stores at most one message for the user, and none once the user sees as many as
the limit allows. -/
theorem Limited.post_spec (huuid : IDSource uuid) (hN : 0 < N) (hp : p.Limited uuid r N) {w : World}
    (hw : Fresh uuid w.store) :
    Fresh uuid (p.post w).store ∧ storedFor r (p.post w) ≤ storedFor r w + 1
      ∧ (N ≤ visibleTo r p.now w → storedFor r (p.post w) = storedFor r w) := by
  rcases hp.post_cases w with heq | ⟨hooked, env, targets, htargets, heq⟩
  · rw [heq]
    exact ⟨hw, Nat.le_succ _, fun _ => rfl⟩
  · rw [heq]
    obtain ⟨rfl, hother, hcache, ⟨getQuota, hprovider, hquota⟩, _⟩ := hp
    refine ⟨?_, storedFor_transmit p.mailbox.backend_eq huuid env hw htargets hother hN hcache
      hprovider hquota⟩
    by_cases hdelv : Delivers p.mailbox.uuid p.mailbox.service.now p.mailbox.faults
      p.mailbox.toUserMailbox hooked env targets w
    · obtain ⟨_, _, _, _, hfr⟩ :=
        transmit_delivers p.mailbox.backend_eq huuid env hw htargets hdelv
      exact hfr
    · exact (transmit_fails p.mailbox.backend_eq huuid env hw htargets hdelv).2.2

end Limited

end Posting

/-! ## A posting that is stored -/

variable {w : World}

section Breaking

/-- Somebody else. -/
def someoneBeside : String := if userID = "ann" then "bob" else "ann"

lemma someoneBeside_ne : someoneBeside userID ≠ userID := by
  rw [someoneBeside]
  split_ifs with h
  · rw [h]
    decide
  · exact fun heq => h heq.symm

/-- What `plainMailbox` takes from Go's library. -/
abbrev plainLibrary : Library := ⟨fun s => s, fun _ => "", fun _ => .ok 0⟩

/-- A letter to `r`, at a time and to be available at a time. -/
def postingTo (uuid : ℕ → String) (r : String) (N : ℕ) (now : Time) (scheduleAt : Option Time) :
    Posting where
  mailbox :=
    { service :=
        { (plainMailbox (memoryBackend uuid now Faults.none false) "").service with
          now := now
          quotaProvider := some fun _ => .ok (some ⟨N, .reject⟩) }
      userID := someoneBeside r
      validUserID := true
      uuid := uuid
      faults := .none
      managed := false
      backend_eq := rfl
      publishFault := fun _ => none
      defaultQueryLimit := 20
      maxQueryLimit := 100
      toLower := id }
  draft :=
    { message := { Store.newDraft now (someoneBeside r) with recipientIDs := [r], subject := "hi" }
      saved := false
      threadID := ""
      replyToID := ""
      externalID := ""
      ttl := 0
      scheduleAt := scheduleAt
      deliverTo := [] }

variable {now : Time}

lemma limited_postingTo (scheduleAt : Option Time) :
    (postingTo uuid r N now scheduleAt).Limited uuid r N :=
  ⟨rfl, someoneBeside_ne r, rfl, ⟨_, rfl, rfl⟩, by simp [postingTo, plainMailbox]⟩

variable (uuid N now) in
lemma accepts_postingTo (hr : r ≠ "") :
    (postingTo uuid r N now none).mailbox.Accepts (postingTo uuid r N now none).draft.message 0 none
      [] := by
  have hrcp : validateRecipients defaultLimits [r] = .ok () := by
    simp [validateRecipients, defaultLimits, Ne.symm hr]
    rfl
  have hsubject : validateSubject defaultLimits "hi" = .ok () := rfl
  have hbd : validateBody defaultLimits "" = .ok () := rfl
  have hheaders : validateHeaders plainLibrary defaultLimits
      ((∅ : Headers).insert headerContentLength (toString "".utf8ByteSize)) = .ok () := rfl
  have hmetadata : validateMetadata plainLibrary defaultLimits ∅ = .ok () := rfl
  have hattachments : validateAttachments plainLibrary defaultLimits [] = .ok () := rfl
  have hlimits : (plainMailbox (memoryBackend uuid now Faults.none false) "").service.cfg.limits
    = defaultLimits := rfl
  have hlib : (postingTo uuid r N now none).mailbox.service.lib = plainLibrary := rfl
  have hresolver : (postingTo uuid r N now none).mailbox.service.userResolver = none := rfl
  refine ⟨rfl, ⟨[], ?_⟩, rfl, ⟨_, rfl⟩⟩
  rw [prepareDraft]
  rw [withLength, if_pos (by rfl), checkPrepared, resolveAndInjectUserMetadata, hresolver]
  simp only [validateDraft, hlib]
  simp only [withRecipients, setHeader, postingTo, deduplicateRecipients, foldl_cons,
    foldl_nil, not_mem_nil, if_false, nil_append, Store.newDraft, hlimits,
    hrcp, hsubject, hbd, hheaders, hmetadata, hattachments]
  rfl

/-- A letter to a user who sees less than the limit is stored. -/
lemma storedFor_postingTo (huuid : IDSource uuid) (hN : 0 < N) (hr : r ≠ "")
    (hw : Fresh uuid w.store) (hrm : visibleTo r now w < N) :
    storedFor r ((postingTo uuid r N now none).post w) = storedFor r w + 1 := by
  set p := postingTo uuid r N now none
  have hm : p.mailbox.service.backend = memoryBackend uuid now Faults.none false := rfl
  obtain ⟨expiresAt, availableAt, hsend⟩ :=
    sendDraft_of_accepts rfl (accepts_postingTo uuid N now hr) "" "" "" w
  obtain ⟨_, htargets, hatt⟩ := (p.mailbox.prepareDraft_frame p.draft.message []).1
  have hpost : p.post w = (p.mailbox.transmit (p.mailbox.prepareDraft p.draft.message []).2 _
    (deduplicateRecipients []) w).state := congrArg Sent.state hsend
  generalize (p.mailbox.prepareDraft p.draft.message []).2 = hooked at *
  generalize Envelope.mk _ _ _ _ _ = env at hpost
  replace htargets : deliveryTargets hooked [] = [r] := htargets
  have hlim : (p.mailbox.checkQuota r (deliveryStart uuid now p.mailbox.toUserMailbox hooked env
      w)).isOk = true := by
    rw [checkQuota_isOk_iff hm hN rfl rfl rfl, visibleTo_deliveryStart env hw (someoneBeside_ne r)]
    exact hrm
  have hdelivered : delivered uuid now Faults.none p.mailbox.toUserMailbox hooked env [] w
      = [(r, w.store.drawn + 1)] := by
    rw [delivered, keptCopies, claimAll_of_nil hatt, htargets, filter_cons_of_pos]
    · rfl
    · rw [serves, hlim]
      rfl
  have hdelv : Delivers uuid now Faults.none p.mailbox.toUserMailbox hooked env [] w :=
    ⟨rfl, congrArg Prod.fst (claimRefs_of_nil hatt w), by simp [hdelivered]⟩
  rw [hpost]
  have hst := storedFor_of_delivers hm huuid env hw
    (by rw [htargets]; exact nodup_singleton r) (someoneBeside_ne r) hdelv
  rw [hdelivered] at hst
  exact hst.trans (by simp [Nat.add_comm])

end Breaking

/-! ## Runs -/

/-- At the given time nothing takes the user past the bound: there is room for another message, or
the user sees as many as the limit allows. -/
def Guarded (r : String) (N bound : ℕ) (now : Time) (w : World) : Prop :=
  storedFor r w < bound ∨ N ≤ visibleTo r now w

instance (r : String) (N bound : ℕ) (now : Time) (w : World) :
    Decidable (Guarded r N bound now w) :=
  inferInstanceAs (Decidable (_ ∨ _))

section Runs

variable (huuid : IDSource uuid) (hN : 0 < N) {bound : ℕ}

include huuid hN

lemma storedFor_post_le {p : Posting} (hp : p.Limited uuid r N) (hw : Fresh uuid w.store)
    (hle : storedFor r w ≤ bound) (h : Guarded r N bound p.now w) :
    storedFor r (p.post w) ≤ bound := by
  obtain ⟨_, hone, hfl⟩ := hp.post_spec huuid hN hw
  rcases h with hrm | hlim
  · omega
  · rw [hfl hlim]
    exact hle

/-- A state is guarded exactly if no posting at that time gets past the bound. -/
lemma guarded_iff (hr : r ≠ "") (hw : Fresh uuid w.store)
    (hle : storedFor r w ≤ bound) (now : Time) :
    (∀ p : Posting, p.Limited uuid r N → p.now = now → storedFor r (p.post w) ≤ bound)
      ↔ Guarded r N bound now w := by
  constructor
  · intro h
    by_contra hn
    rw [Guarded, not_or, not_lt, not_le] at hn
    have hst := h (postingTo uuid r N now none) (limited_postingTo none) rfl
    rw [storedFor_postingTo huuid hN hr hw hn.2] at hst
    omega
  · rintro h p hp rfl
    exact storedFor_post_le huuid hN hp hw hle h

lemma guarded_steps_iff (hr : r ≠ "") {postings : List Posting}
    (hpostings : ∀ p ∈ postings, p.Limited uuid r N) (hw : Fresh uuid w.store)
    (hle : storedFor r w ≤ bound) :
    (∀ e ∈ Machine.steps Posting.post postings w, ∀ p : Posting, p.Limited uuid r N →
        p.now = e.2.now → storedFor r (p.post e.1) ≤ bound)
      ↔ ∀ e ∈ Machine.steps Posting.post postings w, Guarded r N bound e.2.now e.1 := by
  induction postings generalizing w with
  | nil => simp [Machine.steps]
  | cons p postings ih =>
    rw [forall_mem_cons] at hpostings
    have hfr := (hpostings.1.post_spec huuid hN hw).1
    have hhd := guarded_iff huuid hN hr hw hle p.now
    rw [Machine.steps, forall_mem_cons, forall_mem_cons]
    constructor
    · rintro ⟨hnow, hlat⟩
      exact ⟨hhd.mp hnow, (ih hpostings.2 hfr (hnow p hpostings.1 rfl)).mp hlat⟩
    · rintro ⟨hnow, hlat⟩
      have hpost := storedFor_post_le huuid hN hpostings.1 hw hle hnow
      exact ⟨hhd.mpr hnow, (ih hpostings.2 hfr hpost).mpr hlat⟩

end Runs

/-- **What a rejecting quota bounds.**  In a run whose postings all find a guarded state, the user
never stores more than the larger of the limit and the initial number; and guarded states are
exactly those in which no posting at that time could store more. -/
theorem storedFor_bounded {uuid : ℕ → String} (huuid : IDSource uuid) (r : String) (N : ℕ)
    (hN : 0 < N) (w : World) (hw : Fresh uuid w.store) (postings : List Posting)
    (hpostings : ∀ p ∈ postings, p.Limited uuid r N) :
    ((∀ e ∈ Machine.steps Posting.post postings w,
        Guarded r N (max N (storedFor r w)) e.2.now e.1) →
      ∀ n, storedFor r ((postings.take n).foldl Posting.post w) ≤ max N (storedFor r w))
    ∧ (r ≠ "" → ((∀ e ∈ Machine.steps Posting.post postings w, ∀ p : Posting, p.Limited uuid r N →
          p.now = e.2.now → storedFor r (p.post e.1) ≤ max N (storedFor r w))
        ↔ ∀ e ∈ Machine.steps Posting.post postings w,
            Guarded r N (max N (storedFor r w)) e.2.now e.1)) := by
  have hst : storedFor r w ≤ max N (storedFor r w) := Nat.le_max_right _ _
  refine ⟨fun hguarded n => ?_, fun hr => guarded_steps_iff huuid hN hr hpostings hw hst⟩
  generalize max N (storedFor r w) = bound at *
  have hstep : ∀ (w' : World) (p : Posting), Fresh uuid w'.store ∧ storedFor r w' ≤ bound →
      p.Limited uuid r N ∧ Guarded r N bound p.now w' →
      Fresh uuid (p.post w').store ∧ storedFor r (p.post w') ≤ bound := by
    rintro w' p ⟨hw', hle⟩ ⟨hp, hguard⟩
    exact ⟨(hp.post_spec huuid hN hw').1, storedFor_post_le huuid hN hp hw' hle hguard⟩
  refine (Machine.steps_induction hstep (fun e he => ⟨?_, hguarded e he⟩) ⟨hw, hst⟩ n).2
  obtain ⟨before, after, rfl, _⟩ := Machine.exists_of_mem_steps he
  exact hpostings e.2 (by simp)

/-- Two letters at once, of which the second one is rejected. -/
theorem storedFor_bounded_bob : Guarded "bob" 1 1 3 World.new
      ∧ ∀ n, storedFor "bob" (([postingTo unaryID "bob" 1 3 none,
          postingTo unaryID "bob" 1 3 none].take n).foldl Posting.post World.new) ≤ 1 := by
  refine ⟨by decide, (storedFor_bounded idSource_unaryID "bob" 1 (by decide) World.new
    (fresh_new unaryID) [postingTo unaryID "bob" 1 3 none, postingTo unaryID "bob" 1 3 none]
    ?_).1 ?_⟩
  · intro p hp
    rcases mem_cons.mp hp with rfl | hp
    · exact limited_postingTo none
    · rw [mem_singleton.mp hp]
      exact limited_postingTo none
  · decide

/-- **Two letters that are scheduled for later** are both stored, where one is allowed. -/
theorem scheduled_letters_pass_quota :
    (∀ p ∈ [postingTo unaryID "bob" 1 3 (some 9), postingTo unaryID "bob" 1 3 (some 9)],
        p.Limited unaryID "bob" 1)
      ∧ ¬ ∀ n, storedFor "bob" (([postingTo unaryID "bob" 1 3 (some 9),
          postingTo unaryID "bob" 1 3 (some 9)].take n).foldl Posting.post World.new)
          ≤ max 1 (storedFor "bob" World.new) := by
  constructor
  · intro p hp
    rcases mem_cons.mp hp with rfl | hp
    · exact limited_postingTo (some 9)
    · rw [mem_singleton.mp hp]
      exact limited_postingTo (some 9)
  · intro h
    have hboth := h 2
    revert hboth
    decide

end Mailbox.Service
