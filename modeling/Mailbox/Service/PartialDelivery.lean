import Mailbox.Service.Compose

/-!
# Reports of partial delivery

A send that reaches some of its targets returns the message and a `PartialDeliveryError`, which
lists those that have the message and the others with what went wrong.  Errors of the event bus and
of plugins after the send are joined to it.

**Bookkeeping.**  The three phases of a delivery put every target either among the delivered or
among the failed: `deliverToRecipients_accounted`, for any store that answers a batch with one
result per entry.

**Exactness.**  `partial_delivery_exact` is about the in-memory store with any faults.
-/

namespace Mailbox

open List

/-! ## Reports inside errors -/

/-- The fields of a `PartialDeliveryError`. -/
structure Report where
  messageID : String
  deliveredTo : List String
  failedRecipients : List (String × Error)

mutual

/-- The `PartialDeliveryError`s in the tree that `Unwrap` spans. -/
def Error.reports : Error → List Report
  | .sentinel _ => []
  | .text _ => []
  | .wrap _ err => err.reports
  | .detail err _ => err.reports
  | .join errs => Error.allReports errs
  | .partialDelivery messageID deliveredTo failedRecipients =>
    [⟨messageID, deliveredTo, failedRecipients⟩]
  | .quotaExceeded _ _ _ => []
  | .attachmentRef _ failed rollbackFailed =>
    Error.entryReports failed ++ Error.entryReports rollbackFailed
  | .eventPublish _ _ err => err.reports
  | .plugin _ _ err => err.reports
  | .validation _ _ => []

def Error.allReports : List Error → List Report
  | [] => []
  | err :: errs => err.reports ++ Error.allReports errs

def Error.entryReports : List (String × Error) → List Report
  | [] => []
  | entry :: entries => Error.pairReports entry ++ Error.entryReports entries

def Error.pairReports : String × Error → List Report
  | (_, err) => err.reports

end

namespace Service

open Memory UserMailbox

/-- The reports in what a call returns as its error. -/
def reportsOf (err : Option Error) : List Report := err.elim [] Error.reports

lemma reportsOf_joinErrors (errs : List (Option Error)) :
    reportsOf (joinErrors errs) = errs.flatMap reportsOf := by
  have hall : ∀ errs : List (Option Error),
      Error.allReports (errs.filterMap id) = errs.flatMap reportsOf := by
    intro errs
    induction errs with
    | nil => rfl
    | cons err errs ih =>
      cases err with
      | none => simpa [reportsOf] using ih
      | some e => exact congrArg (e.reports ++ ·) ih
  rw [← hall, joinErrors]
  cases errs.filterMap id with
  | nil | cons => rfl

variable {uuid : ℕ → String} {now : Time} {faults : Faults} {managed : Bool} {m : UserMailbox World}

namespace UserMailbox

/-! ## Bookkeeping -/

/-- The recipients a delivery has dealt with. -/
def Delivery.accounted (d : Delivery) : List String := d.deliveredTo ++ d.failedRecipients.keys

variable {d : Delivery} {r : String}

lemma Delivery.keys_fail (e : Error) (h : r ∉ d.failedRecipients.keys) :
    (d.fail r e).failedRecipients.keys = r :: d.failedRecipients.keys := by
  rw [Delivery.fail, AList.keys_insert, erase_of_not_mem h]

/-- Whom a delivery deals with next: new recipients, each once. -/
structure Delivery.Next (d : Delivery) (rs : List String) : Prop where
  nodup : rs.Nodup
  new : ∀ r ∈ rs, r ∉ d.failedRecipients.keys

variable {rs : List String}

lemma Delivery.Next.tail {d' : Delivery} (h : d.Next (r :: rs))
    (hks : ∀ r' ∈ d'.failedRecipients.keys, r' = r ∨ r' ∈ d.failedRecipients.keys) :
    d'.Next rs := by
  obtain ⟨hnd, hw⟩ := h
  rw [nodup_cons] at hnd
  rw [forall_mem_cons] at hw
  refine ⟨hnd.2, fun r' hr' hmem => ?_⟩
  rcases hks r' hmem with rfl | hold
  · exact hnd.1 hr'
  · exact hw.2 r' hr' hold

lemma Delivery.Next.fail (h : d.Next (r :: rs)) (e : Error) : (d.fail r e).Next rs := by
  refine h.tail fun r' hr' => ?_
  rwa [Delivery.keys_fail e (h.new r mem_cons_self), mem_cons] at hr'

variable {targets deliverTo : List String}

section Bookkeeping

variable {σ : Type} (m : UserMailbox σ)

lemma eligible_perm (s : σ) (h : d.Next targets) :
    ((m.eligible s targets d).1 ++ (m.eligible s targets d).2.failedRecipients.keys).Perm
      (targets ++ d.failedRecipients.keys) := by
  induction targets generalizing d with
  | nil => exact .refl _
  | cons r targets ih =>
    rw [eligible]
    cases m.checkQuota r s with
    | ok => exact (ih (h.tail fun _ => .inr)).cons r
    | error e =>
      refine (ih (h.fail e)).trans ?_
      rw [Delivery.keys_fail e (h.new r mem_cons_self)]
      exact perm_middle

lemma foldl_fail_accounted (e : Error) (h : d.Next rs) :
    (rs.foldl (fun d recipientID => d.fail recipientID e) d).accounted.Perm
      (rs ++ d.accounted) := by
  induction rs generalizing d with
  | nil => exact .refl _
  | cons r rs ih =>
    refine (ih (h.fail e)).trans ?_
    rw [Delivery.accounted, Delivery.keys_fail e (h.new r mem_cons_self)]
    exact ((perm_middle).append_left rs).trans perm_middle

/-- A result fails the recipient or adds it to the delivered. -/
lemma processResult_cases (draft : Message) (r : String) (result : IdempotentCreateResult)
    (d : Delivery) (s : σ) : (∃ e, (m.processResult draft r result d s).1 = d.fail r e)
      ∨ ((m.processResult draft r result d s).1.deliveredTo = d.deliveredTo ++ [r]
        ∧ (m.processResult draft r result d s).1.failedRecipients = d.failedRecipients) := by
  cases result with
  | err => exact .inl ⟨_, rfl⟩
  | ok msg created =>
    cases created with
    | false => exact .inr ⟨rfl, rfl⟩
    | true =>
      simp only [processResult]
      rcases m.addAttachmentRefs msg s with ⟨e | _, s'⟩
      · exact .inl ⟨_, rfl⟩
      · exact .inr ⟨rfl, rfl⟩

lemma processResults_accounted (draft : Message) {results : List (String × IdempotentCreateResult)}
    (h : d.Next (results.map Prod.fst)) (s : σ) :
    (m.processResults draft results d s).1.accounted.Perm
      (results.map Prod.fst ++ d.accounted) := by
  induction results generalizing d s with
  | nil => exact .refl _
  | cons result results ih =>
    obtain ⟨r, result⟩ := result
    rw [processResults, map_cons] at *
    rcases hstep : m.processResult draft r result d s with ⟨d', s'⟩
    have hcases := m.processResult_cases draft r result d s
    rw [hstep] at hcases
    rcases hcases with ⟨e, rfl⟩ | ⟨hto, hfail⟩
    · refine (ih (h.fail e) s').trans ?_
      rw [Delivery.accounted, Delivery.keys_fail e (h.new r mem_cons_self)]
      exact ((perm_middle).append_left _).trans perm_middle
    · refine (ih (h.tail fun _ hr' => .inr (hfail ▸ hr')) s').trans ?_
      rw [Delivery.accounted, hto, hfail, append_assoc]
      exact ((perm_middle).append_left _).trans perm_middle

/-- **Every target is accounted for**, once: as delivered or as failed. -/
theorem deliverToRecipients_accounted (hresults : ∀ entries s results s',
      m.service.backend.createMessagesIdempotent entries s = (.ok results, s') →
      results.length = entries.length) (draft : Message) (env : Envelope) (senderMsgID : String)
    (htargets : (deliveryTargets draft deliverTo).Nodup) (s : σ) :
    (m.deliverToRecipients draft env senderMsgID deliverTo s).1.accounted.Perm
      (deliveryTargets draft deliverTo) := by
  have hpm := m.eligible_perm s (d := ⟨[], [], ∅⟩) ⟨htargets, fun _ _ => not_mem_nil⟩
  obtain ⟨_, hto, _⟩ := m.eligible_eq s (deliveryTargets draft deliverTo) ⟨[], [], ∅⟩
  rw [deliverToRecipients]
  rw [deliveryTargets] at *
  generalize (if deliverTo.length = 0 then draft.recipientIDs else deliverTo) = targets at *
  generalize m.eligible s targets ⟨[], [], ∅⟩ = phase1 at *
  obtain ⟨recipients, d⟩ := phase1
  simp only at hpm hto ⊢
  replace hpm : (recipients ++ d.failedRecipients.keys).Perm targets := by
    simpa [AList.keys] using hpm
  have hacct : (recipients ++ d.accounted).Perm targets := by
    rwa [Delivery.accounted, hto, nil_append]
  have hnx : d.Next recipients := by
    obtain ⟨hnd, _, hdisj⟩ := nodup_append.mp (hpm.nodup_iff.mpr htargets)
    exact ⟨hnd, fun r hr hmem => hdisj r hr r hmem rfl⟩
  by_cases hno : recipients.length = 0
  · rw [if_pos hno]
    rwa [eq_nil_of_length_eq_zero hno] at hacct
  · rw [if_neg hno]
    rcases hbat : m.service.backend.createMessagesIdempotent
      (recipients.map (m.recipientEntry draft env senderMsgID)) s with ⟨e | results, s'⟩
    · exact (foldl_fail_accounted _ hnx).trans hacct
    · have hlen := hresults _ _ _ _ hbat
      rw [length_map] at hlen
      have hfst : (recipients.zip results).map Prod.fst = recipients :=
        map_fst_zip (Nat.le_of_eq hlen.symm)
      refine (m.processResults_accounted draft (by rwa [hfst]) s').trans ?_
      rwa [hfst]

end Bookkeeping

/-! ## What a transmission returns -/

variable {w : World}

section Transmission

variable (hm : m.service.backend = memoryBackend uuid now faults managed)

lemma length_createEntries (entries : List IdempotentCreateEntry) (s : Store) :
    (MemoryBackend.createEntries uuid now faults entries s).1.length = entries.length := by
  induction entries generalizing s with
  | nil => rfl
  | cons entry entries ih =>
    simp only [MemoryBackend.createEntries, length_cons, ih]

include hm

/-- The in-memory store answers a batch with one result per entry. -/
lemma length_of_createMessagesIdempotent {entries : List IdempotentCreateEntry} {w' : World}
    {results : List IdempotentCreateResult}
    (h : m.service.backend.createMessagesIdempotent entries w = (.ok results, w')) :
    results.length = entries.length := by
  rw [hm] at h
  simp only [memoryBackend, MemoryBackend.createMessagesIdempotent] at h
  cases hbat : faults.batch with
  | some => simp [hbat] at h
  | none =>
    simp only [hbat, Prod.mk.injEq, Except.ok.injEq] at h
    rw [← h.1]
    exact length_createEntries entries w.store

/-- The event of a message that has been sent. -/
def sentEvent (m : UserMailbox World) (msg : Message) (recipientIDs : List String) : Event :=
  .messageSent msg.id msg.senderID recipientIDs msg.subject m.service.now

/-- What goes wrong after a send: the event, where that counts, or else a hook. -/
def postSendError (faults : Faults) (m : UserMailbox World) (msg : Message)
    (recipientIDs : List String) : Option Error :=
  match if m.service.eventErrorsFatal then faults.publish (sentEvent m msg recipientIDs) else none
  with
  | some e => some (.eventPublish (sentEvent m msg recipientIDs).name msg.id e)
  | none =>
    match m.afterSend msg m.service.plugins with
    | .error e => some e
    | .ok _ => none

lemma publishOnly_result (event : Event) (w : World) : (m.publishOnly event w).1
      = match if m.service.eventErrorsFatal then faults.publish event else none with
        | some e => .error (.eventPublish event.name event.messageID e)
        | none => .ok () := by
  rw [publishOnly, hm]
  simp only [memoryBackend, MemoryBackend.publish]
  cases faults.publish event with
  | none => simp
  | some =>
    cases m.service.eventErrorsFatal with
    | false | true => rfl

/-- The report of a delivery is joined to what goes wrong afterwards. -/
lemma reportsOf_completeSend {copy : Message} (hld : w.store.messages.load copy.id = some copy)
    (hcp : copy.isDraft = false)
    (hnamed : w.store.messages.Named) (draft : Message) (d : Delivery) :
    reportsOf (m.completeSend draft copy d w).err
      = reportsOf (postSendError faults m (sentCopy now copy) d.newlyDelivered)
        ++ (if d.failedRecipients.entries.length > 0 then
            [⟨copy.id, d.deliveredTo, d.failedRecipients.pairs⟩] else []) := by
  obtain ⟨w', heq, _⟩ := finalizeDelivery_eq hm hld hcp hnamed d.newlyDelivered draft
  have hres := publishOnly_result hm (sentEvent m (sentCopy now copy) d.newlyDelivered) w'
  have hown : reportsOf (if d.failedRecipients.entries.length > 0 then
      some (.partialDelivery copy.id d.deliveredTo d.failedRecipients.pairs) else none)
      = if d.failedRecipients.entries.length > 0 then
          [⟨copy.id, d.deliveredTo, d.failedRecipients.pairs⟩] else [] := by
    split_ifs <;> rfl
  rw [completeSend, heq, postSendError, ← hown]
  -- Either the event fails, or a hook, or nothing; the report is the second part in each case.
  generalize (if m.service.eventErrorsFatal then _ else _ : Option Error) = fault at hres ⊢
  rw [show Event.messageSent copy.id copy.senderID d.newlyDelivered copy.subject m.service.now
    = sentEvent m (sentCopy now copy) d.newlyDelivered from rfl]
  generalize m.publishOnly (sentEvent m (sentCopy now copy) d.newlyDelivered) w' = publication
    at hres ⊢
  obtain ⟨published, w''⟩ := publication
  simp only at hres ⊢
  subst hres
  cases fault with
  | some =>
    simp only [reportsOf_joinErrors, flatMap_cons, flatMap_nil, append_nil]
    rfl
  | none =>
    cases m.afterSend (sentCopy now copy) m.service.plugins with
    | error =>
      simp only [reportsOf_joinErrors, flatMap_cons, flatMap_nil, append_nil]
      rfl
    | ok => rfl

end Transmission

end UserMailbox

/-! ## Exactness -/

/-- What the two lists of a report have to say about a send from one store to another. -/
structure Accounts (before after : Store) (targets deliveredTo : List String)
    (failedRecipients : List (String × Error)) : Prop where
  delivered : ∀ r, r ∈ deliveredTo ↔ 0 < inboxCopies before after r
  once : ∀ r, inboxCopies before after r ≤ 1
  failed : ∀ r, r ∈ failedRecipients.map Prod.fst ↔ r ∈ targets ∧ inboxCopies before after r = 0
  targeted : ∀ r ∈ deliveredTo, r ∈ targets

lemma keys_eq_map_pairs (errs : ErrorMap) : errs.keys = errs.pairs.map Prod.fst := by
  rw [ErrorMap.pairs, map_map]
  rfl

lemma accounts_of_perm {before after : Store} {deliveredTo : List String}
    {failedRecipients : List (String × Error)} (htargets : targets.Nodup)
    (hpm : (deliveredTo ++ failedRecipients.map Prod.fst).Perm targets)
    (hcps : ∀ r, inboxCopies before after r = deliveredTo.count r) :
    Accounts before after targets deliveredTo failedRecipients := by
  obtain ⟨hnd, _, hdisj⟩ := nodup_append.mp (hpm.nodup_iff.mpr htargets)
  have hmem : ∀ r, r ∈ targets ↔ r ∈ deliveredTo ∨ r ∈ failedRecipients.map Prod.fst := by
    intro r
    rw [← hpm.mem_iff, mem_append]
  refine ⟨fun r => ?_, fun r => ?_, fun r => ?_, fun r hr => (hmem r).mpr (.inl hr)⟩
  · rw [hcps, count_pos_iff]
  · rw [hcps]
    exact nodup_iff_count_le_one.mp hnd r
  · rw [hcps, count_eq_zero, hmem]
    constructor
    · intro hr
      exact ⟨.inr hr, fun hto => hdisj r hto r hr rfl⟩
    · rintro ⟨hto | hr, hn⟩
      · exact absurd hto hn
      · exact hr

/-- What a send that returns `msg` tells about its targets is what has happened to them. -/
structure ReportsExactly (faults : Faults) (m : UserMailbox World) (w : World)
    (targets : List String) (msg : Message) (sent : Sent World) (deliveredTo : List String)
    (failedRecipients : List (String × Error)) : Prop where
  accounts : Accounts w.store sent.state.store targets deliveredTo failedRecipients
  /-- The report of this send is part of the error if somebody has failed; other reports can only
  come from the event bus or a hook. -/
  reports : ∀ report, report ∈ reportsOf sent.err
    ↔ (report = ⟨msg.id, deliveredTo, failedRecipients⟩ ∧ failedRecipients ≠ [])
      ∨ report ∈ reportsOf (postSendError faults m msg deliveredTo)
  events : ∃ events, sent.state.events = w.events ++ events
    ∧ ∀ messageID senderID recipientIDs subject sentAt,
      Event.messageSent messageID senderID recipientIDs subject sentAt ∈ events →
        recipientIDs = deliveredTo

lemma transmit_reports (hm : m.service.backend = memoryBackend uuid now faults managed)
    (huuid : IDSource uuid) {draft : Message} (env : Envelope) {deliverTo : List String} {w : World}
    (hw : Fresh uuid w.store) (htargets : (deliveryTargets draft deliverTo).Nodup)
    (h : Delivers uuid now faults m draft env deliverTo w) :
    ∃ deliveredTo failedRecipients, ReportsExactly faults m w (deliveryTargets draft deliverTo)
      (sentCopy now (senderCopy uuid now m draft env w)) (m.transmit draft env deliverTo w)
      deliveredTo failedRecipients := by
  have hcps := inboxCopies_transmit hm huuid env hw htargets hw.unused h
  obtain ⟨_, _, hevs, _⟩ := transmit_delivers hm huuid env hw htargets h
  obtain ⟨⟨hto, hnew⟩, hfr, _, hall, _⟩ := deliver_afterSenderCopy hm huuid env hw htargets
  have hpm := m.deliverToRecipients_accounted
    (fun _ _ _ _ => length_of_createMessagesIdempotent hm) draft env
    (senderCopy uuid now m draft env w).id htargets (deliveryStart uuid now m draft env w)
  have hsend := transmit_eq_completeSend hm huuid env hw htargets h
  rw [← delivery] at hpm
  generalize delivery uuid now m draft env deliverTo w = d at *
  obtain ⟨d, w₂⟩ := d
  rw [Delivery.accounted, keys_eq_map_pairs] at hpm
  have hld : w₂.store.messages.load (senderCopy uuid now m draft env w).id
      = some (senderCopy uuid now m draft env w) := by
    refine Table.load_eq_some_iff.mpr ⟨?_, rfl⟩
    rw [hall]
    refine mem_append_right _ ?_
    exact mem_cons_self
  have hreports := reportsOf_completeSend hm hld rfl
    (fun msg hmsg => hfr.named msg.id (by simp [Table.load_of_mem hmsg])) draft d
  refine ⟨d.deliveredTo, d.failedRecipients.pairs, accounts_of_perm htargets hpm fun r => ?_,
    fun report => ?_, _, hevs, fun _ _ _ _ _ hevent => ?_⟩
  · rw [hcps, inboxCopies_self, Nat.add_zero, hto]
  · have hsome : d.failedRecipients.entries.length > 0 ↔ d.failedRecipients.pairs ≠ [] := by
      rw [gt_iff_lt, length_pos_iff, ErrorMap.pairs, ne_eq, ne_eq, map_eq_nil_iff]
    rw [hsend, hreports, mem_append, hnew, ← hto, or_comm]
    simp only [hsome]
    refine or_congr_left ?_
    split_ifs with hfail
    · rw [mem_singleton]
      exact (and_iff_left hfail).symm
    · simp [hfail]
  · rw [hto]
    rcases mem_append.mp (mem_of_mem_filter hevent) with hevent | hevent
    · obtain ⟨p, _, hp⟩ := mem_map.mp hevent
      cases hp
    · cases mem_singleton.mp hevent
      rfl

/-- **Reports of partial delivery are exact.**  A send that returns a message has put one copy into
the inbox of each of the delivered, and of nobody else; the other targets are the failed.  The
`PartialDeliveryError` of the send is part of the error exactly if somebody is among the failed,
next to what the event or a hook failed with.  The `MessageSent` event names the delivered. -/
theorem partial_delivery_exact {uuid : ℕ → String} (huuid : IDSource uuid) {now : Time}
    {faults : Faults} {managed : Bool} (m : UserMailbox World)
    (hm : m.service.backend = memoryBackend uuid now faults managed) (draft hooked : Message)
    (threadID replyToID externalID : String) (ttl : ℤ) (scheduleAt : Option Time)
    (deliverTo targets : List String) (hready : m.Ready draft deliverTo targets hooked)
    (htargets : (deliveryTargets hooked targets).Nodup) (w : World) (hw : Fresh uuid w.store)
    (msg : Message)
    (hsent : (m.sendDraft draft threadID replyToID externalID ttl scheduleAt deliverTo w).message
      = some msg) :
    ∃ deliveredTo failedRecipients, ReportsExactly faults m w (deliveryTargets hooked targets) msg
        (m.sendDraft draft threadID replyToID externalID ttl scheduleAt deliverTo w) deliveredTo
        failedRecipients := by
  rw [sendDraft_of_ready hready] at hsent ⊢
  generalize m.computeTTLFields ttl scheduleAt = times at hsent ⊢
  rcases times with e | ⟨expiresAt, availableAt⟩
  · cases hsent
  · simp only at hsent ⊢
    generalize Envelope.mk _ _ _ _ _ = env at hsent ⊢
    have hdelv := delivers_of_message hm huuid env hw htargets
      (ne_of_eq_of_ne hsent (Option.some_ne_none msg))
    have hms := (transmit_delivers hm huuid env hw htargets hdelv).1
    rw [hsent, Option.some.injEq] at hms
    rw [hms]
    exact transmit_reports hm huuid env hw htargets hdelv

def noSpaceForW : Faults :=
  { Faults.none with entry := fun r => if r = "w" then some (.text "no space") else none }

/-- A mailbox that cannot reach `w`, with a hook that fails after the send. -/
def hinderedMailbox : UserMailbox World :=
  let m := plainMailbox (memoryBackend unaryID 1 noSpaceForW false) "u"
  { m with service := { m.service with
    plugins := [⟨"audit", fun _ draft => (.ok (), draft), fun _ _ => .error (.text "offline")⟩] } }

/-- The send to `v` and `w` from it reports `w` in spite of the hook. -/
theorem partial_delivery_exact_hindered : ∃ msg deliveredTo failedRecipients,
      ReportsExactly noSpaceForW hinderedMailbox World.new ["v", "w"] msg
        (hinderedMailbox.sendDraft plainDraft "" "" "" 0 none [] World.new) deliveredTo
        failedRecipients
      ∧ "w" ∈ failedRecipients.map Prod.fst := by
  obtain ⟨deliveredTo, failedRecipients, hexact⟩ := partial_delivery_exact idSource_unaryID
    hinderedMailbox rfl plainDraft (hinderedMailbox.prepareDraft plainDraft []).2 "" "" "" 0 none []
    [] ⟨rfl, rfl, rfl, rfl⟩ (by decide) World.new (fresh_new unaryID) (Option.get _ rfl)
    (Option.some_get _).symm
  exact ⟨_, deliveredTo, failedRecipients, hexact,
    (hexact.accounts.failed "w").mpr ⟨by decide, by decide⟩⟩

end Service

end Mailbox
