import Mailbox.Service.Received

/-!
# Sending a draft again

A send that reaches only some of the recipients returns an error that names the others, and the
caller may send the same draft once more.  The recipients' copies are created under idempotency
keys, but these are made of the ID of the sender's copy, and every send makes a new sender's copy.
So the keys of the second send are not those of the first one, and whoever is served by both has
two copies.

**`resend_at_most_one_copy_iff`** says so for two sends of one draft.
-/

namespace Mailbox.Service

open Memory UserMailbox List

/-- The `draft` of `draft.go`: the message with the settings that are not part of it. -/
structure Draft where
  message : Message
  saved : Bool
  threadID : String
  replyToID : String
  externalID : String
  ttl : ℤ
  scheduleAt : Option Time
  deliverTo : List String

/-- `Send` sends the draft, and leaves it as the send leaves it. -/
def Draft.send {σ : Type} (d : Draft) (m : UserMailbox σ) (s : σ) : Sent σ × Draft :=
  let sent := m.sendDraft d.message d.threadID d.replyToID d.externalID d.ttl d.scheduleAt
    d.deliverTo s
  (sent, { d with message := sent.draft, saved := d.saved || sent.message.isSome })

/-- A message in a recipient's inbox that has been created since `before`. -/
def newCopy (before : Store) (recipientID : String) (msg : Message) : Bool :=
  decide (msg.ownerID = recipientID ∧ msg.folderID = folderInbox ∧ msg.isDraft = false
    ∧ before.messages.load msg.id = none)

/-- How many such messages there are. -/
def inboxCopies (before after : Store) (recipientID : String) : ℕ :=
  after.messages.all.countP (newCopy before recipientID)

lemma inboxCopies_self (s : Store) (r : String) : inboxCopies s s r = 0 := by
  refine countP_eq_zero.mpr fun msg hmsg => ?_
  simp [newCopy, Table.load_of_mem hmsg]

lemma inboxCopies_congr {s s' : Store} (h : s'.messages.all = s.messages.all) (before : Store)
    (r : String) : inboxCopies before s' r = inboxCopies before s r := by
  rw [inboxCopies, h, inboxCopies]

variable {uuid : ℕ → String} {now : Time} {faults : Faults} {managed : Bool} {m : UserMailbox World}
  {w : World} {before : Store}

/-- A transmission puts one copy into the inbox of everybody it delivers to. -/
lemma inboxCopies_transmit (hm : m.service.backend = memoryBackend uuid now faults managed)
    (huuid : IDSource uuid) {draft : Message} (env : Envelope) {deliverTo : List String}
    (hw : Fresh uuid w.store) (htargets : (deliveryTargets draft deliverTo).Nodup)
    (hbefore : ∀ k ≥ w.store.drawn, before.messages.load (uuid k) = none)
    (h : Delivers uuid now faults m draft env deliverTo w) (r : String) :
    inboxCopies before (m.transmit draft env deliverTo w).state.store r
      = ((delivered uuid now faults m draft env deliverTo w).map Prod.fst).count r
        + inboxCopies before w.store r := by
  refine countP_transmit hm huuid env hw htargets h (fun msg hmsg => ?_) ?_ fun q hq => ?_
  · exact (of_decide_eq_true hmsg).2.2.1
  · simp [newCopy, sentCopy, folderSent, folderInbox]
  · simp [newCopy, copyAt, newMessageFromData, recipientData, hbefore q.2 hq]

namespace Draft

variable (d : Draft)

/-- What the copies share, with the times computed for them. -/
def envelope (m : UserMailbox World) (w : World) (times : Option Time × Option Time) : Envelope :=
  ⟨m.resolveThreadID d.threadID d.replyToID w, d.replyToID, d.externalID, times.1, times.2⟩

variable (uuid now faults m w) in
/-- Whom the send of a draft reaches: it gets past its checks, the hooks and the times, the sender's
copy is made with its references, and neither quota, batch, creation nor references fail for
`r`. -/
def Reaches (r : String) : Prop :=
  ∃ targets hooked times, m.Ready d.message d.deliverTo targets hooked
    ∧ m.computeTTLFields d.ttl d.scheduleAt = .ok times
    ∧ Delivers uuid now faults m hooked (d.envelope m w times) targets w
    ∧ r ∈ (delivered uuid now faults m hooked (d.envelope m w times) targets w).map Prod.fst

variable (m) in
/-- The hooks, if there are any, name nobody twice. -/
def Distinct : Prop :=
  ∀ targets hooked, m.Ready d.message d.deliverTo targets hooked →
    (deliveryTargets hooked targets).Nodup

variable {d} {r : String}

lemma Reaches.entry (h : d.Reaches uuid now faults m w r) : faults.entry r = none := by
  obtain ⟨_, _, _, _, _, _, hr⟩ := h
  have hserves := (mem_filter.mp (delivered_sublist.subset hr)).2
  rw [serves, Bool.and_eq_true, Option.isNone_iff_eq_none] at hserves
  exact hserves.2

section Send

variable (hm : m.service.backend = memoryBackend uuid now faults managed) (huuid : IDSource uuid)
  (hw : Fresh uuid w.store) (hdistinct : d.Distinct m)

include hm huuid hw hdistinct

/-- A send transmits the draft to those it reaches, or it reaches nobody and leaves the messages
alone. -/
lemma send_cases : (∃ targets hooked times, (deliveryTargets hooked targets).Nodup
      ∧ Delivers uuid now faults m hooked (d.envelope m w times) targets w
      ∧ (d.send m w).1 = m.transmit hooked (d.envelope m w times) targets w
      ∧ ∀ r, d.Reaches uuid now faults m w r
        ↔ r ∈ (delivered uuid now faults m hooked (d.envelope m w times) targets w).map Prod.fst)
    ∨ (∀ r, ¬ d.Reaches uuid now faults m w r) ∧ (d.send m w).1.message = none
      ∧ (d.send m w).1.state.store.messages.all = w.store.messages.all := by
  by_cases hready : ∃ targets hooked, m.Ready d.message d.deliverTo targets hooked
  · obtain ⟨targets, hooked, hready⟩ := hready
    have htargets := hdistinct targets hooked hready
    have heq := sendDraft_of_ready hready d.threadID d.replyToID d.externalID d.ttl d.scheduleAt w
    cases htimes : m.computeTTLFields d.ttl d.scheduleAt with
    | error e =>
      refine .inr ⟨?_, by simp [Draft.send, heq, htimes], by simp [Draft.send, heq, htimes]⟩
      rintro r ⟨_, _, _, _, htimes', _⟩
      simp [htimes] at htimes'
    | ok times =>
      rw [htimes] at heq
      have hreaches : ∀ r, d.Reaches uuid now faults m w r
          ↔ Delivers uuid now faults m hooked (d.envelope m w times) targets w
            ∧ r ∈ (delivered uuid now faults m hooked (d.envelope m w times) targets w).map
              Prod.fst := by
        intro r
        constructor
        · rintro ⟨targets', hooked', times', hready', htimes', hdelivers⟩
          -- The steps before have only one outcome.
          cases hready.prepared.symm.trans hready'.prepared
          cases hready.hooks.symm.trans hready'.hooks
          cases htimes.symm.trans htimes'
          exact hdelivers
        · exact fun h => ⟨targets, hooked, times, hready, htimes, h⟩
      by_cases hdelivers : Delivers uuid now faults m hooked (d.envelope m w times) targets w
      · refine .inl ⟨targets, hooked, times, htargets, hdelivers, heq, fun r => ?_⟩
        rw [hreaches, and_iff_right hdelivers]
      · obtain ⟨hmsg, hall, _⟩ := transmit_fails hm huuid _ hw htargets hdelivers
        refine .inr ⟨fun r h => hdelivers ((hreaches r).mp h).1, ?_, ?_⟩
        · exact (congrArg Sent.message heq).trans hmsg
        · exact (congrArg (·.state.store.messages.all) heq).trans hall
  · obtain ⟨_, _, hrefused⟩ := sendDraft_of_not_ready hready
    refine .inr ⟨?_, by simp [Draft.send, hrefused], by simp [Draft.send, hrefused]⟩
    rintro r ⟨targets, hooked, _, hready', _⟩
    exact hready ⟨targets, hooked, hready'⟩

open Classical in
/-- Everybody whom a send reaches has one copy more, and nobody else has. -/
lemma inboxCopies_send (hbefore : ∀ k ≥ w.store.drawn, before.messages.load (uuid k) = none)
    (r : String) : inboxCopies before (d.send m w).1.state.store r
      = (if d.Reaches uuid now faults m w r then 1 else 0) + inboxCopies before w.store r := by
  rcases send_cases hm huuid hw hdistinct with
    ⟨targets, hooked, times, htargets, hdelivers, heq, hreaches⟩ | ⟨hnone, -, hall⟩
  · rw [heq, inboxCopies_transmit hm huuid _ hw htargets hbefore hdelivers,
      ((htargets.filter _).sublist delivered_sublist).count]
    simp only [hreaches]
  · rw [inboxCopies_congr hall, if_neg (hnone r), Nat.zero_add]

lemma fresh_send (hsent : (d.send m w).1.message ≠ none) :
    w.store.drawn ≤ (d.send m w).1.state.store.drawn ∧ Fresh uuid (d.send m w).1.state.store := by
  rcases send_cases hm huuid hw hdistinct with
    ⟨targets, hooked, times, htargets, hdelivers, heq, -⟩ | ⟨-, hmsg, -⟩
  · rw [heq]
    exact (transmit_delivers hm huuid _ hw htargets hdelivers).2.2.2
  · exact absurd hmsg hsent

end Send

end Draft

variable {now₁ now₂ : Time} {faults₁ faults₂ : Faults} {managed₁ managed₂ : Bool}

/-- **Sending again.**  When a draft has been sent and is sent once more, nobody gets two copies if
and only if nobody is reached by both sends. -/
theorem resend_at_most_one_copy_iff (huuid : IDSource uuid) (m₁ m₂ : UserMailbox World)
    (hm₁ : m₁.service.backend = memoryBackend uuid now₁ faults₁ managed₁)
    (hm₂ : m₂.service.backend = memoryBackend uuid now₂ faults₂ managed₂) (d : Draft) (w : World)
    (hw : Fresh uuid w.store) (hsent : (d.send m₁ w).1.message ≠ none)
    (hdistinct₁ : d.Distinct m₁) (hdistinct₂ : (d.send m₁ w).2.Distinct m₂) :
    let again := (d.send m₁ w).2
    let w' := (d.send m₁ w).1.state
    (∀ r, inboxCopies w.store (again.send m₂ w').1.state.store r ≤ 1)
      ↔ ∀ r, ¬ (d.Reaches uuid now₁ faults₁ m₁ w r ∧ again.Reaches uuid now₂ faults₂ m₂ w' r) := by
  intro again w'
  obtain ⟨hdrawn, hw'⟩ := Draft.fresh_send hm₁ huuid hw hdistinct₁ hsent
  refine forall_congr' fun r => ?_
  rw [Draft.inboxCopies_send hm₂ huuid hw' hdistinct₂ (fun k hk => hw.unused k (hdrawn.trans hk)),
    Draft.inboxCopies_send hm₁ huuid hw hdistinct₁ hw.unused, inboxCopies_self]
  by_cases hfirst : d.Reaches uuid now₁ faults₁ m₁ w r <;>
    by_cases hsecond : again.Reaches uuid now₂ faults₂ m₂ w' r <;>
    simp [again, w', hfirst, hsecond]

/-! ## Two recipients -/

/-- A store that cannot create messages for some recipients. -/
def failsFor (recipients : String → Bool) : Faults :=
  { Faults.none with
    entry := fun r => if recipients r then some (.text "unavailable") else none }

/-- A mailbox over the in-memory store with the given faults. -/
def mailboxWith (faults : Faults) : UserMailbox World :=
  plainMailbox (memoryBackend unaryID 1 faults false) "u"

def twoRecipients : Draft := ⟨plainDraft, false, "", "", "", 0, none, []⟩

/-- A first send that reaches nobody but `v`. -/
def firstTry : Sent World × Draft :=
  twoRecipients.send (mailboxWith (failsFor (· != "v"))) World.new

/-- The second send reaches only the others. -/
theorem resend_to_the_rest :
    let m := mailboxWith (failsFor (· == "v"))
    firstTry.1.err.any (Error.is .partialDelivery) = true
      ∧ inboxCopies Store.new (firstTry.2.send m firstTry.1.state).1.state.store "v" ≤ 1
      ∧ inboxCopies Store.new (firstTry.2.send m firstTry.1.state).1.state.store "w" ≤ 1 := by
  have hapart : ∀ r, ¬ (twoRecipients.Reaches unaryID 1 (failsFor (· != "v"))
      (mailboxWith (failsFor (· != "v"))) World.new r
      ∧ firstTry.2.Reaches unaryID 1 (failsFor (· == "v"))
        (mailboxWith (failsFor (· == "v"))) firstTry.1.state r) := by
    rintro r ⟨hfirst, hsecond⟩
    have hv := hfirst.entry
    have hne := hsecond.entry
    simp only [failsFor] at hv hne
    by_cases hr : r = "v" <;> simp [hr] at hv hne
  have hle := (resend_at_most_one_copy_iff idSource_unaryID (mailboxWith (failsFor (· != "v")))
    (mailboxWith (failsFor (· == "v"))) rfl rfl twoRecipients World.new
    (fresh_new unaryID) (fun h => by cases h)
    (fun _ _ h => h.nodup_targets (fun _ hh => by cases hh))
    (fun _ _ h => h.nodup_targets (fun _ hh => by cases hh))).mpr hapart
  exact ⟨by decide +kernel, hle "v", hle "w"⟩

/-- Sent again without a fault, the draft reaches both: `v`, whom the first send had reached and
had named as served, has two copies. -/
theorem resend_delivers_twice : firstTry.1.err.any (Error.is .partialDelivery) = true
      ∧ inboxCopies Store.new
        (firstTry.2.send (mailboxWith Faults.none) firstTry.1.state).1.state.store "v" = 2 := by
  decide +kernel

end Mailbox.Service
