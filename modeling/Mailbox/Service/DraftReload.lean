import Mailbox.Service.Compose

/-!
# Sending a draft that was saved and loaded again

The documentation of `Save` says that a reloaded draft retains its TTL.  It does not: the TTL is
written to the store as a time of expiry, nobody reads that back, and the reloaded draft is sent
with the default TTL.

**`reloaded_sends_alike_iff`** compares the two sends of one draft, directly and through the store,
up to the IDs.

The two sends run side by side: they prepare drafts with the same content, claim the same
references, and make copies of the same recipients.
-/

namespace Mailbox.Service

open Memory UserMailbox List

/-! ## Drafts with the same content -/

lemma SameContent.symm {a b : Message} (h : SameContent a b) : SameContent b a :=
  ⟨h.recipientIDs.symm, h.subject.symm, h.body.symm, h.headers.symm, h.metadata.symm,
    h.attachments.symm⟩

/-- A hook that looks at the content alone. -/
def ContentHook (h : SendHook) : Prop :=
  ∀ userID a b, SameContent a b → (h.beforeSend userID a).1 = (h.beforeSend userID b).1
      ∧ SameContent (h.beforeSend userID a).2 (h.beforeSend userID b).2

namespace UserMailbox

section Content

variable {σ : Type} {m : UserMailbox σ} {a b : Message}

section

variable (h : SameContent a b)

include h

lemma SameContent.validateDraft (lib : Library) (limits : MessageLimits) :
    validateDraft lib limits a = validateDraft lib limits b := by
  rw [Service.validateDraft, Service.validateDraft, h.recipientIDs, h.subject, h.body, h.headers,
    h.metadata, h.attachments]

lemma sameContent_setMetadata (key : String) (value : Value) :
    SameContent (m.setMetadata key value a) (m.setMetadata key value b) := by
  refine ⟨h.recipientIDs, h.subject, h.body, h.headers, ?_, h.attachments⟩
  show a.metadata.insert key value = b.metadata.insert key value
  rw [h.metadata]

lemma sameContent_injectMetadata (key value : String) :
    SameContent (m.injectMetadata key value a) (m.injectMetadata key value b) := by
  rw [injectMetadata, injectMetadata]
  split_ifs
  · exact h
  · exact sameContent_setMetadata h key _

lemma sameContent_resolve : SameStep SameContent (m.resolveAndInjectUserMetadata a)
      (m.resolveAndInjectUserMetadata b) := by
  rw [resolveAndInjectUserMetadata, resolveAndInjectUserMetadata]
  cases m.service.userResolver with
  | none => exact ⟨rfl, h⟩
  | some resolveUser =>
    cases hresolve : resolveUser m.userID with
    | error =>
      simp only [hresolve]
      exact ⟨rfl, h⟩
    | ok =>
      simp only [hresolve]
      exact ⟨rfl, sameContent_injectMetadata (sameContent_injectMetadata
        (sameContent_injectMetadata h _ _) _ _) _ _⟩

lemma sameContent_withLength : SameContent (m.withLength a) (m.withLength b) := by
  rw [withLength, withLength, h.headers, h.body]
  split_ifs
  · refine ⟨h.recipientIDs, h.subject, h.body, ?_, h.metadata, h.attachments⟩
    show a.headers.insert _ _ = b.headers.insert _ _
    rw [h.headers]
  · exact h

lemma sameContent_checkPrepared (targets : List String) :
    SameStep SameContent (m.checkPrepared targets a) (m.checkPrepared targets b) := by
  obtain ⟨r, a', b', ha, hb, h'⟩ := (sameContent_resolve (m := m) h).exists
  rw [checkPrepared, checkPrepared, ha, hb]
  cases r with
  | error => exact ⟨rfl, h'⟩
  | ok =>
    simp only
    rw [SameContent.validateDraft h']
    cases validateDraft m.service.lib m.service.cfg.limits b' with
    | error => exact ⟨rfl, h'⟩
    | ok =>
      simp only [h'.attachments]
      split_ifs
      · exact ⟨rfl, h'⟩
      · exact ⟨rfl, h'⟩

lemma sameContent_prepareDraft (deliverTo : List String) :
    SameStep SameContent (m.prepareDraft a deliverTo) (m.prepareDraft b deliverTo) := by
  have h' : SameContent (m.withRecipients a) (m.withRecipients b) :=
    ⟨congrArg deduplicateRecipients h.recipientIDs, h.subject, h.body, h.headers, h.metadata,
      h.attachments⟩
  rw [prepareDraft, prepareDraft, h'.recipientIDs]
  split
  · exact ⟨rfl, h'⟩
  · exact sameContent_checkPrepared (sameContent_withLength h') _

end

lemma sameContent_beforeSend {hooks : List SendHook} (hh : ∀ h ∈ hooks, ContentHook h)
    (h : SameContent a b) : SameStep SameContent (m.beforeSend hooks a) (m.beforeSend hooks b) := by
  induction hooks generalizing a b with
  | nil => exact ⟨rfl, h⟩
  | cons hook hooks ih =>
    obtain ⟨r, a', b', ha, hb, h'⟩ := SameStep.exists (hh hook mem_cons_self m.userID a b h)
    rw [beforeSend, beforeSend, ha, hb]
    cases r with
    | error => exact ⟨rfl, h'⟩
    | ok => exact ih (fun k hk => hh k (mem_cons_of_mem _ hk)) h'

/-- Of two drafts with the same content both get ready, or neither. -/
lemma Ready.of_sameContent (hh : ∀ h ∈ m.service.plugins, ContentHook h)
    (h : SameContent a b) {deliverTo targets : List String} {hooked : Message}
    (hrdy : m.Ready a deliverTo targets hooked) :
    ∃ hooked', m.Ready b deliverTo targets hooked' ∧ SameContent hooked hooked' := by
  obtain ⟨hprepared, h'⟩ := sameContent_prepareDraft (m := m) h deliverTo
  obtain ⟨hres, h''⟩ := sameContent_beforeSend (m := m) hh h'
  rw [hrdy.hooks] at hres h''
  refine ⟨_, ⟨hrdy.access, hprepared.symm.trans hrdy.prepared, hrdy.semaphore, ?_⟩, h''⟩
  exact Prod.ext hres.symm rfl

end Content

/-! ## Two transmissions side by side -/

/-- A message without its ID. -/
def anonymous (msg : Message) : Message := { msg with id := "" }

/-- What everybody receives in the one case is what they receive in the other. -/
def SameDelivery (before₁ after₁ before₂ after₂ : Store) : Prop :=
  ∀ ownerID, ((received before₁ after₁ ownerID).map anonymous).Perm
    ((received before₂ after₂ ownerID).map anonymous)

/-- The total that quotas are checked against is that of the messages in the store, or does not
depend on them at all. -/
def CountsMessages (m : UserMailbox World) (now : Time) : Prop :=
  ∀ total, m.service.statsTotal = some total → ∀ userID w₁ w₂,
    w₁.store.count now [ownerIs userID] = w₂.store.count now [ownerIs userID] →
      total userID w₁ = total userID w₂

section SideBySide

variable {uuid : ℕ → String} {now : Time} {faults : Faults} {managed : Bool} {m : UserMailbox World}
  (hm : m.service.backend = memoryBackend uuid now faults managed)
  (hstats : CountsMessages m now)

include hm hstats in
lemma checkQuota_congr {w₁ w₂ : World} {r : String}
    (h : w₁.store.count now [ownerIs r] = w₂.store.count now [ownerIs r]) :
    m.checkQuota r w₁ = m.checkQuota r w₂ := by
  rw [checkQuota, checkQuota]
  cases m.service.quotaProvider with
  | none => rfl
  | some getQuota =>
    cases hquo : getQuota r with
    | error => simp only [hquo]
    | ok policy =>
      simp only [hquo]
      cases policy with
      | none => rfl
      | some =>
        simp only
        congr 1
        rw [checkQuotaWithPolicy, checkQuotaWithPolicy]
        cases htot : m.service.statsTotal with
        | none => simp only [hm, memoryBackend, h]
        | some total => simp only [hstats total htot r w₁ w₂ h]

lemma names_keptCopies (draft : Message) (deliverTo : List String) (w : World) :
    (keptCopies faults m draft deliverTo w).map Prod.fst
      = (m.claimAll draft ((deliveryTargets draft deliverTo).filter
          (serves faults fun r => m.checkQuota r w)) w).1 := by
  rw [keptCopies]
  generalize (deliveryTargets draft deliverTo).filter _ = rs
  have h := congrArg Prod.fst (claimAll_map (m := m) Prod.fst draft (rs.zipIdx w.store.drawn) w)
  rw [zipIdx_map_fst] at h
  exact h.symm

variable {draft draft' : Message} (h : SameContent draft draft') {env env' : Envelope}
  (havailable : env.availableAt = env'.availableAt) {w : World} {s' : Store}
  (hw : Fresh uuid w.store) (hs' : Fresh uuid s')
  (hcount : ∀ r, s'.count now [ownerIs r] = w.store.count now [ownerIs r])

include havailable hw hs' hcount in
lemma count_withSenderCopy (r : String) :
    (withSenderCopy uuid now m draft' env' (w.beside s' w.events)).store.count now [ownerIs r]
      = (withSenderCopy uuid now m draft env w).store.count now [ownerIs r] := by
  have hw' : Fresh uuid (w.beside s' w.events).store := hs'
  have hold : s'.messages.all.countP (selects now [ownerIs r])
      = w.store.messages.all.countP (selects now [ownerIs r]) := hcount r
  have hsel : selects now [ownerIs r] (senderCopy uuid now m draft' env' (w.beside s' w.events))
      = selects now [ownerIs r] (senderCopy uuid now m draft env w) := by
    simp only [selects, isAvailableNow, senderCopy, newMessageFromData, senderData, havailable]
    rfl
  rw [Store.count, Store.count, all_withSenderCopy env' hw', all_withSenderCopy env hw,
    countP_cons, countP_cons, hsel]
  exact congrArg (· + _) hold

include hm hstats h havailable hw hs' hcount in
lemma names_delivered (deliverTo : List String) :
    (delivered uuid now faults m draft' env' deliverTo (w.beside s' w.events)).map Prod.fst
      = (delivered uuid now faults m draft env deliverTo w).map Prod.fst := by
  have hquo : ∀ r, m.checkQuota r (deliveryStart uuid now m draft' env' (w.beside s' w.events))
      = m.checkQuota r (deliveryStart uuid now m draft env w) := fun r =>
    checkQuota_congr hm hstats (count_withSenderCopy havailable hw hs' hcount r)
  have htargets : deliveryTargets draft' deliverTo = deliveryTargets draft deliverTo := by
    rw [deliveryTargets, deliveryTargets, h.recipientIDs]
  rw [delivered, delivered, names_keptCopies, names_keptCopies, htargets]
  simp only [hquo]
  -- The second delivery starts with the references of the first.
  simp only [deliveryStart, claimAll_beside hm, claimRefs_beside hm,
    claimRefs_congr h.attachments.symm, claimAll_congr h.attachments.symm]

include hm hstats h havailable hw hs' hcount in
lemma delivers_iff (deliverTo : List String) :
    Delivers uuid now faults m draft' env' deliverTo (w.beside s' w.events)
      ↔ Delivers uuid now faults m draft env deliverTo w := by
  have hnames := names_delivered hm hstats h havailable hw hs' hcount deliverTo
  have hrf : (m.claimRefs draft' (w.beside s' w.events)).1 = (m.claimRefs draft w).1 := by
    rw [claimRefs_congr h.attachments.symm, claimRefs_beside hm]
  have hnil : delivered uuid now faults m draft' env' deliverTo (w.beside s' w.events) = []
      ↔ delivered uuid now faults m draft env deliverTo w = [] := by
    rw [← map_eq_nil_iff (f := Prod.fst), hnames, map_eq_nil_iff]
  constructor
  · rintro ⟨hmk, hclm, hsome⟩
    exact ⟨hmk, hrf ▸ hclm, fun hno => hsome (hnil.mpr hno)⟩
  · rintro ⟨hmk, hclm, hsome⟩
    exact ⟨hmk, hrf ▸ hclm, fun hno => hsome (hnil.mp hno)⟩

lemma map_anonymous_newMessages (deliverTo : List String) :
    (newMessages uuid now faults m draft env deliverTo w).map anonymous
      = sentCopy now (newMessageFromData (m.senderData draft env) "" now)
        :: (((delivered uuid now faults m draft env deliverTo w).map Prod.fst).map fun r =>
          newMessageFromData (recipientData m draft env r) "" now).reverse := by
  rw [newMessages, map_cons, map_reverse, map_map, map_map]
  rfl

lemma map_anonymous_filter (ownerID : String) (msgs : List Message) :
    (msgs.filter fun msg => decide (msg.ownerID = ownerID)).map anonymous
      = (msgs.map anonymous).filter fun msg => decide (msg.ownerID = ownerID) := by
  rw [filter_map]
  rfl

variable (huuid : IDSource uuid) {deliverTo : List String}
  (htargets : (deliveryTargets draft deliverTo).Nodup)

include hm hstats h havailable hw hs' hcount huuid htargets in
/-- **Two transmissions of the same content**, with envelopes that differ in the expiry at most:
everybody receives the same if and only if it expires at the same time. -/
theorem sameDelivery_transmit_iff
    (henv : { env with expiresAt := none } = { env' with expiresAt := none })
    (hdelv : Delivers uuid now faults m draft env deliverTo w) :
    SameDelivery w.store (m.transmit draft env deliverTo w).state.store s'
        (m.transmit draft' env' deliverTo (w.beside s' w.events)).state.store
      ↔ env.expiresAt = env'.expiresAt := by
  have hdelv' := (delivers_iff hm hstats h havailable hw hs' hcount deliverTo).mpr hdelv
  have htargets' : (deliveryTargets draft' deliverTo).Nodup := by
    rwa [deliveryTargets, ← h.recipientIDs]
  have hleft : ∀ ownerID, (received w.store (m.transmit draft env deliverTo w).state.store
      ownerID).map anonymous = _ := fun ownerID =>
    (congrArg (map anonymous) (received_of_delivers hm huuid env hw htargets hdelv ownerID)).trans
      (map_anonymous_filter _ _)
  have hright : ∀ ownerID, (received s' (m.transmit draft' env' deliverTo
      (w.beside s' w.events)).state.store ownerID).map anonymous = _ := fun ownerID =>
    (congrArg (map anonymous)
      (received_of_delivers hm huuid env' (w := w.beside s' w.events) hs' htargets' hdelv'
        ownerID)).trans (map_anonymous_filter _ _)
  constructor
  · -- The sender's copy is among what the sender receives in either case.
    intro hsm
    have hpm := hsm m.userID
    rw [hleft, hright] at hpm
    have hcp : anonymous (sentCopy now (senderCopy uuid now m draft env w))
        ∈ ((newMessages uuid now faults m draft env deliverTo w).map anonymous).filter
          fun msg => decide (msg.ownerID = m.userID) :=
      mem_filter.mpr ⟨mem_cons_self, by simp [anonymous, sentCopy, senderCopy, senderData]⟩
    have hmem := mem_of_mem_filter (hpm.subset hcp)
    rw [map_anonymous_newMessages, mem_cons, mem_reverse] at hmem
    rcases hmem with hmem | hmem
    · exact congrArg Message.expiresAt hmem
    · obtain ⟨r, _, hr⟩ := mem_map.mp hmem
      exact congrArg Message.expiresAt hr.symm
  · intro hexpires ownerID
    have henv' : env = env' := by
      cases env
      cases env'
      simp_all
    have hdata : m.senderData draft' env' = m.senderData draft env := by
      simp only [senderData, henv', h.recipientIDs, h.subject, h.body, h.headers, h.metadata,
        h.attachments]
    rw [hleft, hright, map_anonymous_newMessages, map_anonymous_newMessages,
      names_delivered hm hstats h havailable hw hs' hcount deliverTo, hdata]
    simp only [recipientData, hdata]
    exact .refl _

end SideBySide

end UserMailbox

/-! ## The two sends -/

variable {before before' : Store} {sent sent' : Sent World}

section Reload

variable {m₀ m : MemoryMailbox} {d : Draft} {w : World}

lemma sameContent_stored : SameContent d.message (d.stored m₀ w) := ⟨rfl, rfl, rfl, rfl, rfl, rfl⟩

def withSaved (d : Draft) (m₀ : MemoryMailbox) (w : World) : Store :=
  { w.store with
    messages := w.store.messages.put (d.stored m₀ w), drawn := w.store.drawn + 1 }

lemma fresh_withSaved (huuid : IDSource m.uuid) (hsource : m₀.uuid = m.uuid)
    (hw : Fresh m.uuid w.store) : Fresh m.uuid (withSaved d m₀ w) where
  toFreshIDs := hw.toFreshIDs.put huuid.injective huuid.ne_empty (le_rfl)
    (Nat.lt_succ_self _) (congrFun hsource w.store.drawn) rfl
  keys n hn r := hw.keys n (Nat.le_of_succ_le hn) r

section

variable (hsource : m₀.uuid = m.uuid) (hw : Fresh m.uuid w.store)

include hsource hw

lemma load_stored_of_fresh : w.store.messages.load (d.stored m₀ w).id = none := by
  show w.store.messages.load (m₀.uuid w.store.drawn) = none
  rw [hsource]
  exact hw.unused _ (le_rfl)

lemma count_withSaved (now : Time) (filters : List Filter) :
    (withSaved d m₀ w).count now filters = w.store.count now filters := by
  rw [Store.count, withSaved, Table.all_put_of_fresh (load_stored_of_fresh hsource hw),
    countP_cons_of_neg (by simp [selects, Draft.stored])]
  rfl

lemma get_withSaved (id : String) : (withSaved d m₀ w).get id = w.store.get id := by
  by_cases hid : id = (d.stored m₀ w).id
  · subst hid
    have hld : (withSaved d m₀ w).messages.load (d.stored m₀ w).id = some (d.stored m₀ w) :=
      Table.load_put_self
    rw [Store.get, Store.get, hld, load_stored_of_fresh hsource hw]
    rfl
  · rw [Store.get, Store.get, withSaved, Table.load_put_of_ne hid]

lemma resolveThreadID_withSaved (threadID replyToID : String) :
    m.resolveThreadID threadID replyToID (w.beside (withSaved d m₀ w) w.events)
      = m.resolveThreadID threadID replyToID w := by
  have hg : m.service.backend.get replyToID (w.beside (withSaved d m₀ w) w.events)
      = m.service.backend.get replyToID w := by
    rw [m.backend_eq]
    exact get_withSaved hsource hw replyToID
  rw [resolveThreadID, resolveThreadID, hg]

end

/-- Two TTLs give the same expiry if and only if they are effectively the same. -/
lemma expiry_eq_iff {σ : Type} (m : UserMailbox σ) (scheduleAt : Option Time) (ttl : ℤ) :
    m.expiry scheduleAt (m.effectiveTTL ttl) = m.expiry scheduleAt (m.effectiveTTL 0)
      ↔ ttl ≤ 0 ∨ ttl = m.service.cfg.defaultTTL := by
  rw [effectiveTTL, effectiveTTL, if_pos (Int.le_refl 0)]
  by_cases httl : ttl ≤ 0
  · simp [httl]
  · have hpos : ttl > 0 := Int.not_le.mp httl
    rw [if_neg httl, expiry, expiry, if_pos hpos]
    constructor
    · intro h
      split_ifs at h with hdefault
      · exact .inr (Int.add_left_cancel (Option.some.inj h))
    · rintro (h | rfl)
      · exact absurd h httl
      · rw [if_pos hpos]

/-- What is compared: the condition is enough, and needed when anything is delivered. -/
def AlikeIff (m : MemoryMailbox) (ttl : ℤ) (before before' : Store) (sent sent' : Sent World) :
    Prop :=
  ((ttl ≤ 0 ∨ ttl = m.service.cfg.defaultTTL) →
      SameDelivery before sent.state.store before' sent'.state.store)
    ∧ (sent.message ≠ none ∨ sent'.message ≠ none →
      SameDelivery before sent.state.store before' sent'.state.store →
        ttl ≤ 0 ∨ ttl = m.service.cfg.defaultTTL)

lemma alikeIff_of_none {ttl : ℤ} (hno : sent.message = none) (hno' : sent'.message = none)
    (hall : sent.state.store.messages.all = before.messages.all)
    (hall' : sent'.state.store.messages.all = before'.messages.all) :
    AlikeIff m ttl before before' sent sent' :=
  ⟨fun _ _ => by rw [received_of_all hall, received_of_all hall'],
    fun h => absurd h (by simp [hno, hno'])⟩

lemma alikeIff_of_times {ttl : ℤ} {scheduleAt : Option Time}
    (htm : m.computeTTLFields ttl scheduleAt ≠ m.computeTTLFields 0 scheduleAt)
    (h : sent.message ≠ none ∨ sent'.message ≠ none →
      ¬ (received before sent.state.store m.userID = []
        ↔ received before' sent'.state.store m.userID = [])) :
    AlikeIff m ttl before before' sent sent' := by
  refine ⟨fun hc => absurd (computeTTLFields_congr ?_) htm, fun hms hsm => ?_⟩
  · -- A TTL that counts as the default one gives the times of a draft without a TTL.
    rw [effectiveTTL, effectiveTTL, if_pos (Int.le_refl 0)]
    rcases hc with h | rfl
    · rw [if_pos h]
    · split_ifs <;> rfl
  · -- One of the two delivers to the sender, and the other does not.
    have hlen := (hsm m.userID).length_eq
    rw [length_map, length_map] at hlen
    refine absurd ?_ (h hms)
    rw [← length_eq_zero_iff, ← length_eq_zero_iff, hlen]

section Ready

variable (huuid : IDSource m.uuid) {targets : List String} {hooked hooked' : Message}
  (htargets : (deliveryTargets hooked targets).Nodup)
  (htargets' : (deliveryTargets hooked' targets).Nodup) (hw : Fresh m.uuid w.store) {s' : Store}
  (hs' : Fresh m.uuid s')

include huuid htargets htargets' hw hs' in
lemma alikeIff_transmit (hstats : CountsMessages m.toUserMailbox m.service.now)
    (hct : SameContent hooked hooked')
    (hcount : ∀ r, s'.count m.service.now [ownerIs r] = w.store.count m.service.now [ownerIs r])
    {env env' : Envelope} (henv : { env with expiresAt := none } = { env' with expiresAt := none })
    {ttl : ℤ} {scheduleAt : Option Time}
    (hexpiry : env.expiresAt = m.expiry scheduleAt (m.effectiveTTL ttl))
    (hexpiry' : env'.expiresAt = m.expiry scheduleAt (m.effectiveTTL 0)) :
    AlikeIff m ttl w.store s' (m.transmit hooked env targets w)
      (m.transmit hooked' env' targets (w.beside s' w.events)) := by
  have havailable : env.availableAt = env'.availableAt := by
    cases env
    cases env'
    simp_all
  have hiff := delivers_iff m.backend_eq hstats hct havailable hw hs' hcount targets
  by_cases hdelv : Delivers m.uuid m.service.now m.faults m.toUserMailbox hooked env targets w
  · have hsm := sameDelivery_transmit_iff m.backend_eq hstats hct havailable hw hs' hcount
      huuid htargets henv hdelv
    rw [hexpiry, hexpiry', expiry_eq_iff] at hsm
    exact ⟨hsm.mpr, fun _ => hsm.mp⟩
  · obtain ⟨hno, hall, _⟩ := transmit_fails m.backend_eq huuid env hw htargets hdelv
    obtain ⟨hno', hall', _⟩ := transmit_fails m.backend_eq huuid env' (w := w.beside s' w.events)
      hs' htargets' fun h => hdelv (hiff.mp h)
    exact alikeIff_of_none hno hno' hall hall'

end Ready

/-- **Sending a reloaded draft.**  Everybody receives what the draft itself would have brought them
if it has no TTL or the default one; and when either send delivers anything, only then. -/
theorem reloaded_sends_alike_iff (m₀ m : MemoryMailbox) (hsource : m₀.uuid = m.uuid)
    (huuid : IDSource m.uuid) (htame : ∀ h ∈ m.service.plugins, Tame h)
    (hhooks : ∀ h ∈ m.service.plugins, ContentHook h)
    (hstats : CountsMessages m.toUserMailbox m.service.now) (d : Draft)
    (hd : Draft.Composed m.userID d) (w : World) (hw : Fresh m.uuid w.store) (saved : Draft)
    (w' : World) (hsave : d.save m₀ w = (.ok (), saved, w')) (reloaded : Draft)
    (hload : m.getDraft saved.message.id w' = .ok reloaded) :
    let sent := (d.send m.toUserMailbox w).1
    let sent' := (reloaded.send m.toUserMailbox w').1
    ((d.ttl ≤ 0 ∨ d.ttl = m.service.cfg.defaultTTL) →
        SameDelivery w.store sent.state.store w'.store sent'.state.store)
      ∧ (sent.message ≠ none ∨ sent'.message ≠ none →
        SameDelivery w.store sent.state.store w'.store sent'.state.store →
          d.ttl ≤ 0 ∨ d.ttl = m.service.cfg.defaultTTL) := by
  intro sent sent'
  have hunsaved := Draft.composed_spec hd
  have hreloaded := Draft.reload_spec hunsaved hsave hload
  obtain ⟨_, hw'⟩ := Draft.save_spec hunsaved hsave
  replace hw' : w' = w.beside (withSaved d m₀ w) w.events := hw'
  subst hw' hreloaded
  have hs' := fresh_withSaved (d := d) huuid hsource hw
  have hsn : sent = m.sendDraft d.message d.threadID d.replyToID d.externalID d.ttl d.scheduleAt
      [] w := by
    show m.sendDraft _ _ _ _ _ _ d.deliverTo w = _
    rw [hunsaved.deliverTo]
  have hsn' : sent' = m.sendDraft (d.stored m₀ w) d.threadID d.replyToID d.externalID 0
      d.scheduleAt [] (w.beside (withSaved d m₀ w) w.events) := rfl
  have hst : SameContent d.message (d.stored m₀ w) := sameContent_stored
  clear_value sent sent'
  by_cases hrdy : ∃ targets hooked, m.Ready d.message [] targets hooked
  · obtain ⟨targets, hooked, hrdy⟩ := hrdy
    obtain ⟨hooked', hrdy', hct⟩ := Ready.of_sameContent hhooks hst hrdy
    have htargets := hrdy.nodup_targets htame
    have htargets' := hrdy'.nodup_targets htame
    rw [sendDraft_of_ready hrdy] at hsn
    rw [sendDraft_of_ready hrdy', resolveThreadID_withSaved hsource hw] at hsn'
    rcases htm : m.computeTTLFields d.ttl d.scheduleAt with e | ⟨expiresAt, availableAt⟩
    · simp only [htm] at hsn
      rcases htm' : m.computeTTLFields 0 d.scheduleAt with e' | ⟨expiresAt', availableAt'⟩
      · simp only [htm'] at hsn'
        rw [hsn, hsn']
        exact alikeIff_of_none rfl rfl rfl rfl
      · simp only [htm'] at hsn'
        rw [hsn, hsn']
        refine alikeIff_of_times (by rw [htm, htm']; simp) fun hms hiff => ?_
        exact received_sender_ne_nil m.backend_eq huuid _ hs' htargets'
          (hms.resolve_left fun h => h rfl) (hiff.mp (received_of_all rfl _))
    · simp only [htm] at hsn
      rcases htm' : m.computeTTLFields 0 d.scheduleAt with e' | ⟨expiresAt', availableAt'⟩
      · simp only [htm'] at hsn'
        rw [hsn, hsn']
        refine alikeIff_of_times (by rw [htm, htm']; simp) fun hms hiff => ?_
        exact received_sender_ne_nil m.backend_eq huuid _ hw htargets
          (hms.resolve_right fun h => h rfl) (hiff.mpr (received_of_all rfl _))
      · simp only [htm'] at hsn'
        rw [hsn, hsn']
        obtain ⟨hexpiry, havailable⟩ := computeTTLFields_ok htm
        obtain ⟨hexpiry', havailable'⟩ := computeTTLFields_ok htm'
        refine alikeIff_transmit huuid htargets htargets' hw hs' hstats hct
          (fun r => count_withSaved hsource hw _ _) ?_ hexpiry hexpiry'
        rw [havailable, havailable']
  · have hrdy' : ¬ ∃ targets hooked, m.Ready (d.stored m₀ w) [] targets hooked := by
      rintro ⟨targets, hooked, h⟩
      obtain ⟨hooked', h', _⟩ := Ready.of_sameContent hhooks hst.symm h
      exact hrdy ⟨targets, hooked', h'⟩
    obtain ⟨_, _, hn⟩ := sendDraft_of_not_ready hrdy
    obtain ⟨_, _, hn'⟩ := sendDraft_of_not_ready hrdy'
    rw [hsn, hsn', hn, hn']
    exact alikeIff_of_none rfl rfl rfl rfl

def letterWithTTL (ttl : ℤ) : Draft :=
  ((((Draft.new 1 "alice").setRecipients 1 ["bob"]).setSubject 1 "hi").setTTL 1 ttl).setScheduleAt
    1 5

lemma composed_letterWithTTL (ttl : ℤ) : Draft.Composed "alice" (letterWithTTL ttl) := by
  let m := (plainMemoryMailbox "alice").toUserMailbox
  let w := World.new
  exact .set m w (.scheduleAt 5) (.set m w (.ttl ttl) (.set m w (.subject "hi")
    (.set m w (.recipients ["bob"]) (.new 1))))

/-- A scheduled letter without a TTL is the same after it has been saved. -/
theorem reloaded_sends_alike_without_ttl : ∃ saved w' reloaded,
      (letterWithTTL 0).save (plainMemoryMailbox "alice") World.new
        = (.ok (), saved, w')
      ∧ (plainMemoryMailbox "alice").getDraft saved.message.id w' = .ok reloaded
      ∧ SameDelivery Store.new ((letterWithTTL 0).send (plainMemoryMailbox "alice").toUserMailbox
            World.new).1.state.store
          w'.store
          (reloaded.send (plainMemoryMailbox "alice").toUserMailbox w').1.state.store :=
  ⟨_, _, _, rfl, rfl,
    (reloaded_sends_alike_iff (plainMemoryMailbox "alice") (plainMemoryMailbox "alice") rfl
      idSource_unaryID (fun _ h => absurd h List.not_mem_nil) (fun _ h => absurd h List.not_mem_nil)
      (fun _ h => by cases h) (letterWithTTL 0) (composed_letterWithTTL 0) World.new
      (fresh_new unaryID) _ _ rfl _ rfl).1 (.inl (by decide))⟩

/-- With a TTL of an hour, `bob` gets a letter that expires — unless it has been saved. -/
theorem reloaded_draft_loses_ttl : Draft.Composed "alice" (letterWithTTL 3600)
      ∧ ∃ saved w' reloaded, (letterWithTTL 3600).save (plainMemoryMailbox "alice") World.new
          = (.ok (), saved, w')
        ∧ (plainMemoryMailbox "alice").getDraft saved.message.id w' = .ok reloaded
        ∧ (received Store.new ((letterWithTTL 3600).send (plainMemoryMailbox "alice").toUserMailbox
              World.new).1.state.store "bob").map Message.expiresAt = [some 3605]
        ∧ (received w'.store
            (reloaded.send (plainMemoryMailbox "alice").toUserMailbox w').1.state.store "bob").map
          Message.expiresAt = [none] :=
  ⟨composed_letterWithTTL 3600, _, _, _, rfl, rfl, by decide +kernel, by decide +kernel⟩

end Reload

end Mailbox.Service
