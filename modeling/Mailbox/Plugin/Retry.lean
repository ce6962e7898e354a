import Mailbox.Plugin.Transform
import Mailbox.Service.Compose

/-!
# Sending again through transforming plugins

A send runs its hooks on the caller's draft.  When it fails after that — because all recipients are
over their quota, say — the draft stays as the hooks have left it.  A second send runs them once
more: it compresses what is already compressed, encrypts what is already encrypted, and overwrites
the wrapped keys of the first pass.  `Open` undoes one pass, and finds the *transformed* body.

**`retry_opens_iff`** says when the recipients of the second send can read the original body.
-/

namespace Mailbox.Plugin

open Service Memory UserMailbox Pipeline

variable {P : Primitives} {keys : Keys P} {keyType : KeyType}

/-! ## The hooks -/

lemma Pipeline.tame (pipeline : Pipeline) (tape : P.Tape) (now : Time) :
    ∀ h ∈ pipeline.hooks keys keyType tape now, Tame h := by
  have hcomp : Tame (compressPlugin P now) := by
    intro userID draft
    simp only [compressPlugin, compressBody]
    split_ifs
    · exact ⟨rfl, rfl⟩
    · split <;> exact ⟨rfl, rfl⟩
  have hencrypt : Tame (encryptionPlugin keys keyType tape now) := by
    intro userID draft
    simp only [encryptionPlugin, encryptDraft]
    split_ifs
    · exact ⟨rfl, rfl⟩
    · split
      · exact ⟨rfl, rfl⟩
      · split
        · exact ⟨rfl, rfl⟩
        · split
          · exact ⟨rfl, rfl⟩
          · split <;> exact ⟨rfl, rfl⟩
  cases pipeline with
  | compress => simpa [hooks] using hcomp
  | encrypt => simpa [hooks] using hencrypt
  | compressEncrypt => simpa [hooks] using ⟨hcomp, hencrypt⟩

lemma Pipeline.layer_empty (pipeline : Pipeline) (tape : P.Tape) :
    pipeline.layer tape "" = .ok "" := by
  cases pipeline with
  | compress | encrypt => rfl
  | compressEncrypt => rfl

variable {msg : Message}

lemma openMessage_congr {msg' : Message} (h : SameContent msg msg') (userID : String) :
    openMessage keys msg userID = openMessage keys msg' userID := by
  have hhdr : ∀ key, header key msg = header key msg' := fun key => by
    rw [header, header, h.headers]
  have hkeyType : keyTypeOf msg = keyTypeOf msg' := by rw [keyTypeOf, keyTypeOf, h.metadata]
  have hdecr : decrypt keys msg userID = decrypt keys msg' userID := by
    rw [decrypt, decrypt, hhdr, hkeyType, h.metadata, h.body]
  have hencoded : openEncoded (P := P) msg = openEncoded msg' := by
    funext data
    rw [openEncoded, openEncoded, hhdr]
  rw [openMessage, openMessage, hhdr, hdecr, hencoded, h.body]

lemma openMessage_plain (hencr : header headerEncryption msg = "")
    (henco : header headerContentEncoding msg = "") (userID : String) :
    openMessage keys msg userID = .ok (P.bytes msg.body) := by
  rw [openMessage, if_pos hencr, openEncoded, if_pos henco]

/-! ## Two passes -/

section TwoPasses

variable {σ : Type} {m₁ m₂ : UserMailbox σ} {pipeline : Pipeline} {tape₁ tape₂ : P.Tape}
  {now₁ now₂ : Time} {a a' b b' : Message}
  (h₁ : m₁.beforeSend (pipeline.hooks keys keyType tape₁ now₁) a = (.ok (), a'))
  (h₂ : m₂.beforeSend (pipeline.hooks keys keyType tape₂ now₂) b = (.ok (), b'))

include h₁ in
lemma layer_of_first_pass (hP : P.Sound) : pipeline.layer tape₁ a.body = .ok a'.body := by
  by_cases hemp : a.body = ""
  · rw [pass_of_empty h₁ hemp, hemp, layer_empty]
  · exact (layer_of_pass h₁ hemp hP).1

include h₁ h₂ in
/-- After a second pass, `Open` finds what the first one has left. -/
lemma openMessage_second_pass (hP : P.Sound) (hencr : header headerEncryption a = "")
    (henco : header headerContentEncoding a = "") (hbd : b.body = a'.body)
    (hhdr : ∀ key ≠ headerContentLength, header key b = header key a') {r : String}
    (hr : r ∈ m₂.userID :: b.recipientIDs) (hk : HasKey keys keyType r) :
    openMessage keys b' r = .ok (P.bytes a'.body) := by
  by_cases hemp : a.body = ""
  · -- Neither pass does anything.
    obtain rfl := pass_of_empty h₁ hemp
    obtain rfl := pass_of_empty h₂ (hbd.trans hemp)
    rw [← hbd]
    refine openMessage_plain ?_ ?_ r
    · rw [hhdr _ (by decide), hencr]
    · rw [hhdr _ (by decide), henco]
  · have hne := (layer_of_pass h₁ hemp hP).2
    have hcln := clean_of_pass h₁ hemp ⟨fun _ => hencr, fun _ => henco⟩
    rw [← hbd] at hne ⊢
    refine openMessage_of_pass h₂ hne hP ⟨fun hp => ?_, fun hp => ?_⟩ hr hk
    · rw [hhdr _ (by decide), hcln.1 hp]
    · rw [hhdr _ (by decide), hcln.2 hp]

end TwoPasses

/-! ## The draft between the sends -/

variable {draft hooked : Message} {deliverTo targets : List String}

section Prepare

variable {σ : Type} {m : UserMailbox σ}

/-- Preparation keeps the body, and sets one header at most. -/
lemma prepareDraft_kept (draft : Message) (deliverTo : List String) :
    (m.prepareDraft draft deliverTo).2.body = draft.body ∧ ∀ key ≠ headerContentLength,
        header key (m.prepareDraft draft deliverTo).2 = header key draft := by
  have hlen : ∀ key ≠ headerContentLength,
      header key (m.withLength (m.withRecipients draft)) = header key draft := by
    intro key hk
    rw [withLength]
    split_ifs
    · exact header_insert_of_ne (m.withRecipients draft) hk rfl
    · rfl
  rw [prepareDraft]
  split
  · exact ⟨rfl, fun _ _ => rfl⟩
  · obtain ⟨_, _, _, hbd⟩ := m.withLength_frame (m.withRecipients draft)
    obtain ⟨_, _, _, hbd', hheaders⟩ :=
      m.resolveAndInjectUserMetadata_frame (m.withLength (m.withRecipients draft))
    rw [(m.checkPrepared_frame _ _).1]
    refine ⟨hbd'.trans hbd, fun key hk => ?_⟩
    rw [← hlen key hk, header, header, hheaders]

lemma targets_subset (h : (m.prepareDraft draft deliverTo).1 = .ok targets) :
    ∀ r ∈ targets, r ∈ deduplicateRecipients draft.recipientIDs := by
  rw [prepareDraft] at h
  split at h
  · cases h
  · rename_i hfd
    intro r hr
    rw [(m.checkPrepared_frame _ _).2 targets h] at hr
    have hmem := List.find?_eq_none.mp hfd r hr
    exact of_not_not fun hn => hmem (decide_eq_true hn)

/-- A first send that has run its hooks leaves the draft as they have left it. -/
lemma send_message_of_ready {d : Draft} (h : m.Ready d.message d.deliverTo targets hooked) (s : σ) :
    (d.send m s).2.message = hooked := by
  show (m.sendDraft _ _ _ _ _ _ _ s).draft = hooked
  rw [sendDraft_of_ready h]
  rcases m.computeTTLFields d.ttl d.scheduleAt with e | ⟨expiresAt, availableAt⟩
  · rfl
  · exact transmit_draft _ _ _ s

lemma recipients_of_ready (htame : ∀ h ∈ m.service.plugins, Tame h)
    (h : m.Ready draft deliverTo targets hooked) :
    hooked.recipientIDs = deduplicateRecipients draft.recipientIDs := by
  have hrcp := (m.beforeSend_frame htame (m.prepareDraft draft deliverTo).2).2
  rw [h.hooks] at hrcp
  exact hrcp.trans (m.prepareDraft_frame draft deliverTo).1.2.1

lemma mem_recipients_of_target (htame : ∀ h ∈ m.service.plugins, Tame h)
    (h : m.Ready draft deliverTo targets hooked) {r : String}
    (hr : r ∈ deliveryTargets hooked targets) : r ∈ draft.recipientIDs := by
  refine ((firstOccurrences_deduplicateRecipients draft.recipientIDs).2 r).mp ?_
  rw [deliveryTargets] at hr
  split_ifs at hr
  · rwa [recipients_of_ready htame h] at hr
  · exact targets_subset h.prepared r hr

end Prepare

/-! ## The second send -/

/-- A send that returns a message has run its hooks and has delivered the draft they left. -/
lemma delivers_of_sent {m : MemoryMailbox} (hu : IDSource m.uuid)
    (htame : ∀ h ∈ m.service.plugins, Tame h) {d : Draft} {w : World} (hw : Fresh m.uuid w.store)
    (hsn : (d.send m.toUserMailbox w).1.message ≠ none) :
    ∃ targets hooked env, m.Ready d.message d.deliverTo targets hooked
      ∧ Delivers m.uuid m.service.now m.faults m.toUserMailbox hooked env targets w
      ∧ ∀ ownerID, received w.store (d.send m.toUserMailbox w).1.state.store ownerID
        = (newMessages m.uuid m.service.now m.faults m.toUserMailbox hooked env targets w).filter
          fun msg => decide (msg.ownerID = ownerID) := by
  have hrdy : ∃ targets hooked, m.Ready d.message d.deliverTo targets hooked := by
    by_contra hrdy
    obtain ⟨_, _, hn⟩ := sendDraft_of_not_ready hrdy
    rw [Draft.send, hn] at hsn
    exact hsn rfl
  obtain ⟨targets, hooked, hrdy⟩ := hrdy
  have hsend : (d.send m.toUserMailbox w).1 = _ :=
    sendDraft_of_ready hrdy d.threadID d.replyToID d.externalID d.ttl d.scheduleAt w
  rw [hsend] at hsn ⊢
  rcases htm : m.computeTTLFields d.ttl d.scheduleAt with e | ⟨expiresAt, availableAt⟩
  · simp [htm] at hsn
  · simp only [htm] at hsn ⊢
    have htgts := hrdy.nodup_targets htame
    have hdelv := delivers_of_message m.backend_eq hu _ hw htgts hsn
    exact ⟨targets, hooked, _, hrdy, hdelv, received_of_delivers m.backend_eq hu _ hw htgts hdelv⟩

/-- **Sending again.**  A draft has been through the hooks of a first send, whatever came of it, and
a second send returns a message.  Every recipient reads the original body if and only if the first
pass left the body as it was. -/
theorem retry_opens_iff (hP : P.Sound) (pipeline : Pipeline) (tape₁ tape₂ : P.Tape)
    (m₁ m₂ : MemoryMailbox) (huuid : IDSource m₂.uuid)
    (hplugins₁ : m₁.service.plugins = pipeline.hooks keys keyType tape₁ m₁.service.now)
    (hplugins₂ : m₂.service.plugins = pipeline.hooks keys keyType tape₂ m₂.service.now)
    (d : Draft) (hencryption : header headerEncryption d.message = "")
    (hencoding : header headerContentEncoding d.message = "")
    (hkeys : ∀ r ∈ d.message.recipientIDs, HasKey keys keyType r) (w₁ w₂ : World)
    (hw₂ : Fresh m₂.uuid w₂.store) (targets : List String) (hooked : Message)
    (hran : m₁.Ready d.message d.deliverTo targets hooked)
    (hsent : ((d.send m₁.toUserMailbox w₁).2.send m₂.toUserMailbox w₂).1.message ≠ none) :
    (∀ r ∈ d.message.recipientIDs, ∀ msg ∈ received w₂.store
        ((d.send m₁.toUserMailbox w₁).2.send m₂.toUserMailbox w₂).1.state.store r,
        openMessage keys msg r = .ok (P.bytes d.message.body))
      ↔ pipeline.layer tape₁ d.message.body = .ok d.message.body := by
  have htame₁ : ∀ h ∈ m₁.service.plugins, Tame h := by
    rw [hplugins₁]
    exact pipeline.tame tape₁ _
  have htame₂ : ∀ h ∈ m₂.service.plugins, Tame h := by
    rw [hplugins₂]
    exact pipeline.tame tape₂ _
  obtain ⟨targets₂, hooked₂, env, hran₂, hdelv, hrecv⟩ := delivers_of_sent huuid htame₂ hw₂ hsent
  have hms := send_message_of_ready hran w₁
  have hh₁ := hran.hooks
  have hh₂ := hran₂.hooks
  rw [hms] at hran₂ hh₂
  rw [hplugins₁] at hh₁
  rw [hplugins₂] at hh₂
  -- What the two preparations leave alone.
  obtain ⟨hbd₁, hhdr₁⟩ := prepareDraft_kept (m := m₁.toUserMailbox) d.message d.deliverTo
  obtain ⟨hbd₂, hhdr₂⟩ := prepareDraft_kept (m := m₂.toUserMailbox) hooked
    (d.send m₁.toUserMailbox w₁).2.deliverTo
  have hrcp₁ := recipients_of_ready htame₁ hran
  have hct : ∀ r, ∀ msg ∈ received w₂.store
      ((d.send m₁.toUserMailbox w₁).2.send m₂.toUserMailbox w₂).1.state.store r,
      SameContent msg hooked₂ := by
    intro r msg hmsg
    rw [hrecv r] at hmsg
    exact sameContent_of_mem_newMessages env (List.mem_of_mem_filter hmsg)
  have hopens : ∀ r ∈ d.message.recipientIDs, openMessage keys hooked₂ r
      = .ok (P.bytes hooked.body) := by
    intro r hr
    refine openMessage_second_pass hh₁ hh₂ hP ?_ ?_ hbd₂ hhdr₂ ?_ (hkeys r hr)
    · rw [hhdr₁ _ (by decide), hencryption]
    · rw [hhdr₁ _ (by decide), hencoding]
    · rw [(prepareDraft_frame _ hooked _).1.2.1, hrcp₁]
      refine List.mem_cons_of_mem _ ?_
      rw [(firstOccurrences_deduplicateRecipients _).2,
        (firstOccurrences_deduplicateRecipients _).2]
      exact hr
  have hlayer := layer_of_first_pass hh₁ hP
  rw [hbd₁] at hlayer
  rw [hlayer, Except.ok.injEq]
  constructor
  · intro hall
    -- Somebody has received a copy.
    obtain ⟨p, hp⟩ := List.exists_mem_of_ne_nil _ hdelv.somebody
    have hr : p.1 ∈ d.message.recipientIDs := by
      have htarget := mem_recipients_of_target htame₂ hran₂ (List.mem_of_mem_filter
        (List.fst_mem_of_mem_zipIdx ((claimAll_sublist _ _ _).subset hp)))
      rwa [hrcp₁, (firstOccurrences_deduplicateRecipients _).2] at htarget
    have hmsg : copyAt m₂.uuid m₂.service.now (recipientData m₂.toUserMailbox hooked₂ env) p
        ∈ received w₂.store
          ((d.send m₁.toUserMailbox w₁).2.send m₂.toUserMailbox w₂).1.state.store p.1 := by
      rw [hrecv p.1]
      refine List.mem_filter.mpr ⟨List.mem_cons_of_mem _ ?_, decide_eq_true rfl⟩
      exact List.mem_reverse.mpr (List.mem_map_of_mem hp)
    have hop := hall p.1 hr _ hmsg
    rw [openMessage_congr (hct p.1 _ hmsg), hopens p.1 hr, Except.ok.injEq] at hop
    rw [← hP.text_bytes hooked.body, hop, hP.text_bytes]
  · intro heq r hr msg hmsg
    rw [openMessage_congr (hct r msg hmsg), hopens r hr, heq]

/-! ## A letter sent twice -/

/-- Primitives that mark what they have worked on with a character. -/
def marking : Primitives where
  Bytes := List Char
  Tape := Unit
  bytes := String.toList
  text := String.ofList
  encode b := String.ofList ('b' :: b)
  decode s := match s.toList with
    | 'b' :: b => .ok b
    | _ => .error (.text "illegal base64 data")
  compress b := .ok ('z' :: b)
  decompress b := match b with
    | 'z' :: b => .ok b
    | _ => .error (.text "invalid header")
  generateDEK _ := .ok ['k']
  encryptBody _ b _ := .ok ('e' :: b)
  decryptBody b _ := match b with
    | 'e' :: b => .ok b
    | _ => .error errDecryptionFailed
  wrapDEK _ _ dek _ _ := .ok dek
  unwrapDEK wrapped _ _ := .ok wrapped

lemma sound_marking : marking.Sound where
  text_bytes s := String.ofList_toList
  decode_encode b := by
    show (match (String.ofList ('b' :: b)).toList with
      | 'b' :: b => Except.ok b
      | _ => .error (Error.text "illegal base64 data")) = _
    rw [String.toList_ofList]
    rfl
  decompress_compress b c h := by
    cases h
    rfl
  decrypt_encrypt tape b dek c h := by
    cases h
    rfl
  compressed_ne b c _ h := by simpa [marking] using congrArg String.toList h
  encrypted_ne tape b dek c _ h := by simpa [marking] using congrArg String.toList h

/-- Everybody has the empty key. -/
def keyRing (userIDs : List String) : AList fun _ : String => List Char :=
  userIDs.foldr (fun userID => AList.insert userID []) ∅

lemma lookup_keyRing {userIDs : List String} {userID : String} (h : userID ∈ userIDs) :
    (keyRing userIDs).lookup userID = some [] := by
  induction userIDs with
  | nil => cases h
  | cons u userIDs ih =>
    show ((keyRing userIDs).insert u []).lookup userID = some []
    by_cases hu : userID = u
    · rw [hu, AList.lookup_insert]
    · rw [AList.lookup_insert_ne hu]
      exact ih ((List.mem_cons.mp h).resolve_left hu)

def everyKey : Keys marking where
  publicKeys userIDs := .ok (keyRing userIDs)
  privateKey _ := .ok []

lemma hasKey_everyKey (keyType : KeyType) (userID : String) : HasKey everyKey keyType userID := by
  intro userIDs pubKeys hmem hks
  cases hks
  refine ⟨[], [], lookup_keyRing hmem, rfl, fun tape dek wrapped h => ?_⟩
  cases h
  rfl

/-- `alice`, with both hooks installed and the given quota. -/
def hookedMailbox (quota : Option QuotaPolicy) : MemoryMailbox :=
  { plainMemoryMailbox "alice" with
    service := { (plainMemoryMailbox "alice").service with
      quotaProvider := some fun _ => .ok quota
      plugins := Pipeline.compressEncrypt.hooks everyKey .x25519 () 1 }
    backend_eq := rfl }

def letterSaying (body : String) : Draft :=
  (((Draft.new 1 "alice").setRecipients 1 ["bob"]).setSubject 1 "hi").setBody 1 body

/-- A store in which `bob` has a message. -/
def bobsWorld : World :=
  { store := .of (Table.empty.put (letterTo "m1" "bob"))
    refs := ∅
    addRefCalls := 0
    events := [] }

/-- The first send of a letter, when `bob` may have no more than one message. -/
def overQuota (body : String) : Sent World × Draft :=
  (letterSaying body).send (hookedMailbox (some ⟨1, .reject⟩)).toUserMailbox bobsWorld

theorem retry_opens_empty_letter : (overQuota "").1.message = none
      ∧ ((overQuota "").2.send (hookedMailbox none).toUserMailbox World.new).1.message ≠ none
      ∧ ∀ r ∈ ["bob"], ∀ msg ∈ received Store.new
          ((overQuota "").2.send (hookedMailbox none).toUserMailbox World.new).1.state.store r,
          openMessage everyKey msg r = .ok (marking.bytes "") :=
  ⟨by decide +kernel, by decide +kernel,
    (retry_opens_iff sound_marking .compressEncrypt () () (hookedMailbox (some ⟨1, .reject⟩))
      (hookedMailbox none) idSource_unaryID rfl rfl (letterSaying "") rfl rfl
      (fun r _ => hasKey_everyKey .x25519 r) bobsWorld World.new (fresh_new unaryID)
      _ _ ⟨rfl, rfl, rfl, rfl⟩ (by decide +kernel)).mpr (Pipeline.layer_empty _ _)⟩

/-- `bob` is over their quota, and the send fails; sent again when there is room, the letter opens
to what the first pass has made of it. -/
theorem retry_opens_to_ciphertext : (overQuota "hello").1.message = none
      ∧ ((overQuota "hello").2.send (hookedMailbox none).toUserMailbox
          (overQuota "hello").1.state).1.message ≠ none
      ∧ (received (overQuota "hello").1.state.store
          ((overQuota "hello").2.send (hookedMailbox none).toUserMailbox
            (overQuota "hello").1.state).1.state.store "bob").map
          (fun msg => (openMessage everyKey msg "bob").toOption.map marking.text)
        = [some "bebzhello"] :=
  ⟨by decide +kernel, by decide +kernel, by decide +kernel⟩

end Mailbox.Plugin
