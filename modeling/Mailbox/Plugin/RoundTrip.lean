import Mailbox.Plugin.Retry

/-!
# Compressing, encrypting, and reading again

Both hooks run on a draft, compression first.  Whoever reads a delivered copy finds the wrapped key
under their own ID in the metadata, decrypts the body with it and decompresses the result.

**What a copy is.**  A delivered message `Carries` the body and the headers of the draft that the
hooks have left, and its metadata as they are or after a trip through JSON, which makes a
`map[string]any` of the `map[string]string` that holds the wrapped keys.

**What is assumed.**  `Primitives.Ideal` and `Keys.Ideal`: the primitives never fail and are undone
by their counterparts, everybody has a key pair, and the resolver returns keys for exactly the users
it is asked for.  Texts are sequences of bytes.

* **`open_after_hooks`** — the hooks succeed; sender and recipients read the original bytes, and
  nobody else finds a key, unless the body is empty.
* **`sent_message_opens`** — so it is for the copies that a `Send` stores.
-/

namespace Mailbox.Plugin

open Service Memory UserMailbox List Pipeline

variable {P : Primitives} {keys : Keys P} {keyType : KeyType}

/-! ## Assumptions -/

/-- The primitives do not fail, and the conversions between bytes and texts lose nothing. -/
structure Primitives.Ideal (P : Primitives) : Prop extends P.Sound where
  bytes_text : ∀ b, P.bytes (P.text b) = b
  compresses : ∀ b, ∃ c, P.compress b = .ok c
  generates : ∀ tape, ∃ dek, P.generateDEK tape = .ok dek
  encrypts : ∀ tape b dek, ∃ c, P.encryptBody tape b dek = .ok c
  wraps : ∀ tape userID dek pubKey keyType, ∃ c, P.wrapDEK tape userID dek pubKey keyType = .ok c

/-- Everybody has a key pair, and the resolver returns keys for exactly the users it is asked
for. -/
structure Keys.Ideal (keys : Keys P) (keyType : KeyType) : Prop where
  hasKey : ∀ userID, HasKey keys keyType userID
  resolves : ∀ userIDs, ∃ pubKeys, keys.publicKeys userIDs = .ok pubKeys
    ∧ ∀ userID, userID ∈ pubKeys ↔ userID ∈ userIDs

/-- Encoding to JSON and decoding again, for the values that matter here: texts stay, and a map of
texts becomes a generic map with the same entries. -/
structure JSONRoundTrip (json : Value → Value) : Prop where
  str : ∀ s, json (.str s) = .str s
  strMap : ∀ m, ∃ d, json (.strMap m) = .doc d
    ∧ ∀ key : String, d.lookup key = (m.lookup key).map Value.str

/-- The message has the body and the headers of the draft, and its metadata as they are or after a
trip through JSON. -/
structure Carries (json : Value → Value) (draft msg : Message) : Prop where
  body : msg.body = draft.body
  headers : msg.headers = draft.headers
  metadata : msg.metadata = draft.metadata
    ∨ ∀ key, msg.metadata.lookup key = (draft.metadata.lookup key).map json

/-! ## Finding the wrapped key -/

variable {json : Value → Value} {draft msg : Message}

lemma exists_wrapAll (hP : P.Ideal) (keyType : KeyType) (tape : P.Tape) (dek : P.Bytes)
    (pubKeys : List (Sigma fun _ : String => P.Bytes)) :
    ∃ wrappedDEKs, wrapAll keyType tape dek pubKeys = .ok wrappedDEKs
      ∧ wrappedDEKs.map Prod.fst = pubKeys.keys := by
  induction pubKeys with
  | nil => exact ⟨[], rfl, rfl⟩
  | cons entry pubKeys ih =>
    obtain ⟨wrappedDEKs, hr, hkeys⟩ := ih
    obtain ⟨wrapped, hwrap⟩ := hP.wraps tape entry.1 dek entry.2 keyType
    refine ⟨(entry.1, P.encode wrapped) :: wrappedDEKs, ?_, ?_⟩
    · simp only [wrapAll, hwrap, hr]
    · simp [hkeys]

/-- Both shapes of the map are read in the same way. -/
lemma extractUserDEK_json (hjson : JSONRoundTrip json) (m : List (String × String))
    (userID : String) :
    extractUserDEK (json (.strMap m)) userID = extractUserDEK (.strMap m) userID := by
  obtain ⟨d, hd, hlk⟩ := hjson.strMap m
  simp only [hd, extractUserDEK, hlk]
  cases m.lookup userID with
  | none | some => rfl

/-- An encrypted message is decrypted in the same way after a trip through JSON. -/
lemma openMessage_carries (hjson : JSONRoundTrip json) (h : Carries json draft msg)
    {wrappedDEKs : List (String × String)} {name : String}
    (hdeks : draft.metadata.lookup metaEncryptedDEKs = some (.strMap wrappedDEKs))
    (htype : draft.metadata.lookup metaEncryptionKeyType = some (.str name)) (userID : String) :
    openMessage keys msg userID = openMessage keys draft userID := by
  have hhdr : ∀ key, header key msg = header key draft := fun key => by
    rw [header, header, h.headers]
  have hkeyType : keyTypeOf msg = keyTypeOf draft := by
    rcases h.metadata with hsm | hmap
    · rw [keyTypeOf, keyTypeOf, hsm]
    · simp only [keyTypeOf, hmap, htype, Option.map_some, hjson.str]
  have hdecr : decrypt keys msg userID = decrypt keys draft userID := by
    rcases h.metadata with hsm | hmap
    · rw [decrypt, decrypt, hhdr, hkeyType, hsm, h.body]
    · simp only [decrypt, hhdr, hkeyType, h.body, hmap, hdeks, Option.map_some,
        extractUserDEK_json hjson]
  have hencoded : openEncoded (P := P) msg = openEncoded draft := by
    funext data
    rw [openEncoded, openEncoded, hhdr]
  rw [openMessage, openMessage, hhdr, hdecr, hencoded, h.body]

/-! ## Both hooks -/

section Hooks

variable {tape : P.Tape} {now : Time} {σ : Type} {m : UserMailbox σ} {hooked : Message}

lemma exists_compressBody (hP : P.Ideal) (now : Time) (draft : Message) :
    ∃ draft', compressBody P now draft = (.ok (), draft') := by
  unfold compressBody
  split_ifs
  · exact ⟨draft, rfl⟩
  · obtain ⟨c, hc⟩ := hP.compresses (P.bytes draft.body)
    rw [hc]
    exact ⟨_, rfl⟩

section

variable (hP : P.Ideal) (hkeys : keys.Ideal keyType)

include hP hkeys

lemma exists_encryptDraft (tape : P.Tape) (now : Time) (userID : String) (draft : Message) :
    ∃ draft', encryptDraft keys keyType tape now userID draft = (.ok (), draft') := by
  unfold encryptDraft
  split_ifs
  · exact ⟨draft, rfl⟩
  · obtain ⟨dek, hdek⟩ := hP.generates tape
    obtain ⟨c, hc⟩ := hP.encrypts tape (P.bytes draft.body) dek
    obtain ⟨pubKeys, hpubKeys, -⟩ := hkeys.resolves (userID :: draft.recipientIDs)
    obtain ⟨wrappedDEKs, hwrap, -⟩ := exists_wrapAll hP keyType tape dek pubKeys.entries
    simp only [hdek, hc, hpubKeys, hwrap]
    exact ⟨_, rfl⟩

lemma exists_beforeSend (tape : P.Tape) (now : Time) (m : UserMailbox σ) (draft : Message) :
    ∃ hooked, m.beforeSend (compressEncrypt.hooks keys keyType tape now) draft
      = (.ok (), hooked) := by
  obtain ⟨draft₁, h₁⟩ := exists_compressBody hP now draft
  obtain ⟨draft₂, h₂⟩ := exists_encryptDraft hP hkeys tape now m.userID draft₁
  refine ⟨draft₂, ?_⟩
  simp only [hooks, UserMailbox.beforeSend, compressPlugin, encryptionPlugin, h₁, h₂]

/-- What the hooks leave in headers and metadata: keys wrapped for sender and recipients, and nobody
else. -/
lemma metadata_of_hooks (hbd : draft.body ≠ "")
    (h : m.beforeSend (compressEncrypt.hooks keys keyType tape now) draft = (.ok (), hooked)) :
    header headerEncryption hooked ≠ "" ∧ ∃ wrappedDEKs : List (String × String),
      hooked.metadata.lookup metaEncryptedDEKs = some (.strMap wrappedDEKs)
        ∧ hooked.metadata.lookup metaEncryptionKeyType = some (.str keyType.name)
        ∧ ∀ userID ∉ m.userID :: draft.recipientIDs, wrappedDEKs.lookup userID = none := by
  obtain ⟨draft₁, h₁, h₂⟩ := beforeSend_ok h
  obtain ⟨c₁, hc₁, rfl⟩ := compressBody_ok hbd h₁
  obtain ⟨dek, c, pubKeys, wrappedDEKs, -, -, hpubKeys, hwrap, rfl⟩ :=
    encryptDraft_ok (hP.compressed_ne _ _ hc₁) h₂
  refine ⟨by simp [header, algoAES256GCM], wrappedDEKs, ?_, AList.lookup_insert _, ?_⟩
  · rw [AList.lookup_insert_ne (by decide), AList.lookup_insert]
  · intro userID hn
    obtain ⟨pubKeys', hpubKeys', hexact⟩ := hkeys.resolves (m.userID :: draft.recipientIDs)
    obtain rfl : pubKeys = pubKeys' := Except.ok.inj (hpubKeys.symm.trans hpubKeys')
    obtain ⟨wrappedDEKs', hwrap', hfst⟩ := exists_wrapAll hP keyType tape dek pubKeys.entries
    obtain rfl : wrappedDEKs = wrappedDEKs' := Except.ok.inj (hwrap.symm.trans hwrap')
    rw [lookup_eq_none_iff]
    intro entry hent
    rw [bne_iff_ne]
    rintro rfl
    refine hn ((hexact _).mp ?_)
    show entry.1 ∈ pubKeys.entries.keys
    rw [← hfst]
    exact mem_map_of_mem hent

/-- **Sender and recipients read the original body.** -/
lemma openMessage_of_carries
    (hjson : JSONRoundTrip json) (hencr : header headerEncryption draft = "")
    (henco : header headerContentEncoding draft = "")
    (h : m.beforeSend (compressEncrypt.hooks keys keyType tape now) draft
      = (.ok (), hooked)) (hmsg : Carries json hooked msg) {r : String}
    (hr : r ∈ m.userID :: draft.recipientIDs) :
    openMessage keys msg r = .ok (P.bytes draft.body) := by
  by_cases hbd : draft.body = ""
  · obtain rfl := pass_of_empty h hbd
    rw [openMessage_plain, hmsg.body]
    · rw [header, hmsg.headers]
      exact hencr
    · rw [header, hmsg.headers]
      exact henco
  · obtain ⟨-, wrappedDEKs, hdeks, htype, -⟩ := metadata_of_hooks hP hkeys hbd h
    rw [openMessage_carries hjson hmsg hdeks htype]
    have hcln : compressEncrypt.Clean draft := by
      constructor <;> rintro ⟨⟩
    exact openMessage_of_pass h hbd hP.toSound hcln hr (hkeys.hasKey r)

end

end Hooks

/-! ## Primitives that mark their work -/

lemma ideal_marking : marking.Ideal where
  toSound := sound_marking
  bytes_text _ := String.toList_ofList
  compresses _ := ⟨_, rfl⟩
  generates _ := ⟨_, rfl⟩
  encrypts _ _ _ := ⟨_, rfl⟩
  wraps _ _ _ _ _ := ⟨_, rfl⟩

lemma mem_keyRing {userIDs : List String} {userID : String} :
    userID ∈ keyRing userIDs ↔ userID ∈ userIDs := by
  induction userIDs with
  | nil => exact ⟨fun h => (nomatch h), fun h => nomatch h⟩
  | cons u userIDs ih =>
    show userID ∈ (keyRing userIDs).insert u [] ↔ _
    rw [AList.mem_insert, ih, mem_cons]

lemma ideal_everyKey (keyType : KeyType) : everyKey.Ideal keyType where
  hasKey := hasKey_everyKey keyType
  resolves userIDs := ⟨keyRing userIDs, rfl, fun _ => mem_keyRing⟩

/-- A round trip that only touches maps of texts. -/
def genericMaps : Value → Value
  | .strMap m => .doc (m.map fun entry => (entry.1, .str entry.2))
  | value => value

lemma jsonRoundTrip_genericMaps : JSONRoundTrip genericMaps where
  str _ := rfl
  strMap m := by
    refine ⟨_, rfl, fun key => ?_⟩
    induction m with
    | nil => rfl
    | cons entry m ih =>
      rw [map_cons, lookup_cons, lookup_cons]
      cases key == entry.1 with
      | true => rfl
      | false => exact ih

/-! ## Every copy can be read -/

/-- **Compress, encrypt, and read again.**  For every body, whatever the other headers, the metadata
and the recipients are: the hooks succeed, and of every copy, sender and recipients read the
original bytes; if there are any, everybody else is told that there is no key for them. -/
theorem open_after_hooks {σ : Type} (hP : P.Ideal) (hkeys : keys.Ideal keyType)
    (json : Value → Value)
    (hjson : JSONRoundTrip json) (tape : P.Tape) (now : Time) (m : UserMailbox σ)
    (draft : Message) (raw : P.Bytes) (hraw : draft.body = P.text raw)
    (hencryption : header headerEncryption draft = "")
    (hencoding : header headerContentEncoding draft = "") :
    ∃ hooked, m.beforeSend (Pipeline.compressEncrypt.hooks keys keyType tape now) draft
        = (.ok (), hooked)
      ∧ ∀ msg, Carries json hooked msg →
        (∀ r ∈ m.userID :: draft.recipientIDs, openMessage keys msg r = .ok raw)
        ∧ (draft.body ≠ "" → ∀ r ∉ m.userID :: draft.recipientIDs,
          openMessage keys msg r = .error (.detail errDEKNotFound r)) := by
  obtain ⟨hooked, h⟩ := exists_beforeSend hP hkeys tape now m draft
  refine ⟨hooked, h, fun msg hmsg => ⟨fun r hr => ?_, fun hbd r hr => ?_⟩⟩
  · rw [openMessage_of_carries hP hkeys hjson hencryption hencoding h hmsg hr, hraw, hP.bytes_text]
  · -- Nobody else finds a key.
    obtain ⟨hhdr, wrappedDEKs, hdeks, htype, hno⟩ := metadata_of_hooks hP hkeys hbd h
    rw [openMessage_carries hjson hmsg hdeks htype, openMessage, if_neg hhdr]
    simp only [decrypt, if_neg hhdr, hdeks, extractUserDEK, hno r hr]

/-- A letter to bob, read by alice and bob and not by carol. -/
theorem open_letter_after_hooks : ∃ hooked, (hookedMailbox none).beforeSend
        (Pipeline.compressEncrypt.hooks everyKey .x25519 () 1) (letterSaying "hello").message
        = (.ok (), hooked)
      ∧ ∀ msg, Carries genericMaps hooked msg →
        (∀ r ∈ ["alice", "bob"], openMessage everyKey msg r = .ok "hello".toList)
        ∧ openMessage everyKey msg "carol" = .error (.detail errDEKNotFound "carol") := by
  obtain ⟨hooked, h, hop⟩ := open_after_hooks ideal_marking (ideal_everyKey .x25519) genericMaps
    jsonRoundTrip_genericMaps () 1 (hookedMailbox none).toUserMailbox (letterSaying "hello").message
    "hello".toList rfl rfl rfl
  refine ⟨hooked, h, fun msg hmsg => ?_⟩
  obtain ⟨hreaders, hstrangers⟩ := hop msg hmsg
  exact ⟨hreaders, hstrangers (by decide) "carol" (by decide)⟩

/-- **The copies that a send stores.**  When a send with both hooks returns a message, its sender
and its recipients can read every copy they have got. -/
theorem sent_message_opens (hP : P.Ideal) (hkeys : keys.Ideal keyType) (tape : P.Tape)
    (m : MemoryMailbox) (hu : IDSource m.uuid)
    (hplug : m.service.plugins = compressEncrypt.hooks keys keyType tape m.service.now)
    (d : Draft) (hencr : header headerEncryption d.message = "")
    (henco : header headerContentEncoding d.message = "") (w : World)
    (hw : Fresh m.uuid w.store) (hsn : (d.send m.toUserMailbox w).1.message ≠ none) :
    ∀ r ∈ m.userID :: d.message.recipientIDs,
      ∀ msg ∈ received w.store (d.send m.toUserMailbox w).1.state.store r,
        openMessage keys msg r = .ok (P.bytes d.message.body) := by
  have htame : ∀ h ∈ m.service.plugins, Tame h := by
    rw [hplug]
    exact compressEncrypt.tame tape _
  obtain ⟨targets, hooked, env, hran, -, hrecv⟩ := delivers_of_sent hu htame hw hsn
  have hh := hran.hooks
  rw [hplug] at hh
  obtain ⟨hbd, hhdr⟩ := prepareDraft_kept (m := m.toUserMailbox) d.message d.deliverTo
  intro r hr msg hmsg
  rw [hrecv r] at hmsg
  have hct := sameContent_of_mem_newMessages env (mem_of_mem_filter hmsg)
  have hcarries : Carries genericMaps hooked msg := ⟨hct.body, hct.headers, Or.inl hct.metadata⟩
  rw [← hbd]
  refine openMessage_of_carries hP hkeys jsonRoundTrip_genericMaps ?_ ?_ hh hcarries ?_
  · rw [hhdr _ (by decide), hencr]
  · rw [hhdr _ (by decide), henco]
  · rw [(prepareDraft_frame _ d.message _).1.2.1, mem_cons]
    rw [(firstOccurrences_deduplicateRecipients _).2]
    exact mem_cons.mp hr

theorem sent_letter_opens :
    let sent := ((letterSaying "hi").send (hookedMailbox none).toUserMailbox World.new).1
    sent.message ≠ none ∧ ∀ r ∈ ["alice", "bob"], ∀ msg ∈ received Store.new sent.state.store r,
      openMessage everyKey msg r = .ok "hi".toList :=
  ⟨by decide, sent_message_opens ideal_marking (ideal_everyKey .x25519) () (hookedMailbox none)
    idSource_unaryID rfl (letterSaying "hi") rfl rfl World.new (fresh_new unaryID)
    (by decide)⟩

end Mailbox.Plugin
