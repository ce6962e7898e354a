import Mailbox.Service.Send

/-!
# Plugins that transform the body of a message

`compress/compress.go` and the send hook and the reading side of `crypto`.  The hooks rewrite the
draft they are given: body, headers and metadata of the draft itself.

**Primitives.**  Compression, encryption, key wrapping and base64 are parameters; `Sound` says that
each is undone by its counterpart, and that what is compressed or encrypted is not empty.  What a
call draws from the random source is its `Tape`.

**Passes.**  `Pipeline` lists the ways the two hooks can be installed: either one alone, or
compression before encryption as the documentation asks for.  `layer` is what one pass makes of a
body.  **`openMessage_of_pass`** says that `Open` undoes one pass.

The wrapped keys are stored as a `map[string]string`.  `extractUserDEK` also reads a
`map[string]any`, which is what a JSON decoder makes of it.
-/

namespace Mailbox.Plugin

open Service

/-! ## Primitives -/

def headerContentEncoding : String := "Content-Encoding"

def headerEncryption : String := "X-Encryption"

def metaEncryptedDEKs : String := "x-encrypted-deks"

def metaEncryptionKeyType : String := "x-encryption-key-type"

def algoAES256GCM : String := "aes-256-gcm"

/-- `Algorithm` of the gzip compressors. -/
def algoGzip : String := "gzip"

/-- The asymmetric algorithms for wrapping keys. -/
inductive KeyType where
  | x25519
  | rsaOAEP
  deriving DecidableEq

def KeyType.name : KeyType → String
  | .x25519 => "x25519"
  | .rsaOAEP => "rsa-oaep"

/-- The algorithm behind a name, when it is supported. -/
def KeyType.ofName : String → Option KeyType
  | "x25519" => some .x25519
  | "rsa-oaep" => some .rsaOAEP
  | _ => none

lemma KeyType.ofName_name (keyType : KeyType) : ofName keyType.name = some keyType := by
  cases keyType <;> rfl

/-- What the plugins take from Go's libraries. -/
structure Primitives where
  Bytes : Type
  Tape : Type
  /-- `[]byte(s)`. -/
  bytes : String → Bytes
  /-- `string(b)`. -/
  text : Bytes → String
  /-- `base64.StdEncoding.EncodeToString`. -/
  encode : Bytes → String
  /-- `base64.StdEncoding.DecodeString`. -/
  decode : String → Except Error Bytes
  compress : Bytes → Except Error Bytes
  decompress : Bytes → Except Error Bytes
  generateDEK : Tape → Except Error Bytes
  /-- `encryptBody(plaintext, dek)`. -/
  encryptBody : Tape → Bytes → Bytes → Except Error Bytes
  /-- `decryptBody(ciphertext, dek)`. -/
  decryptBody : Bytes → Bytes → Except Error Bytes
  /-- `wrapDEK(dek, publicKey, keyType)`, for the given user. -/
  wrapDEK : Tape → String → Bytes → Bytes → KeyType → Except Error Bytes
  /-- `unwrapDEK(wrapped, privateKey, keyType)`. -/
  unwrapDEK : Bytes → Bytes → KeyType → Except Error Bytes

variable (P : Primitives)

/-- `KeyResolver` and `PrivateKeyProvider`. -/
structure Keys where
  publicKeys : List String → Except Error (AList fun _ : String => P.Bytes)
  privateKey : String → Except Error P.Bytes

/-- The primitives are correct inverses, and their output is not empty. -/
structure Primitives.Sound : Prop where
  text_bytes : ∀ s, P.text (P.bytes s) = s
  decode_encode : ∀ b, P.decode (P.encode b) = .ok b
  decompress_compress : ∀ b c, P.compress b = .ok c → P.decompress c = .ok b
  decrypt_encrypt : ∀ tape b dek c, P.encryptBody tape b dek = .ok c → P.decryptBody c dek = .ok b
  compressed_ne : ∀ b c, P.compress b = .ok c → P.encode c ≠ ""
  encrypted_ne : ∀ tape b dek c, P.encryptBody tape b dek = .ok c → P.encode c ≠ ""

variable {P}

/-- The user has a key pair: keys wrapped with the public one are unwrapped with the private one. -/
def HasKey (keys : Keys P) (keyType : KeyType) (userID : String) : Prop :=
  ∀ userIDs pubKeys, userID ∈ userIDs → keys.publicKeys userIDs = .ok pubKeys →
    ∃ pubKey privKey, pubKeys.lookup userID = some pubKey ∧ keys.privateKey userID = .ok privKey
      ∧ ∀ tape dek wrapped, P.wrapDEK tape userID dek pubKey keyType = .ok wrapped →
        P.unwrapDEK wrapped privKey keyType = .ok dek

/-! ## The hooks -/

section Hooks

variable (P) in
/-- `BeforeSend` of the compression plugin compresses the message body and sets the
`Content-Encoding` header. -/
def compressBody (now : Time) (draft : Message) : Result × Message :=
  if draft.body = "" then (.ok (), draft)
  else
    match P.compress (P.bytes draft.body) with
    | .error e => (.error (.wrap "compress" e), draft)
    | .ok compressed =>
      (.ok (), { draft with
        body := P.encode compressed
        headers := draft.headers.insert headerContentEncoding algoGzip
        updatedAt := now })

variable (P) in
def compressPlugin (now : Time) : SendHook where
  name := "compression"
  beforeSend _ draft := compressBody P now draft
  afterSend _ _ := .ok ()

variable (keys : Keys P) (keyType : KeyType) (tape : P.Tape)

/-- Wraps the key for each user. -/
def wrapAll (dek : P.Bytes) :
    List (Sigma fun _ : String => P.Bytes) → Except Error (List (String × String))
  | [] => .ok []
  | ⟨userID, pubKey⟩ :: pubKeys =>
    match P.wrapDEK tape userID dek pubKey keyType with
    | .error e => .error (.wrap s!"crypto: wrap DEK for {userID}" e)
    | .ok wrapped =>
      match wrapAll dek pubKeys with
      | .error e => .error e
      | .ok deks => .ok ((userID, P.encode wrapped) :: deks)

/-- `BeforeSend` of the encryption plugin encrypts the message body and stores per-recipient wrapped
keys in the metadata. -/
def encryptDraft (now : Time) (userID : String) (draft : Message) : Result × Message :=
  if draft.body = "" then (.ok (), draft)
  else
    match P.generateDEK tape with
    | .error e => (.error e, draft)
    | .ok dek =>
    match P.encryptBody tape (P.bytes draft.body) dek with
    | .error e => (.error e, draft)
    | .ok ciphertext =>
    match keys.publicKeys (userID :: draft.recipientIDs) with
    | .error e => (.error (.wrap "crypto: resolve public keys" e), draft)
    | .ok pubKeys =>
    match wrapAll keyType tape dek pubKeys.entries with
    | .error e => (.error e, draft)
    | .ok wrappedDEKs =>
      (.ok (), { draft with
        body := P.encode ciphertext
        metadata := (draft.metadata.insert metaEncryptedDEKs (.strMap wrappedDEKs)).insert
          metaEncryptionKeyType (.str keyType.name)
        headers := draft.headers.insert headerEncryption algoAES256GCM
        updatedAt := now })

def encryptionPlugin (now : Time) : SendHook where
  name := "encryption"
  beforeSend userID draft := encryptDraft keys keyType tape now userID draft
  afterSend _ _ := .ok ()

end Hooks

/-! ## Reading -/

section Reading

def header (key : String) (msg : Message) : String := (msg.headers.lookup key).getD ""

def errDEKNotFound : Error := .text "crypto: no DEK found for user"

def errDecryptionFailed : Error := .text "crypto: decryption failed"

/-- `extractUserDEK` extracts a user's wrapped key from the metadata. -/
def extractUserDEK (deksRaw : Value) (userID : String) : Except Error String :=
  match deksRaw with
  | .strMap deks =>
    match deks.lookup userID with
    | none => .error (.detail errDEKNotFound userID)
    | some b64 => .ok b64
  | .doc deks =>
    match deks.lookup userID with
    | none => .error (.detail errDEKNotFound userID)
    | some (.str b64) => .ok b64
    | some _ => .error (.detail errDEKNotFound s!"invalid DEK type for {userID}")
  | _ => .error (.detail errDEKNotFound "unexpected DEK map type")

/-- The algorithm that the metadata names, `X25519` when it names none. -/
def keyTypeOf (msg : Message) : Option KeyType :=
  match msg.metadata.lookup metaEncryptionKeyType with
  | some (.str name) => KeyType.ofName name
  | _ => some .x25519

variable (keys : Keys P)

/-- `Decrypt` decrypts an encrypted message body for the given user. -/
def decrypt (msg : Message) (userID : String) : Except Error P.Bytes :=
  if header headerEncryption msg = "" then .error (.text "crypto: message is not encrypted")
  else
    match msg.metadata.lookup metaEncryptedDEKs with
    | none => .error errDEKNotFound
    | some deksRaw =>
    match extractUserDEK deksRaw userID with
    | .error e => .error e
    | .ok wrappedB64 =>
    match P.decode wrappedB64 with
    | .error _ => .error (.detail errDecryptionFailed "decode wrapped DEK")
    | .ok wrappedDEK =>
    match keys.privateKey userID with
    | .error e => .error e
    | .ok privKey =>
    match keyTypeOf msg with
    | none => .error (.text "crypto: unsupported key type")
    | some keyType =>
    match P.unwrapDEK wrappedDEK privKey keyType with
    | .error e => .error e
    | .ok dek =>
    match P.decode msg.body with
    | .error _ => .error (.detail errDecryptionFailed "decode body")
    | .ok ciphertext => P.decryptBody ciphertext dek

/-- `Decompress` decompresses data using the specified encoding. -/
def decompress (data : P.Bytes) (encoding : String) : Except Error P.Bytes :=
  if encoding = "" then .ok data
  else if encoding = algoGzip then P.decompress data
  else .error (.detail (.text "compress: unsupported content encoding") encoding)

/-- The second half of `Open`: decompression, if the headers ask for it. -/
def openEncoded (msg : Message) (data : P.Bytes) : Except Error P.Bytes :=
  if header headerContentEncoding msg = "" then .ok data
  else
    match P.decode (P.text data) with
    | .error e => .error (.wrap "crypto: decode compressed body" e)
    | .ok decoded => decompress decoded (header headerContentEncoding msg)

def openMessage (msg : Message) (userID : String) : Except Error P.Bytes :=
  if header headerEncryption msg = "" then openEncoded msg (P.bytes msg.body)
  else
    match decrypt keys msg userID with
    | .error e => .error e
    | .ok data => openEncoded msg data

end Reading

/-! ## Undoing one hook -/

variable {msg : Message} {r body : String}

section Undo

variable {keys : Keys P} {keyType : KeyType} {tape : P.Tape} {now : Time} {userID : String}
  {draft draft' : Message}

lemma header_insert_of_ne (draft : Message) {key key' value : String}
    (hne : key ≠ key') (hheaders : msg.headers = draft.headers.insert key' value) :
    header key msg = header key draft := by
  rw [header, header, hheaders, AList.lookup_insert_ne hne]

lemma compressBody_ok (hbody : draft.body ≠ "") (h : compressBody P now draft = (.ok (), draft')) :
    ∃ compressed, P.compress (P.bytes draft.body) = .ok compressed ∧ draft' = { draft with
          body := P.encode compressed
          headers := draft.headers.insert headerContentEncoding algoGzip
          updatedAt := now } := by
  rw [compressBody, if_neg hbody] at h
  cases hcomp : P.compress (P.bytes draft.body) with
  | error =>
    rw [hcomp] at h
    cases h
  | ok compressed =>
    rw [hcomp] at h
    exact ⟨compressed, rfl, (Prod.mk.inj h).2.symm⟩

lemma encryptDraft_ok (hbody : draft.body ≠ "")
    (h : encryptDraft keys keyType tape now userID draft = (.ok (), draft')) :
    ∃ dek ciphertext pubKeys wrappedDEKs, P.generateDEK tape = .ok dek
      ∧ P.encryptBody tape (P.bytes draft.body) dek = .ok ciphertext
      ∧ keys.publicKeys (userID :: draft.recipientIDs) = .ok pubKeys
      ∧ wrapAll keyType tape dek pubKeys.entries = .ok wrappedDEKs
      ∧ draft' = { draft with
          body := P.encode ciphertext
          metadata := (draft.metadata.insert metaEncryptedDEKs (.strMap wrappedDEKs)).insert
            metaEncryptionKeyType (.str keyType.name)
          headers := draft.headers.insert headerEncryption algoAES256GCM
          updatedAt := now } := by
  rw [encryptDraft, if_neg hbody] at h
  cases hdek : P.generateDEK tape with
  | error => simp [hdek] at h
  | ok dek =>
    cases hcipher : P.encryptBody tape (P.bytes draft.body) dek with
    | error => simp [hdek, hcipher] at h
    | ok ciphertext =>
      cases hks : keys.publicKeys (userID :: draft.recipientIDs) with
      | error => simp [hdek, hcipher, hks] at h
      | ok pubKeys =>
        cases hwrap : wrapAll keyType tape dek pubKeys.entries with
        | error => simp [hdek, hcipher, hks, hwrap] at h
        | ok wrappedDEKs =>
          simp only [hdek, hcipher, hks, hwrap, Prod.mk.injEq, true_and] at h
          exact ⟨dek, ciphertext, pubKeys, wrappedDEKs, rfl, hcipher, rfl, hwrap, h.symm⟩

/-- Every user with a public key finds the key wrapped for them. -/
lemma lookup_wrapAll {dek pubKey : P.Bytes} {pubKeys : List (Sigma fun _ : String => P.Bytes)}
    {wrappedDEKs : List (String × String)} (hk : pubKeys.dlookup r = some pubKey)
    (h : wrapAll keyType tape dek pubKeys = .ok wrappedDEKs) :
    ∃ wrapped, P.wrapDEK tape r dek pubKey keyType = .ok wrapped
      ∧ wrappedDEKs.lookup r = some (P.encode wrapped) := by
  induction pubKeys generalizing wrappedDEKs with
  | nil => simp at hk
  | cons entry pubKeys ih =>
    obtain ⟨uid, pub⟩ := entry
    rw [wrapAll] at h
    cases hwrap : P.wrapDEK tape uid dek pub keyType with
    | error => simp [hwrap] at h
    | ok wrapped =>
      cases hr : wrapAll keyType tape dek pubKeys with
      | error => simp [hwrap, hr] at h
      | ok =>
        simp only [hwrap, hr, Except.ok.injEq] at h
        subst h
        by_cases huid : r = uid
        · subst huid
          rw [List.dlookup_cons_eq] at hk
          cases hk
          exact ⟨wrapped, hwrap, by simp⟩
        · rw [List.dlookup_cons_ne _ _ huid] at hk
          obtain ⟨wrapped', hwrap', hlk⟩ := ih hk hr
          refine ⟨wrapped', hwrap', ?_⟩
          rw [List.lookup_cons, beq_eq_false_iff_ne.mpr huid]
          exact hlk

/-- **Decryption undoes encryption**, for everybody the body was encrypted for. -/
lemma decrypt_of_encryptDraft (hP : P.Sound)
    (h : encryptDraft keys keyType tape now userID draft = (.ok (), draft'))
    (hbody : draft.body ≠ "") (hr : r ∈ userID :: draft.recipientIDs)
    (hk : HasKey keys keyType r) : decrypt keys draft' r = .ok (P.bytes draft.body) := by
  obtain ⟨dek, ciphertext, pubKeys, wrappedDEKs, _, hcipher, hks, hwrap, hdr'⟩ :=
    encryptDraft_ok hbody h
  obtain ⟨pubKey, privKey, hpub, hpriv, hunwrap⟩ := hk _ _ hr hks
  obtain ⟨wrapped, hwrapped, hlk⟩ := lookup_wrapAll hpub hwrap
  have hhdr : header headerEncryption draft' ≠ "" := by
    simp [hdr', header, algoAES256GCM]
  have hdeks : draft'.metadata.lookup metaEncryptedDEKs = some (.strMap wrappedDEKs) := by
    rw [hdr', AList.lookup_insert_ne (by decide), AList.lookup_insert]
  have htype : draft'.metadata.lookup metaEncryptionKeyType = some (.str keyType.name) := by
    rw [hdr', AList.lookup_insert]
  have hbody' : draft'.body = P.encode ciphertext := by rw [hdr']
  simp only [decrypt, if_neg hhdr, hdeks, hbody', extractUserDEK, hlk, hP.decode_encode,
    hpriv, keyTypeOf, htype, KeyType.ofName_name, hunwrap _ _ _ hwrapped,
    hP.decrypt_encrypt _ _ _ _ hcipher]

lemma openEncoded_of_compress (hP : P.Sound) {compressed : String} {c : P.Bytes}
    (hc : P.compress (P.bytes body) = .ok c) (hcompressed : compressed = P.encode c)
    (hhdr : header headerContentEncoding msg = algoGzip) :
    openEncoded msg (P.bytes compressed) = .ok (P.bytes body) := by
  rw [openEncoded, hhdr, if_neg (by decide), hP.text_bytes, hcompressed, hP.decode_encode]
  exact hP.decompress_compress _ _ hc

end Undo

/-! ## Passes -/

/-- The ways to install the hooks. -/
inductive Pipeline where
  | compress
  | encrypt
  | compressEncrypt
  deriving DecidableEq

namespace Pipeline

variable (keys : Keys P) (keyType : KeyType) (tape : P.Tape) (now : Time)

def hooks : Pipeline → List SendHook
  | .compress => [compressPlugin P now]
  | .encrypt => [encryptionPlugin keys keyType tape now]
  | .compressEncrypt => [compressPlugin P now, encryptionPlugin keys keyType tape now]

def compressed (P : Primitives) (body : String) : Except Error String :=
  if body = "" then .ok body else (P.compress (P.bytes body)).map P.encode

def encrypted (tape : P.Tape) (body : String) : Except Error String :=
  if body = "" then .ok body
  else do
    let dek ← P.generateDEK tape
    (P.encryptBody tape (P.bytes body) dek).map P.encode

/-- What one pass makes of a body. -/
def layer (tape : P.Tape) : Pipeline → String → Except Error String
  | .compress, body => compressed P body
  | .encrypt, body => encrypted tape body
  | .compressEncrypt, body => do encrypted tape (← compressed P body)

/-- The draft does not claim to be transformed in the way that the missing hook would. -/
def Clean (pipeline : Pipeline) (msg : Message) : Prop :=
  (pipeline = .compress → header headerEncryption msg = "")
    ∧ (pipeline = .encrypt → header headerContentEncoding msg = "")

/-- The hooks run in order, and succeed. -/
def Passes (userID : String) (draft draft' : Message) : Pipeline → Prop
  | .compress => compressBody P now draft = (.ok (), draft')
  | .encrypt => encryptDraft keys keyType tape now userID draft = (.ok (), draft')
  | .compressEncrypt => ∃ draft₁, compressBody P now draft = (.ok (), draft₁)
      ∧ encryptDraft keys keyType tape now userID draft₁ = (.ok (), draft')

section Pass

variable {σ : Type} {m : UserMailbox σ} {pipeline : Pipeline} {draft draft' : Message}

variable {keys keyType tape now}

lemma compressed_eq {c : P.Bytes} (hbody : body ≠ "")
    (hc : P.compress (P.bytes body) = .ok c) : compressed P body = .ok (P.encode c) := by
  rw [compressed, if_neg hbody, hc]
  rfl

lemma encrypted_eq {dek c : P.Bytes} (hbody : body ≠ "")
    (hdek : P.generateDEK tape = .ok dek) (hc : P.encryptBody tape (P.bytes body) dek = .ok c) :
    encrypted tape body = .ok (P.encode c) := by
  simp only [encrypted, if_neg hbody, hdek, bind, Except.bind, hc]
  rfl

variable (h : m.beforeSend (pipeline.hooks keys keyType tape now) draft = (.ok (), draft'))

include h

lemma beforeSend_ok : pipeline.Passes keys keyType tape now m.userID draft draft' := by
  cases pipeline with
  | compress =>
    simp only [hooks, UserMailbox.beforeSend, compressPlugin] at h
    rcases hc : compressBody P now draft with ⟨e | _, draft₁⟩
    · simp [hc] at h
    · simpa [Passes, hc] using h
  | encrypt =>
    simp only [hooks, UserMailbox.beforeSend, encryptionPlugin] at h
    rcases he : encryptDraft keys keyType tape now m.userID draft with ⟨e | _, draft₁⟩
    · simp [he] at h
    · simpa [Passes, he] using h
  | compressEncrypt =>
    simp only [hooks, UserMailbox.beforeSend, compressPlugin, encryptionPlugin] at h
    rcases hc : compressBody P now draft with ⟨e | _, draft₁⟩
    · simp [hc] at h
    · rcases he : encryptDraft keys keyType tape now m.userID draft₁ with ⟨e | _, draft₂⟩
      · simp [hc, he] at h
      · refine ⟨draft₁, hc, ?_⟩
        simpa [hc, he] using h

lemma pass_of_empty (hbody : draft.body = "") : draft' = draft := by
  have hcomp : compressBody P now draft = (.ok (), draft) := by simp [compressBody, hbody]
  have hencrypt : encryptDraft keys keyType tape now m.userID draft = (.ok (), draft) := by
    simp [encryptDraft, hbody]
  have hpass := beforeSend_ok h
  cases pipeline with
  | compress => exact (Prod.mk.inj (hpass.symm.trans hcomp)).2
  | encrypt => exact (Prod.mk.inj (hpass.symm.trans hencrypt)).2
  | compressEncrypt =>
    obtain ⟨draft₁, h₁, h₂⟩ := hpass
    have hdr₁ := (Prod.mk.inj (h₁.symm.trans hcomp)).2
    subst hdr₁
    exact (Prod.mk.inj (h₂.symm.trans hencrypt)).2

variable (hbody : draft.body ≠ "")

include hbody

/-- The body after a pass is the next layer, and not empty. -/
lemma layer_of_pass (hP : P.Sound) :
    pipeline.layer tape draft.body = .ok draft'.body ∧ draft'.body ≠ "" := by
  have hpass := beforeSend_ok h
  cases pipeline with
  | compress =>
    obtain ⟨c, hc, rfl⟩ := compressBody_ok hbody hpass
    exact ⟨compressed_eq hbody hc, hP.compressed_ne _ _ hc⟩
  | encrypt =>
    obtain ⟨dek, c, _, _, hdek, hc, _, _, rfl⟩ := encryptDraft_ok hbody hpass
    exact ⟨encrypted_eq hbody hdek hc, hP.encrypted_ne _ _ _ _ hc⟩
  | compressEncrypt =>
    obtain ⟨draft₁, h₁, h₂⟩ := hpass
    obtain ⟨c₁, hc₁, rfl⟩ := compressBody_ok hbody h₁
    have hbody₁ : P.encode c₁ ≠ "" := hP.compressed_ne _ _ hc₁
    obtain ⟨dek, c, _, _, hdek, hc, _, _, rfl⟩ := encryptDraft_ok hbody₁ h₂
    refine ⟨?_, hP.encrypted_ne _ _ _ _ hc⟩
    simp only [layer, compressed_eq hbody hc₁]
    exact encrypted_eq hbody₁ hdek hc

/-- A pass does not touch the header of the missing hook. -/
lemma clean_of_pass (hcln : pipeline.Clean draft) : pipeline.Clean draft' := by
  have hpass := beforeSend_ok h
  cases pipeline with
  | compress =>
    obtain ⟨c, _, rfl⟩ := compressBody_ok hbody hpass
    refine ⟨fun _ => ?_, fun hne => by (cases hne)⟩
    rw [header_insert_of_ne draft (by decide) rfl]
    exact hcln.1 rfl
  | encrypt =>
    obtain ⟨dek, c, _, _, _, _, _, _, rfl⟩ := encryptDraft_ok hbody hpass
    refine ⟨fun hne => by (cases hne), fun _ => ?_⟩
    rw [header_insert_of_ne draft (by decide) rfl]
    exact hcln.2 rfl
  | compressEncrypt => exact ⟨fun hne => by (cases hne), fun hne => by (cases hne)⟩

/-- **`Open` undoes one pass**, for everybody the message is for. -/
theorem openMessage_of_pass (hP : P.Sound) (hcln : pipeline.Clean draft)
    (hr : r ∈ m.userID :: draft.recipientIDs) (hk : HasKey keys keyType r) :
    openMessage keys draft' r = .ok (P.bytes draft.body) := by
  have hcln' := clean_of_pass h hbody hcln
  have hpass := beforeSend_ok h
  cases pipeline with
  | compress =>
    obtain ⟨c, hc, rfl⟩ := compressBody_ok hbody hpass
    rw [openMessage, if_pos (hcln'.1 rfl)]
    exact openEncoded_of_compress hP hc rfl (by simp [header])
  | encrypt =>
    have hdecr := decrypt_of_encryptDraft hP hpass hbody hr hk
    obtain ⟨dek, c, _, _, _, _, _, _, rfl⟩ := encryptDraft_ok hbody hpass
    rw [openMessage, if_neg (by simp [header, algoAES256GCM]), hdecr]
    simp only [openEncoded, hcln'.2 rfl, if_true]
  | compressEncrypt =>
    obtain ⟨draft₁, h₁, h₂⟩ := hpass
    obtain ⟨c₁, hc₁, rfl⟩ := compressBody_ok hbody h₁
    have hbody₁ : P.encode c₁ ≠ "" := hP.compressed_ne _ _ hc₁
    have hdecr := decrypt_of_encryptDraft hP h₂ hbody₁ hr hk
    obtain ⟨dek, c, _, _, _, _, _, _, rfl⟩ := encryptDraft_ok hbody₁ h₂
    rw [openMessage, if_neg (by simp [header, algoAES256GCM]), hdecr]
    refine openEncoded_of_compress hP hc₁ rfl ?_
    rfl

end Pass

end Pipeline

end Mailbox.Plugin
