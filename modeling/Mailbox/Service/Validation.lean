import Mailbox.Store.Message

/-!
# Validation of outgoing messages

`validation.go`: the checks a draft has to pass before it is sent, against configurable limits.

Lengths are in bytes, as Go's `len` counts them.  Lean's strings are valid UTF-8, so the two checks
for that never fail here.  The order in which a header or metadata map is visited only decides which
of several errors is reported.  A `nil` map and an empty one are not told apart.
-/

namespace Mailbox.Service

structure MessageLimits where
  maxSubjectLength : ℕ
  maxBodySize : ℕ
  maxAttachmentSize : ℤ
  maxAttachmentCount : ℕ
  maxRecipientCount : ℕ
  maxMetadataSize : ℕ
  maxMetadataKeys : ℕ
  maxHeaderCount : ℕ
  maxHeaderKeyLength : ℕ
  maxHeaderValueLength : ℕ
  maxHeadersTotalSize : ℕ

def defaultLimits : MessageLimits where
  maxSubjectLength := 998
  maxBodySize := 10 * 1024 * 1024
  maxAttachmentSize := 25 * 1024 * 1024
  maxAttachmentCount := 20
  maxRecipientCount := 100
  maxMetadataSize := 64 * 1024
  maxMetadataKeys := 100
  maxHeaderCount := 50
  maxHeaderKeyLength := 128
  maxHeaderValueLength := 8 * 1024
  maxHeadersTotalSize := 64 * 1024

def maxMetadataKeyLength : ℕ := 256

/-- What the code takes from Go's library: `strconv.Quote` and `time.Duration.String`, which only
reach the texts of errors, and the length of `json.Marshal`. -/
structure Library where
  quote : String → String
  duration : ℤ → String
  marshalSize : Metadata → Except Error ℕ

/-- `fmt.Errorf("%w: text", sentinel)`. -/
def invalid (s : Sentinel) (text : String) : Result :=
  .error (.detail (.sentinel s) text)

/-! ## Strings -/

/-- `unicode.IsSpace`. -/
def isSpace (c : Char) : Bool :=
  let n := c.toNat
  (9 ≤ n && n ≤ 13) || n == 0x20 || n == 0x85 || n == 0xA0 || n == 0x1680
    || (0x2000 ≤ n && n ≤ 0x200A) || n == 0x2028 || n == 0x2029 || n == 0x202F || n == 0x205F
    || n == 0x3000

/-- `strings.TrimSpace`. -/
def trimSpace (s : String) : String :=
  String.ofList ((s.toList.dropWhile isSpace).reverse.dropWhile isSpace).reverse

/-- `unicode.IsControl`. -/
def isControl (c : Char) : Bool := c.toNat < 0x20 || (0x7F ≤ c.toNat && c.toNat < 0xA0)

/-- The verb `%04X`. -/
def hex4 (n : ℕ) : String :=
  let digits := (Nat.toDigits 16 n).map Char.toUpper
  String.ofList (List.replicate (4 - digits.length) '0' ++ digits)

/-! ## Checks -/

section Checks

variable (lib : Library) (limits : MessageLimits)

def validateHeaders (headers : Headers) : Result := do
  if headers.entries.length = 0 then return
  if headers.entries.length > limits.maxHeaderCount then
    invalid .tooManyHeaders
      s!"header count {headers.entries.length} exceeds max {limits.maxHeaderCount}"
  headers.entries.forM fun ⟨key, value⟩ => do
    if key = "" then
      invalid .invalidHeaders "empty key not allowed"
    if key.utf8ByteSize > limits.maxHeaderKeyLength then
      invalid .headerKeyTooLong
        s!"key {lib.quote key} exceeds max length {limits.maxHeaderKeyLength}"
    if value.utf8ByteSize > limits.maxHeaderValueLength then
      invalid .headerValueTooLong
        s!"value for key {lib.quote key} exceeds max length {limits.maxHeaderValueLength}"
  let totalSize := headers.entries.foldl
    (fun totalSize ⟨key, value⟩ => totalSize + (key.utf8ByteSize + value.utf8ByteSize)) 0
  if totalSize > limits.maxHeadersTotalSize then
    invalid .headersTooLarge
      s!"total headers size {totalSize} exceeds max {limits.maxHeadersTotalSize} bytes"

/-- The first `n` bytes of a text.  The bytes of a character that is cut through are no text any
more, and are read as the replacement character. -/
def takeBytes : (n : ℕ) → List Char → List Char
  | _, [] => []
  | n, c :: cs =>
    if c.utf8Size ≤ n then c :: takeBytes (n - c.utf8Size) cs else List.replicate n '\uFFFD'

/-- A key cut to fifty bytes, for its error message. -/
def truncatedKey (key : String) : String :=
  if key.utf8ByteSize > 50 then String.ofList (takeBytes 50 key.toList) else key

/-- `ValidateMetadataWithLimits` validates metadata against configurable limits. -/
def validateMetadata (metadata : Metadata) : Result := do
  if metadata.entries.length = 0 then return
  if metadata.entries.length > limits.maxMetadataKeys then
    invalid .invalidMetadata
      s!"too many keys ({metadata.entries.length} > {limits.maxMetadataKeys})"
  metadata.entries.forM fun ⟨key, _⟩ => do
    if key.utf8ByteSize > maxMetadataKeyLength then
      invalid .metadataKeyTooLong
        s!"key '{truncatedKey key}...' exceeds max length {maxMetadataKeyLength}"
    if key = "" then
      invalid .invalidMetadata "empty key not allowed"
  match lib.marshalSize metadata with
  | .error _ => invalid .invalidMetadata "cannot serialize metadata"
  | .ok size =>
    if size > limits.maxMetadataSize then
      invalid .metadataTooLarge s!"metadata size {size} exceeds max {limits.maxMetadataSize} bytes"

def validateSubject (subject : String) : Result := do
  if (trimSpace subject).utf8ByteSize < 1 then
    throw (mailboxError .emptySubject)
  if subject.utf8ByteSize > limits.maxSubjectLength then
    invalid .subjectTooLong
      s!"subject length {subject.utf8ByteSize} exceeds max {limits.maxSubjectLength}"
  subject.toList.forM fun r => do
    if isControl r && r != '\t' && r != '\n' && r != '\r' then
      invalid .invalidContent s!"subject contains control character U+{hex4 r.toNat}"

def validateBody (body : String) : Result := do
  if body.utf8ByteSize > limits.maxBodySize then
    invalid .bodyTooLarge s!"body size {body.utf8ByteSize} exceeds max {limits.maxBodySize} bytes"
  if body.toList.contains '\x00' then
    invalid .invalidContent "body contains null bytes"

def validateRecipients (recipientIDs : List String) : Result := do
  if recipientIDs.length = 0 then
    throw (mailboxError .emptyRecipients)
  if recipientIDs.length > limits.maxRecipientCount then
    invalid .tooManyRecipients
      s!"recipient count {recipientIDs.length} exceeds max {limits.maxRecipientCount}"
  if recipientIDs.contains "" then
    invalid .invalidRecipient "empty recipient ID"

/-- `normalizeMIMEType` extracts the base MIME type without parameters. -/
def normalizeMIMEType (contentType : String) : String :=
  let ct := trimSpace contentType
  if ct = "" then ""
  else
    let base := String.ofList (ct.toList.takeWhile (· != ';'))
    (trimSpace base).toLower

/-- `ValidateAttachments` validates the attachment list; no MIME type is blocked, and all are
allowed. -/
def validateAttachments (attachments : List Attachment) : Result := do
  if attachments.length > limits.maxAttachmentCount then
    invalid .tooManyAttachments
      s!"attachment count {attachments.length} exceeds max {limits.maxAttachmentCount}"
  attachments.forM fun a => do
    if a.size > limits.maxAttachmentSize then
      invalid .attachmentTooLarge
        s!"attachment {lib.quote a.filename} size {a.size} exceeds max {limits.maxAttachmentSize} bytes"
    if a.filename = "" then
      invalid .invalidAttachment "attachment filename is required"
    if normalizeMIMEType a.contentType = "" then
      invalid .invalidMIMEType s!"attachment {lib.quote a.filename}: empty content type"

/-- `ValidateDraft` performs full validation of a draft before sending. -/
def validateDraft (draft : Message) : Result := do
  validateRecipients limits draft.recipientIDs
  validateSubject limits draft.subject
  validateBody limits draft.body
  validateHeaders lib limits draft.headers
  validateMetadata lib limits draft.metadata
  validateAttachments lib limits draft.attachments

end Checks

end Mailbox.Service
