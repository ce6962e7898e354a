import Mathlib.Init

/-!
# Errors

The sentinel errors of the store and of the mailbox layer, and the ways the code wraps them.
`fmt.Errorf("context: %w", err)` is `Error.wrap`, `fmt.Errorf("%w: text", err)` is
`Error.detail`; the structured errors keep their fields.  `Error.is` is `errors.Is` with a
sentinel as its target.
-/

namespace Mailbox

/-- The sentinel errors of `store/errors.go` and `errors.go`.  A mailbox-level sentinel that only
wraps the store-level one of the same name is that one under `Error.wrap "mailbox"`. -/
inductive Sentinel where
  | notFound
  | invalidID
  | duplicateEntry
  | notConnected
  | emptyRecipients
  | emptySubject
  | filterInvalid
  | invalidFolderID
  | invalidIdempotencyKey
  | transactionFailed
  | folderMismatch
  | unauthorized
  | notInTrash
  | alreadyInTrash
  | attachmentStoreNotConfigured
  | partialDelivery
  | invalidMetadata
  | metadataKeyTooLong
  | metadataTooLarge
  | subjectTooLong
  | bodyTooLarge
  | invalidContent
  | tooManyRecipients
  | invalidRecipient
  | tooManyAttachments
  | attachmentTooLarge
  | invalidAttachment
  | invalidMIMEType
  | invalidHeaders
  | tooManyHeaders
  | headerKeyTooLong
  | headerValueTooLong
  | headersTooLarge
  | invalidUserID
  | invalidTTL
  | invalidSchedule
  | invalidMessage
  | quotaExceeded
  | userResolveFailed
  deriving DecidableEq, Repr

inductive Error where
  | sentinel (s : Sentinel)
  /-- `errors.New` with a text of its own, or an error of code outside the repository. -/
  | text (s : String)
  /-- `fmt.Errorf("context: %w", err)`. -/
  | wrap (context : String) (err : Error)
  /-- `fmt.Errorf("%w: text", err)`. -/
  | detail (err : Error) (text : String)
  /-- `errors.Join`, the nil errors left out. -/
  | join (errs : List Error)
  | partialDelivery (messageID : String) (deliveredTo : List String)
      (failedRecipients : List (String × Error))
  | quotaExceeded (userID : String) (currentCount maxMessages : Int)
  | attachmentRef (operation : String) (failed rollbackFailed : List (String × Error))
  | eventPublish (event messageID : String) (err : Error)
  | plugin (name op : String) (err : Error)
  | validation (field message : String)
  deriving Repr

mutual

/-- `errors.Is(err, target)`: some error in the tree that `Unwrap` spans is the target. -/
def Error.is (target : Sentinel) : Error → Bool
  | .sentinel s => s == target
  | .text _ => false
  | .wrap _ err => err.is target
  | .detail err _ => err.is target
  | .join errs => Error.anyIs target errs
  | .partialDelivery _ _ _ => target == .partialDelivery
  | .quotaExceeded _ _ _ => target == .quotaExceeded
  | .attachmentRef _ failed rollbackFailed =>
    Error.anyEntryIs target failed || Error.anyEntryIs target rollbackFailed
  | .eventPublish _ _ err => err.is target
  | .plugin _ _ err => err.is target
  | .validation _ _ => target == .invalidMessage

def Error.anyIs (target : Sentinel) : List Error → Bool
  | [] => false
  | err :: errs => err.is target || Error.anyIs target errs

def Error.anyEntryIs (target : Sentinel) : List (String × Error) → Bool
  | [] => false
  | entry :: entries => Error.entryIs target entry || Error.anyEntryIs target entries

def Error.entryIs (target : Sentinel) : String × Error → Bool
  | (_, err) => err.is target

end

/-- What a function returns whose only result is an `error`. -/
abbrev Result := Except Error Unit

/-- The mailbox-level sentinel wrapping the store-level one. -/
def mailboxError (s : Sentinel) : Error := .wrap "mailbox" (.sentinel s)

end Mailbox
