import Mailbox.Memory.Stats
import Mailbox.Service.Send

/-!
# The cache of mailbox statistics

`stats.go`: each service instance keeps the statistics of the users it has been asked about.  An
entry is filled from the store (`getOrRefreshStats`) and then kept up to date by the handlers of
four events, which add and subtract what the event says; a counter that is zero is not decremented.
An event about a user without an entry changes nothing.

The optional distributed cache behind this one is not configured here.
-/

namespace Mailbox.Service

open Memory

/-! ## The events of a mailbox -/

/-- The events that the calls of `mutate.go` publish; `Event` has those of `send.go`. -/
inductive MutationEvent where
  | messageRead (messageID userID folderID : String) (readAt : Time)
  | messageDeleted (messageID userID folderID : String) (wasUnread : Bool) (deletedAt : Time)
  | messageMoved (messageID userID fromFolderID toFolderID : String) (wasUnread : Bool)
      (movedAt : Time)
  | markAllRead (userID folderID : String) (count : ℕ) (markedAt : Time)

def MutationEvent.name : MutationEvent → String
  | .messageRead .. => "mailbox.message.read"
  | .messageDeleted .. => "mailbox.message.deleted"
  | .messageMoved .. => "mailbox.message.moved"
  | .markAllRead .. => "mailbox.mark_all_read"

/-- What the event is published under: the message's ID, or the folder's. -/
def MutationEvent.messageID : MutationEvent → String
  | .messageRead messageID .. => messageID
  | .messageDeleted messageID .. => messageID
  | .messageMoved messageID .. => messageID
  | .markAllRead _ folderID .. => folderID

def MutationEvent.userID : MutationEvent → String
  | .messageRead _ userID .. => userID
  | .messageDeleted _ userID .. => userID
  | .messageMoved _ userID .. => userID
  | .markAllRead userID .. => userID

/-! ## Entries -/

/-- `statsEntry`: the snapshot, once there is one, and when it was taken. -/
structure StatsEntry where
  stats : Option MailboxStats
  updatedAt : Time

abbrev StatsCache := AList fun _ : String => StatsEntry

namespace StatsCache

variable (folderID : String) (cache : StatsCache)

/-- The snapshot the cache has of a user. -/
def cached (ownerID : String) : Option MailboxStats :=
  (cache.lookup ownerID).bind StatsEntry.stats

/-- `updateCachedStats` applies a mutation to a cached stats entry if it exists. -/
def updateCachedStats (ownerID : String) (fn : MailboxStats → MailboxStats) (cache : StatsCache) :
    StatsCache :=
  match cache.lookup ownerID with
  | none => cache
  | some entry =>
    match entry.stats with
    | none => cache
    | some stats => cache.insert ownerID { entry with stats := some (fn stats) }

/-- The end of `getOrRefreshStats`: the entry is filled from the store. -/
def refresh (now : Time) (ownerID : String) (s : Store) (cache : StatsCache) : StatsCache :=
  cache.insert ownerID ⟨some (s.mailboxStats now ownerID), now⟩

/-! ## The handlers -/

/-- `if n > 0 { n-- }`. -/
def decrement (n : ℤ) : ℤ := if 0 < n then n - 1 else n

/-- One more message in the sender's sent folder. -/
def countSent (stats : MailboxStats) : MailboxStats :=
  let c := stats.folder folderSent
  { stats with totalMessages := stats.totalMessages + 1 }.setFolder folderSent
    { c with total := c.total + 1 }

/-- One more unread message in the recipient's inbox. -/
def countReceived (stats : MailboxStats) : MailboxStats :=
  let c := stats.folder folderInbox
  { stats with
    totalMessages := stats.totalMessages + 1
    unreadCount := stats.unreadCount + 1 }.setFolder folderInbox ⟨c.total + 1, c.unread + 1⟩

def onMessageSent (senderID : String) (recipientIDs : List String) (cache : StatsCache) :
    StatsCache :=
  recipientIDs.foldl (fun cache recipientID => cache.updateCachedStats recipientID countReceived)
    (cache.updateCachedStats senderID countSent)

/-- One unread message less. -/
def countRead (stats : MailboxStats) : MailboxStats :=
  let stats := { stats with unreadCount := decrement stats.unreadCount }
  if folderID ≠ "" then
    let c := stats.folder folderID
    if 0 < c.unread then stats.setFolder folderID { c with unread := c.unread - 1 } else stats
  else stats

/-- One message less. -/
def countDeleted (wasUnread : Bool) (stats : MailboxStats) : MailboxStats :=
  let stats := { stats with
    totalMessages := decrement stats.totalMessages
    unreadCount := if wasUnread then decrement stats.unreadCount else stats.unreadCount }
  if folderID ≠ "" then
    let c := stats.folder folderID
    stats.setFolder folderID ⟨decrement c.total, if wasUnread then decrement c.unread else c.unread⟩
  else stats

/-- One message less in a folder. -/
def countOut (wasUnread : Bool) (stats : MailboxStats) : MailboxStats :=
  if folderID ≠ "" then
    let c := stats.folder folderID
    stats.setFolder folderID ⟨decrement c.total, if wasUnread then decrement c.unread else c.unread⟩
  else stats

/-- One message more in a folder. -/
def countIn (wasUnread : Bool) (stats : MailboxStats) : MailboxStats :=
  if folderID ≠ "" then
    let c := stats.folder folderID
    stats.setFolder folderID ⟨c.total + 1, if wasUnread then c.unread + 1 else c.unread⟩
  else stats

/-- The handlers of a mailbox's events.  Nothing subscribes to `MarkAllRead`: the call changes the
cache itself. -/
def onMutation : MutationEvent → StatsCache
  | .messageRead _ userID folderID _ => cache.updateCachedStats userID (countRead folderID)
  | .messageDeleted _ userID folderID wasUnread _ =>
    cache.updateCachedStats userID (countDeleted folderID wasUnread)
  | .messageMoved _ userID fromFolderID toFolderID wasUnread _ =>
    cache.updateCachedStats userID fun stats =>
      countIn toFolderID wasUnread (countOut fromFolderID wasUnread stats)
  | .markAllRead .. => cache

/-- The handlers of the events of a send.  Nothing subscribes to `MessageReceived` here. -/
def onSend : Event → StatsCache
  | .messageSent _ senderID recipientIDs _ _ => cache.onMessageSent senderID recipientIDs
  | .messageReceived .. => cache

/-- `if n >= count { n -= count } else { n = 0 }`. -/
def subtract (n count : ℤ) : ℤ := if count ≤ n then n - count else 0

/-- The change that `MarkAllRead` makes to the cache itself. -/
def countAllRead (count : ℕ) (stats : MailboxStats) : MailboxStats :=
  let c := stats.folder folderID
  { stats with unreadCount := subtract stats.unreadCount count }.setFolder folderID
    { c with unread := subtract c.unread count }

/-! ## What the handlers do to a snapshot -/

/-- Users are updated one by one; each update of `u` applies the change once more to what is kept
of `u`. -/
lemma observe_foldl {γ β : Type} {u : String} {change : β → β} {update : γ → String → γ}
    (observe : γ → Option β) (hupd : ∀ c r, observe (update c r)
      = if u = r then (observe c).map change else observe c) (l : List String) (c : γ) :
    observe (l.foldl update c) = (observe c).map change^[l.count u] := by
  induction l generalizing c with
  | nil => simp
  | cons r l ih =>
    rw [List.foldl_cons, ih, hupd]
    by_cases hu : u = r
    · subst hu
      rw [if_pos rfl, List.count_cons_self, Function.iterate_succ, Option.map_map]
    · rw [if_neg hu, List.count_cons_of_ne (Ne.symm hu)]

section Cached

variable {cache : StatsCache} {ownerID u : String} {fn : MailboxStats → MailboxStats}

@[simp] lemma cached_updateCachedStats : (cache.updateCachedStats ownerID fn).cached u
      = if u = ownerID then (cache.cached u).map fn else cache.cached u := by
  unfold updateCachedStats cached
  cases hlk : cache.lookup ownerID with
  | none =>
    split_ifs with hu
    · subst hu
      simp [hlk]
    · rfl
  | some entry =>
    cases hss : entry.stats with
    | none =>
      split_ifs with hu
      · subst hu
        simp [hlk, hss]
      · simp [hss]
    | some =>
      split_ifs with hu
      · subst hu
        simp [hlk, hss]
      · simp [hss, AList.lookup_insert_ne hu]

lemma cached_refresh {now : Time} {s : Store} : (cache.refresh now ownerID s).cached u
      = if u = ownerID then some (s.mailboxStats now u) else cache.cached u := by
  unfold refresh cached
  split_ifs with hu
  · subst hu
    simp
  · rw [AList.lookup_insert_ne hu]

/-- What a send makes of a snapshot: one message for the sender, and one for every time the user is
among the recipients. -/
lemma cached_onMessageSent {senderID : String} {recipientIDs : List String} :
    (cache.onMessageSent senderID recipientIDs).cached u = (cache.cached u).map fun stats =>
          countReceived^[recipientIDs.count u]
            (if u = senderID then countSent stats else stats) := by
  unfold onMessageSent
  rw [observe_foldl (cached · u) (fun _ _ => cached_updateCachedStats), cached_updateCachedStats]
  split_ifs with hu
  · rw [Option.map_map]
    rfl
  · rfl

end Cached

end StatsCache

end Mailbox.Service
