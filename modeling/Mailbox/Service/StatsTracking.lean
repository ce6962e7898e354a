import Mailbox.Service.Ownership
import Mailbox.Service.Received

/-!
# What keeps a cached snapshot right

A snapshot is a collection of counters, and so is what `MailboxStats` returns: how many messages
there are, how many unread ones, and both for every folder.  What a counter counts depends on the
folder of a message and on whether it is read (`Counter.counts`), and a handler adds and subtracts
the same (`value_countIn` and so on), except where it stops at zero.

`Tracked` says that the counters of every snapshot are the tallies of the store.  Each change of the
store, together with the handler of its event, preserves it: a message is replaced (`Tracked.put`),
deleted (`Tracked.delete`) or sent (`Tracked.send`), or several are changed and nothing is published
(`Tracked.bulk`).

`Tracked` is about the counters of a class `K` and about the messages that are `included`.
-/

namespace Mailbox

open List Option Table

/-! ## Counters -/

inductive Counter where
  | total
  | unread
  | folderTotal (folderID : String)
  | folderUnread (folderID : String)

namespace Counter

/-- Whether a message that is in the folder, and read or not, is counted. -/
def counts : Counter → String → Bool → Bool
  | .total, _, _ => true
  | .unread, _, isRead => !isRead
  | .folderTotal f, folderID, _ => decide (folderID = f)
  | .folderUnread f, folderID, isRead => decide (folderID = f) && !isRead

def ofMessage (k : Counter) (msg : Message) : Bool := k.counts msg.folderID msg.isRead

/-- The counter is one of unread messages. -/
def isUnread : Counter → Bool
  | .unread => true
  | .folderUnread _ => true
  | _ => false

/-- The counter is one of a folder. -/
def isFolder : Counter → Bool
  | .folderTotal _ => true
  | .folderUnread _ => true
  | _ => false

end Counter

open Counter

/-- The value of a counter. -/
def MailboxStats.value (stats : MailboxStats) : Counter → ℤ
  | .total => stats.totalMessages
  | .unread => stats.unreadCount
  | .folderTotal f => (stats.folder f).total
  | .folderUnread f => (stats.folder f).unread

open MailboxStats

namespace Memory

variable {t : Messages} {msg msg' : Message} {now : Time} {u id : String}

lemma mailboxStats_value (now : Time) (u : String) (s : Store) (k : Counter) :
    (s.mailboxStats now u).value k = tally now u k.ofMessage s.messages := by
  obtain ⟨htot, hur, hfo⟩ := mailboxStats_counters now u s
  cases k with
  | total => exact htot
  | unread => exact hur
  | folderTotal f => exact (hfo f).1
  | folderUnread f => exact (hfo f).2

lemma tally_delete (p : Message → Bool) (hld : t.load id = some msg) :
    tally now u p (t.delete id) = tally now u p t - (visible now u msg && p msg).toInt := by
  have hcnt := countP_delete hld fun msg => visible now u msg && p msg
  rw [tally, tally, hcnt]
  cases visible now u msg && p msg <;> simp

lemma tally_put (p : Message → Bool) (hld : t.load id = some msg) (hid : msg'.id = id) :
    tally now u p (t.put msg') = tally now u p t - (visible now u msg && p msg).toInt
        + (visible now u msg' && p msg').toInt := by
  subst hid
  rw [← tally_delete p hld, tally, tally, countP_put]
  cases visible now u msg' && p msg' <;> simp

lemma tally_pos {p : Message → Bool} (hld : t.load id = some msg) (hvis : visible now u msg)
    (hp : p msg) : 0 < tally now u p t := by
  have hmem := (load_eq_some_iff.mp hld).1
  have hpos : 0 < t.all.countP fun msg => visible now u msg && p msg :=
    countP_pos_iff.mpr ⟨msg, hmem, by rw [hvis, hp]; rfl⟩
  show (0 : ℤ) < (t.all.countP fun msg => visible now u msg && p msg : ℕ)
  omega

end Memory

namespace Service.StatsCache

/-! ## The handlers, counter by counter -/

variable (stats : MailboxStats) (k : Counter) (folderID : String) (wasUnread : Bool)

lemma value_setFolder (c : FolderCounts) : (stats.setFolder folderID c).value k = match k with
      | .total => stats.totalMessages
      | .unread => stats.unreadCount
      | .folderTotal f => if f = folderID then c.total else (stats.folder f).total
      | .folderUnread f => if f = folderID then c.unread else (stats.folder f).unread := by
  cases k with
  | total | unread => rfl
  | folderTotal | folderUnread =>
    simp only [value, folder_setFolder]
    split_ifs <;> rfl

lemma value_countSent :
    (countSent stats).value k = stats.value k + (k.counts folderSent true).toInt := by
  rw [countSent, value_setFolder]
  cases k with
  | total => rfl
  | unread => exact (Int.add_zero _).symm
  | folderTotal f | folderUnread f =>
    by_cases hf : folderSent = f
    · simp [← hf, counts, value]
    · simp [hf, Ne.symm hf, counts, value, folder]

lemma value_countReceived :
    (countReceived stats).value k = stats.value k + (k.counts folderInbox false).toInt := by
  rw [countReceived, value_setFolder]
  cases k with
  | total | unread => rfl
  | folderTotal f | folderUnread f =>
    by_cases hf : folderInbox = f
    · simp [← hf, counts, value]
    · simp [hf, Ne.symm hf, counts, value, folder]

lemma value_adjust (g : ℤ → ℤ) : (if folderID ≠ "" then
        stats.setFolder folderID ⟨g (stats.folder folderID).total,
          if wasUnread then g (stats.folder folderID).unread else (stats.folder folderID).unread⟩
      else stats).value k
      = if k.isFolder ∧ folderID ≠ "" ∧ k.counts folderID (!wasUnread) then g (stats.value k)
        else stats.value k := by
  by_cases hid : folderID = ""
  · simp [hid]
  · rw [if_pos hid, value_setFolder]
    cases k with
    | total | unread => simp [isFolder, value]
    | folderTotal f | folderUnread f =>
      by_cases hf : folderID = f
      · cases wasUnread <;> simp [← hf, hid, isFolder, counts, value]
      · simp [hf, Ne.symm hf, counts, value]

lemma value_countIn : (countIn folderID wasUnread stats).value k
      = if k.isFolder ∧ folderID ≠ "" ∧ k.counts folderID (!wasUnread) then stats.value k + 1
        else stats.value k :=
  value_adjust stats k folderID wasUnread (· + 1)

lemma value_countDeleted : (countDeleted folderID wasUnread stats).value k
      = if (k.isFolder → folderID ≠ "") ∧ k.counts folderID (!wasUnread) then
          decrement (stats.value k)
        else stats.value k := by
  refine (value_adjust _ k folderID wasUnread decrement).trans ?_
  cases k with
  | total => simp [isFolder, counts, value]
  | unread => cases wasUnread <;> simp [isFolder, counts, value]
  | folderTotal | folderUnread =>
    simp [isFolder, value, folder]

lemma value_countRead : (countRead folderID stats).value k
      = if k.isUnread ∧ (k.isFolder → folderID ≠ "") ∧ k.counts folderID false then
          decrement (stats.value k)
        else stats.value k := by
  -- The folder's counter is decremented in place, or nothing is stored.
  have hstep : countRead folderID stats = if folderID ≠ "" ∧ 0 < (stats.folder folderID).unread then
          setFolder folderID ⟨(stats.folder folderID).total, (stats.folder folderID).unread - 1⟩
            { stats with unreadCount := decrement stats.unreadCount }
        else { stats with unreadCount := decrement stats.unreadCount } := by
    by_cases hid : folderID = ""
    · simp [countRead, hid]
    · simp only [countRead, ne_eq, hid, not_false_eq_true, true_and, if_true]
      rfl
  rw [hstep]
  cases k with
  | total =>
    simp only [isUnread, Bool.false_eq_true, false_and, if_false]
    split_ifs <;> rfl
  | unread =>
    simp only [isUnread, isFolder, counts, Bool.false_eq_true,
      false_imp_iff, Bool.not_false, and_self, if_true]
    split_ifs <;> rfl
  | folderTotal =>
    simp only [isUnread, Bool.false_eq_true, false_and, if_false]
    split_ifs
    · simp only [value, folder_setFolder]
      split_ifs with hf
      · rw [hf]
      · rfl
    · rfl
  | folderUnread f =>
    by_cases hf : f = folderID
    · subst hf
      by_cases hid : f = ""
      · simp [hid, isFolder, value, folder]
      · by_cases hpos : 0 < (stats.folder f).unread
        · simp [hid, hpos, isUnread, counts, value, decrement]
        · rw [if_neg fun h => hpos h.2]
          show (stats.folder f).unread = _
          simp [hid, hpos, isUnread, counts, value, decrement]
    · simp only [counts, Ne.symm hf, decide_false, Bool.false_and, Bool.false_eq_true,
        and_false, if_false]
      split_ifs
      · simp only [value, folder_setFolder, if_neg hf]
        rfl
      · rfl

lemma value_countAllRead (count : ℕ) : (countAllRead folderID count stats).value k
      = if k.isUnread ∧ k.counts folderID false then subtract (stats.value k) count
        else stats.value k := by
  rw [countAllRead, value_setFolder]
  cases k with
  | total | unread => simp [isUnread, counts, value]
  | folderTotal f | folderUnread f =>
    by_cases hf : folderID = f
    · simp [hf, isUnread, counts, value]
    · simp [hf, Ne.symm hf, isUnread, counts, value, folder]

end Service.StatsCache

namespace Service

open Memory

/-! ## Snapshots that are right -/

/-- The snapshot of one user is changed, if there is one. -/
def Applies (u : String) (fn : MailboxStats → MailboxStats) (cache cache' : StatsCache) : Prop :=
  ∀ u', cache'.cached u' = if u' = u then (cache.cached u').map fn else cache.cached u'

lemma applies_updateCachedStats (u : String) (fn : MailboxStats → MailboxStats)
    (cache : StatsCache) : Applies u fn cache (cache.updateCachedStats u fn) :=
  fun _ => StatsCache.cached_updateCachedStats

lemma applies_refl (u : String) (cache : StatsCache) : Applies u id cache cache := by
  intro u'
  rw [Option.map_id, id, ite_self]

variable {cache' : StatsCache} {u u' : String} {fn : MailboxStats → MailboxStats}

lemma Applies.ne_none_iff {cache : StatsCache} (h : Applies u fn cache cache') :
    cache'.cached u' ≠ none ↔ cache.cached u' ≠ none := by
  rw [h u']
  split_ifs
  · rw [ne_eq, map_eq_none_iff]
  · rfl

/-- Which messages a counter counts, by their ID and status. -/
abbrev Included := Counter → String → MessageStatus → Bool

/-- The counters in `K` of every snapshot are the tallies of the included messages.  The messages of
users with a snapshot are available, and in a folder with a name if one of the counters counts
them. -/
structure Tracked (K : Counter → Prop) (included : Included) (t : Time) (s : Store)
    (cache : StatsCache) : Prop where
  available : ∀ msg ∈ s.messages.all, msg.isDraft = false → cache.cached msg.ownerID ≠ none →
    isAvailableNow t msg = true
  named : ∀ msg ∈ s.messages.all, msg.isDraft = false → cache.cached msg.ownerID ≠ none →
    ∀ k, K k → k.ofMessage msg = true → msg.folderID ≠ ""
  counted : ∀ u stats, cache.cached u = some stats → ∀ k, K k → stats.value k
      = tally t u (fun msg => k.ofMessage msg && included k msg.id msg.status) s.messages

/-- The same message, except for its folder, its tags, the read flag and times. -/
structure SameMail (msg msg' : Message) : Prop where
  id : msg'.id = msg.id
  ownerID : msg'.ownerID = msg.ownerID
  isDraft : msg'.isDraft = msg.isDraft
  availableAt : msg'.availableAt = msg.availableAt
  status : msg'.status = msg.status

variable {toFolderID messageID : String} {copies : List Message} {f : Message → Message}
  {ids : List String} {t' : Messages}

variable {stats : MailboxStats} {k : Counter} {folderID : String} {now : Time}

section Tracked

variable {K : Counter → Prop} {included : Included} {t : Time} {s : Store}
  {cache : StatsCache} {id : String} {msg msg' : Message}

lemma SameMail.visible (h : SameMail msg msg') (u' : String) :
    visible t u' msg' = visible t u' msg := by
  simp [Memory.visible, isAvailableNow, h.ownerID, h.isDraft, h.availableAt]

lemma visible_of_ne (h : msg.ownerID ≠ u') : visible t u' msg = false := by
  simp [visible, h]

lemma Owns.mem (h : Owns u id s msg) : msg ∈ s.messages.all := (load_eq_some_iff.mp h.1).1

section

variable (h : Tracked K included t s cache)

include h

lemma Tracked.visible (howns : Owns u id s msg)
    (hcd : cache.cached u ≠ none) : visible t u msg = true := by
  have hmem := howns.mem
  obtain ⟨_, hown, hdr⟩ := howns
  have hav := h.available msg hmem hdr (by rwa [hown])
  simp [Memory.visible, hown, hdr, hav]

lemma Tracked.pos (howns : Owns u id s msg)
    (hcd : cache.cached u = some stats) (hk : K k) (hmsg : k.ofMessage msg = true)
    (hincl : included k msg.id msg.status = true) : 0 < stats.value k := by
  rw [h.counted u stats hcd k hk]
  refine tally_pos howns.1 (h.visible howns (by rw [hcd]; simp)) ?_
  simp [hmsg, hincl]

/-- As long as nothing becomes available, the counters of the store do not depend on the time. -/
lemma Tracked.tally_eq (hcd : cache.cached u ≠ none)
    {t' : Time} (ht : t ≤ t') (p : Message → Bool) :
    tally t' u p s.messages = tally t u p s.messages := by
  refine congrArg _ (countP_congr fun msg hmsg => ?_)
  have hvis : Memory.visible t' u msg = Memory.visible t u msg := by
    by_cases hown : msg.ownerID = u
    · cases hdr : msg.isDraft with
      | true => simp [Memory.visible, hdr]
      | false =>
        have hav := h.available msg hmsg hdr (by rwa [hown])
        simp [Memory.visible, hav, isAvailableNow_mono ht hav]
    · rw [visible_of_ne hown, visible_of_ne hown]
  rw [hvis]

/-- **A message is replaced**, and the snapshot of its owner changed accordingly. -/
theorem Tracked.put (howns : Owns u id s msg) (hsame : SameMail msg msg')
    (hnamed : cache.cached u ≠ none → ∀ k, K k → k.ofMessage msg' = true → msg'.folderID ≠ "")
    (hca : Applies u fn cache cache')
    (hfn : ∀ stats, cache.cached u = some stats → ∀ k, K k → (fn stats).value k
        = stats.value k - (k.ofMessage msg && included k msg.id msg.status).toInt
          + (k.ofMessage msg' && included k msg.id msg.status).toInt) :
    Tracked K included t (s.put msg') cache' where
  available m hm hdr hcd := by
    rw [hca.ne_none_iff] at hcd
    rcases mem_put.mp hm with rfl | ⟨hmem, _⟩
    · rw [hsame.isDraft] at hdr
      rw [hsame.ownerID] at hcd
      have hav := h.available msg howns.mem hdr hcd
      simpa only [isAvailableNow, hsame.availableAt] using hav
    · exact h.available m hmem hdr hcd
  named m hm hdr hcd k hk hcnts := by
    rw [hca.ne_none_iff] at hcd
    rcases mem_put.mp hm with rfl | ⟨hmem, _⟩
    · rw [hsame.ownerID, howns.2.1] at hcd
      exact hnamed hcd k hk hcnts
    · exact h.named m hmem hdr hcd k hk hcnts
  counted u' stats hcd k hk := by
    have hid : msg'.id = id := hsame.id.trans (key_of_load howns.1)
    rw [hca u'] at hcd
    rw [tally_put _ howns.1 hid, hsame.visible u', hsame.id, hsame.status]
    split_ifs at hcd with hu
    · subst hu
      obtain ⟨stats, hss, rfl⟩ := map_eq_some_iff.mp hcd
      rw [hfn stats hss k hk, h.counted u' stats hss k hk,
        h.visible howns (by rw [hss]; simp), Bool.true_and, Bool.true_and]
    · have hown : msg.ownerID ≠ u' := fun heq => hu (heq.symm.trans howns.2.1)
      rw [h.counted u' stats hcd k hk, visible_of_ne hown]
      simp

/-- **A message is deleted**, and the snapshot of its owner changed accordingly. -/
theorem Tracked.delete (howns : Owns u id s msg) (hca : Applies u fn cache cache')
    (hfn : ∀ stats, cache.cached u = some stats → ∀ k, K k → (fn stats).value k
        = stats.value k - (k.ofMessage msg && included k msg.id msg.status).toInt) :
    Tracked K included t (s.remove id) cache' where
  available m hm hdr hcd :=
    h.available m (mem_delete.mp hm).1 hdr (hca.ne_none_iff.mp hcd)
  named m hm hdr hcd :=
    h.named m (mem_delete.mp hm).1 hdr (hca.ne_none_iff.mp hcd)
  counted u' stats hcd k hk := by
    rw [hca u'] at hcd
    rw [tally_delete _ howns.1]
    split_ifs at hcd with hu
    · subst hu
      obtain ⟨stats, hss, rfl⟩ := map_eq_some_iff.mp hcd
      rw [hfn stats hss k hk, h.counted u' stats hss k hk,
        h.visible howns (by rw [hss]; simp), Bool.true_and]
    · have hown : msg.ownerID ≠ u' := fun heq => hu (heq.symm.trans howns.2.1)
      rw [h.counted u' stats hcd k hk, visible_of_ne hown]
      simp

end

/-! ## The events of a mailbox -/

/-- The counters that count the message include it. -/
def Covered (K : Counter → Prop) (included : Included) (msg : Message) : Prop :=
  ∀ k, K k → (k.isUnread = true → msg.isRead = false) → included k msg.id msg.status = true

lemma Covered.includes (h : Covered K included msg) (hk : K k)
    (hcnts : k.counts folderID msg.isRead = true) : included k msg.id msg.status = true := by
  refine h k hk fun hur => ?_
  cases k with
  | unread => simpa [counts] using hcnts
  | folderUnread =>
    simp only [counts, Bool.and_eq_true, Bool.not_eq_true'] at hcnts
    exact hcnts.2
  | _ => cases hur

lemma Covered.and_included (h : Covered K included msg) (hk : K k) (folderID : String) :
    (k.counts folderID msg.isRead && included k msg.id msg.status)
      = k.counts folderID msg.isRead := by
  cases hcnts : k.counts folderID msg.isRead with
  | false => rfl
  | true => rw [h.includes hk hcnts, Bool.and_self]

/-- There is something to subtract: the counter is not zero, and the folder has a name. -/
lemma Tracked.room (h : Tracked K included t s cache) (howns : Owns u id s msg)
    (hss : cache.cached u = some stats) (hcov : Covered K included msg) (hk : K k)
    (hcnts : k.counts msg.folderID msg.isRead = true) : msg.folderID ≠ "" ∧ 0 < stats.value k := by
  have hcd : cache.cached msg.ownerID ≠ none := by simp [howns.2.1, hss]
  exact ⟨h.named msg howns.mem howns.2.2 hcd k hk hcnts,
    h.pos howns hss hk hcnts (hcov.includes hk hcnts)⟩

lemma decrement_of_pos {n : ℤ} (h : 0 < n) : StatsCache.decrement n = n - 1 := if_pos h

section

variable (h : Tracked K included t s cache) (howns : Owns u id s msg)

include h howns

lemma Tracked.moved (hcov : cache.cached u ≠ none → Covered K included msg)
    (hto : toFolderID ≠ "") (now : Time) :
    Tracked K included t (s.put { msg with folderID := toFolderID, updatedAt := now })
      (cache.onMutation (.messageMoved id u msg.folderID toFolderID (!msg.isRead) now)) := by
  refine h.put howns ⟨rfl, rfl, rfl, rfl, rfl⟩ (fun _ _ _ _ => hto)
    (applies_updateCachedStats u _ cache) fun stats hss k hk => ?_
  have hsome : cache.cached u ≠ none := by simp [hss]
  have hfrom := (hcov hsome).and_included hk msg.folderID
  have hincl := (hcov hsome).and_included hk toFolderID
  simp only [ofMessage]
  rw [hfrom, hincl, StatsCache.value_countIn, StatsCache.countOut, StatsCache.value_adjust,
    Bool.not_not]
  cases hfo : k.isFolder with
  | false =>
    -- The total and the number of unread messages do not depend on the folder.
    have hsame : k.counts msg.folderID msg.isRead = k.counts toFolderID msg.isRead := by
      cases k with
      | total | unread => rfl
      | _ => cases hfo
    simp [hsame]
  | true =>
    cases hcnts : k.counts msg.folderID msg.isRead with
    | false => cases hcnts' : k.counts toFolderID msg.isRead <;> simp [hto]
    | true =>
      obtain ⟨hname, hv⟩ := h.room howns hss (hcov hsome) hk hcnts
      cases hcnts' : k.counts toFolderID msg.isRead <;>
        simp [hto, hname, decrement_of_pos hv]

lemma Tracked.deleted (hcov : cache.cached u ≠ none → Covered K included msg) (now : Time) :
    Tracked K included t (s.remove id)
      (cache.onMutation (.messageDeleted id u msg.folderID (!msg.isRead) now)) := by
  refine h.delete howns (applies_updateCachedStats u _ cache) fun stats hss k hk => ?_
  have hsome : cache.cached u ≠ none := by simp [hss]
  have hfrom := (hcov hsome).and_included hk msg.folderID
  simp only [ofMessage]
  rw [hfrom, StatsCache.value_countDeleted, Bool.not_not]
  cases hcnts : k.counts msg.folderID msg.isRead with
  | false => simp
  | true =>
    obtain ⟨hname, hv⟩ := h.room howns hss (hcov hsome) hk hcnts
    simp [hname, decrement_of_pos hv]

lemma Tracked.read (hcov : cache.cached u ≠ none → Covered K included msg ∧ msg.isRead = false)
    (hsame : SameMail msg msg') (hrd : msg'.isRead = true)
    (hK : ∀ k, K k → k.isUnread = true) (now : Time) :
    Tracked K included t (s.put msg') (cache.onMutation (.messageRead id u msg.folderID now)) := by
  have hno : ∀ k, K k → k.ofMessage msg' = false := by
    intro k hk
    have hur := hK k hk
    cases k with
    | unread | folderUnread => simp [ofMessage, counts, hrd]
    | _ => cases hur
  refine h.put howns hsame (fun _ k hk hcnts => ?_) (applies_updateCachedStats u _ cache)
    fun stats hss k hk => ?_
  · rw [hno k hk] at hcnts
    cases hcnts
  · have hsome : cache.cached u ≠ none := by simp [hss]
    obtain ⟨hcover, hur⟩ := hcov hsome
    have hfrom := hcover.and_included hk msg.folderID
    have hrm := h.room howns hss hcover hk
    rw [hno k hk, StatsCache.value_countRead]
    simp only [ofMessage]
    rw [hfrom]
    rw [hur] at hrm ⊢
    cases hcnts : k.counts msg.folderID false with
    | false => simp
    | true =>
      obtain ⟨hname, hv⟩ := hrm hcnts
      simp [hK k hk, hname, decrement_of_pos hv]

lemma Tracked.silent (hsame : SameMail msg msg')
    (hcnts : cache.cached u ≠ none → ∀ k, K k → k.ofMessage msg' = k.ofMessage msg)
    (hfo : msg'.folderID = msg.folderID) :
    Tracked K included t (s.put msg') cache := by
  refine h.put howns hsame (fun hcd k hk hmsg => ?_) (applies_refl u cache)
    fun stats hss k hk => ?_
  · rw [hcnts hcd k hk] at hmsg
    rw [hfo]
    exact h.named msg howns.mem howns.2.2 (by rwa [howns.2.1]) k hk hmsg
  · rw [hcnts (by simp [hss]) k hk]
    simp

end

/-! ## Counters that stop at zero -/

/-- The counters that the handler of an event decrements. -/
def MutationEvent.decrements : MutationEvent → List Counter
  | .messageRead _ _ folderID _ => .unread :: if folderID ≠ "" then [.folderUnread folderID] else []
  | .messageDeleted _ _ folderID wasUnread _ =>
    .total :: (if wasUnread then [.unread] else []) ++ if folderID ≠ "" then
        .folderTotal folderID :: if wasUnread then [.folderUnread folderID] else []
      else []
  | .messageMoved _ _ fromFolderID _ wasUnread _ =>
    if fromFolderID ≠ "" then
      .folderTotal fromFolderID :: if wasUnread then [.folderUnread fromFolderID] else []
    else []
  | .markAllRead .. => []

/-- The handler is to decrement a counter, and finds it at zero. -/
def StatsCache.Clamps (cache : StatsCache) (event : MutationEvent) : Prop :=
  ∃ stats, cache.cached event.userID = some stats ∧ ∃ k ∈ event.decrements, stats.value k ≤ 0

open StatsCache

instance StatsCache.decidableClamps (cache : StatsCache) (event : MutationEvent) :
    Decidable (cache.Clamps event) :=
  decidable_of_iff ((cache.cached event.userID).any fun stats =>
      event.decrements.any fun k => decide (stats.value k ≤ 0)) (by
    cases hcached : cache.cached event.userID with
    | none => simp [StatsCache.Clamps, hcached]
    | some => simp [StatsCache.Clamps, hcached])

lemma Tracked.not_clamps (h : Tracked K included t s cache) (hK : ∀ k, K k)
    {event : MutationEvent} (howns : Owns event.userID id s msg)
    (hcov : cache.cached event.userID ≠ none → Covered K included msg)
    (hevent : ∀ k ∈ event.decrements, k.counts msg.folderID msg.isRead = true) :
    ¬ cache.Clamps event := by
  rintro ⟨stats, hss, k, hk, hzr⟩
  have hpos := (h.room howns hss (hcov (by simp [hss])) (hK k) (hevent k hk)).2
  omega

lemma counts_of_decrements_moved
    (h : k ∈ (MutationEvent.messageMoved messageID u msg.folderID toFolderID (!msg.isRead)
      now).decrements) : k.counts msg.folderID msg.isRead = true := by
  simp only [MutationEvent.decrements, mem_ite_nil_right, mem_cons, not_mem_nil, or_false] at h
  rcases h with ⟨_, rfl | ⟨hur, rfl⟩⟩
  · simp [counts]
  · simpa [counts] using hur

lemma counts_of_decrements_deleted
    (h : k ∈ (MutationEvent.messageDeleted messageID u msg.folderID (!msg.isRead)
      now).decrements) : k.counts msg.folderID msg.isRead = true := by
  simp only [MutationEvent.decrements, cons_append, mem_cons, mem_append,
    mem_ite_nil_right, not_mem_nil, or_false] at h
  rcases h with rfl | ⟨hur, rfl⟩ | ⟨_, rfl | ⟨hur, rfl⟩⟩
  · rfl
  · exact hur
  · simp [counts]
  · simpa [counts] using hur

/-! ## Sending -/

lemma value_iterate_countReceived (n : ℕ) (stats : MailboxStats) (k : Counter) :
    (countReceived^[n] stats).value k = stats.value k + n * (k.counts folderInbox false).toInt := by
  induction n generalizing stats with
  | zero => simp
  | succ n ih =>
    rw [Function.iterate_succ_apply, ih, value_countReceived]
    push_cast
    ring

/-- A message that has just arrived in a folder. -/
structure Arrived (folderID : String) (msg : Message) : Prop where
  folderID : msg.folderID = folderID
  isRead : msg.isRead = false
  isDraft : msg.isDraft = false
  availableAt : msg.availableAt = none

lemma Arrived.available (h : Arrived folderID msg) : isAvailableNow t msg = true := by
  rw [isAvailableNow, h.availableAt]

lemma Arrived.visible (h : Arrived folderID msg) : visible t u msg = decide (msg.ownerID = u) := by
  rw [Memory.visible, h.isDraft, h.available, Bool.not_false, Bool.and_true, Bool.and_true]

lemma countP_arrived
    (hcps : ∀ msg ∈ copies, Arrived folderInbox msg ∧ included k msg.id msg.status = true) :
    ((copies.countP fun msg => visible t u msg
        && (k.ofMessage msg && included k msg.id msg.status) : ℕ) : ℤ)
      = (copies.map Message.ownerID).count u * (k.counts folderInbox false).toInt := by
  induction copies with
  | nil => simp
  | cons msg copies ih =>
    rw [forall_mem_cons] at hcps
    obtain ⟨⟨harr, hincl⟩, hcps⟩ := hcps
    have hcnts : k.ofMessage msg = k.counts folderInbox false := by
      rw [ofMessage, harr.folderID, harr.isRead]
    rw [countP_cons, map_cons, count_cons, Nat.cast_add, ih hcps,
      harr.visible, hcnts, hincl, Bool.and_true]
    by_cases hu : msg.ownerID = u
    · cases k.counts folderInbox false <;> simp [hu]
    · simp [hu]

/-- **A message is sent**: the sender has a copy that is counted as if it were read, and the
recipients have copies that are counted. -/
theorem Tracked.send (h : Tracked K included t s cache) {s' : Store} {draftID : String}
    {sent : Message} (hall : s'.messages.all
      = sent :: (copies.reverse ++ s.messages.all.filter (UserMailbox.notDraft draftID)))
    (hsn : Arrived folderSent sent) (hsender : cache.cached sent.ownerID ≠ none → ∀ k, K k →
      (k.counts folderSent false && included k sent.id sent.status) = k.counts folderSent true)
    (hcps : ∀ msg ∈ copies, Arrived folderInbox msg
      ∧ ∀ k, K k → included k msg.id msg.status = true) :
    Tracked K included t s' (cache.onMessageSent sent.ownerID (copies.map Message.ownerID)) := by
  have hsome : ∀ {u'}, (cache.onMessageSent sent.ownerID (copies.map Message.ownerID)).cached u'
      ≠ none → cache.cached u' ≠ none := by
    intro u' hne hno
    rw [cached_onMessageSent, hno] at hne
    exact hne rfl
  -- What is stored is new, or was there before.
  have hmem : ∀ msg ∈ s'.messages.all, msg = sent ∨ msg ∈ copies ∨ msg ∈ s.messages.all := by
    intro msg hmsg
    rw [hall, mem_cons, mem_append, mem_reverse] at hmsg
    exact hmsg.imp_right (Or.imp_right mem_of_mem_filter)
  refine ⟨fun msg hmsg hdr hcd => ?_, fun msg hmsg hdr hcd k hk hcnts => ?_,
    fun u' stats hcd k hk => ?_⟩
  · rcases hmem msg hmsg with rfl | hcp | hold
    · exact hsn.available
    · exact (hcps msg hcp).1.available
    · exact h.available msg hold hdr (hsome hcd)
  · rcases hmem msg hmsg with rfl | hcp | hold
    · rw [hsn.folderID]
      decide
    · rw [(hcps msg hcp).1.folderID]
      decide
    · exact h.named msg hold hdr (hsome hcd) k hk hcnts
  · rw [cached_onMessageSent] at hcd
    obtain ⟨stats, hss, rfl⟩ := map_eq_some_iff.mp hcd
    have hcnt := countP_arrived (t := t) (u := u') fun msg hmsg =>
      ⟨(hcps msg hmsg).1, (hcps msg hmsg).2 k hk⟩
    have hold : (s.messages.all.filter (UserMailbox.notDraft draftID)).countP
          (fun msg => Memory.visible t u' msg && (k.ofMessage msg && included k msg.id msg.status))
        = s.messages.all.countP fun msg =>
          Memory.visible t u' msg && (k.ofMessage msg && included k msg.id msg.status) := by
      rw [countP_filter]
      refine countP_congr fun msg _ => ?_
      cases hdr : msg.isDraft <;> simp [Memory.visible, UserMailbox.notDraft, hdr]
    have hv := h.counted u' stats hss k hk
    rw [tally] at hv
    rw [value_iterate_countReceived, tally, hall, countP_cons, countP_append,
      countP_reverse, hold, hsn.visible, Nat.cast_add, Nat.cast_add, hcnt, ← hv]
    by_cases hu : u' = sent.ownerID
    · have hcnts := hsender (by rw [← hu, hss]; simp) k hk
      rw [if_pos hu, value_countSent, ← hcnts, ofMessage, hsn.folderID,
        hsn.isRead, hu, decide_eq_true rfl, Bool.true_and]
      cases k.counts folderSent false && included k sent.id sent.status
      · simp [Int.add_comm]
      · simp
        ring
    · rw [if_neg hu, decide_eq_false (Ne.symm hu)]
      simp [Int.add_comm]

/-! ## Several messages at once -/

section

variable (h : Tracked K included t s cache) (hchanged : Table.Changed f ids s.messages t')
  (hsame : ∀ msg, SameMail msg (f msg))

include h hchanged hsame

/-- Messages are changed, and the snapshot of one user with them. -/
lemma Tracked.changed (hca : Applies u fn cache cache')
    (hnamed : ∀ msg ∈ s.messages.all, msg.isDraft = false → msg.id ∈ ids →
      cache.cached msg.ownerID ≠ none → ∀ k, K k → k.ofMessage (f msg) = true →
        (f msg).folderID ≠ "") (hcnt : ∀ u' stats, cache'.cached u' = some stats → ∀ k, K k →
      stats.value k = (s.messages.all.countP fun msg => Memory.visible t u' msg
        && (k.ofMessage (if msg.id ∈ ids then f msg else msg)
          && included k msg.id msg.status) : ℕ)) :
    Tracked K included t { s with messages := t' } cache' := by
  have hmail : ∀ orig, SameMail orig (if orig.id ∈ ids then f orig else orig) := by
    intro orig
    split_ifs
    · exact hsame orig
    · exact ⟨rfl, rfl, rfl, rfl, rfl⟩
  refine ⟨fun msg hmsg hdr hcd => ?_, fun msg hmsg hdr hcd k hk hcount => ?_,
    fun u' stats hss k hk => ?_⟩
  · obtain ⟨orig, hor, rfl⟩ := hchanged.mem_iff.mp hmsg
    rw [(hmail orig).isDraft] at hdr
    rw [(hmail orig).ownerID, hca.ne_none_iff] at hcd
    have hav := h.available orig hor hdr hcd
    simpa only [isAvailableNow, (hmail orig).availableAt] using hav
  · obtain ⟨orig, hor, rfl⟩ := hchanged.mem_iff.mp hmsg
    rw [(hmail orig).isDraft] at hdr
    rw [(hmail orig).ownerID, hca.ne_none_iff] at hcd
    split_ifs at hcount ⊢ with hid
    · exact hnamed orig hor hdr hid hcd k hk hcount
    · exact h.named orig hor hdr hcd k hk hcount
  · rw [hcnt u' stats hss k hk, tally, List.Perm.countP_eq _ hchanged, countP_map]
    refine congrArg _ (countP_congr fun msg _ => ?_)
    simp [Function.comp_apply, (hmail msg).visible, (hmail msg).id, (hmail msg).status]

/-- **Messages are changed and nothing is published**: the counters must not see it. -/
theorem Tracked.bulk
    (hcnts : ∀ msg ∈ s.messages.all, msg.id ∈ ids → cache.cached msg.ownerID ≠ none →
      ∀ k, K k → k.ofMessage (f msg) = k.ofMessage msg
        ∧ (k.ofMessage msg = true → (f msg).folderID = msg.folderID)) :
    Tracked K included t { s with messages := t' } cache := by
  refine h.changed hchanged hsame (applies_refl "" cache)
    (fun msg hmsg hdr hid hcd k hk hcnt => ?_) fun u' stats hss k hk => ?_
  · obtain ⟨hsameCount, hfo⟩ := hcnts msg hmsg hid hcd k hk
    rw [hsameCount] at hcnt
    rw [hfo hcnt]
    exact h.named msg hmsg hdr hcd k hk hcnt
  · rw [h.counted u' stats hss k hk, tally]
    refine congrArg _ (countP_congr fun msg hmsg => ?_)
    by_cases hu : msg.ownerID = u'
    · split_ifs with hid
      · rw [(hcnts msg hmsg hid (by simp [hu, hss]) k hk).1]
      · rfl
    · simp [visible_of_ne hu, Bool.false_and]

end

/-- **All messages of a folder are read**, and the snapshot of their owner changed accordingly. -/
theorem Tracked.allRead (h : Tracked (fun k => k.isUnread = true) (fun _ _ _ => true) t s cache)
    {hit : Message → Bool} (hhit : ∀ msg, hit msg = true ↔ msg.isDraft = false ∧ msg.ownerID = u
      ∧ msg.folderID = folderID ∧ msg.isRead = false)
    (hchanged : Table.Changed f ((s.messages.all.filter hit).map Message.id) s.messages t')
    (hsame : ∀ msg, SameMail msg (f msg)) (hrd : ∀ msg, (f msg).isRead = true) :
    Tracked (fun k => k.isUnread = true) (fun _ _ _ => true) t { s with messages := t' }
      (cache.updateCachedStats u (countAllRead folderID (s.messages.all.countP hit))) := by
  have hno : ∀ k : Counter, k.isUnread = true → ∀ msg, k.ofMessage (f msg) = false := by
    intro k hk msg
    cases k with
    | unread | folderUnread => simp [ofMessage, counts, hrd]
    | _ => cases hk
  refine h.changed hchanged hsame (applies_updateCachedStats u _ cache)
    (fun msg _ _ _ _ k hk hcnt => ?_) fun u' stats hcd k hk => ?_
  · rw [hno k hk msg] at hcnt
    cases hcnt
  · -- What is still unread is what was unread and is no hit.
    have hr : (s.messages.all.countP fun msg => Memory.visible t u' msg
          && (k.ofMessage (if msg.id ∈ (s.messages.all.filter hit).map Message.id then f msg
            else msg) && true))
        = (s.messages.all.filter fun msg => !hit msg).countP
          fun msg => Memory.visible t u' msg && (k.ofMessage msg && true) := by
      rw [countP_filter]
      refine countP_congr fun msg hmsg => ?_
      simp only [mem_keys_filter hit hmsg]
      cases hit msg with
      | true => simp [hno k hk]
      | false => simp
    rw [hr]
    have hspl := s.messages.all.countP_eq_countP_filter_add
      (fun msg => Memory.visible t u' msg && (k.ofMessage msg && true)) hit
    rw [cached_updateCachedStats] at hcd
    split_ifs at hcd with hu
    · subst hu
      obtain ⟨stats, hss, rfl⟩ := map_eq_some_iff.mp hcd
      have hv := h.counted u' stats hss k hk
      -- All hits are counted, or none of them is.
      have hhits : (s.messages.all.filter hit).countP
            (fun msg => Memory.visible t u' msg && (k.ofMessage msg && true))
          = if k.counts folderID false then s.messages.all.countP hit else 0 := by
        rw [countP_filter]
        have hone : ∀ msg ∈ s.messages.all,
            (Memory.visible t u' msg && (k.ofMessage msg && true) && hit msg)
              = (k.counts folderID false && hit msg) := by
          intro msg hmsg
          cases hhitMsg : hit msg with
          | false => simp
          | true =>
            obtain ⟨hdr, hown, hfo, hur⟩ := (hhit msg).mp hhitMsg
            have hav := h.available msg hmsg hdr (by simp [hown, hss])
            simp [Memory.visible, hown, hdr, hav, ofMessage, hfo, hur]
        rw [countP_congr fun msg hmsg => by rw [hone msg hmsg]]
        cases k.counts folderID false <;> simp
      rw [tally, hspl, hhits] at hv
      rw [value_countAllRead, hv]
      cases k.counts folderID false with
      | false => simp
      | true =>
        simp only [hk, and_self, if_true, subtract]
        omega
    · have hv := h.counted u' stats hcd k hk
      have hhits : (s.messages.all.filter hit).countP
          (fun msg => Memory.visible t u' msg && (k.ofMessage msg && true)) = 0 := by
        rw [countP_eq_zero]
        intro msg hmsg
        have hown := ((hhit msg).mp (List.mem_filter.mp hmsg).2).2.1
        rw [visible_of_ne (by rw [hown]; exact Ne.symm hu)]
        simp
      rw [tally, hspl, hhits] at hv
      rw [hv, Nat.zero_add]

end Tracked

end Service

end Mailbox
