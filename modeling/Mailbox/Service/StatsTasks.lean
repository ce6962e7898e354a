import Mailbox.Service.StatsRuns

/-!
# Sends and deletions, step by step

`Send` and `PermanentlyDelete` as a number of atomic writes to the store, and, when their event
arrives, a number of atomic updates of the cache (each under the lock of one entry).

* `SendStep`, `StatsTask` — the steps, and `StatsJob` the calls they come from.  A send creates the
  sender's copy in the outbox and then the recipients' copies, takes those back whose attachments it
  could not reference, files its own copy and removes the draft; its handler counts the sender's
  copy and each delivered one.  If nobody has a copy, the sender's is taken back as well, and there
  is no event.  `HardDelete` and the mutators hold the lock of a message, so each is one step.
* `StatsInv` — what the tasks rely on.  A send relies on **its own copies** only, and nobody else
  touches these: other sends have other IDs, and a deletion is of a message in the trash
  (`Covers.frame`).
* `send_alone` — without interference the steps amount to the send of `StatsRuns`.
-/

namespace Mailbox.Service

open Memory Pool List Option Table

/-! ## Sends, deletions and refreshes, step by step -/

/-- What the workers share. -/
structure StatsState where
  store : Store
  cache : StatsCache

/-- A step of a send: the writes to the store, and what the handler of its event does. -/
inductive SendStep where
  | create (copy : Message)
  /-- The rollback of a recipient's copy whose attachments could not be referenced, or of the
  sender's copy. -/
  | discard (copy : Message)
  | moveToSent (id : String) (now : Time)
  | deleteDraft (id : String)
  | countSent (userID : String)
  | countReceived (userID : String)

namespace SendStep

def write : SendStep → Store → Store
  | .create copy, s => s.put copy
  | .discard copy, s => (Store.hardDelete copy.id s).2
  | .moveToSent id now, s => (Store.moveToFolder now id folderSent {} s).2
  | .deleteDraft id, s => (Store.deleteDraft id s).2
  | _, s => s

def count : SendStep → StatsCache → StatsCache
  | .countSent userID, cache => cache.updateCachedStats userID StatsCache.countSent
  | .countReceived userID, cache => cache.updateCachedStats userID StatsCache.countReceived
  | _, cache => cache

end SendStep

open SendStep

/-- A call, and the handler of its event after it. -/
inductive StatsTask where
  | send (steps : List SendStep)
  /-- `PermanentlyDelete`, before it has read the message. -/
  | permanentlyDelete (userID messageID : String)
  | hardDelete (userID messageID folderID : String) (wasUnread : Bool)
  | countDeleted (userID folderID : String) (wasUnread : Bool)
  | refresh (userID : String) (now : Time)
  | done

namespace StatsTask

/-- One atomic step. -/
def step (s : StatsState) : StatsTask → StatsState × StatsTask
  | .send [] => (s, .send [])
  | .send (a :: steps) => (⟨a.write s.store, a.count s.cache⟩, .send steps)
  | .permanentlyDelete userID messageID =>
    match getAndVerify userID messageID s.store with
    | .error _ => (s, .done)
    | .ok msg =>
      if msg.folderID ≠ folderTrash then (s, .done)
      else (s, .hardDelete userID messageID msg.folderID (!msg.isRead))
  | .hardDelete userID messageID folderID wasUnread =>
    match Store.hardDelete messageID s.store with
    | (.error _, _) => (s, .done)
    | (.ok _, store) => ({ s with store := store }, .countDeleted userID folderID wasUnread)
  | .countDeleted userID folderID wasUnread =>
    ({ s with
      cache := s.cache.updateCachedStats userID (StatsCache.countDeleted folderID wasUnread) },
      .done)
  | .refresh userID now => ({ s with cache := s.cache.refresh now userID s.store }, .done)
  | .done => (s, .done)

def finished : StatsTask → Bool
  | .send [] => true
  | .done => true
  | _ => false

end StatsTask

/-- What is asked for.  A send writes the sender's copy and then those of the recipients; the flag
says whether the attachments of a copy could be referenced. -/
inductive StatsJob where
  | send (draftID : String) (now : Time) (copy : Message) (copies : List (Message × Bool))
  | permanentlyDelete (userID messageID : String)
  | refresh (userID : String) (now : Time)

namespace StatsJob

/-- The steps of a send, in order. -/
def sendSteps (draftID : String) (now : Time) (copy : Message) (copies : List (Message × Bool)) :
    List SendStep :=
  (copy :: copies.map Prod.fst).map .create ++ ((copies.filter (!·.2)).map (.discard ·.1)
      ++ if copies.any (·.2) then
          .moveToSent copy.id now :: .deleteDraft draftID :: .countSent copy.ownerID
            :: (copies.filter (·.2)).map (.countReceived ·.1.ownerID)
        else [.discard copy])

def task : StatsJob → StatsTask
  | .send draftID now copy copies => .send (sendSteps draftID now copy copies)
  | .permanentlyDelete userID messageID => .permanentlyDelete userID messageID
  | .refresh userID now => .refresh userID now

/-- The copies a send writes. -/
def copies : StatsJob → List Message
  | .send _ _ copy copies => copy :: copies.map Prod.fst
  | _ => []

def ids (job : StatsJob) : List String := job.copies.map Message.id

end StatsJob

section Pool

variable {ι : Type}

def statsTaskStep (_ : ι) (s : StatsState) (task : StatsTask) : StatsState × StatsTask :=
  task.step s

/-- All jobs are still to be done. -/
def statsStart (jobs : ι → StatsJob) (s : StatsState) : Config ι StatsState StatsTask :=
  ⟨s, fun i => (jobs i).task⟩

/-- All jobs are done, and all their events handled. -/
def StatsDone (c : Config ι StatsState StatsTask) : Prop := ∀ i, (c.loc i).finished = true

end Pool

/-! ## What is written and not counted yet -/

/-- The messages of a user, of those with the given IDs. -/
def mailCount (u : String) (q : String → Bool) (s : Store) : ℤ :=
  s.messages.all.countP fun m => (decide (m.ownerID = u) && !m.isDraft) && q m.id

namespace SendStep

/-- The change to the number of the user's messages. -/
def wrote (u : String) : SendStep → ℤ
  | .create copy => if copy.ownerID = u then 1 else 0
  | .discard copy => if copy.ownerID = u then -1 else 0
  | _ => 0

/-- The change to the user's cached total. -/
def counted (u : String) : SendStep → ℤ
  | .countSent v => if v = u then 1 else 0
  | .countReceived v => if v = u then 1 else 0
  | _ => 0

lemma counted_nonneg (u : String) (a : SendStep) : 0 ≤ a.counted u := by
  cases a with
  | countSent | countReceived =>
    simp only [counted]
    split_ifs <;> decide
  | _ => exact Int.le_refl 0

/-- What remains to be counted, less what remains to be written: what has been written and not
counted yet. -/
def owed (u : String) : List SendStep → ℤ
  | [] => 0
  | a :: steps => a.counted u - a.wrote u + owed u steps

lemma owed_append (u : String) (l l' : List SendStep) :
    owed u (l ++ l') = owed u l + owed u l' := by
  induction l with
  | nil => simp [owed]
  | cons a l ih =>
    rw [cons_append, owed, owed, ih]
    omega

end SendStep

/-- A deletion that is not handled yet counts the other way. -/
def StatsTask.owed (u : String) : StatsTask → ℤ
  | .send steps => SendStep.owed u steps
  | .countDeleted v _ _ => if v = u then -1 else 0
  | _ => 0

variable {task : StatsTask} {u : String}

lemma owed_of_finished (h : task.finished = true) : task.owed u = 0 := by
  cases task with
  | send steps =>
    cases steps with
    | nil => rfl
    | cons => cases h
  | countDeleted => cases h
  | _ => rfl

lemma owed_task (u : String) (job : StatsJob) : job.task.owed u = 0 := by
  cases job with
  | send draftID now copy copies =>
    have hcps : SendStep.owed u ((copies.map Prod.fst).map .create)
        + SendStep.owed u ((copies.filter (!·.2)).map (.discard ·.1))
        + SendStep.owed u ((copies.filter (·.2)).map (.countReceived ·.1.ownerID)) = 0 := by
      induction copies with
      | nil => rfl
      | cons c =>
        obtain ⟨c, delivered⟩ := c
        cases delivered with
        | true =>
          simp only [map_cons, filter_cons, Bool.not_true, SendStep.owed,
            counted, wrote, Bool.false_eq_true, if_false, if_true]
          omega
        | false =>
          simp only [map_cons, filter_cons, Bool.not_false, SendStep.owed,
            counted, wrote, Bool.false_eq_true, if_false, if_true]
          split_ifs <;> omega
    simp only [StatsJob.task, StatsTask.owed, StatsJob.sendSteps, map_cons,
      cons_append, SendStep.owed, owed_append, counted, wrote]
    cases hany : copies.any (·.2) with
    | true =>
      simp only [if_true, SendStep.owed, counted, wrote]
      omega
    | false =>
      -- Nobody is counted, and the sender's copy is gone.
      have hnone : copies.filter (·.2) = [] := by simpa using hany
      rw [hnone, map_nil, SendStep.owed] at hcps
      simp only [Bool.false_eq_true, if_false, SendStep.owed, counted, wrote]
      split_ifs <;> omega
  | _ => rfl

/-! ## The steps of a send -/

namespace SendStep

/-- What the step makes of the record under an ID. -/
def effect : SendStep → String → Option Message → Option Message
  | .create copy, id, x => if id = copy.id then some copy else x
  | .discard copy, id, x => if id = copy.id ∧ id ≠ "" then x.filter (·.isDraft) else x
  | .moveToSent id' now, id, x =>
    if id = id' ∧ id ≠ "" then
      x.map fun m => if m.isDraft then m else { m with folderID := folderSent, updatedAt := now }
    else x
  | .deleteDraft id', id, x => if id = id' ∧ id ≠ "" then x.filter (!·.isDraft) else x
  | _, _, x => x

end SendStep

variable {s' : Store} {m : Message}

variable {s : Store} {a : SendStep} {ids : List String} {id : String} {q : String → Bool}

lemma load_removed (id id' : String) (s : Store) :
    (Store.hardDelete id' s).2.messages.load id = (if id = id' ∧ id ≠ "" then
        (s.messages.load id).filter (·.isDraft) else s.messages.load id)
      ∧ (Store.deleteDraft id' s).2.messages.load id = if id = id' ∧ id ≠ "" then
        (s.messages.load id).filter (!·.isDraft) else s.messages.load id := by
  by_cases hid' : id' = ""
  · subst hid'
    rw [if_neg fun h => h.2 h.1, if_neg fun h => h.2 h.1]
    exact ⟨rfl, rfl⟩
  · simp only [Store.hardDelete, Store.deleteDraft, if_neg hid']
    by_cases hid : id = id'
    · subst hid
      cases hld : s.messages.load id with
      | none => simp [hld]
      | some m => cases hdr : m.isDraft <;> simp [hld, hdr, hid', Option.filter]
    · rw [if_neg fun h => hid h.1, if_neg fun h => hid h.1]
      cases s.messages.load id' with
      | none => exact ⟨rfl, rfl⟩
      | some m => cases hdr : m.isDraft <;> simp [hdr, load_delete_of_ne hid]

lemma moveToSent_cases (now : Time) (id : String) (s : Store) :
    (Store.moveToFolder now id folderSent {} s).2 = s ∧ (id = "" ∨ s.messages.load id = none
          ∨ ∃ m, s.messages.load id = some m ∧ m.isDraft = true)
      ∨ ∃ m, s.messages.load id = some m ∧ m.isDraft = false ∧ id ≠ ""
        ∧ (Store.moveToFolder now id folderSent {} s).2
          = s.put { m with folderID := folderSent, updatedAt := now } := by
  by_cases hid : id = ""
  · left
    simp [Store.moveToFolder, hid]
  · cases hld : s.messages.load id with
    | none =>
      left
      simp [Store.moveToFolder, Store.mutate, hid, hld]
    | some m =>
      cases hdr : m.isDraft with
      | true =>
        left
        simp [Store.moveToFolder, Store.mutate, hid, hld, hdr]
      | false =>
        right
        refine ⟨m, rfl, hdr, hid, ?_⟩
        simp [Store.moveToFolder, Store.mutate_of_load hid hld hdr, Update.moveToFolder, hid]

lemma load_moveToSent (now : Time) (id id' : String) (s : Store) :
    (Store.moveToFolder now id' folderSent {} s).2.messages.load id
      = (moveToSent id' now).effect id (s.messages.load id) := by
  simp only [effect]
  rcases moveToSent_cases now id' s with ⟨heq, hno⟩ | ⟨m, hld, hdr, hid', heq⟩
  · rw [heq]
    split_ifs with hid
    · obtain ⟨rfl, hemp⟩ := hid
      rcases hno with hid | hno | ⟨m, hld, hdr⟩
      · exact absurd hid hemp
      · simp [hno]
      · simp [hld, hdr]
    · rfl
  · rw [heq]
    have hk : m.id = id' := key_of_load hld
    split_ifs with hid
    · obtain ⟨rfl, _⟩ := hid
      subst hk
      rw [hld, map_some, hdr]
      exact load_put_self
    · refine load_put_of_ne ?_
      rw [hk]
      exact fun heq => hid ⟨heq, by rwa [heq]⟩

lemma load_write (a : SendStep) (s : Store) (id : String) :
    (a.write s).messages.load id = a.effect id (s.messages.load id) := by
  cases a with
  | create =>
    simp only [write, effect]
    split_ifs with hid
    · subst hid
      exact load_put_self
    · exact load_put_of_ne hid
  | discard copy => exact (load_removed id copy.id s).1
  | moveToSent id' now => exact load_moveToSent now id id' s
  | deleteDraft id' => exact (load_removed id id' s).2
  | _ => rfl

namespace SendStep

/-- What a step relies on. -/
def Ready (ids : List String) (s : Store) : SendStep → Prop
  | .create copy => copy.id ∈ ids ∧ s.messages.load copy.id = none ∧ copy.isDraft = false
      ∧ copy.availableAt = none ∧ copy.folderID ≠ folderTrash
  | .discard copy => copy.id ∈ ids ∧ copy.id ≠ ""
      ∧ ∃ m, s.messages.load copy.id = some m ∧ m.ownerID = copy.ownerID ∧ m.isDraft = false
  | .moveToSent id _ => id ∈ ids
  | _ => True

/-- Taken one after the other, the steps find what they rely on. -/
def Sound (ids : List String) : Store → List SendStep → Prop
  | _, [] => True
  | s, a :: steps => a.Ready ids s ∧ Sound ids (a.write s) steps

end SendStep

lemma SendStep.Sound.congr {steps : List SendStep} (h : SendStep.Sound ids s steps)
    (hld : ∀ id ∈ ids, s'.messages.load id = s.messages.load id) : SendStep.Sound ids s' steps := by
  induction steps generalizing s s' with
  | nil => trivial
  | cons a steps ih =>
    refine ⟨?_, ih h.2 fun id hid => ?_⟩
    · cases a with
      | create =>
        obtain ⟨hid, hno, hr⟩ := h.1
        exact ⟨hid, (hld _ hid).trans hno, hr⟩
      | discard =>
        obtain ⟨hid, hemp, m, hm, hr⟩ := h.1
        exact ⟨hid, hemp, m, (hld _ hid).trans hm, hr⟩
      | moveToSent => exact h.1
      | _ => trivial
    · rw [load_write, load_write, hld id hid]

/-- Both the store as a whole and the send's own messages change by what the step says. -/
lemma mailCount_write (hrdy : a.Ready ids s) (hq : ∀ id ∈ ids, q id = true) :
    mailCount u q (a.write s) = mailCount u q s + a.wrote u := by
  cases a with
  | create copy =>
    obtain ⟨hid, hno, hdr, -⟩ := hrdy
    have hall : (s.messages.put copy).all = copy :: s.messages.all := all_put_of_fresh hno
    simp only [mailCount, write, hall, countP_cons, hdr, hq _ hid, wrote]
    by_cases hown : copy.ownerID = u <;> simp [hown]
  | discard copy =>
    obtain ⟨hid, hemp, m, hld, hown, hdr⟩ := hrdy
    have hk : m.id = copy.id := key_of_load hld
    simp only [mailCount, write, Store.hardDelete_of_load hemp hld hdr,
      wrote, countP_delete hld fun m : Message =>
        (decide (m.ownerID = u) && !m.isDraft) && q m.id, hdr, hk, hq _ hid, hown]
    by_cases hown : copy.ownerID = u <;> simp [hown]
  | moveToSent id now =>
    simp only [write, wrote]
    rcases moveToSent_cases now id s with ⟨heq, -⟩ | ⟨m, hld, hdr, -, heq⟩
    · rw [heq, Int.add_zero]
    · have hk : m.id = id := key_of_load hld
      subst hk
      rw [heq]
      simp only [mailCount, countP_put, countP_delete hld]
      simp
  | deleteDraft id =>
    simp only [write, wrote, Store.deleteDraft, Int.add_zero]
    split_ifs
    · rfl
    · cases hld : s.messages.load id with
      | none => rfl
      | some =>
        simp only
        split_ifs with hdr
        · simp [mailCount, countP_delete hld, hdr]
        · rfl
  | _ => simp [write, wrote]

lemma mailCount_congr (h : ∀ id, q id = true → s'.messages.load id = s.messages.load id) :
    mailCount u q s' = mailCount u q s := by
  rw [mailCount, mailCount, countP_congr_of_load fun m hm => ?_]
  rw [Bool.and_eq_true] at hm
  exact h m.id hm.2

lemma mailCount_delete (hld : s.messages.load id = some m) (hdr : m.isDraft = false) :
    mailCount u q (s.remove id)
      = mailCount u q s - if m.ownerID = u ∧ q id = true then 1 else 0 := by
  have hk : m.id = id := key_of_load hld
  simp only [mailCount, countP_delete hld, hdr, hk]
  by_cases hown : m.ownerID = u <;> cases q id <;> simp [hown]

/-! ## The invariant -/

section Invariant

variable {ι : Type} (jobs : ι → StatsJob) (t : Time)

/-- What a task relies on: a send on its own copies, a deletion on the message being the user's and
none of those that are being sent. -/
def StatsTask.Sound (i : ι) (s : Store) : StatsTask → Prop
  | .send steps => SendStep.Sound (jobs i).ids s steps
  | .hardDelete userID messageID _ _ => (∀ j, messageID ∉ (jobs j).ids)
      ∧ ∀ m, s.messages.load messageID = some m → m.ownerID = userID
  | .refresh _ now => t ≤ now
  | _ => True

/-- Whatever happens to a store happens to messages with the worker's own IDs, or removes messages
that nobody is sending. -/
def Leaves (i : ι) (s s' : Store) : Prop :=
  ∀ id, id ∉ (jobs i).ids → s'.messages.load id = s.messages.load id
    ∨ (∀ j, id ∉ (jobs j).ids) ∧ s'.messages.load id = none

/-- Messages are available, and those that are being sent are no drafts and not in the trash. -/
structure Filed (s : Store) : Prop where
  available : ∀ id m, s.messages.load id = some m → m.isDraft = false → isAvailableNow t m = true
  new : ∀ j id m, s.messages.load id = some m → id ∈ (jobs j).ids →
    m.isDraft = false ∧ m.folderID ≠ folderTrash

/-- A task with what is owed covered by its copies in the store. -/
structure Covers (i : ι) (s : Store) (task : StatsTask) : Prop where
  sound : task.Sound jobs t i s
  covered : ∀ u, task.owed u ≤ mailCount u (fun id => decide (id ∈ (jobs i).ids)) s

structure StatsInv (c : Config ι StatsState StatsTask) : Prop where
  filed : Filed jobs t c.shared.store
  covers : ∀ i, Covers jobs t i c.shared.store (c.loc i)

variable {jobs t} {i : ι}

lemma Leaves.refl (i : ι) (s : Store) : Leaves jobs i s s := fun _ _ => Or.inl rfl

lemma Covers.frame {j : ι} (h : Covers jobs t j s task) (hleaves : Leaves jobs i s s')
    (hdisj : ∀ id ∈ (jobs j).ids, id ∉ (jobs i).ids) : Covers jobs t j s' task := by
  have hld : ∀ id ∈ (jobs j).ids, s'.messages.load id = s.messages.load id := by
    intro id hid
    rcases hleaves id (hdisj id hid) with heq | ⟨hn, _⟩
    · exact heq
    · exact absurd hid (hn j)
  refine ⟨?_, fun u => ?_⟩
  · cases task with
    | send => exact SendStep.Sound.congr h.sound hld
    | hardDelete userID messageID =>
      refine ⟨h.sound.1, fun m hm => ?_⟩
      rcases hleaves messageID (h.sound.1 i) with heq | ⟨_, hno⟩
      · exact h.sound.2 m (heq.symm.trans hm)
      · rw [hno] at hm
        cases hm
    | refresh => exact h.sound
    | _ => trivial
  · rw [mailCount_congr fun id hid => hld id (of_decide_eq_true hid)]
    exact h.covered u

/-! ## One step -/

/-- Where a message comes from that is there after a step of a send. -/
lemma effect_eq_some {x : Option Message} (h : a.effect id x = some m) :
    x = some m ∨ a = .create m ∨ ∃ orig now, x = some orig ∧ orig.isDraft = false
        ∧ m = { orig with folderID := folderSent, updatedAt := now } := by
  cases a with
  | create =>
    simp only [effect] at h
    split_ifs at h
    · cases h
      exact .inr (.inl rfl)
    · exact .inl h
  | discard | deleteDraft =>
    simp only [effect] at h
    split_ifs at h
    · exact .inl (filter_eq_some_iff.mp h).1
    · exact .inl h
  | moveToSent id' now =>
    simp only [effect] at h
    split_ifs at h
    · obtain ⟨orig, rfl, rfl⟩ := map_eq_some_iff.mp h
      cases hdr : orig.isDraft with
      | true => exact .inl rfl
      | false => exact .inr (.inr ⟨orig, now, rfl, hdr, by simp [hdr]⟩)
    · exact .inl h
  | _ => exact .inl h

lemma filed_write (hfil : Filed jobs t s) (hrdy : a.Ready (jobs i).ids s) :
    Filed jobs t (a.write s) := by
  refine ⟨fun id m hm hdr => ?_, fun j id m hm hid => ?_⟩
  · rw [load_write] at hm
    rcases effect_eq_some hm with hld | rfl | ⟨orig, now, hld, hor, rfl⟩
    · exact hfil.available id m hld hdr
    · rw [isAvailableNow, hrdy.2.2.2.1]
    · exact hfil.available id orig hld hor
  · rw [load_write] at hm
    rcases effect_eq_some hm with hld | rfl | ⟨orig, now, hld, hor, rfl⟩
    · exact hfil.new j id m hld hid
    · exact ⟨hrdy.2.2.1, hrdy.2.2.2.2⟩
    · exact ⟨hor, (by decide : folderSent ≠ folderTrash)⟩

lemma leaves_write (hfil : Filed jobs t s) (hrdy : a.Ready (jobs i).ids s) :
    Leaves jobs i s (a.write s) := by
  intro id hid
  rw [load_write]
  cases a with
  | create =>
    refine .inl (if_neg fun heq => hid ?_)
    rw [heq]
    exact hrdy.1
  | discard =>
    refine .inl (if_neg fun heq => hid ?_)
    rw [heq.1]
    exact hrdy.1
  | moveToSent =>
    refine .inl (if_neg fun heq => hid ?_)
    rw [heq.1]
    exact hrdy
  | deleteDraft =>
    simp only [effect]
    split_ifs
    · cases hld : s.messages.load id with
      | none => exact .inl rfl
      | some m =>
        cases hdr : m.isDraft with
        | false => exact .inl (by simp [Option.filter, hdr])
        | true =>
          -- What is being sent is no draft.
          refine .inr ⟨fun j hj => ?_, by simp [Option.filter, hdr]⟩
          rw [(hfil.new j id m hld hj).1] at hdr
          cases hdr
    · exact .inl rfl
  | _ => exact .inl rfl

lemma hardDelete_filed (hfil : Filed jobs t s) (hid : ∀ j, id ∉ (jobs j).ids) :
    Filed jobs t (Store.hardDelete id s).2 ∧ Leaves jobs i s (Store.hardDelete id s).2 := by
  have hsub : ∀ id' m, (Store.hardDelete id s).2.messages.load id' = some m →
      s.messages.load id' = some m := by
    intro id' m hm
    rw [(load_removed _ _ _).1] at hm
    split_ifs at hm
    · exact (filter_eq_some_iff.mp hm).1
    · exact hm
  refine ⟨⟨fun id' m hm => hfil.available id' m (hsub id' m hm),
    fun j id' m hm => hfil.new j id' m (hsub id' m hm)⟩, fun id' _ => ?_⟩
  rw [(load_removed _ _ _).1]
  split_ifs with heq
  · cases hld : s.messages.load id' with
    | none => exact .inl rfl
    | some m =>
      cases hdr : m.isDraft with
      | true => exact .inl (by simp [Option.filter, hdr])
      | false => exact .inr ⟨by rwa [heq.1], by simp [Option.filter, hdr]⟩
  · exact .inl rfl

/-- What a step does to the store and leaves to be done. -/
lemma step_covers (cache : StatsCache) (hfil : Filed jobs t s) (h : Covers jobs t i s task) :
    let next := task.step ⟨s, cache⟩
    Filed jobs t next.1.store ∧ Leaves jobs i s next.1.store
      ∧ Covers jobs t i next.1.store next.2 := by
  have hnothing : ∀ u, 0 ≤ mailCount u (fun id => decide (id ∈ (jobs i).ids)) s := fun u =>
    Int.natCast_nonneg _
  cases task with
  | send steps =>
    cases steps with
    | nil => exact ⟨hfil, .refl i s, h⟩
    | cons a steps =>
      obtain ⟨hrdy, hsteps⟩ := h.sound
      refine ⟨filed_write hfil hrdy, leaves_write hfil hrdy, hsteps, fun u => ?_⟩
      have hcov := h.covered u
      have hcnt := counted_nonneg u a
      show SendStep.owed u steps ≤ mailCount u _ (a.write s)
      rw [mailCount_write hrdy fun id hid => decide_eq_true hid]
      simp only [StatsTask.owed, SendStep.owed] at hcov
      omega
  | permanentlyDelete userID messageID =>
    simp only [StatsTask.step]
    cases hverified : getAndVerify userID messageID s with
    | error => exact ⟨hfil, .refl i s, trivial, hnothing⟩
    | ok =>
      simp only
      split_ifs with htrash
      · exact ⟨hfil, .refl i s, trivial, hnothing⟩
      · rw [ne_eq, not_not] at htrash
        obtain ⟨-, hon⟩ := owns_of_getAndVerify hverified
        refine ⟨hfil, .refl i s, ⟨fun j hj =>
          (hfil.new j messageID _ hon.1 hj).2 htrash, fun m hm => ?_⟩, hnothing⟩
        rw [← some.inj (hon.1.symm.trans hm)]
        exact hon.2.1
  | hardDelete userID messageID =>
    obtain ⟨hfil', hleaves⟩ := hardDelete_filed hfil h.sound.1
    simp only [StatsTask.step]
    cases hdel : Store.hardDelete messageID s with
    | mk result s' =>
      rw [hdel] at hfil' hleaves
      cases result with
      | error => exact ⟨hfil, .refl i s, trivial, hnothing⟩
      | ok =>
        refine ⟨hfil', hleaves, trivial, fun u => ?_⟩
        have hpos : 0 ≤ mailCount u (fun id => decide (id ∈ (jobs i).ids)) s' :=
          Int.natCast_nonneg _
        simp only [StatsTask.owed]
        split_ifs <;> omega
  | countDeleted | refresh =>
    exact ⟨hfil, .refl i s, trivial, hnothing⟩
  | done => exact ⟨hfil, .refl i s, h⟩

variable [DecidableEq ι]

lemma StatsInv.step {c : Config ι StatsState StatsTask} (h : StatsInv jobs t c)
    (hdisj : ∀ i j, i ≠ j → ∀ id ∈ (jobs i).ids, id ∉ (jobs j).ids) (i : ι) :
    StatsInv jobs t (stepAt statsTaskStep c i) := by
  obtain ⟨hfil, hleaves, hcovers⟩ := step_covers c.shared.cache h.filed (h.covers i)
  refine ⟨hfil, fun j => ?_⟩
  by_cases hji : j = i
  · subst hji
    rw [stepAt_loc_self]
    exact hcovers
  · rw [stepAt_loc_of_ne hji]
    exact (h.covers j).frame hleaves (hdisj j i hji)

end Invariant

/-! ## A send alone -/

variable {copies : List Message}

/-- A send that nobody disturbs. -/
def SendStep.runAll (steps : List SendStep) (s : StatsState) : StatsState :=
  ⟨steps.foldl (fun s a => a.write s) s.store, steps.foldl (fun cache a => a.count cache) s.cache⟩

lemma solo_send {ι : Type} (i : ι) (steps : List SendStep) (s : StatsState) :
    Solo statsTaskStep i s (.send steps) (runAll steps s) (.send []) := by
  induction steps generalizing s with
  | nil => exact .refl s _
  | cons a steps ih => exact .of_eq rfl (ih _)

lemma all_foldl_create (hnd : (copies.map Message.id).Nodup)
    (hw : ∀ copy ∈ copies, s.messages.load copy.id = none) :
    ((copies.map create).foldl (fun s a => a.write s) s).messages.all
      = copies.reverse ++ s.messages.all := by
  induction copies generalizing s with
  | nil => rfl
  | cons copy copies ih =>
    rw [map_cons, nodup_cons] at hnd
    rw [forall_mem_cons] at hw
    have hall : (s.messages.put copy).all = copy :: s.messages.all := all_put_of_fresh hw.1
    rw [map_cons, List.foldl_cons, ih hnd.2 fun copy' hcp' => ?_]
    · simp [write, hall]
    · have hne : copy'.id ≠ copy.id := fun heq => hnd.1 (heq ▸ mem_map_of_mem hcp')
      exact (load_put_of_ne hne).trans (hw.2 copy' hcp')

/-- **Taken alone, the steps amount to the send**: the messages of the store and the cache are what
they are after a send and the handler of its event. -/
theorem send_alone {uuid : ℕ → String} {draftID : String} {sent : Message}
    (h : Dispatched uuid u s s' draftID sent copies)
    (hnamed : s.messages.Named) (hid : sent.id ≠ "")
    (hw : ∀ msg ∈ sent :: copies, s.messages.load msg.id = none) (cache : StatsCache) :
    ∃ s'' : Store, s''.messages.all = s'.messages.all ∧ Solo statsTaskStep () ⟨s, cache⟩
        (StatsJob.send draftID sent.updatedAt { sent with folderID := folderOutbox }
          (copies.map (·, true))).task
        ⟨s'', cache.onMessageSent u (copies.map Message.ownerID)⟩ (.send []) := by
  set copy : Message := { sent with folderID := folderOutbox } with hcp
  have hnd : ((copy :: copies).map Message.id).Nodup := by
    have hks : (s'.messages.all.map Message.id).Nodup := s'.messages.nodup
    rw [h.all] at hks
    have hsent := hks.sublist ((sublist_append_left (sent :: copies.reverse) _).map _)
    exact (((reverse_perm copies).cons sent).map _).nodup_iff.mp hsent
  set created := ((copy :: copies).map create).foldl (fun s a => a.write s) s with hmade
  have hall : created.messages.all = copies.reverse ++ copy :: s.messages.all := by
    rw [hmade, all_foldl_create hnd (forall_mem_cons.mpr (forall_mem_cons.mp hw))]
    simp
  have hld : created.messages.load copy.id = some copy := load_of_mem (by simp [hall])
  set moved := (moveToSent copy.id sent.updatedAt).write created with hmv
  have hmoved : moved.messages.all = sent :: (copies.reverse ++ s.messages.all) := by
    have hsn : { copy with folderID := folderSent, updatedAt := sent.updatedAt } = sent := by
      rw [hcp, ← h.arrived.folderID]
    have hput : moved.messages = created.messages.put sent := by
      have hid' : copy.id ≠ "" := hid
      simp [hmv, write, Store.moveToFolder, Store.mutate_of_load hid' hld h.arrived.isDraft,
        Update.moveToFolder, hid', hsn]
    rw [hput, ← all_delete_of_append hall]
    rfl
  refine ⟨(deleteDraft draftID).write moved, ?_, ?_⟩
  · have hkp : ∀ msg ∈ sent :: copies.reverse, UserMailbox.notDraft draftID msg = true := by
      intro msg hmsg
      have hdr : msg.isDraft = false := by
        rcases mem_cons.mp hmsg with rfl | hmem
        · exact h.arrived.isDraft
        · exact (h.copies msg (mem_reverse.mp hmem)).1.isDraft
      simp [UserMailbox.notDraft, hdr]
    by_cases hemp : draftID = ""
    · subst hemp
      have hself : s.messages.all.filter (UserMailbox.notDraft "") = s.messages.all :=
        filter_eq_self.mpr fun msg hmsg => by simp [UserMailbox.notDraft, hnamed msg hmsg]
      rw [h.all, hself]
      exact hmoved
    · rw [h.all, ← cons_append, ← filter_eq_self.mpr hkp, ← filter_append, cons_append, ← hmoved]
      exact UserMailbox.all_deleteDraft hemp
  · convert solo_send () (StatsJob.sendSteps draftID sent.updatedAt copy (copies.map (·, true)))
      ⟨s, cache⟩ using 1
    · rfl
    · have hany : (copies.map (·, true)).any (·.2) = true := by
        obtain ⟨c, l, rfl⟩ := exists_cons_of_ne_nil h.somebody
        rfl
      simp only [runAll, StatsJob.sendSteps, hany, if_true, hmv, hmade, List.map_map,
        List.filter_map, Function.comp_def, Bool.not_true, filter_false, filter_true, map_nil,
        map_cons, List.map_id', nil_append, foldl_append, List.foldl_cons, foldl_map, foldl_fixed, write, SendStep.count]
      rw [StatsCache.onMessageSent, ← h.owner, foldl_map]

theorem send_alone_note : ∃ s job,
    s.messages.all = (sendNote.serve (freshInstance .empty)).state.store.messages.all
      ∧ Solo statsTaskStep () ⟨Store.new, ∅⟩ (StatsJob.task job)
        ⟨s, (sendNote.serve (freshInstance .empty)).handled.cache⟩ (.send []) := by
  have hturn : sendNote.Reliable unaryID := reliable_plainTurn _ _
  obtain ⟨_, sent, _, h, hcache⟩ := dispatched_of_message (i := freshInstance .empty)
    idSource_unaryID hturn (fresh_new unaryID) rfl rfl (by decide)
  have hid : sent.id ≠ "" := by
    rw [h.id]
    decide
  obtain ⟨s, hall, hsolo⟩ := send_alone h (fun _ hmsg => by cases hmsg) hid (fun _ _ => rfl) ∅
  exact ⟨s, _, hall, hcache ▸ hsolo⟩

end Mailbox.Service
