import Mailbox.Lib.Pool
import Mailbox.Memory.Write

/-!
# Claiming a message by a conditional move

`MoveToFolder` of `mutate.go` with `FromFolder` is the primitive by which workers of one mailbox
share out messages: whoever moves the message out of the common folder has claimed it.  The store's
conditional move is a compare-and-swap.  The service, however, reads the message first, and
returns without asking the store when it finds the message in the target folder already.

Each call takes two atomic steps, the read and the move.  `Claimed` is the invariant of the runs in
which no call reads the message after it has been moved; `LateReader` is what remains of a call that
does.  **`claim_exactly_one_iff`**: exactly one call succeeds iff there is no late reader.
-/

namespace Mailbox.Service

open Memory Pool

/-! ## The call -/

/-- `getAndVerify` retrieves a message and verifies the current user owns it. -/
def getAndVerify (userID messageID : String) (s : Store) : Except Error Message :=
  match s.get messageID with
  | .error e => .error (.wrap "get message" e)
  | .ok msg => if msg.ownerID = userID then .ok msg else .error (.sentinel .unauthorized)

/-- How the event of one call fares: the error of the publisher, if any, and whether the service is
configured to report it. -/
structure Publish where
  err : Option Error
  eventErrorsFatal : Bool

/-- `opAndPublish` wraps a store operation with event publishing. -/
def opAndPublish {σ : Type} (publish : Publish) (eventName messageID : String)
    (op : σ → Result × σ) (s : σ) : Result × σ :=
  match op s with
  | (.error e, s) => (.error e, s)
  | (.ok _, s) =>
    match publish.err with
    | none => (.ok (), s)
    | some err =>
      if publish.eventErrorsFatal then (.error (.eventPublish eventName messageID err), s)
      else (.ok (), s)

def eventNameMessageMoved : String := "mailbox.message.moved"

/-- `moveAndPublish` moves a message to a folder and publishes the event, with the `opAndPublish` of
the caller.  A message that was read from the target folder is left alone. -/
def moveAndPublish {α : Type} (unmoved : α) (opAndPublish : StoreOp → α)
    (now : Time) (messageID fromFolderID toFolderID : String) (opts : MoveOptions) : α :=
  if fromFolderID = toFolderID then unmoved
  else opAndPublish (Store.moveToFolder now messageID toFolderID opts)

/-- Where a call of `MoveToFolder` stands. -/
inductive MovePC where
  | start
  | read (msg : Message)
  | done (result : Result)

/-- The parameters the calls share. -/
structure MoveCall where
  now : Time
  userID : String
  messageID : String
  fromFolderID : String
  toFolderID : String

variable {ι : Type}

/-- The atomic steps of `MoveToFolder(id, to, FromFolder(from))`: validation and `Get`, then the
rest. -/
def moveStep (call : MoveCall) (publish : ι → Publish) (i : ι) (s : Store) : MovePC → Store × MovePC
  | .start =>
    if isValidFolderID call.toFolderID = false then
      (s, .done (.error (.detail (mailboxError .invalidFolderID) call.toFolderID)))
    else if call.fromFolderID ≠ "" ∧ isValidFolderID call.fromFolderID = false then
      (s, .done (.error (.detail (mailboxError .invalidFolderID) call.fromFolderID)))
    else
      match getAndVerify call.userID call.messageID s with
      | .error e => (s, .done (.error e))
      | .ok msg => (s, .read msg)
  | .read msg =>
    let (result, s) := moveAndPublish (.ok (), s)
      (fun op => opAndPublish (publish i) eventNameMessageMoved call.messageID op s) call.now
      call.messageID msg.folderID call.toFolderID (fromFolder call.fromFolderID)
    (s, .done result)
  | .done result => (s, .done result)

/-! ## The statement -/

/-- What a call that loses the race returns. -/
def folderMismatch : Result := .error (.sentinel .folderMismatch)

/-- Once a call has returned, exactly one has returned `nil`, and all others that have returned
reported the mismatch. -/
def ExactlyOneClaim (c : Config ι Store MovePC) : Prop :=
  (∃ i r, c.loc i = .done r) → ∃ winner, c.loc winner = .done (.ok ())
      ∧ ∀ j ≠ winner, ∀ r, c.loc j = .done r → r = folderMismatch

/-- The step is not the read of a message that is in the target folder already. -/
def NoLateRead (call : MoveCall) (i : ι) (c : Config ι Store MovePC) : Prop :=
  c.loc i = .start → ∀ m, c.shared.messages.load call.messageID = some m →
    m.folderID ≠ call.toFolderID

def allStart (s : Store) : Config ι Store MovePC := ⟨s, fun _ => .start⟩

/-- What the calls take for granted: valid folders, two different ones, and events that do not
fail the call. -/
structure MoveCall.Ready (call : MoveCall) (publish : ι → Publish) : Prop where
  id : call.messageID ≠ ""
  ne : call.fromFolderID ≠ call.toFolderID
  validFrom : isValidFolderID call.fromFolderID = true
  validTo : isValidFolderID call.toFolderID = true
  publish : ∀ i, (publish i).err = none ∨ (publish i).eventErrorsFatal = false

/-- The message is in the folder, and belongs to the user. -/
def MessageIn (call : MoveCall) (s : Store) (folderID : String) : Prop :=
  ∃ m, s.messages.load call.messageID = some m ∧ m.ownerID = call.userID ∧ m.isDraft = false
    ∧ m.folderID = folderID

/-! ## What one step does -/

variable {call : MoveCall} {publish : ι → Publish} {i : ι} {s : Store} {msg : Message}

section

variable (hready : call.Ready publish)

include hready

lemma moveStep_start {folderID : String} (hmsg : MessageIn call s folderID) :
    ∃ m, m.folderID = folderID ∧ moveStep call publish i s .start = (s, .read m) := by
  obtain ⟨m, hld, hown, hdr, hfo⟩ := hmsg
  refine ⟨m, hfo, ?_⟩
  simp [moveStep, hready.validTo, hready.validFrom, getAndVerify, Store.get, hready.id, hld,
    hdr, hown]

lemma moveToFolder_of_from {m : Message}
    (hld : s.messages.load call.messageID = some m) (hdr : m.isDraft = false) :
    Store.moveToFolder call.now call.messageID call.toFolderID (fromFolder call.fromFolderID) s
      = if m.folderID = call.fromFolderID then
          (.ok (), s.put { m with folderID := call.toFolderID, updatedAt := call.now })
        else (folderMismatch, s) := by
  have hne : call.fromFolderID ≠ "" := by
    intro h
    have hval := hready.validFrom
    rw [h] at hval
    cases hval
  rw [Store.moveToFolder, if_neg hready.id, if_neg (by simp [fromFolder, hready.validFrom]),
    Store.mutate_of_load hready.id hld hdr]
  by_cases hfrom : m.folderID = call.fromFolderID
  · simp [Update.moveToFolder, fromFolder, hfrom]
  · simp [Update.moveToFolder, fromFolder, hfrom, hne, folderMismatch]

/-- The move that finds the message where it was read. -/
lemma moveStep_read_claims (hrd : msg.folderID = call.fromFolderID)
    (hmsg : MessageIn call s call.fromFolderID) :
    ∃ s', moveStep call publish i s (.read msg) = (s', .done (.ok ()))
      ∧ MessageIn call s' call.toFolderID := by
  obtain ⟨m, hld, hown, hdr, hfo⟩ := hmsg
  have hmv := moveToFolder_of_from hready hld hdr
  rw [if_pos hfo] at hmv
  have hne : ¬ msg.folderID = call.toFolderID := by
    rw [hrd]
    exact hready.ne
  refine ⟨s.put { m with folderID := call.toFolderID, updatedAt := call.now }, ?_, ?_⟩
  · simp only [moveStep, moveAndPublish, if_neg hne, opAndPublish, hmv]
    rcases hready.publish i with h | h
    · rw [h]
    · cases (publish i).err with
      | none => rfl
      | some => simp [h]
  · have hid : m.id = call.messageID := Table.key_of_load hld
    refine ⟨{ m with folderID := call.toFolderID, updatedAt := call.now }, ?_, hown, hdr, rfl⟩
    rw [← hid]
    exact Table.load_put_self

/-- The move that comes too late for the message. -/
lemma moveStep_read_loses (hrd : msg.folderID = call.fromFolderID)
    (hmsg : MessageIn call s call.toFolderID) :
    moveStep call publish i s (.read msg) = (s, .done folderMismatch) := by
  obtain ⟨m, hld, _, hdr, hfo⟩ := hmsg
  have hmv := moveToFolder_of_from hready hld hdr
  rw [if_neg (by rw [hfo]; exact hready.ne.symm)] at hmv
  have hne : ¬ msg.folderID = call.toFolderID := by
    rw [hrd]
    exact hready.ne
  simp only [moveStep, moveAndPublish, if_neg hne, opAndPublish, hmv, folderMismatch]

end

/-! ## Runs -/

section Runs

variable {c : Config ι Store MovePC}

/-- A call that has not claimed the message, and has not read it too late. -/
def Unclaiming (call : MoveCall) (pc : MovePC) : Prop :=
  pc = .start ∨ ∃ msg, pc = .read msg ∧ msg.folderID = call.fromFolderID

/-- Either nobody has claimed the message and it is in the common folder, or somebody has and it is
in the target folder. -/
inductive Claimed (call : MoveCall) (c : Config ι Store MovePC) : Prop where
  | free (hmsg : MessageIn call c.shared call.fromFolderID)
      (hall : ∀ i, Unclaiming call (c.loc i))
  | taken (winner : ι) (hmsg : MessageIn call c.shared call.toFolderID)
      (hwinner : c.loc winner = .done (.ok ()))
      (hothers : ∀ j ≠ winner, Unclaiming call (c.loc j) ∨ c.loc j = .done folderMismatch)

lemma Claimed.exactlyOneClaim (hc : Claimed call c) : ExactlyOneClaim c := by
  rintro ⟨i, r, hi⟩
  cases hc with
  | free _ hall =>
    rcases hall i with h | ⟨msg, h, _⟩ <;> rw [h] at hi <;> cases hi
  | taken winner _ hwin hoth =>
    refine ⟨winner, hwin, fun j hj r hr => ?_⟩
    rcases hoth j hj with (h | ⟨msg, h, _⟩) | h <;> rw [h] at hr <;> cases hr
    rfl

/-- A call that has read the message too late: it succeeds, or will, next to the one that has. -/
structure LateReader (call : MoveCall) (i : ι) (c : Config ι Store MovePC) : Prop where
  winner : ∃ w ≠ i, c.loc w = .done (.ok ())
  late : (∃ msg, c.loc i = .read msg ∧ msg.folderID = call.toFolderID) ∨ c.loc i = .done (.ok ())

lemma LateReader.not_exactlyOneClaim (h : LateReader call i c) (hdn : ∃ r, c.loc i = .done r) :
    ¬ ExactlyOneClaim c := by
  intro hone
  obtain ⟨⟨w, hw, hwin⟩, hlate⟩ := h
  have hi : c.loc i = .done (.ok ()) := by
    rcases hlate with ⟨msg, hrd, _⟩ | hi
    · obtain ⟨r, hr⟩ := hdn
      rw [hrd] at hr
      cases hr
    · exact hi
  obtain ⟨winner, _, hoth⟩ := hone ⟨w, _, hwin⟩
  by_cases hwi : i = winner
  · subst hwi
    cases hoth w hw _ hwin
  · cases hoth i hwi _ hi

variable [DecidableEq ι]

lemma claimed_step (hready : call.Ready publish) (hc : Claimed call c) (hok : NoLateRead call i c) :
    Claimed call (stepAt (moveStep call publish) c i) := by
  cases hc with
  | free hmsg hall =>
    rcases hall i with hi | ⟨msg, hi, hrd⟩
    · obtain ⟨m, hfo, hstep⟩ := moveStep_start (i := i) hready hmsg
      refine .free (by simpa [hi, hstep] using hmsg) fun j => ?_
      by_cases hj : j = i
      · subst hj
        exact .inr ⟨m, by simp [hi, hstep], hfo⟩
      · rw [stepAt_loc_of_ne hj]
        exact hall j
    · obtain ⟨s', hstep, hmsg'⟩ := moveStep_read_claims (i := i) hready hrd hmsg
      refine .taken i (by simpa [hi, hstep] using hmsg') (by simp [hi, hstep]) fun j hj => ?_
      rw [stepAt_loc_of_ne hj]
      exact .inl (hall j)
  | taken winner hmsg hwin hoth =>
    let lost (pc : MovePC) := Unclaiming call pc ∨ pc = .done folderMismatch
    by_cases hi : i = winner
    · -- The winner has returned.
      subst hi
      exact .taken i (by simpa [hwin, moveStep] using hmsg) (by simp [hwin, moveStep])
        (forall_ne_stepAt lost hoth fun h => absurd rfl h)
    · have hwin' : (stepAt (moveStep call publish) c i).loc winner = .done (.ok ()) := by
        rw [stepAt_loc_of_ne (Ne.symm hi), hwin]
      rcases hoth i hi with (hst | ⟨msg, hrd, hfrom⟩) | hdn
      · obtain ⟨m, hld, _, _, hfo⟩ := hmsg
        exact absurd hfo (hok hst m hld)
      · have hstep := moveStep_read_loses (i := i) hready hfrom hmsg
        exact .taken winner (by simpa [hrd, hstep] using hmsg) hwin'
          (forall_ne_stepAt lost hoth fun _ => .inr (by simp [hrd, hstep]))
      · exact .taken winner (by simpa [hdn, moveStep] using hmsg) hwin'
          (forall_ne_stepAt lost hoth fun _ => .inr (by simp [hdn, moveStep]))

variable (publish) in
lemma lateReader_step (j : ι) (h : LateReader call i c) :
    LateReader call i (stepAt (moveStep call publish) c j) := by
  obtain ⟨⟨w, hw, hwin⟩, hlate⟩ := h
  refine ⟨⟨w, hw, ?_⟩, ?_⟩
  · by_cases hj : w = j
    · subst hj
      simp [hwin, moveStep]
    · rw [stepAt_loc_of_ne hj, hwin]
  · by_cases hj : i = j
    · subst hj
      rcases hlate with ⟨msg, hrd, hfo⟩ | hdn
      · -- The shortcut: a call that read the message in the target folder succeeds.
        exact .inr (by simp [hrd, moveStep, moveAndPublish, hfo])
      · exact .inr (by simp [hdn, moveStep])
    · rw [stepAt_loc_of_ne hj]
      exact hlate

/-- A late read after a run without any makes a late reader. -/
lemma lateReader_of_not_noLateRead (hready : call.Ready publish) (hc : Claimed call c)
    (hlate : ¬ NoLateRead call i c) : LateReader call i (stepAt (moveStep call publish) c i) := by
  simp only [NoLateRead, not_forall, not_not] at hlate
  obtain ⟨hst, m, hld, hfo⟩ := hlate
  cases hc with
  | free hmsg =>
    obtain ⟨m', hld', _, _, hfo'⟩ := hmsg
    rw [hld, Option.some.injEq] at hld'
    subst hld'
    exact absurd (hfo'.symm.trans hfo) hready.ne
  | taken winner hmsg hwin =>
    have hne : winner ≠ i := by
      rintro rfl
      rw [hwin] at hst
      cases hst
    obtain ⟨m', hm', hstep⟩ := moveStep_start (i := i) hready hmsg
    refine ⟨⟨winner, hne, ?_⟩, .inl ⟨m', by simp [hst, hstep], hm'⟩⟩
    rw [stepAt_loc_of_ne hne, hwin]

end Runs

/-- **The claim primitive.**  However many calls `MoveToFolder(id, to, FromFolder(from))` of one
mailbox interleave on a message in `from`: if no call reads the message after it has been moved,
exactly one of those that return returns `nil` and the others report the mismatch; and a run in
which all return and this is so has no such read. -/
theorem claim_exactly_one_iff [DecidableEq ι] (call : MoveCall) (publish : ι → Publish) (s : Store)
    (hready : call.Ready publish) (hmsg : MessageIn call s call.fromFolderID) (schedule : List ι) :
    (Along (moveStep call publish) (NoLateRead call) schedule (allStart s) →
        Always (moveStep call publish) ExactlyOneClaim schedule (allStart s))
      ∧ ((∀ i, ∃ r, (run (moveStep call publish) schedule (allStart s)).loc i = .done r) →
          ExactlyOneClaim (run (moveStep call publish) schedule (allStart s)) →
            Along (moveStep call publish) (NoLateRead call) schedule (allStart s)) := by
  have hst : Claimed call (allStart (ι := ι) s) := .free hmsg fun _ => .inl rfl
  refine ⟨fun halong => ?_, fun hall hone => ?_⟩
  · exact (along_always (fun _ _ => claimed_step hready) hst halong).imp
      fun _ => Claimed.exactlyOneClaim
  · by_contra hn
    obtain ⟨before, i, after, rfl, hlate, hbef⟩ := exists_of_not_along hn
    have hclaimed := along_induction (fun _ _ => claimed_step hready) hst hbef
    have hrd := lateReader_of_not_noLateRead hready hclaimed hlate
    rw [run_append, run_cons] at hall hone
    have hend := run_induction after (fun _ j => lateReader_step publish j) hrd
    exact hend.not_exactlyOneClaim (hall i) hone

/-- A store with one message in the common folder. -/
def oneInPending : Store :=
  .of <| Table.empty.put { Store.newDraft 0 "u" with
      id := "m", status := .delivered, folderID := "pending", isDraft := false }

def claimCall : MoveCall := ⟨1, "u", "m", "pending", "claimed"⟩

/-- Two workers that both read before either moves: the first to move claims. -/
theorem claim_exactly_one_two_workers :
    ExactlyOneClaim (run (moveStep claimCall fun _ : Bool => ⟨none, false⟩)
      [true, false, true, false] (allStart oneInPending)) := by
  have h := (claim_exactly_one_iff claimCall (fun _ : Bool => ⟨none, false⟩) oneInPending
    ⟨by decide, by decide, by decide, by decide, fun _ => .inl rfl⟩
    ⟨_, rfl, rfl, rfl, rfl⟩ [true, false, true, false]).1
  have hrd : ∀ m, oneInPending.messages.load "m" = some m → m.folderID ≠ "claimed" := by
    rintro m ⟨⟩
    decide
  exact (h ⟨fun _ => hrd, fun _ => hrd, fun hst => MovePC.noConfusion hst,
    fun hst => MovePC.noConfusion hst, trivial⟩).run

/-- Two workers one after the other: both are told that they have claimed the message. -/
theorem claim_twice_in_sequence :
    (run (moveStep claimCall fun _ : Bool => ⟨none, false⟩) [true, true, false, false]
        (allStart oneInPending)).loc true = .done (.ok ())
      ∧ (run (moveStep claimCall fun _ : Bool => ⟨none, false⟩) [true, true, false, false]
        (allStart oneInPending)).loc false = .done (.ok ()) :=
  ⟨rfl, rfl⟩

end Mailbox.Service
