import Mathlib.Data.List.Infix
import Mailbox.Lib.Machine
import Mailbox.Notify.RedisLog

/-!
# Cleaning up the streams in Redis

`Cleanup` and `cleanupKey` of `notify/redis/store.go`.  For every key, `cleanupKey` reads the newest
entry: a stream whose newest entry is old is deleted as a whole, any other is trimmed.  Two things
can make it delete recent events.

**The comparison.**  The newest ID is compared with `<cutoff>-0` *as a text*, which orders numbers
only if they have equally many digits, and counts `<cutoff>-0` itself as old.  `Misread` says which
IDs are taken for old ones wrongly (`text_le_minID_iff`).

**The race.**  An event that is saved between the read and the `DEL` is deleted with the rest.

**The pattern.**  With hash tags, the keys start with a brace and the scanned pattern does not:
`scan_reaches_iff`.

* `CleanupSystem` — the logs, and the cleanup of a key in progress, one command a step.  Which keys
  are visited is left to the run.

**`recent_kept_while_safe`**: recent events are kept while all steps are `Safe`.
-/

namespace Mailbox.Notify

open EventLog List

/-! ## The cutoff -/

/-- `minID`: `<cutoff>-0`, or the empty text for the zero time. -/
def minID : Option ℤ → String
  | none => ""
  | some cutoff => cutoff.repr ++ "-0"

variable (olderThan : Option ℤ)

/-- The event is not older than the cutoff; nothing is older than the zero time. -/
def Recent (id : StreamID) : Prop :=
  match olderThan with
  | none => True
  | some cutoff => cutoff ≤ id.ms

instance (olderThan : Option ℤ) (id : StreamID) : Decidable (Recent olderThan id) :=
  match olderThan with
  | none => isTrue trivial
  | some _ => inferInstanceAs (Decidable (_ ≤ _))

/-- The ID is that of the cutoff, or it has more digits and its text comes first. -/
def Misread (cutoff : ℤ) (id : StreamID) : Prop :=
  ∃ n : ℕ, cutoff = n ∧ (id = ⟨n, 0⟩ ∨
    (Nat.toDigits 10 n).length < (Nat.toDigits 10 id.ms).length ∧ id.text ≤ minID (some cutoff))

lemma minID_eq_text (n : ℕ) : minID (some n) = (⟨n, 0⟩ : StreamID).text := by
  show n.repr ++ "-0" = n.repr ++ "-" ++ Nat.repr 0
  rw [String.append_assoc]
  rfl

lemma zero_lt_toDigits {n : ℕ} (hn : n ≠ 0) : Nat.toDigits 10 0 < Nat.toDigits 10 n := by
  obtain ⟨d, rest, hdig, hle⟩ := Decimal.exists_toDigits_eq_cons n
  rw [hdig, Nat.toDigits_zero, cons_lt_cons_iff]
  rcases lt_or_eq_of_le hle with hlt | rfl
  · exact .inl hlt
  · refine .inr ⟨rfl, ?_⟩
    cases rest with
    | nil => exact absurd (Decimal.toDigits_inj (n := 0) hdig) hn
    | cons => exact nil_lt_cons _ _

/-- A time before the epoch is before all IDs, as a text. -/
lemma minID_negSucc_lt (n : ℕ) (id : StreamID) : minID (some (Int.negSucc n)) < id.text := by
  obtain ⟨d, rest, hdig, hle⟩ := Decimal.exists_toDigits_eq_cons id.ms
  have hmin : minID (some (Int.negSucc n)) = "-" ++ (Nat.repr (n + 1) ++ "-0") := by
    show "-" ++ Nat.repr (n + 1) ++ "-0" = _
    rw [String.append_assoc]
  rw [String.lt_iff_toList_lt, StreamID.toList_text, hmin, hdig, String.toList_append]
  show '-' :: _ < d :: _
  rw [cons_lt_cons_iff]
  exact .inl (lt_of_lt_of_le (by decide) hle)

variable {id : StreamID}

/-- Among times with equally many digits, only the ID of the cutoff itself is not after it. -/
lemma text_lt_of_length {n : ℕ} (hle : n ≤ id.ms) (hne : id ≠ ⟨n, 0⟩)
    (hlen : (Nat.toDigits 10 id.ms).length ≤ (Nat.toDigits 10 n).length) :
    (⟨n, 0⟩ : StreamID).text < id.text := by
  rw [String.lt_iff_toList_lt, StreamID.toList_text, StreamID.toList_text]
  rcases lt_or_eq_of_le hle with hlt | heq
  · have hlen' := le_antisymm (Decimal.length_toDigits_mono hle) hlen
    exact Decimal.append_lt_append hlen' (Decimal.toDigits_lt_toDigits hlt hlen')
  · have hseq : id.seq ≠ 0 := by
      intro hseq
      refine hne ?_
      rw [heq, ← hseq]
    rw [heq, Decimal.append_lt_append_left, cons_lt_cons_iff]
    exact .inr ⟨rfl, zero_lt_toDigits hseq⟩

/-- A recent ID is taken for an old one exactly if it is misread. -/
lemma text_le_minID_iff {cutoff : ℤ} (hrecent : cutoff ≤ id.ms) :
    id.text ≤ minID (some cutoff) ↔ Misread cutoff id := by
  constructor
  · intro hle
    cases cutoff with
    | ofNat n =>
      refine ⟨n, rfl, ?_⟩
      by_contra hn
      rw [not_or, not_and] at hn
      have hlen := not_lt.mp fun hlt => hn.2 hlt hle
      have hlt := text_lt_of_length (Int.ofNat_le.mp hrecent) hn.1 hlen
      rw [← minID_eq_text] at hlt
      exact absurd hle (not_le.mpr hlt)
    | negSucc n => exact absurd hle (not_le.mpr (minID_negSucc_lt n id))
  · rintro ⟨n, rfl, rfl | ⟨-, hle⟩⟩
    · rw [minID_eq_text]
    · exact hle

lemma Misread.le {cutoff : ℤ} (h : Misread cutoff id) : cutoff ≤ id.ms := by
  obtain ⟨n, rfl, rfl | ⟨hlen, -⟩⟩ := h
  · exact le_refl _
  · rw [Int.ofNat_le]
    by_contra hn
    exact absurd hlen (not_lt.mpr (Decimal.length_toDigits_mono (le_of_lt (not_le.mp hn))))

/-! ## The cleanup -/

/-- Where the cleanup is: between two keys, or about to delete or to trim one. -/
inductive CleanupPhase where
  | idle
  | deleting (key : String)
  | trimming (key : String)
  deriving DecidableEq, Repr

/-- The logs, the cleanup in progress, and what it has removed. -/
structure CleanupSystem where
  logs : String → RedisLog
  phase : CleanupPhase
  removed : List (StreamID × Event)

inductive CleanupAction where
  | save (key : String) (now : ℕ) (evt : Event)
  | evict (key : String) (n : ℕ)
  | visit (key : String)
  | command
  | fail
  deriving DecidableEq, Repr

/-- What `cleanupKey` decides, by the newest entry. -/
def cleanupDecision (minID : String) (key : String) (log : RedisLog) : CleanupPhase :=
  match log.entries.getLast? with
  | none => .deleting key
  | some last =>
    if minID = "" then .idle
    else if last.1.text ≤ minID then .deleting key
    else .trimming key

/-- The ID that `XTRIM MINID` takes the text for.  It refuses negative times. -/
def trimID : Option ℤ → Option StreamID
  | some (.ofNat n) => some ⟨n, 0⟩
  | _ => none

/-- `XTRIM key MINID minID`: the entries that stay, and those that are removed. -/
def xtrim (log : RedisLog) : RedisLog × List (StreamID × Event) :=
  match trimID olderThan with
  | none => (log, [])
  | some min => (log.filter fun id => min ≤ id, log.entries.filter fun e => e.1 < min)

namespace CleanupSystem

/-- One step.  `Save` may also make Redis evict the oldest entries, and every command may fail. -/
def step (sys : CleanupSystem) : CleanupAction → CleanupSystem
  | .save key now evt =>
    { sys with logs := Function.update sys.logs key (xadd now evt (sys.logs key)) }
  | .evict key n => { sys with logs := Function.update sys.logs key ((sys.logs key).drop n) }
  | .visit key =>
    match sys.phase with
    | .idle => { sys with phase := cleanupDecision (minID olderThan) key (sys.logs key) }
    | _ => sys
  | .command =>
    match sys.phase with
    | .idle => sys
    | .deleting key =>
      { logs := Function.update sys.logs key .empty
        phase := .idle
        removed := sys.removed ++ (sys.logs key).entries }
    | .trimming key =>
      { logs := Function.update sys.logs key (xtrim olderThan (sys.logs key)).1
        phase := .idle
        removed := sys.removed ++ (xtrim olderThan (sys.logs key)).2 }
  | .fail => { sys with phase := .idle }

def run (as : List CleanupAction) (sys : CleanupSystem) : CleanupSystem :=
  as.foldl (step olderThan) sys

/-- Any logs, before the cleanup. -/
def start (logs : String → RedisLog) : CleanupSystem := ⟨logs, .idle, []⟩

/-- No recent event has been removed. -/
def RecentKept (sys : CleanupSystem) : Prop :=
  ∀ e ∈ sys.removed, ¬ Recent olderThan e.1

instance (olderThan : Option ℤ) (sys : CleanupSystem) : Decidable (sys.RecentKept olderThan) :=
  inferInstanceAs (Decidable (∀ e ∈ _, _))

/-- The newest entry of a key that is visited is not misread, and no recent event is saved to a key
that is about to be deleted. -/
def Safe (sys : CleanupSystem) : CleanupAction → Prop
  | .save key now _ =>
    sys.phase = .deleting key → ¬ Recent olderThan (nextID now (sys.logs key).lastID)
  | .visit key =>
    sys.phase = .idle → ∀ cutoff last, olderThan = some cutoff →
      (sys.logs key).entries.getLast? = some last → ¬ Misread cutoff last.1
  | _ => True

/-! ## Safe steps -/

/-- Nothing recent has been removed, and none is in a log that is about to be deleted. -/
structure Careful (olderThan : Option ℤ) (sys : CleanupSystem) : Prop where
  kept : sys.RecentKept olderThan
  stale : ∀ key, sys.phase = .deleting key → ∀ e ∈ (sys.logs key).entries, ¬ Recent olderThan e.1

variable {olderThan : Option ℤ} {sys : CleanupSystem} {a : CleanupAction} {key : String}
  {log : RedisLog} {e : StreamID × Event}

lemma not_recent_of_mem_xtrim (he : e ∈ (xtrim olderThan log).2) : ¬ Recent olderThan e.1 := by
  match olderThan, he with
  | none, he => cases he
  | some (.negSucc n), he => cases he
  | some (.ofNat n), he =>
    intro hrecent
    have hlt : e.1 < ⟨n, 0⟩ := by simpa [trimID] using (mem_filter.mp he).2
    have hle : n ≤ e.1.ms := Int.ofNat_le.mp hrecent
    rw [StreamID.lt_def] at hlt
    simp only at hlt
    omega

lemma recent_mono {id' : StreamID} (h : Recent olderThan id) (hle : id ≤ id') :
    Recent olderThan id' := by
  cases olderThan with
  | none => trivial
  | some =>
    have hms : id.ms ≤ id'.ms := by
      rcases lt_or_eq_of_le hle with hlt | rfl
      · rw [StreamID.lt_def] at hlt
        omega
      · exact le_refl _
    exact le_trans h (Int.ofNat_le.mpr hms)

/-- A log that `cleanupKey` decides to delete has nothing recent, unless its newest entry was
misread. -/
lemma stale_of_decision
    (hrd : ∀ cutoff last, olderThan = some cutoff → log.entries.getLast? = some last →
      ¬ Misread cutoff last.1) {key' : String}
    (hdec : cleanupDecision (minID olderThan) key log = .deleting key') :
    key' = key ∧ ∀ e ∈ log.entries, ¬ Recent olderThan e.1 := by
  unfold cleanupDecision at hdec
  cases hl : log.entries.getLast? with
  | none =>
    simp only [hl, CleanupPhase.deleting.injEq] at hdec
    rw [getLast?_eq_none_iff.mp hl]
    exact ⟨hdec.symm, by simp⟩
  | some last =>
    simp only [hl] at hdec
    split_ifs at hdec with hmin hle
    refine ⟨(CleanupPhase.deleting.inj hdec).symm, fun e he hrecent => ?_⟩
    have hrecent' := recent_mono hrecent (Log.le_of_getLast? hl he)
    cases olderThan with
    | none => exact hmin rfl
    | some cutoff =>
      exact hrd cutoff last rfl hl ((text_le_minID_iff hrecent').mp hle)

lemma Careful.step (h : sys.Careful olderThan) (hsafe : sys.Safe olderThan a) :
    (sys.step olderThan a).Careful olderThan := by
  cases a with
  | fail => exact ⟨h.kept, fun _ hph => nomatch hph⟩
  | save key now evt =>
    refine ⟨h.kept, fun key' hph e he => ?_⟩
    by_cases hk : key' = key
    · subst hk
      have hlog : e ∈ (xadd now evt (sys.logs key')).entries := by
        simpa [CleanupSystem.step] using he
      rcases mem_append.mp hlog with hold | hw
      · exact h.stale key' hph e hold
      · rw [mem_singleton.mp hw]
        exact hsafe hph
    · refine h.stale key' hph e ?_
      simpa [CleanupSystem.step, hk] using he
  | evict key n =>
    refine ⟨h.kept, fun key' hph e he => h.stale key' hph e ?_⟩
    by_cases hk : key' = key
    · subst hk
      have hlog : e ∈ ((sys.logs key').drop n).entries := by
        simpa [CleanupSystem.step] using he
      exact mem_of_mem_drop hlog
    · simpa [CleanupSystem.step, hk] using he
  | visit key =>
    cases hph : sys.phase with
    | idle =>
      have hstep : sys.step olderThan (.visit key)
          = { sys with phase := cleanupDecision (minID olderThan) key (sys.logs key) } := by
        simp only [CleanupSystem.step, hph]
      rw [hstep]
      refine ⟨h.kept, fun key' hdec => ?_⟩
      obtain ⟨rfl, hstale⟩ := stale_of_decision (hsafe hph) hdec
      exact hstale
    | deleting | trimming => simpa only [CleanupSystem.step, hph] using h
  | command =>
    cases hph : sys.phase with
    | idle => simpa only [CleanupSystem.step, hph] using h
    | deleting key =>
      simp only [CleanupSystem.step, hph]
      refine ⟨fun e he => ?_, fun _ hidle => nomatch hidle⟩
      rcases mem_append.mp he with hold | hw
      · exact h.kept e hold
      · exact h.stale key hph e hw
    | trimming =>
      simp only [CleanupSystem.step, hph]
      refine ⟨fun e he => ?_, fun _ hidle => nomatch hidle⟩
      rcases mem_append.mp he with hold | hw
      · exact h.kept e hold
      · exact not_recent_of_mem_xtrim hw

/-! ## Other steps -/

/-- The command of a cleanup that is about to delete a log with a recent event. -/
lemma not_recentKept_command (hph : sys.phase = .deleting key)
    (he : e ∈ (sys.logs key).entries) (hrecent : Recent olderThan e.1) :
    ¬ (sys.step olderThan .command).RecentKept olderThan := by
  intro hkp
  refine hkp e ?_ hrecent
  simp only [step, hph]
  exact mem_append_right _ he

/-- **After a step that is not safe the cleanup removes a recent event.** -/
lemma not_recentKept_of_not_safe (hsafe : ¬ sys.Safe olderThan a) :
    ¬ ((sys.step olderThan a).step olderThan .command).RecentKept olderThan := by
  cases a with
  | evict | command | fail => exact absurd trivial hsafe
  | save key now evt =>
    simp only [Safe, not_forall, not_not] at hsafe
    obtain ⟨hph, hrecent⟩ := hsafe
    have hmem : (nextID now (sys.logs key).lastID, evt)
        ∈ ((sys.step olderThan (.save key now evt)).logs key).entries := by
      simp [step, xadd, Log.append]
    exact not_recentKept_command hph hmem hrecent
  | visit key =>
    simp only [Safe, not_forall, not_not] at hsafe
    obtain ⟨hph, cutoff, last, rfl, hl, hmisread⟩ := hsafe
    have hle := (text_le_minID_iff hmisread.le).mpr hmisread
    have hmin : minID (some cutoff) ≠ "" := by
      intro hemp
      have hlen := congrArg String.length hemp
      simp [minID] at hlen
    have hdec : (sys.step (some cutoff) (.visit key)).phase = .deleting key := by
      simp only [step, hph, cleanupDecision, hl, if_neg hmin, if_pos hle]
    have hlogs : (sys.step (some cutoff) (.visit key)).logs key = sys.logs key := by
      simp only [step, hph]
    refine not_recentKept_command hdec ?_ hmisread.le
    rw [hlogs]
    exact mem_of_getLast? hl

/-- **Recent events are kept as long as all steps are safe.**  Otherwise the cleanup removes an
event that is not older than the cutoff, if its next command follows the first step that is not
safe. -/
theorem recent_kept_while_safe (olderThan : Option ℤ) (logs : String → RedisLog)
    (as : List CleanupAction) :
    ((∀ e ∈ Machine.steps (step olderThan) as (start logs), Safe olderThan e.1 e.2) →
      ∀ n, RecentKept olderThan ((start logs).run olderThan (as.take n)))
    ∧ ((¬ ∀ e ∈ Machine.steps (step olderThan) as (start logs), Safe olderThan e.1 e.2) →
      ∃ before a after, as = before ++ a :: after
        ∧ ¬ RecentKept olderThan ((start logs).run olderThan (before ++ [a, .command]))) := by
  have hstep : ∀ (sys : CleanupSystem) a, sys.Careful olderThan → sys.Safe olderThan a →
      (sys.step olderThan a).Careful olderThan := fun sys a h hsafe => h.step hsafe
  have hst : (start logs).Careful olderThan := ⟨fun _ he => (nomatch he), fun _ hph => nomatch hph⟩
  refine ⟨fun hsafe n => (Machine.steps_induction hstep hsafe hst n).kept, fun hn => ?_⟩
  obtain ⟨before, a, after, rfl, ha, -⟩ := Machine.exists_first_of_not_steps hn
  refine ⟨before, a, after, rfl, ?_⟩
  rw [run, List.foldl_append]
  exact not_recentKept_of_not_safe ha

def oldNews : Event := ⟨"", "mailbox.message.received", "ann", [], 0⟩

/-- One stream, with events at the given times. -/
def annsLogs (times : List ℕ) : String → RedisLog :=
  Function.update (fun _ => .empty) "ann" (times.foldl (fun log now => xadd now oldNews log) .empty)

/-- The newest event is old, and it is the stream that is deleted. -/
theorem recent_kept_ann : RecentKept (some 20000)
      ((start (annsLogs [10000, 15000])).run (some 20000) [.visit "ann", .command]) := by
  refine (recent_kept_while_safe (some 20000) (annsLogs [10000, 15000])
    [.visit "ann", .command]).1 ?_ 2
  intro e he
  simp only [Machine.steps, List.mem_cons, List.not_mem_nil, or_false] at he
  rcases he with rfl | rfl
  · rintro - cutoff last ⟨⟩ hl ⟨n, hn, hmisread⟩
    cases hl
    obtain rfl : n = 20000 := by omega
    revert hmisread
    decide
  · trivial

/-- The event at `10000` is recent, but `10000-0` comes before `9999-0` as a text. -/
theorem recent_event_removed : ¬ RecentKept (some 9999)
      ((start (annsLogs [10000])).run (some 9999) [.visit "ann", .command]) := by
  decide

end CleanupSystem

/-! ## The keys that are visited -/

/-- The first character passes a test, and the rest another one. -/
def firstThen (test : Char → Bool) (rest : List Char → Bool) : List Char → Bool
  | [] => false
  | d :: t => test d && rest t

mutual

/-- Whether a text matches a pattern of `SCAN`. -/
def globMatch : List Char → List Char → Bool
  | [] => (·.isEmpty)
  | '*' :: p => fun t => t.tails.any (globMatch p)
  | '?' :: p => firstThen (fun _ => true) (globMatch p)
  | '[' :: '^' :: p => globClass true (fun _ => false) p
  | '[' :: p => globClass false (fun _ => false) p
  | '\\' :: c :: p => firstThen (c == ·) (globMatch p)
  | c :: p => firstThen (c == ·) (globMatch p)

/-- The rest of a pattern, within a class of characters: those that `found` tells, or the others. -/
def globClass (negated : Bool) (found : Char → Bool) : List Char → List Char → Bool
  | [] => firstThen (fun d => found d != negated) (·.isEmpty)
  | '\\' :: c :: p => globClass negated (fun d => found d || c == d) p
  | ']' :: p => firstThen (fun d => found d != negated) (globMatch p)
  | a :: '-' :: b :: p =>
    globClass negated (fun d => found d || decide (a ≤ d ∧ d ≤ b ∨ b ≤ d ∧ d ≤ a)) p
  | c :: p => globClass negated (fun d => found d || c == d) p

end

/-- The characters that do not stand for themselves, and the brace. -/
def special : List Char := ['*', '?', '[', ']', '\\', '\x7b']

lemma globMatch_literal {c : Char} {p t : List Char} (hc : c ∉ special) :
    globMatch (c :: p) t = firstThen (c == ·) (globMatch p) t := by
  simp only [special, mem_cons, not_mem_nil, or_false, not_or] at hc
  cases p <;> simp [globMatch, hc]

lemma globMatch_append {l p t : List Char} (hl : ∀ c ∈ l, c ∉ special) :
    globMatch (l ++ p) (l ++ t) = globMatch p t := by
  induction l with
  | nil => rfl
  | cons c l ih =>
    have hl' := forall_mem_cons.mp hl
    rw [cons_append, cons_append, globMatch_literal hl'.1, firstThen, ih hl'.2,
      beq_self_eq_true, Bool.true_and]

structure RedisOptions where
  keyPrefix : String
  hashTag : Bool

namespace RedisOptions

variable (o : RedisOptions)

/-- The key of the stream that `Save` adds to. -/
def key (userID : String) : String :=
  if o.hashTag then "\x7b" ++ o.keyPrefix ++ ":" ++ userID ++ "\x7d"
  else o.keyPrefix ++ ":" ++ userID

/-- The pattern that `Cleanup` scans with. -/
def pattern : String := o.keyPrefix ++ ":*"

/-- **The cleanup reaches the streams** exactly if there are no hash tags. -/
theorem scan_reaches_iff (o : RedisOptions) (userID : String)
    (hliteral : ∀ c ∈ o.keyPrefix.toList, c ∉ special) :
    globMatch o.pattern.toList (o.key userID).toList = true ↔ o.hashTag = false := by
  rw [pattern, key, String.toList_append]
  cases o.hashTag with
  | false =>
    simp only [Bool.false_eq_true, if_false, String.toList_append, append_assoc]
    rw [globMatch_append hliteral]
    show globMatch [':', '*'] (':' :: userID.toList) = true ↔ _
    simp [globMatch, firstThen]
  | true =>
    refine iff_of_false ?_ nofun
    simp only [if_true, String.toList_append, append_assoc]
    show globMatch (o.keyPrefix.toList ++ [':', '*']) ('\x7b' :: _) ≠ true
    rcases hcs : o.keyPrefix.toList with _ | ⟨c, l⟩
    · simp [globMatch, firstThen]
    · rw [hcs, forall_mem_cons] at hliteral
      have hb : c ≠ '\x7b' := fun hc => hliteral.1 (hc ▸ by decide)
      rw [cons_append, globMatch_literal hliteral.1, firstThen]
      simp [hb]

/-- Without hash tags, a user's stream is reached. -/
theorem scan_reaches_plain : globMatch "notify:*".toList "notify:ann".toList = true :=
  (scan_reaches_iff ⟨"notify", false⟩ "ann" (by simp [special])).mpr rfl

/-- With hash tags, `{notify:ann}` is not: the pattern is `notify:*`. -/
theorem scan_misses_tagged :
    globMatch (pattern ⟨"notify", true⟩).toList (key ⟨"notify", true⟩ "ann").toList = false := by
  decide

end RedisOptions

end Mailbox.Notify
