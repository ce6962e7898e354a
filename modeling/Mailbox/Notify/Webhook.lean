import Mathlib.Algebra.Order.Ring.Int
import Mathlib.Data.List.Infix
import Mailbox.Store.Errors

/-!
# Webhooks

`notify/webhook/router.go` posts events to endpoints, signed with a key that the receiver shares.

**Signatures.**  `VerifySignature` takes a timestamp that is a number, and numbers have no dots.  So
the text that is signed, `<timestamp>.<body>`, tells both (`signature_binds`).

**Freshness.**  The age of a request goes through a double and is multiplied to nanoseconds in 64
bits.  From `2 ^ 63` nanoseconds on it is no longer the age, and the answer is right only for the
ages whose nanoseconds leave a remainder of the right size (`fresh_exactly_iff`).

**Delivery.**  Every endpoint is tried until it answers with a success or a 4xx, as often as the
retry limit permits (`route_disciplined`).
-/

namespace Mailbox.Webhook

open List Nat

/-- Strings and byte slices. -/
abbrev Bytes := List UInt8

def ascii (text : String) : Bytes := text.toList.map Char.toUInt8

/-- HMAC-SHA256, and what converting a double to a 64-bit integer gives if it does not fit.  The
length of a digest is left open, so that different messages may have different ones. -/
structure Platform where
  hmac : Bytes → Bytes → Bytes
  hmac_ne_nil : ∀ key msg, hmac key msg ≠ []
  convert : ℕ → ℤ

def hexDigit (n : ℕ) : UInt8 := .ofNat (if n < 10 then 48 + n else 87 + n)

/-- `hex.EncodeToString`. -/
def encodeToString : Bytes → Bytes
  | [] => []
  | b :: bytes => hexDigit (b.toNat / 16) :: hexDigit (b.toNat % 16) :: encodeToString bytes

/-- What stands after the sign, if there is one. -/
def unsigned (s : Bytes) : Bytes := if s.head? = some 45 ∨ s.head? = some 43 then s.tail else s

/-- `strconv.ParseInt(s, 10, 64)`; `none` stands for its errors. -/
def parseInt (s : Bytes) : Option ℤ :=
  if unsigned s ≠ [] ∧ (unsigned s).all (fun d => 48 ≤ d ∧ d ≤ 57) then
    let n : ℤ := (unsigned s).foldl (fun n d => 10 * n + (d.toNat - 48)) 0
    let n := if s.head? = some 45 then -n else n
    if -2 ^ 63 ≤ n ∧ n < 2 ^ 63 then some n else none
  else none

/-- The double for a 64-bit natural number: 53 binary digits, halves to the even one. -/
def float64 (n : ℕ) : ℕ :=
  let ulp := 2 ^ (n.log2 - 52)
  if 2 * (n % ulp) < ulp ∨ 2 * (n % ulp) = ulp ∧ n / ulp % 2 = 0 then n / ulp * ulp
  else (n / ulp + 1) * ulp

namespace Platform

variable (p : Platform)

/-- `sign` computes the HMAC-SHA256 signature over "timestamp.payload". -/
def sign (key timestamp payload : Bytes) : Bytes :=
  encodeToString (p.hmac key (timestamp ++ 46 :: payload))

/-- `time.Duration(age) * time.Second`, in nanoseconds. -/
def elapsed (now ts : ℤ) : ℤ :=
  let age := float64 ((now - ts).bmod (2 ^ 64)).natAbs
  ((if age < 2 ^ 63 then (age : ℤ) else p.convert age) * 10 ^ 9).bmod (2 ^ 64)

def scheme : Bytes := ascii "sha256="

/-- `VerifySignature` verifies an incoming webhook request's signature and rejects requests whose
timestamp falls outside the given tolerance window. -/
def verifySignature (now : ℤ) (secret timestamp body sigHeader : Bytes) (tolerance : ℤ) : Bool :=
  if sigHeader.length ≤ scheme.length then false
  else if sigHeader.take scheme.length ≠ scheme then false
  else if secret.length = 0 then false
  else
    let fresh :=
      if tolerance > 0 then
        match parseInt timestamp with
        | none => false
        | some ts => !decide (p.elapsed now ts > tolerance)
      else true
    fresh && decide (sigHeader.drop scheme.length = p.sign secret timestamp body)

end Platform

lemma hexDigit_inj {m n : ℕ} (hm : m < 16) (hn : n < 16) (h : hexDigit m = hexDigit n) : m = n := by
  rw [hexDigit, hexDigit, ← UInt8.toNat_inj, UInt8.toNat_ofNat', UInt8.toNat_ofNat'] at h
  split_ifs at h <;> omega

lemma encodeToString_injective : Function.Injective encodeToString := by
  intro a
  induction a with
  | nil =>
    rintro (_ | _) h
    · rfl
    · cases h
  | cons x a ih =>
    rintro (_ | ⟨y, b⟩) h
    · cases h
    · rw [encodeToString, encodeToString, cons.injEq, cons.injEq] at h
      have hx := x.toNat_lt
      have hy := y.toNat_lt
      have hhigh := hexDigit_inj (by omega) (by omega) h.1
      have hlow := hexDigit_inj (by omega) (by omega) h.2.1
      rw [ih h.2.2, UInt8.toNat_inj.mp (by omega : x.toNat = y.toNat)]

/-- A text without dots is told from what follows the first dot. -/
lemma append_dot_inj {a a' b b' : Bytes} (ha : 46 ∉ a) (ha' : 46 ∉ a')
    (h : a ++ 46 :: b = a' ++ 46 :: b') : a = a' ∧ b = b' := by
  induction a generalizing a' with
  | nil =>
    rcases a' with _ | ⟨c, a'⟩
    · exact ⟨rfl, (cons.inj h).2⟩
    · rw [← (cons.inj h).1] at ha'
      exact absurd mem_cons_self ha'
  | cons c a ih =>
    rw [mem_cons, not_or] at ha
    rcases a' with _ | ⟨d, a'⟩
    · exact absurd (cons.inj h).1.symm ha.1
    · obtain ⟨rfl, hrest⟩ := cons.inj h
      obtain ⟨rfl, rfl⟩ := ih ha.2 (fun hmem => ha' (mem_cons_of_mem _ hmem)) hrest
      exact ⟨rfl, rfl⟩

lemma dot_not_mem {s : Bytes} {n : ℤ} (h : parseInt s = some n) : 46 ∉ s := by
  rw [parseInt, Option.ite_none_right_eq_some] at h
  intro hdot
  refine absurd (all_eq_true.mp h.1.2 46 ?_) (by decide)
  rw [unsigned]
  split_ifs with hsign
  · rcases s with _ | ⟨c, s⟩
    · exact hdot
    · rcases mem_cons.mp hdot with rfl | hmem
      · exact absurd hsign (by simp)
      · exact hmem
  · exact hdot

namespace Platform

variable {p : Platform} {now tolerance : ℤ} {secret timestamp body sigHeader : Bytes}

/-- What it takes for a signature to be accepted, with a tolerance. -/
lemma verifySignature_iff (htol : 0 < tolerance) :
    p.verifySignature now secret timestamp body sigHeader tolerance = true
      ↔ secret ≠ [] ∧ sigHeader = scheme ++ p.sign secret timestamp body
        ∧ ∃ ts, parseInt timestamp = some ts ∧ p.elapsed now ts ≤ tolerance := by
  by_cases hsch : scheme <+: sigHeader
  · obtain ⟨digest, rfl⟩ := hsch
    rw [verifySignature, length_append, take_left, drop_left, append_right_inj]
    rcases digest with _ | ⟨d, digest⟩
    · -- A digest is not empty.
      rcases hhmac : p.hmac secret (timestamp ++ 46 :: body) with _ | _
      · exact absurd hhmac (p.hmac_ne_nil _ _)
      · simp [sign, hhmac, encodeToString]
    · rcases parseInt timestamp with _ | ts <;> simp [htol, and_comm]
  · refine iff_of_false (fun h => ?_) fun h => hsch ⟨_, h.2.1.symm⟩
    rw [verifySignature, if_pos (fun h => hsch (prefix_iff_eq_take.mpr h.symm))] at h
    split_ifs at h

/-- **A signature binds timestamp and body**: what is accepted with the same header, at any times,
is the same request. -/
theorem signature_binds (p : Platform) (hhmac : ∀ key, Function.Injective (p.hmac key))
    (secret sigHeader : Bytes) (tolerance : ℤ) (htol : 0 < tolerance)
    (timestamp₁ body₁ timestamp₂ body₂ : Bytes) (now₁ now₂ : ℤ)
    (h₁ : p.verifySignature now₁ secret timestamp₁ body₁ sigHeader tolerance = true)
    (h₂ : p.verifySignature now₂ secret timestamp₂ body₂ sigHeader tolerance = true) :
    timestamp₁ = timestamp₂ ∧ body₁ = body₂ := by
  obtain ⟨-, rfl, ts₁, hts₁, -⟩ := (verifySignature_iff htol).mp h₁
  obtain ⟨-, hsign, ts₂, hts₂, -⟩ := (verifySignature_iff htol).mp h₂
  have hmsg := hhmac _ (encodeToString_injective (append_cancel_left hsign))
  exact append_dot_inj (dot_not_mem hts₁) (dot_not_mem hts₂) hmsg

/-- The closest number to `n` with 53 binary digits, on a tie the even one. -/
def Rounds (n a : ℕ) : Prop :=
  let ulp := 2 ^ (n.log2 - 52)
  let miss := ((n : ℤ) - a).natAbs
  ulp ∣ a ∧ (2 * miss < ulp ∨ 2 * miss = ulp ∧ 2 * ulp ∣ a)

lemma rounds_iff {n a : ℕ} : Rounds n a ↔ a = float64 n := by
  have hpos : 0 < 2 ^ (n.log2 - 52) := Nat.two_pow_pos _
  rw [Rounds, float64]
  generalize 2 ^ (n.log2 - 52) = ulp at hpos
  have hn := div_add_mod n ulp
  have hlt := mod_lt n hpos
  have heven : ∀ m, 2 * ulp ∣ ulp * m ↔ m % 2 = 0 := fun m => by
    rw [mul_comm 2, Nat.mul_dvd_mul_iff_left hpos, Nat.dvd_iff_mod_eq_zero]
  generalize n / ulp = q at hn
  generalize n % ulp = r at hn hlt
  subst hn
  rw [mul_comm q, mul_comm (q + 1), Nat.mul_add_one]
  constructor
  · rintro ⟨⟨m, rfl⟩, hm⟩
    rw [heven] at hm
    -- No other multiple is within half a unit.
    obtain rfl | rfl : m = q ∨ m = q + 1 := by
      rcases lt_trichotomy m q with h | h | h
      · have := mul_le_mul_left ulp h
        rw [mul_succ] at this
        omega
      · exact .inl h
      · rcases lt_or_ge (q + 1) m with h' | h'
        · have := mul_le_mul_left ulp h'
          rw [mul_succ, mul_succ] at this
          omega
        · exact .inr (by omega)
    · rw [if_pos (by omega)]
    · rw [mul_succ] at hm ⊢
      rw [if_neg (by omega)]
  · rintro rfl
    have hq := heven q
    have hq' := heven (q + 1)
    rw [mul_succ] at hq'
    split_ifs with h
    · refine ⟨Dvd.intro _ rfl, ?_⟩
      rw [hq]
      omega
    · refine ⟨Dvd.intro (q + 1) (mul_succ ulp q), ?_⟩
      rw [hq']
      omega

lemma float64_eq {n : ℕ} (hn : n < 2 ^ 53) : float64 n = n := by
  have hlog : n.log2 - 52 = 0 := by
    rcases Nat.eq_zero_or_pos n with rfl | hpos
    · rfl
    · have := (log2_lt hpos.ne').mpr hn
      omega
  simp [float64, hlog, mod_one]

lemma elapsed_eq {ts : ℤ} (h : |now - ts| * 10 ^ 9 < 2 ^ 63) :
    p.elapsed now ts = |now - ts| * 10 ^ 9 := by
  have habs : |now - ts| = ((now - ts).natAbs : ℤ) := Int.abs_eq_natAbs _
  rw [habs] at h ⊢
  have hwrap : (now - ts).bmod (2 ^ 64) = now - ts := Int.bmod_eq_of_le (by omega) (by omega)
  rw [elapsed, hwrap, float64_eq (by omega), if_pos (by omega),
    Int.bmod_eq_of_le (by omega) (by omega)]

lemma parseInt_bounds {s : Bytes} {n : ℤ} (h : parseInt s = some n) : -2 ^ 63 ≤ n ∧ n < 2 ^ 63 := by
  rw [parseInt, Option.ite_none_right_eq_some] at h
  obtain ⟨hbounds, hn⟩ := Option.ite_none_right_eq_some.mp h.2
  exact Option.some.inj hn ▸ hbounds

/-- The difference of two 64-bit integers wraps to the difference modulo `2 ^ 64`. -/
lemma natAbs_bmod {d : ℤ} (h : d.natAbs < 2 ^ 64) :
    (d.bmod (2 ^ 64)).natAbs = min d.natAbs (2 ^ 64 - d.natAbs) := by
  rw [Int.bmod_def]
  split_ifs <;> omega

lemma lt_bmod_iff {x : ℤ} (htol : 0 < tolerance) :
    tolerance < x.bmod (2 ^ 64) ↔ tolerance < x % 2 ^ 64 ∧ x % 2 ^ 64 < 2 ^ 63 := by
  rw [Int.bmod_def]
  split_ifs <;> omega

/-- **Freshness is exact**, for a request that is signed correctly, if and only if its age in
nanoseconds fits into 64 bits, or leaves a remainder that is above the tolerance and below `2 ^ 63`.
An age from `2 ^ 53` seconds on is rounded first, and one from `2 ^ 63` on has wrapped before; a
double that does not fit is what the platform makes of it. -/
theorem fresh_exactly_iff (p : Platform) (now ts tolerance : ℤ) (secret timestamp body : Bytes)
    (hnow : -2 ^ 63 ≤ now ∧ now < 2 ^ 63) (hsecret : secret ≠ [])
    (hts : parseInt timestamp = some ts) (htol : 0 < tolerance) (hdur : tolerance < 2 ^ 63) :
    (p.verifySignature now secret timestamp body
          (scheme ++ p.sign secret timestamp body) tolerance = true
        ↔ |now - ts| * 10 ^ 9 ≤ tolerance)
      ↔ |now - ts| * 10 ^ 9 < 2 ^ 63
        ∨ ∃ age, Rounds (min (now - ts).natAbs (2 ^ 64 - (now - ts).natAbs)) age
          ∧ let nanos := (if age < 2 ^ 63 then (age : ℤ) else p.convert age) * 10 ^ 9 % 2 ^ 64
            tolerance < nanos ∧ nanos < 2 ^ 63 := by
  have haccepts : p.verifySignature now secret timestamp body
      (scheme ++ p.sign secret timestamp body) tolerance = true
        ↔ p.elapsed now ts ≤ tolerance := by
    rw [verifySignature_iff htol, hts]
    simp [hsecret]
  rw [haccepts]
  rcases lt_or_ge (|now - ts| * 10 ^ 9) (2 ^ 63) with hlt | hge
  · rw [elapsed_eq hlt]
    exact iff_of_true Iff.rfl (Or.inl hlt)
  · have hbounds := parseInt_bounds hts
    rw [or_iff_right (not_lt.mpr hge), iff_false_right (not_le.mpr (lt_of_lt_of_le hdur hge)),
      not_le, elapsed, lt_bmod_iff htol, natAbs_bmod (by omega)]
    simp only [rounds_iff, exists_eq_left]

/-- Digests that are the messages. -/
def plain : Platform where
  hmac _ msg := 0 :: msg
  hmac_ne_nil := nofun
  convert _ := -2 ^ 63

/-- The header of a request that says `hi`. -/
def signed (timestamp : String) : Bytes :=
  scheme ++ plain.sign (ascii "key") (ascii timestamp) (ascii "hi")

theorem signature_binds_plain :
    let accepts := fun now timestamp body => plain.verifySignature now (ascii "key") timestamp body
      (signed "1700000000") 300000000000
    accepts 1700000000 (ascii "1700000000") (ascii "hi") = true
      ∧ accepts 1700000001 (ascii "1700000000") (ascii "hi") = true
      ∧ ascii "1700000000" = ascii "1700000000" ∧ ascii "hi" = ascii "hi" :=
  ⟨by decide, by decide, signature_binds plain (fun _ _ _ h => (cons.inj h).2) (ascii "key")
    (signed "1700000000") 300000000000 (by decide) _ _ _ _ 1700000000 1700000001 (by decide)
    (by decide)⟩

/-- With a tolerance of five minutes, a request of ten seconds ago is decided exactly. -/
theorem fresh_exactly_recent :
    plain.verifySignature 1700000010 (ascii "key") (ascii "1700000000") (ascii "hi")
        (signed "1700000000") 300000000000 = true
      ↔ |(1700000010 : ℤ) - 1700000000| * 10 ^ 9 ≤ 300000000000 :=
  (fresh_exactly_iff plain 1700000010 1700000000 300000000000 (ascii "key") (ascii "1700000000")
    (ascii "hi") (by decide) (by decide) (by decide) (by decide) (by decide)).mpr (.inl (by decide))

/-- A request of more than a billion years ago is taken for one of just now. -/
theorem ancient_accepted :
    plain.verifySignature 1700000000 (ascii "key") (ascii "-36028795318963968") (ascii "hi")
        (signed "-36028795318963968") 300000000000 = true
      ∧ 300000000000 < |1700000000 - (-36028795318963968 : ℤ)| * 10 ^ 9 := by
  decide

end Platform

/-! ## Delivery -/

/-- `EndpointConfig` describes a single webhook destination. -/
structure EndpointConfig where
  url : String
  events : List String

/-- What comes of a request. -/
inductive Response where
  | transportError (err : Error)
  | status (code : ℕ)

inductive PostError where
  | retryable (err : Error)
  | nonRetryable (err : Error)

namespace Response

def Succeeds : Response → Prop
  | transportError _ => False
  | status code => code < 400

/-- A 4xx. -/
def Refuses : Response → Prop
  | transportError _ => False
  | status code => 400 ≤ code ∧ code < 500

/-- `post` executes a single HTTP POST attempt. -/
def post : Response → Except PostError Unit
  | transportError err => .error (.retryable (.wrap "http post" err))
  | status code =>
    if code ≥ 500 then .error (.retryable (.text s!"server error: {code}"))
    else if code ≥ 400 then .error (.nonRetryable (.text s!"client error: {code}"))
    else .ok ()

lemma post_spec (r : Response) :
    match r.post with
    | .ok _ => r.Succeeds
    | .error (.nonRetryable _) => r.Refuses ∧ ¬ r.Succeeds
    | .error (.retryable _) => ¬ r.Succeeds ∧ ¬ r.Refuses := by
  cases r with
  | transportError => exact ⟨id, id⟩
  | status code =>
    simp only [post, Succeeds, Refuses]
    split_ifs <;> simp only <;> omega

end Response

/-- `matches` reports whether an endpoint should receive an event of the given type. -/
def EndpointConfig.matches (ep : EndpointConfig) (eventType : String) : Bool :=
  ep.events.length = 0 || ep.events.contains eventType

/-- `deliver`, from an attempt on: how many requests have been sent, and the error. -/
def deliver (responses : ℕ → Response) : (left attempt : ℕ) → Option Error → ℕ × Option Error
  | 0, attempt, lastErr => (attempt, lastErr)
  | left + 1, attempt, _ =>
    match (responses attempt).post with
    | .ok _ => (attempt + 1, none)
    | .error (.nonRetryable err) => (attempt + 1, some err)
    | .error (.retryable err) => deliver responses left (attempt + 1) (some err)

/-- An endpoint, and its answers. -/
abbrev Endpoint := EndpointConfig × (ℕ → Response)

variable (maxRetries : ℕ) (eventType : String) (ep : Endpoint) (endpoints : List Endpoint)

/-- What an event for the endpoint comes to. -/
def delivery : ℕ × Option Error :=
  if ep.1.matches eventType then deliver ep.2 (maxRetries + 1) 0 none else (0, none)

/-- `Route` delivers the event to all configured endpoints whose event filter matches: the requests
to each endpoint, and the error. -/
def route : List ℕ × Option Error :=
  let targeted := endpoints.filter (·.1.matches eventType)
  let failures := targeted.filterMap fun ep =>
    (delivery maxRetries eventType ep).2.map (.wrap ep.1.url)
  (endpoints.map fun ep => (delivery maxRetries eventType ep).1,
    if targeted.length = 0 then none
    else if failures.length = targeted.length then
      some (.wrap s!"webhook: all {targeted.length} endpoints failed" (.join failures))
    else none)

/-- What the attempts from one on have led to: only an answer that is neither a success nor a 4xx is
followed by another attempt, all of them are as long as the limit permits, and there is an error
unless the last one was a success. -/
structure Delivered (responses : ℕ → Response) (attempt limit last : ℕ) (err : Option Error) :
    Prop where
  attempted : attempt ≤ last
  lt : last < limit
  retried : ∀ k, attempt ≤ k → k < last → ¬ (responses k).Succeeds ∧ ¬ (responses k).Refuses
  stopped : last + 1 < limit → (responses last).Succeeds ∨ (responses last).Refuses
  ok : err = none ↔ (responses last).Succeeds

lemma delivered_at {responses : ℕ → Response} (left : ℕ) {attempt : ℕ} {err : Option Error}
    (hstopped : 0 < left → (responses attempt).Succeeds ∨ (responses attempt).Refuses)
    (hok : err = none ↔ (responses attempt).Succeeds) :
    Delivered responses attempt (attempt + left + 1) attempt err :=
  ⟨le_rfl, by omega, fun k => by omega, fun h => hstopped (by omega), hok⟩

lemma deliver_spec (responses : ℕ → Response) (left attempt : ℕ) (lastErr : Option Error) :
    ∃ last, (deliver responses (left + 1) attempt lastErr).1 = last + 1
      ∧ Delivered responses attempt (attempt + left + 1) last
        (deliver responses (left + 1) attempt lastErr).2 := by
  induction left generalizing attempt lastErr with
  | zero =>
    have hpost := (responses attempt).post_spec
    rw [deliver]
    rcases hans : (responses attempt).post with (e | e) | _ <;> rw [hans] at hpost
    · exact ⟨attempt, rfl, delivered_at 0 (by simp) (by simpa [deliver] using hpost.1)⟩
    · exact ⟨attempt, rfl, delivered_at 0 (by simp) (by simpa using hpost.2)⟩
    · exact ⟨attempt, rfl, delivered_at 0 (by simp) (by simpa using hpost)⟩
  | succ left ih =>
    have hpost := (responses attempt).post_spec
    rw [deliver]
    rcases hans : (responses attempt).post with (e | e) | _ <;> rw [hans] at hpost
    · obtain ⟨last, hn, hd⟩ := ih (attempt + 1) (some e)
      have hattempted := hd.attempted
      have hlt := hd.lt
      refine ⟨last, hn, by omega, by omega, fun k hk hlt => ?_, fun h => hd.stopped (by omega),
        hd.ok⟩
      rcases hk.eq_or_lt with rfl | hk
      · exact hpost
      · exact hd.retried k hk hlt
    · exact ⟨attempt, rfl, delivered_at _ (fun _ => .inr hpost.1) (by simpa using hpost.2)⟩
    · exact ⟨attempt, rfl, delivered_at _ (fun _ => .inl hpost) (by simpa using hpost)⟩

/-- **Retries.**  An endpoint that does not match gets no request.  One that does gets at least one
and at most one more than the retry limit, none after a success or a 4xx, and fewer than permitted
only after these.  There is an error if and only if some endpoint matches, and no matching one has
answered with a success. -/
theorem route_disciplined (maxRetries : ℕ) (eventType : String) (endpoints : List Endpoint) :
    let sent := fun ep => (delivery maxRetries eventType ep).1
    let r := route maxRetries eventType endpoints
    r.1 = endpoints.map sent
      ∧ (∀ ep, ep.1.matches eventType = false → sent ep = 0)
      ∧ (∀ ep, ep.1.matches eventType = true → 0 < sent ep ∧ sent ep ≤ maxRetries + 1
        ∧ (∀ k, k + 1 < sent ep → ¬ (ep.2 k).Succeeds ∧ ¬ (ep.2 k).Refuses)
        ∧ (sent ep < maxRetries + 1 → (ep.2 (sent ep - 1)).Succeeds ∨ (ep.2 (sent ep - 1)).Refuses))
      ∧ (r.2 ≠ none ↔ (∃ ep ∈ endpoints, ep.1.matches eventType = true)
        ∧ ∀ ep ∈ endpoints, ep.1.matches eventType = true → ∀ k < sent ep,
          ¬ (ep.2 k).Succeeds) := by
  intro sent r
  have hd : ∀ ep : Endpoint, ep.1.matches eventType = true → ∃ last, sent ep = last + 1
      ∧ Delivered ep.2 0 (0 + maxRetries + 1) last (delivery maxRetries eventType ep).2 := by
    intro ep hm
    simp only [sent, delivery, if_pos hm]
    exact deliver_spec ep.2 maxRetries 0 none
  refine ⟨rfl, fun ep hm => by simp [sent, delivery, hm], fun ep hm => ?_, ?_⟩
  · obtain ⟨last, hn, hlast⟩ := hd ep hm
    have hlt := hlast.lt
    rw [hn]
    exact ⟨by omega, by omega, fun k hk => hlast.retried k k.zero_le (by omega),
      fun h => hlast.stopped (by omega)⟩
  · have hfailed : (∀ ep ∈ endpoints, ep.1.matches eventType = true → ∀ k < sent ep,
        ¬ (ep.2 k).Succeeds) ↔ ∀ ep ∈ endpoints, ep.1.matches eventType = true →
          (delivery maxRetries eventType ep).2.isSome = true := by
      refine forall₃_congr fun ep _ hm => ?_
      obtain ⟨last, hn, hlast⟩ := hd ep hm
      rw [Option.isSome_iff_ne_none, ne_eq, hlast.ok, hn]
      refine ⟨fun h => h last (Nat.lt_succ_self last), fun h k hk => ?_⟩
      rcases (Nat.lt_succ_iff.mp hk).eq_or_lt with rfl | hk
      · exact h
      · exact (hlast.retried k k.zero_le hk).1
    rw [hfailed]
    simp only [r, route, length_filterMap_eq_countP, Option.isSome_map, countP_eq_length,
      mem_filter, and_imp, length_eq_zero_iff, filter_eq_nil_iff]
    split_ifs with hnone hall
    · exact iff_of_false (fun h => h rfl) fun ⟨⟨ep, hep, hm⟩, _⟩ => hnone ep hep hm
    · exact iff_of_true nofun ⟨by simpa using hnone, hall⟩
    · exact iff_of_false (fun h => h rfl) fun h => hall h.2

end Mailbox.Webhook
