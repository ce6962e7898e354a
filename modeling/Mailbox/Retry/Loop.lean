import Mathlib.Algebra.Order.Ring.Int

/-!
# Retries

`Do` of `retry/retry.go` calls a function until it succeeds, fails for good or has been retried
often enough, or the context is cancelled.  `retryDo_reports` is what its caller can rely on.
-/

namespace Mailbox.Retry

/-- `ErrMaxRetries`, `ErrNotRetryable` and `ErrContextCanceled`. -/
inductive Sentinel where
  | maxRetries
  | notRetryable
  | contextCanceled

/-- `RetryError`; a nil cause is `none`. -/
structure RetryError (ε : Type) where
  cause : Option ε
  attempts : ℤ
  err : Sentinel

inductive DoError (ε : Type) where
  | retry (err : RetryError ε)
  | context (err : ε)

variable {ε : Type}

/-- What the loop meets: the outcome of each call of the function (`none` is success), which errors
are retried, what `ctx.Err()` says before each attempt, and after which attempts the context is done
before the backoff is over. -/
structure Run (ε : Type) where
  fn : ℕ → Option ε
  isRetryable : ε → Bool
  ctxErr : ℕ → Option ε
  interrupted : ℕ → Bool

namespace Run

variable (r : Run ε) (maxRetries : ℤ)

/-- The loop of `Do` from an attempt on, with the number of attempts that are left: the number of
calls made in all, and the error. -/
def attemptFrom : (left attempt : ℕ) → Option ε → ℕ × Option (DoError ε)
  | 0, attempt, lastErr => (attempt, some (.retry ⟨lastErr, maxRetries + 1, .maxRetries⟩))
  | left + 1, attempt, lastErr =>
    match r.ctxErr attempt with
    | some err =>
      (attempt, some (if lastErr.isSome then .retry ⟨lastErr, attempt, .contextCanceled⟩
        else .context err))
    | none =>
      match r.fn attempt with
      | none => (attempt + 1, none)
      | some err =>
        if r.isRetryable err = false then
          (attempt + 1, some (.retry ⟨some err, attempt + 1, .notRetryable⟩))
        else if attempt < maxRetries ∧ r.interrupted attempt then
          (attempt + 1, some (.retry ⟨some err, attempt + 1, .contextCanceled⟩))
        else attemptFrom left (attempt + 1) (some err)

/-- `Do`, after `applyDefaults`: a negative `MaxRetries` is taken for zero.  The counter is an `int`
that would wrap after `2 ^ 63` calls only. -/
def retryDo : ℕ × Option (DoError ε) :=
  r.attemptFrom (max 0 maxRetries) ((max 0 maxRetries).toNat + 1) 0 none

/-- What a number of calls and an error tell: every call but the last one failed with an error to be
retried, there is no error exactly if the last call succeeded, and a `RetryError` counts the calls
and has the error of the last one. -/
structure Reports (calls : ℕ) (err : Option (DoError ε)) : Prop where
  retried : ∀ k, k + 1 < calls → ∃ e, r.fn k = some e ∧ r.isRetryable e = true
  succeeded : err = none ↔ 0 < calls ∧ r.fn (calls - 1) = none
  counted : ∀ e, err = some (.retry e) → 0 < calls ∧ e.attempts = calls ∧ e.cause = r.fn (calls - 1)

variable {r maxRetries}

/-- The exits with a `RetryError`, after an error of call `k`. -/
lemma reports_retry {k : ℕ} {e : ε} (hbefore : ∀ j < k, ∃ e, r.fn j = some e ∧ r.isRetryable e)
    (he : r.fn k = some e) {n : ℤ} (hn : n = k + 1) (err : Sentinel) :
    r.Reports (k + 1) (some (.retry ⟨some e, n, err⟩)) where
  retried j hj := hbefore j (by omega)
  succeeded := by simp [he]
  counted := by
    rintro _ ⟨⟩
    exact ⟨k.succ_pos, by simpa using hn, he.symm⟩

/-- The error of the last call before an attempt. -/
def errBefore (r : Run ε) : ℕ → Option ε
  | 0 => none
  | k + 1 => r.fn k

/-- The induction is on the attempts that are left; all calls so far are known to have failed. -/
lemma attemptFrom_reports (left attempt : ℕ) (hmax : maxRetries + 1 = attempt + left)
    (hbefore : ∀ k < attempt, ∃ e, r.fn k = some e ∧ r.isRetryable e)
    (hpos : 0 < attempt + left) :
    let (calls, err) := r.attemptFrom maxRetries left attempt (r.errBefore attempt)
    calls ≤ attempt + left ∧ r.Reports calls err := by
  induction left generalizing attempt with
  | zero =>
    obtain ⟨k, rfl⟩ := Nat.exists_eq_succ_of_ne_zero hpos.ne'
    obtain ⟨e, he, -⟩ := hbefore k k.lt_succ_self
    rw [errBefore, he]
    exact ⟨le_rfl, reports_retry (fun j hj => hbefore j (by omega)) he (by simpa using hmax) _⟩
  | succ left ih =>
    rw [attemptFrom]
    cases hctx : r.ctxErr attempt with
    | some err =>
      refine ⟨Nat.le_add_right _ _, ?_⟩
      cases attempt with
      | zero => exact ⟨by simp, by simp, by simp [errBefore]⟩
      | succ k =>
        obtain ⟨e, he, -⟩ := hbefore k k.lt_succ_self
        rw [errBefore, he]
        exact reports_retry (fun j hj => hbefore j (by omega)) he (by simp) _
    | none =>
      cases hfn : r.fn attempt with
      | none =>
        exact ⟨by simp, fun k hk => hbefore k (Nat.lt_of_succ_lt_succ hk), by simp [hfn], nofun⟩
      | some err =>
        simp only
        split_ifs with hretry hint
        · exact ⟨by simp, reports_retry hbefore hfn rfl _⟩
        · exact ⟨by simp, reports_retry hbefore hfn rfl _⟩
        · rw [← Nat.add_assoc, Nat.add_right_comm, ← hfn]
          refine ih (attempt + 1) ?_ ?_ (by omega)
          · push_cast at hmax ⊢
            omega
          intro k hk
          rcases Nat.lt_succ_iff_lt_or_eq.mp hk with hk | rfl
          · exact hbefore k hk
          · exact ⟨err, hfn, by simpa using hretry⟩

/-- **The accounting of the retry loop.** -/
theorem retryDo_reports (r : Run ε) (maxRetries : ℤ) :
    let (calls, err) := r.retryDo maxRetries
    (calls : ℤ) ≤ max 0 maxRetries + 1 ∧ r.Reports calls err := by
  obtain ⟨hle, hrep⟩ := attemptFrom_reports ((max 0 maxRetries).toNat + 1) 0
    (show max 0 maxRetries + 1 = _ by simp) (by simp) (by simp)
  exact ⟨(Int.ofNat_le.mpr hle).trans (by simp), hrep⟩

end Run

end Mailbox.Retry
