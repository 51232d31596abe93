import Karr.RateLimits

/-!
# Retry-After

The header is meant to round the waiting time up, but adds a little less than one
second before it cuts. A waiting time just above a whole number of seconds is
rounded down, and the call that keeps to it is refused again.
-/

set_option autoImplicit false

namespace Karr.RateLimit

theorem le_truncate_iff {w : ℚ} (h : 0 ≤ w) :
    w ≤ truncate (w + 999 / 1000) ↔ Int.fract w = 0 ∨ 1 / 1000 ≤ Int.fract w := by
  have whole := Int.floor_add_fract w
  have small := Int.fract_lt_one w
  have nonneg := Int.fract_nonneg w
  rw [truncate, if_pos (by linarith)]
  by_cases enough : 1 / 1000 ≤ Int.fract w
  · -- the sum reaches the next whole number
    have up : ⌊w + 999 / 1000⌋ = ⌊w⌋ + 1 := by
      rw [Int.floor_eq_iff]
      push_cast
      constructor <;> linarith
    rw [up]
    push_cast
    exact iff_of_true (by linarith) (Or.inr enough)
  · have down : ⌊w + 999 / 1000⌋ = ⌊w⌋ := by
      rw [Int.floor_eq_iff]
      push Not at enough
      constructor <;> linarith
    rw [down, or_iff_left enough]
    constructor
    · intro le
      linarith
    · intro zero
      linarith

/-- When the header is not too short. -/
def LongEnough (w : ℚ) : Prop := w ≤ 1 ∨ Int.fract w = 0 ∨ 1 / 1000 ≤ Int.fract w

theorem le_retryAfter_iff {w : ℚ} (h : 0 ≤ w) : w ≤ retryAfter w ↔ LongEnough w := by
  rw [retryAfter, Int.cast_max, le_max_iff, le_truncate_iff h, Int.cast_one]
  rfl

namespace TokenBucket
variable {b : TokenBucket} {now wait : ℚ}

/-- The seconds from `now` on until so much has flowed in that there is a token. -/
def due (b : TokenBucket) (now : ℚ) : ℚ := (1 - b.level now) / b.refill

theorem ask_refused (hr : 0 < b.refill) (h : (b.ask now).1 = (false, wait)) :
    b.level now < 1 ∧ wait = b.due now := by
  have refused : ¬ 1 ≤ b.level now := by
    have := congrArg Prod.fst h
    rw [ask_fst] at this
    exact of_decide_eq_false this
  refine ⟨not_le.mp refused, ?_⟩
  have answer := congrArg Prod.snd h
  simp only [ask, tryAcquire_of_lt (not_le.mp refused), secondsUntilToken] at answer
  have waits : ¬ (1 ≤ b.level now ∨ b.refill ≤ 0) :=
    not_or.mpr ⟨refused, not_le.mpr hr⟩
  rw [← answer, if_neg Bool.false_ne_true, if_neg waits]
  rfl

theorem level_new_of_le {capacity : Int} {refill created : ℚ} (hr : 0 ≤ refill)
    (h : created ≤ now) : (new capacity refill created).level now = capacity :=
  min_eq_left (le_add_of_nonneg_right (mul_nonneg (sub_nonneg.mpr h) hr))

/-- A later call of the same bucket, when the first one was refused. -/
theorem level_after_refused (hr : 0 < b.refill) (refused : b.level now < 1) (d : ℚ) :
    1 ≤ (b.tryAcquire now).2.level (now + d) ↔ 1 ≤ b.capacity ∧ b.due now ≤ d := by
  rw [tryAcquire_of_lt refused, level, le_min_iff, due, div_le_iff₀ hr, add_sub_cancel_left,
    sub_le_iff_le_add']
  exact and_congr_left' (by exact_mod_cast Iff.rfl)

end TokenBucket

namespace RateLimiter
variable {l : RateLimiter} {key : String}

/-- Other clients leave the bucket of a client as it is, or have it evicted. -/
theorem find_after_others (ok : l.Ok) {calls : List Call} (others : ∀ c ∈ calls, c.key ≠ key) :
    Recency.find key (l.after calls).buckets = none ∨
      Recency.find key (l.after calls).buckets = Recency.find key l.buckets := by
  induction calls generalizing l with
  | nil => exact Or.inr rfl
  | cons c calls ih =>
    have other := others c List.mem_cons_self
    rcases ih (ok.tryAcquire c.key c.created c.now) fun d hd =>
      others d (List.mem_cons_of_mem _ hd) with gone | same
    · exact Or.inl gone
    · change Recency.find key ((l.tryAcquire c.key c.created c.now).2.after calls).buckets = none ∨
        Recency.find key ((l.tryAcquire c.key c.created c.now).2.after calls).buckets = _
      rw [same, tryAcquire_snd ok]
      exact Recency.find_use_other ok.nodup other

end RateLimiter

/-- The limiters that calls can lead to. -/
def Reachable (capacity : Int) (refill : ℚ) (maxClients : Nat) (l : RateLimiter) : Prop :=
  ∃ calls, l = RateLimiter.after ⟨capacity, refill, maxClients, []⟩ calls

theorem Reachable.ok {capacity : Int} {refill : ℚ} {maxClients : Nat} {l : RateLimiter}
    (h : Reachable capacity refill maxClients l) :
    l.Ok ∧ l.capacity = capacity ∧ l.refill = refill := by
  obtain ⟨calls, rfl⟩ := h
  obtain ⟨hcap, hrefill, -⟩ := RateLimiter.after_limits ⟨capacity, refill, maxClients, []⟩ calls
  exact ⟨(RateLimiter.Ok.new capacity refill maxClients).after calls, hcap, hrefill⟩

section Retry
variable {capacity : Int} {refill : ℚ} {maxClients : Nat} {l l' : RateLimiter} {key : String}
  {created created' t wait : ℚ} {between : List Call}

/-- A client that was refused and calls again when the header says so is granted, unless the
header was too short for its bucket; a bucket that has been evicted meanwhile is full again. -/
theorem retryAfter_granted_iff (reach : Reachable capacity refill maxClients l) (hr : 0 < refill)
    (refused : (l.tryAcquire key created t).1 = (false, wait))
    (others : ∀ c ∈ between, c.key ≠ key)
    (hl' : l' = (l.tryAcquire key created t).2.after between)
    (clock : created' ≤ t + retryAfter wait) :
    (l'.tryAcquire key created' (t + retryAfter wait)).1.1 = true ↔
      1 ≤ capacity ∧ (Recency.find key l'.buckets = none ∨
        LongEnough ((l.bucketOf key created).due t)) := by
  obtain ⟨ok, rfl, rfl⟩ := reach.ok
  obtain ⟨hcap, hrefill⟩ := ok.bucketOf key created
  have ok' := ok.tryAcquire key created t
  rw [RateLimiter.tryAcquire_answer] at refused
  obtain ⟨short, rfl⟩ := TokenBucket.ask_refused (by rwa [hrefill]) refused
  have soon : 0 ≤ (l.bucketOf key created).due t :=
    div_nonneg (by linarith) (by rw [hrefill]; exact hr.le)
  rw [RateLimiter.tryAcquire_answer, TokenBucket.ask_fst, decide_eq_true_eq]
  have kept : Recency.find key l'.buckets = none ∨
      Recency.find key l'.buckets = some ((l.bucketOf key created).tryAcquire t).2 := by
    rw [hl']
    rcases RateLimiter.find_after_others ok' others with gone | same
    · exact Or.inl gone
    · rw [same, RateLimiter.tryAcquire_snd ok]
      exact Recency.find_use_self ok.nodup
  have limits : l'.capacity = l.capacity ∧ l'.refill = l.refill := by
    obtain ⟨capacity, refill, -⟩ := RateLimiter.after_limits (l.tryAcquire key created t).2 between
    obtain ⟨capacity', refill', -⟩ := l.tryAcquire_limits key created t
    exact hl' ▸ ⟨capacity.trans capacity', refill.trans refill'⟩
  rcases kept with gone | same
  · -- a new bucket, full at its first call
    have full : (TokenBucket.new l.capacity l.refill created').level
        (t + retryAfter ((l.bucketOf key created).due t)) = l.capacity :=
      TokenBucket.level_new_of_le hr.le clock
    rw [RateLimiter.bucketOf, gone, Option.getD_none, limits.1, limits.2, full]
    simp only [true_or, and_true]
    exact_mod_cast Iff.rfl
  · rw [RateLimiter.bucketOf, same, Option.getD_some,
      TokenBucket.level_after_refused (by rwa [hrefill]) short, hcap, le_retryAfter_iff soon]
    simp only [reduceCtorEq, false_or]

end Retry

def RetryHonoured : Prop :=
  ∀ (capacity : Int) (refill : ℚ) (maxClients : Nat) (l l' : RateLimiter) (key : String)
    (created created' t wait : ℚ) (between : List Call),
    Reachable capacity refill maxClients l → 0 < refill →
    (l.tryAcquire key created t).1 = (false, wait) → (∀ c ∈ between, c.key ≠ key) →
    l' = (l.tryAcquire key created t).2.after between → created' ≤ t + retryAfter wait →
    (l'.tryAcquire key created' (t + retryAfter wait)).1.1 = true

/-- A host that has used up the `REGISTER_LIMIT` of 30 tokens and one in two seconds. -/
def registering : RateLimiter :=
  RateLimiter.after ⟨30, 1 / 2, defaultMaxClients, []⟩ (List.replicate 30 ⟨"10.0.0.1", 0, 0⟩)

theorem reachable_registering : Reachable 30 (1 / 2) defaultMaxClients registering := ⟨_, rfl⟩

/-- It is refused with 1.0005 seconds to wait; the header says 1, and it is refused again. -/
theorem not_retryHonoured : ¬ RetryHonoured ∧
    (registering.tryAcquire "10.0.0.1" 0 (1999 / 2000)).1 = (false, 2001 / 2000) ∧
    retryAfter (2001 / 2000) = 1 ∧
    ((registering.tryAcquire "10.0.0.1" 0 (1999 / 2000)).2.tryAcquire "10.0.0.1" 1
      (1999 / 2000 + retryAfter (2001 / 2000))).1.1 = false := by
  have refused : (registering.tryAcquire "10.0.0.1" 0 (1999 / 2000)).1 = (false, 2001 / 2000) := by
    decide +kernel
  have header : retryAfter (2001 / 2000) = 1 := by decide +kernel
  have again : ((registering.tryAcquire "10.0.0.1" 0 (1999 / 2000)).2.tryAcquire "10.0.0.1" 1
      (1999 / 2000 + retryAfter (2001 / 2000))).1.1 = false := by
    decide +kernel
  refine ⟨fun honoured => ?_, refused, header, again⟩
  have granted := honoured 30 (1 / 2) defaultMaxClients registering _ "10.0.0.1" 0 1 _ _ []
    reachable_registering (by norm_num) refused (fun c hc => absurd hc List.not_mem_nil)
    (RateLimiter.after_nil (registering.tryAcquire "10.0.0.1" 0 (1999 / 2000)).2).symm
    (by rw [header]; norm_num)
  rw [again] at granted
  exact absurd granted Bool.false_ne_true

/-- Half a second later the same host is refused with a header it can keep to. -/
theorem retryAfter_granted_iff_half :
    ((registering.tryAcquire "10.0.0.1" 0 (1 / 2)).2.tryAcquire "10.0.0.1" 0
      (1 / 2 + retryAfter (3 / 2))).1.1 = true := by
  have refused : (registering.tryAcquire "10.0.0.1" 0 (1 / 2)).1 = (false, 3 / 2) := by
    decide +kernel
  have half : LongEnough ((registering.bucketOf "10.0.0.1" 0).due (1 / 2)) :=
    Or.inr (Or.inr (by decide +kernel))
  exact (retryAfter_granted_iff reachable_registering (by norm_num) refused
    (fun c hc => absurd hc List.not_mem_nil) (RateLimiter.after_nil _).symm
    (by decide +kernel)).mpr ⟨by decide, Or.inr half⟩

end Karr.RateLimit
