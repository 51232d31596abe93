import Karr.Lib.Recency
import Mathlib.Algebra.Order.Floor.Ring
import Mathlib.Data.Rat.Floor

/-!
# Rate limits

A bucket of tokens for each client, the buckets in the order of their last use.
Times are in seconds, and the arithmetic is exact.
-/

set_option autoImplicit false

namespace Karr.RateLimit

def defaultMaxClients : Nat := 10000

structure TokenBucket where
  capacity : Int
  refill : ℚ
  tokens : ℚ
  updated : ℚ
  deriving DecidableEq

namespace TokenBucket

def new (capacity : Int) (refill now : ℚ) : TokenBucket := ⟨capacity, refill, capacity, now⟩

/-- What the bucket holds at a later time, before anything is taken. -/
def level (b : TokenBucket) (now : ℚ) : ℚ :=
  min (b.capacity : ℚ) (b.tokens + (now - b.updated) * b.refill)

def tryAcquire (b : TokenBucket) (now : ℚ) : Bool × TokenBucket :=
  let b := { b with tokens := b.level now, updated := now }
  if 1 ≤ b.tokens then (true, { b with tokens := b.tokens - 1 }) else (false, b)

def secondsUntilToken (b : TokenBucket) : ℚ :=
  if 1 ≤ b.tokens ∨ b.refill ≤ 0 then 0 else (1 - b.tokens) / b.refill

/-- The answer of the limiter, once it has the bucket of the client. -/
def ask (b : TokenBucket) (now : ℚ) : (Bool × ℚ) × TokenBucket :=
  let (allowed, b) := b.tryAcquire now
  ((allowed, if allowed then 0 else b.secondsUntilToken), b)

variable {b : TokenBucket} {now : ℚ}

@[simp] theorem level_new (capacity : Int) (refill now : ℚ) :
    (new capacity refill now).level now = capacity := by
  simp [new, level]

theorem tryAcquire_of_le (h : 1 ≤ b.level now) :
    b.tryAcquire now = (true, { b with tokens := b.level now - 1, updated := now }) :=
  if_pos h

theorem tryAcquire_of_lt (h : b.level now < 1) :
    b.tryAcquire now = (false, { b with tokens := b.level now, updated := now }) :=
  if_neg (not_le.mpr h)

theorem tryAcquire_eq (b : TokenBucket) (now : ℚ) :
    b.tryAcquire now = (decide (1 ≤ b.level now),
      { b with tokens := b.level now - (if 1 ≤ b.level now then 1 else 0), updated := now }) := by
  by_cases h : 1 ≤ b.level now
  · rw [tryAcquire_of_le h, decide_eq_true h, if_pos h]
  · rw [tryAcquire_of_lt (not_le.mp h), decide_eq_false h, if_neg h, sub_zero]

theorem tryAcquire_fst : (b.tryAcquire now).1 = decide (1 ≤ b.level now) := by
  rw [tryAcquire_eq]

@[simp] theorem tryAcquire_capacity : (b.tryAcquire now).2.capacity = b.capacity := by
  rw [tryAcquire_eq]

@[simp] theorem tryAcquire_refill : (b.tryAcquire now).2.refill = b.refill := by
  rw [tryAcquire_eq]

@[simp] theorem tryAcquire_updated : (b.tryAcquire now).2.updated = now := by
  rw [tryAcquire_eq]

theorem ask_fst : (b.ask now).1.1 = decide (1 ≤ b.level now) := tryAcquire_fst

theorem ask_snd : (b.ask now).2 = (b.tryAcquire now).2 := by rw [ask]

end TokenBucket

structure RateLimiter where
  capacity : Int
  refill : ℚ
  maxClients : Nat := defaultMaxClients
  buckets : List (String × TokenBucket) := []
  deriving DecidableEq

namespace RateLimiter

/-- `created` is what a new bucket reads from the clock, `now` what `try_acquire` reads. -/
def tryAcquire (l : RateLimiter) (key : String) (created now : ℚ) : (Bool × ℚ) × RateLimiter :=
  match Recency.find key l.buckets with
  | none =>
    let bucket := TokenBucket.new l.capacity l.refill created
    let buckets := Recency.evict l.maxClients (l.buckets ++ [(key, bucket)])
    let (answer, bucket) := bucket.ask now
    (answer, { l with buckets := Recency.assign key bucket buckets })
  | some bucket =>
    let buckets := Recency.moveToEnd key l.buckets
    let (answer, bucket) := bucket.ask now
    (answer, { l with buckets := Recency.assign key bucket buckets })

def reset (l : RateLimiter) : RateLimiter := { l with buckets := [] }

/-- The bucket that answers a call of the client. -/
def bucketOf (l : RateLimiter) (key : String) (created : ℚ) : TokenBucket :=
  (Recency.find key l.buckets).getD (TokenBucket.new l.capacity l.refill created)

/-- Every client has one bucket with the limits of the limiter, and there are not too many. -/
structure Ok (l : RateLimiter) : Prop where
  nodup : (Recency.keys l.buckets).Nodup
  size : l.buckets.length ≤ l.maxClients
  capacity : ∀ e ∈ l.buckets, e.2.capacity = l.capacity
  refill : ∀ e ∈ l.buckets, e.2.refill = l.refill

variable {l : RateLimiter} {key : String} {created now : ℚ}

theorem tryAcquire_answer :
    (l.tryAcquire key created now).1 = ((l.bucketOf key created).ask now).1 := by
  unfold tryAcquire bucketOf
  split <;> rename_i found <;> rw [found] <;> rfl

theorem tryAcquire_limits (l : RateLimiter) (key : String) (created now : ℚ) :
    (l.tryAcquire key created now).2.capacity = l.capacity ∧
      (l.tryAcquire key created now).2.refill = l.refill ∧
      (l.tryAcquire key created now).2.maxClients = l.maxClients := by
  unfold tryAcquire
  split <;> exact ⟨rfl, rfl, rfl⟩

/-- A call uses the key of the client, whether it has a bucket or gets a new one. -/
theorem tryAcquire_snd (h : l.Ok) (key : String) (created now : ℚ) :
    (l.tryAcquire key created now).2 = { l with
      buckets := Recency.use l.maxClients key ((l.bucketOf key created).tryAcquire now).2
        l.buckets } := by
  unfold tryAcquire bucketOf
  split
  · rename_i found
    rw [found, Option.getD_none, Recency.use_new (Recency.find_eq_none.mp found)]
    rfl
  · rename_i bucket found
    rw [found, Option.getD_some, Recency.use_known h.nodup found h.size]
    rfl

theorem Ok.bucketOf (h : l.Ok) (key : String) (created : ℚ) :
    (l.bucketOf key created).capacity = l.capacity ∧
      (l.bucketOf key created).refill = l.refill := by
  rcases found : Recency.find key l.buckets with _ | b
  · rw [RateLimiter.bucketOf, found]
    exact ⟨rfl, rfl⟩
  · have mem := (Recency.find_eq_some h.nodup).mp found
    rw [RateLimiter.bucketOf, found]
    exact ⟨h.capacity _ mem, h.refill _ mem⟩

theorem Ok.tryAcquire (h : l.Ok) (key : String) (created now : ℚ) :
    (l.tryAcquire key created now).2.Ok := by
  obtain ⟨capacity, refill⟩ := h.bucketOf key created
  rw [tryAcquire_snd h]
  refine ⟨Recency.nodup_use h.nodup, Recency.length_evict_le _ _, fun e he => ?_, fun e he => ?_⟩
  · rcases Recency.mem_use he with rfl | ⟨he, -⟩
    · exact TokenBucket.tryAcquire_capacity.trans capacity
    · exact h.capacity e he
  · rcases Recency.mem_use he with rfl | ⟨he, -⟩
    · exact TokenBucket.tryAcquire_refill.trans refill
    · exact h.refill e he

end RateLimiter

/-- A call of `try_acquire` and the two times it may read. -/
structure Call where
  key : String
  created : ℚ
  now : ℚ
  deriving DecidableEq

namespace RateLimiter

def answers (l : RateLimiter) : List Call → List (Bool × ℚ)
  | [] => []
  | c :: calls =>
    let r := l.tryAcquire c.key c.created c.now
    r.1 :: answers r.2 calls

def after (l : RateLimiter) (calls : List Call) : RateLimiter :=
  calls.foldl (fun l c => (l.tryAcquire c.key c.created c.now).2) l

@[simp] theorem after_nil (l : RateLimiter) : l.after [] = l := rfl

theorem Ok.after {l : RateLimiter} (h : l.Ok) (calls : List Call) : (l.after calls).Ok := by
  induction calls generalizing l with
  | nil => exact h
  | cons c calls ih => exact ih (h.tryAcquire c.key c.created c.now)

theorem after_limits (l : RateLimiter) (calls : List Call) :
    (l.after calls).capacity = l.capacity ∧ (l.after calls).refill = l.refill ∧
      (l.after calls).maxClients = l.maxClients := by
  induction calls generalizing l with
  | nil => exact ⟨rfl, rfl, rfl⟩
  | cons c calls ih =>
    obtain ⟨capacity, refill, maxClients⟩ :=
      l.tryAcquire_limits c.key c.created c.now
    obtain ⟨capacity', refill', maxClients'⟩ := ih (l.tryAcquire c.key c.created c.now).2
    exact ⟨capacity'.trans capacity, refill'.trans refill, maxClients'.trans maxClients⟩

theorem Ok.new (capacity : Int) (refill : ℚ) (maxClients : Nat) :
    Ok ⟨capacity, refill, maxClients, []⟩ where
  nodup := List.nodup_nil
  size := Nat.zero_le _
  capacity _ he := absurd he List.not_mem_nil
  refill _ he := absurd he List.not_mem_nil

end RateLimiter

/-- Python's `int` of a number that is not one: towards zero. -/
def truncate (x : ℚ) : Int := if 0 ≤ x then ⌊x⌋ else ⌈x⌉

/-- `RateLimited.retry_after`, the `Retry-After` header. -/
def retryAfter (wait : ℚ) : Int := max 1 (truncate (wait + 999 / 1000))

end Karr.RateLimit
