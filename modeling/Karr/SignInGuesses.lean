import Karr.Api.Auth
import Karr.RateBounds
import Karr.RateLimits

/-!
# Guessing the admin token

What the sign-in check tells about the token, and how often it does.
-/

set_option autoImplicit false

namespace Karr.Auth

open RateLimit

/-! ## What is compared -/

/-- The requests that get past the limiter. -/
def compared (l : RateLimiter) (rs : List Check) : List Check :=
  ((rs.zip (l.answers (rs.map Check.call))).filter fun r => r.2.1).map Prod.fst

theorem compared_subset (l : RateLimiter) (rs : List Check) : compared l rs ⊆ rs := by
  intro r hr
  obtain ⟨p, hp, rfl⟩ := List.mem_map.mp hr
  exact (List.of_mem_zip (List.mem_of_mem_filter hp)).1

theorem checks_eq (expected : String) (l : RateLimiter) (rs : List Check) :
    checks expected l rs = (rs.zip (l.answers (rs.map Check.call))).map
      fun r => answer expected r.1.presented r.2 := by
  induction rs generalizing l with
  | nil => rfl
  | cons r rs ih => rw [checks, ih, List.map_cons, RateLimiter.answers, List.zip_cons_cons,
      List.map_cons]

theorem length_answers (l : RateLimiter) (calls : List Call) :
    (l.answers calls).length = calls.length := by
  induction calls generalizing l with
  | nil => rfl
  | cons c calls ih => rw [RateLimiter.answers, List.length_cons, ih, List.length_cons]

theorem tokenMatches_eq_false {presented : Option String} {expected : String}
    (h : presented ≠ some expected) : tokenMatches presented expected = false := by
  cases presented with
  | none => rfl
  | some token =>
    have other : token ≠ expected := fun eq => h (congrArg some eq)
    simp [tokenMatches, other]

theorem tokenMatches_iff {presented : Option String} {expected : String} :
    tokenMatches presented expected = true ↔ presented = some expected ∧ expected ≠ "" := by
  constructor
  · intro h
    have same : presented = some expected := by
      by_contra other
      rw [tokenMatches_eq_false other] at h
      cases h
    subst same
    simpa [tokenMatches] using h
  · rintro ⟨rfl, told⟩
    simpa [tokenMatches] using told

/-! ## How often -/

section Granted
variable {key : String} {l : RateLimiter} {calls : List Call}

theorem granted_eq (b : TokenBucket) (times : List ℚ) :
    b.granted times = ((times.zip (b.answers times)).filter fun r => r.2.1).map Prod.fst := by
  induction times generalizing b with
  | nil => rfl
  | cons now times ih =>
    rw [TokenBucket.granted, TokenBucket.answers, List.zip_cons_cons, List.filter_cons,
      TokenBucket.ask_snd]
    have same : (b.ask now).1.1 = (b.tryAcquire now).1 :=
      TokenBucket.ask_fst.trans TokenBucket.tryAcquire_fst.symm
    rw [same]
    split
    · rw [List.map_cons, ih]
    · rw [ih]

theorem callsOf_eq (key : String) (l : RateLimiter) (calls : List Call) :
    callsOf key calls =
      ((calls.zip (l.answers calls)).filter fun r => decide (r.1.key = key)).map Prod.fst := by
  have all : (calls.zip (l.answers calls)).map Prod.fst = calls :=
    List.map_fst_zip (length_answers l calls).ge
  conv => lhs; rw [callsOf, ← all]
  rw [List.filter_map]
  rfl

/-- The times at which a client gets past the limiter. -/
def grantedOf (key : String) (l : RateLimiter) (calls : List Call) : List ℚ :=
  ((((calls.zip (l.answers calls)).filter fun r => r.2.1).map Prod.fst).filter
    fun c => decide (c.key = key)).map Call.now

theorem grantedOf_eq (key : String) (l : RateLimiter) (calls : List Call) :
    grantedOf key l calls = ((((callsOf key calls).map Call.now).zip (answersOf key l calls)).filter
      fun r => r.2.1).map Prod.fst := by
  rw [callsOf_eq key l calls, answersOf, grantedOf, List.map_map, List.zip_map', List.filter_map,
    List.filter_map, List.map_map, List.map_map, List.filter_filter, List.filter_filter]
  refine congrArg _ (List.filter_congr fun r _ => ?_)
  exact Bool.and_comm _ _

/-- The clock a client's calls are timed by does not go back. -/
structure InOrder (calls : List Call) : Prop where
  created : ∀ c ∈ calls, c.created ≤ c.now
  sorted : (calls.map Call.now).Pairwise (· ≤ ·)

theorem grantedOf_le {capacity : Int} {refill : ℚ} {maxClients : Nat} (hcap : 0 ≤ capacity)
    (hr : 0 ≤ refill) (frequent : Frequent maxClients key calls)
    (clock : InOrder (callsOf key calls)) {s e : ℚ} (hse : s ≤ e) :
    ((grantedOf key ⟨capacity, refill, maxClients, []⟩ calls).countP
      (fun t => decide (s ≤ t ∧ t ≤ e)) : ℚ) ≤ capacity + (e - s) * refill := by
  have own := answersOf_new (RateLimiter.Ok.new capacity refill maxClients) List.not_mem_nil frequent
  rw [grantedOf_eq, own]
  cases hc : callsOf key calls with
  | nil =>
    have room : 0 ≤ (e - s) * refill := mul_nonneg (sub_nonneg.mpr hse) hr
    have cap : (0 : ℚ) ≤ capacity := by exact_mod_cast hcap
    simp only [List.map_nil, List.zip_nil_left, List.filter_nil, List.countP_nil, Nat.cast_zero]
    linarith
  | cons c cs =>
    rw [hc] at clock
    rw [privateAnswers, ← granted_eq]
    refine TokenBucket.granted_window_le (TokenBucket.Ok.new hcap hr c.created) ?_ hse
    refine List.pairwise_cons.mpr ⟨fun t ht => ?_, clock.sorted⟩
    -- the bucket is as old as the first call
    have first : c.created ≤ c.now := clock.created c List.mem_cons_self
    rcases List.mem_cons.mp ht with rfl | ht
    · exact first
    · exact first.trans ((List.pairwise_cons.mp clock.sorted).1 t ht)

end Granted

theorem compared_eq (key : String) (l : RateLimiter) (rs : List Check) :
    ((compared l rs).filter fun r => decide (r.call.key = key)).map (fun r => r.call.now) =
      grantedOf key l (rs.map Check.call) := by
  rw [compared, grantedOf]
  have zipped : (rs.map Check.call).zip (l.answers (rs.map Check.call)) =
      (rs.zip (l.answers (rs.map Check.call))).map fun r => (r.1.call, r.2) := by
    rw [List.zip_map_left]
    rfl
  rw [zipped]
  simp only [List.filter_map, List.map_map]
  rfl

/-- The limiter of the route, as the application starts. -/
def authLimiter : RateLimiter where
  capacity := authCapacity
  refill := authRefill

theorem mem_compared {l : RateLimiter} {rs : List Check} {r : Check} {wait : ℚ}
    (h : (r, true, wait) ∈ rs.zip (l.answers (rs.map Check.call))) : r ∈ compared l rs :=
  List.mem_map.mpr ⟨_, List.mem_filter.mpr ⟨h, rfl⟩, rfl⟩

theorem answer_wrong {expected : String} {presented : Option String} {limiter : Bool × ℚ}
    (allowed : limiter.1 = true) (wrong : presented ≠ some expected) :
    answer expected presented limiter = .unauthorized := by
  rw [answer, if_neg (not_not_intro allowed), if_neg]
  rw [tokenMatches_eq_false wrong]
  exact Bool.false_ne_true

/-- Guesses that are both wrong for two tokens do not tell these apart. -/
theorem checks_same {l : RateLimiter} {rs : List Check} {token token' : String}
    (wrong : ∀ r ∈ compared l rs, r.presented ≠ some token ∧ r.presented ≠ some token') :
    checks token l rs = checks token' l rs := by
  rw [checks_eq, checks_eq]
  refine List.map_congr_left fun p hp => ?_
  obtain ⟨r, allowed, wait⟩ := p
  cases allowed with
  | false => rfl
  | true =>
    obtain ⟨first, second⟩ := wrong r (mem_compared hp)
    rw [answer_wrong rfl first, answer_wrong rfl second]

theorem answer_cases (expected : String) (presented : Option String) (limiter : Bool × ℚ) :
    (∃ wait, answer expected presented limiter = .rateLimited wait) ∨
      (answer expected presented limiter = .noContent ↔
        presented = some expected ∧ expected ≠ "") := by
  by_cases allowed : limiter.1 = true
  · refine Or.inr ?_
    rw [answer, if_neg (not_not_intro allowed), ← tokenMatches_iff]
    split
    · rename_i right
      exact ⟨fun _ => right, fun _ => rfl⟩
    · rename_i wrong
      exact ⟨fun h => Answer.noConfusion h, fun right => absurd right wrong⟩
  · exact Or.inl ⟨limiter.2, if_pos allowed⟩

/-- A client that the limiter keeps a bucket for gets no more guesses in any window than a full
bucket and what flows in. What is answered tells two tokens apart only by the guesses that got
that far, and what is not turned away by the limiter is judged by the token. -/
theorem guesses_bounded (rs : List Check) {key : String}
    (frequent : Frequent defaultMaxClients key (rs.map Check.call))
    (clock : InOrder (callsOf key (rs.map Check.call))) {s e : ℚ} (hse : s ≤ e) :
    ((compared authLimiter rs).countP
      (fun r => decide (r.call.key = key ∧ s ≤ r.call.now ∧ r.call.now ≤ e)) : ℚ) ≤
        20 + (e - s) / 5 ∧
    (∀ token token' : String,
      (∀ r ∈ compared authLimiter rs, r.presented ≠ some token ∧ r.presented ≠ some token') →
      checks token authLimiter rs = checks token' authLimiter rs) ∧
    ∀ token, ∀ p ∈ rs.zip (checks token authLimiter rs), (∃ wait, p.2 = .rateLimited wait) ∨
      (p.2 = .noContent ↔ p.1.presented = some token ∧ token ≠ "") := by
  refine ⟨?_, fun token token' wrong => checks_same wrong, fun token p hp => ?_⟩
  · have bound : ((grantedOf key authLimiter (rs.map Check.call)).countP
        (fun t => decide (s ≤ t ∧ t ≤ e)) : ℚ) ≤ authCapacity + (e - s) * authRefill :=
      grantedOf_le (by decide) (by norm_num [authRefill]) frequent clock hse
    have count : (compared authLimiter rs).countP
        (fun r => decide (r.call.key = key ∧ s ≤ r.call.now ∧ r.call.now ≤ e)) =
        (grantedOf key authLimiter (rs.map Check.call)).countP
          fun t => decide (s ≤ t ∧ t ≤ e) := by
      rw [← compared_eq, List.countP_map, List.countP_filter]
      refine List.countP_congr fun r _ => ?_
      simp only [Function.comp_apply, Bool.decide_and, Bool.and_eq_true, decide_eq_true_eq]
      tauto
    rw [count]
    have limits : ((authCapacity : ℚ) + (e - s) * authRefill) = 20 + (e - s) / 5 := by
      rw [authCapacity, authRefill]
      push_cast
      ring
    rw [← limits]
    exact bound
  · rw [checks_eq] at hp
    obtain ⟨i, hi⟩ := List.mem_iff_getElem?.mp hp
    rw [List.getElem?_zip_eq_some, List.getElem?_map, Option.map_eq_some_iff] at hi
    obtain ⟨hr, q, hq, eq⟩ := hi
    have same : q.1 = p.1 := by
      have := (List.getElem?_zip_eq_some.mp hq).1
      exact Option.some.inj (this.symm.trans hr)
    rw [← eq, ← same]
    exact answer_cases token q.1.presented q.2

/-- Wrong guesses of two clients, one of them with more than a full bucket. -/
def wrongGuesses : List Check :=
  List.replicate 30 ⟨⟨"a", 0, 0⟩, some "guess"⟩ ++ [⟨⟨"b", 0, 0⟩, some "other"⟩]

theorem guesses_bounded_wrong :
    ((compared authLimiter wrongGuesses).countP
      (fun r => decide (r.call.key = "a" ∧ 0 ≤ r.call.now ∧ r.call.now ≤ 0)) : ℚ) ≤ 20 ∧
    checks "token" authLimiter wrongGuesses = checks "token'" authLimiter wrongGuesses := by
  have frequent : Frequent defaultMaxClients "a" (wrongGuesses.map Check.call) :=
    .of_few (by decide)
  have clock : InOrder (callsOf "a" (wrongGuesses.map Check.call)) := ⟨by decide, by decide⟩
  have wrong : ∀ r ∈ wrongGuesses, r.presented ≠ some "token" ∧ r.presented ≠ some "token'" := by
    decide
  obtain ⟨bound, same, -⟩ := guesses_bounded wrongGuesses frequent clock (le_refl 0)
  refine ⟨?_, same "token" "token'" fun r hr => wrong r (compared_subset _ _ hr)⟩
  norm_num at bound ⊢
  exact bound

end Karr.Auth
