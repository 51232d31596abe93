import Karr.Api.RateLimit
import Mathlib.Tactic.Linarith

/-!
# One client of the limiter

A bucket is lost only when as many other clients have called since as the
limiter holds. Until then a client sees a bucket of its own.
-/

set_option autoImplicit false

namespace Karr.RateLimit

def callsOf (key : String) (calls : List Call) : List Call :=
  calls.filter fun c => decide (c.key = key)

/-- What a client was answered. -/
def answersOf (key : String) (l : RateLimiter) (calls : List Call) : List (Bool × ℚ) :=
  ((calls.zip (l.answers calls)).filter fun r => decide (r.1.key = key)).map Prod.snd

/-- A bucket that is asked at the given times. -/
def TokenBucket.answers (b : TokenBucket) : List ℚ → List (Bool × ℚ)
  | [] => []
  | now :: times => (b.ask now).1 :: answers (b.ask now).2 times

/-- A bucket of the client's own, created at its first call and asked at its calls only. -/
def privateAnswers (capacity : Int) (refill : ℚ) : List Call → List (Bool × ℚ)
  | [] => []
  | c :: calls =>
    (TokenBucket.new capacity refill c.created).answers ((c :: calls).map Call.now)

def keysOf (calls : List Call) : Finset String := (calls.map Call.key).toFinset

/-- Between two consecutive calls of the client fewer than `size` distinct others call. -/
def Frequent (size : Nat) (key : String) (calls : List Call) : Prop :=
  ∀ before a between b after, calls = before ++ a :: between ++ b :: after →
    a.key = key → b.key = key → (∀ c ∈ between, c.key ≠ key) → (keysOf between).card < size

theorem Frequent.tail {size : Nat} {key : String} {c : Call} {calls : List Call}
    (h : Frequent size key (c :: calls)) : Frequent size key calls := by
  intro before a between b after split
  exact h (c :: before) a between b after (by rw [split]; rfl)

/-- With room for all clients there is no condition on their calls. -/
theorem Frequent.of_few {size : Nat} {key : String} {calls : List Call}
    (h : ((keysOf calls).erase key).card < size) : Frequent size key calls := by
  rintro before a between b after rfl - - apart
  refine Nat.lt_of_le_of_lt (Finset.card_le_card fun x hx => ?_) h
  obtain ⟨c, hc, rfl⟩ := List.mem_map.mp (List.mem_toFinset.mp hx)
  refine Finset.mem_erase.mpr ⟨apart c hc, List.mem_toFinset.mpr (List.mem_map_of_mem ?_)⟩
  simp [hc]

/-- The condition looks at the calls from one of the client to its next. -/
theorem Frequent.join {size : Nat} {key : String} {c : Call} {xs ys : List Call}
    (left : Frequent size key (xs ++ [c])) (own : c.key = key)
    (right : Frequent size key (c :: ys)) : Frequent size key (xs ++ c :: ys) := by
  intro before a between b after split ha hb apart
  rcases List.append_eq_append_iff.mp split with ⟨as, eq, rest⟩ | ⟨bs, eq, rest⟩
  · cases as with
    | nil =>
      cases rest
      refine left before a between c [] ?_ ha hb apart
      rw [eq, List.append_nil]
    | cons d as =>
      cases rest
      rcases List.append_eq_append_iff.mp eq with ⟨cs, -, inner⟩ | ⟨cs, -, inner⟩
      · cases cs with
        | nil =>
          cases inner
          exact right [] c between b after rfl ha hb apart
        | cons e cs =>
          cases inner
          exact absurd own (apart c (List.mem_append_right _ List.mem_cons_self))
      · refine right cs a between b after ?_ ha hb apart
        rw [← inner]
        rfl
  · cases bs with
    | nil =>
      cases rest
      refine left before a between c [] ?_ ha hb apart
      rw [eq, List.append_nil]
    | cons d bs =>
      cases rest
      refine left before a between b (bs ++ [c]) ?_ ha hb apart
      rw [eq, List.append_assoc, List.cons_append]
section Answers
variable {key : String} {l : RateLimiter} {c : Call} {calls : List Call}

theorem answersOf_cons_self (h : c.key = key) : answersOf key l (c :: calls) =
    ((l.bucketOf key c.created).ask c.now).1 ::
      answersOf key (l.tryAcquire key c.created c.now).2 calls := by
  subst h
  rw [answersOf, RateLimiter.answers, List.zip_cons_cons, List.filter_cons_of_pos (by simp),
    List.map_cons, RateLimiter.tryAcquire_answer]
  rfl

theorem answersOf_cons_other (h : c.key ≠ key) : answersOf key l (c :: calls) =
    answersOf key (l.tryAcquire c.key c.created c.now).2 calls := by
  rw [answersOf, RateLimiter.answers, List.zip_cons_cons, List.filter_cons_of_neg (by simpa using h)]
  rfl

theorem callsOf_cons_self (h : c.key = key) : callsOf key (c :: calls) = c :: callsOf key calls :=
  List.filter_cons_of_pos (by simpa using h)

theorem callsOf_cons_other (h : c.key ≠ key) : callsOf key (c :: calls) = callsOf key calls :=
  List.filter_cons_of_neg (by simpa using h)

/-- After a call of the client: as long as the others since then fit beside it, its bucket is
there. -/
theorem answersOf_since {b : TokenBucket} (others : Finset String) (ok : l.Ok)
    (kept : others.card < l.maxClients → Recency.Since key b others l.buckets)
    (next : ∀ between c after, calls = between ++ c :: after → c.key = key →
      (∀ d ∈ between, d.key ≠ key) → (others ∪ keysOf between).card < l.maxClients)
    (frequent : Frequent l.maxClients key calls) :
    answersOf key l calls = b.answers ((callsOf key calls).map Call.now) := by
  induction calls generalizing l b others with
  | nil => rfl
  | cons c calls ih =>
    have ok' := ok.tryAcquire c.key c.created c.now
    have snd := RateLimiter.tryAcquire_snd ok c.key c.created c.now
    by_cases mine : c.key = key
    · have room : others.card < l.maxClients := by
        simpa [keysOf] using next [] c calls rfl mine (fun _ hd => absurd hd List.not_mem_nil)
      have bucket : l.bucketOf key c.created = b := by
        rw [RateLimiter.bucketOf, (kept room).find, Option.getD_some]
      rw [answersOf_cons_self mine, callsOf_cons_self mine, bucket, List.map_cons,
        TokenBucket.answers, TokenBucket.ask_snd]
      rw [mine, bucket] at snd
      rw [mine] at ok'
      refine congrArg _ (ih ∅ ok' (fun _ => ?_) ?_ ?_)
      · rw [snd]
        exact Recency.Since.of_use (Nat.zero_lt_of_lt room)
      · intro between d after split hd apart
        rw [snd, Finset.empty_union]
        exact frequent [] c between d after (by rw [split]; rfl) mine hd apart
      · rw [snd]
        exact frequent.tail
    · rw [answersOf_cons_other mine, callsOf_cons_other mine]
      refine ih (insert c.key others) ok' (fun room => ?_) ?_ ?_
      · rw [snd] at room ⊢
        have before : others.card < l.maxClients :=
          Nat.lt_of_le_of_lt (Finset.card_le_card (Finset.subset_insert _ _)) room
        exact (kept before).use_other ok.nodup mine room
      · intro between d after split hd apart
        have := next (c :: between) d after (by rw [split]; rfl) hd (by
          intro e he
          rcases List.mem_cons.mp he with rfl | he
          · exact mine
          · exact apart e he)
        rw [snd]
        simpa [keysOf] using this
      · rw [snd]
        exact frequent.tail

/-- Before the first call of the client it has no bucket. -/
theorem answersOf_new (ok : l.Ok) (new : key ∉ Recency.keys l.buckets)
    (frequent : Frequent l.maxClients key calls) :
    answersOf key l calls = privateAnswers l.capacity l.refill (callsOf key calls) := by
  induction calls generalizing l with
  | nil => rfl
  | cons c calls ih =>
    have ok' := ok.tryAcquire c.key c.created c.now
    have snd := RateLimiter.tryAcquire_snd ok c.key c.created c.now
    by_cases mine : c.key = key
    · have bucket : l.bucketOf key c.created = TokenBucket.new l.capacity l.refill c.created := by
        rw [RateLimiter.bucketOf, Recency.find_eq_none.mpr new, Option.getD_none]
      rw [answersOf_cons_self mine, callsOf_cons_self mine, bucket, privateAnswers, List.map_cons,
        TokenBucket.answers, TokenBucket.ask_snd]
      rw [mine, bucket] at snd
      rw [mine] at ok'
      refine congrArg _ (answersOf_since ∅ ok' (fun room => ?_) ?_ ?_)
      · rw [snd] at room ⊢
        exact Recency.Since.of_use room
      · intro between d after split hd apart
        rw [snd, Finset.empty_union]
        exact frequent [] c between d after (by rw [split]; rfl) mine hd apart
      · rw [snd]
        exact frequent.tail
    · rw [answersOf_cons_other mine, callsOf_cons_other mine]
      have rest := ih ok' (by
        rw [snd]
        intro mem
        obtain ⟨e, he, hkey⟩ := List.mem_map.mp mem
        rcases Recency.mem_use he with rfl | ⟨he, -⟩
        · exact mine hkey
        · exact new (hkey ▸ List.mem_map_of_mem he)) (by rw [snd]; exact frequent.tail)
      rw [rest, snd]

end Answers

/-- The limiter holds at most so many buckets; a client that calls often enough is answered by a
bucket of its own, whatever the others do. -/
theorem rateLimiter_exact (capacity : Int) (refill : ℚ) (maxClients : Nat) (calls : List Call) :
    (RateLimiter.after ⟨capacity, refill, maxClients, []⟩ calls).buckets.length ≤ maxClients ∧
    ∀ key, Frequent maxClients key calls →
      answersOf key ⟨capacity, refill, maxClients, []⟩ calls =
        privateAnswers capacity refill (callsOf key calls) := by
  have ok := RateLimiter.Ok.new capacity refill maxClients
  refine ⟨?_, fun key frequent => answersOf_new ok List.not_mem_nil frequent⟩
  have size := (ok.after calls).size
  rwa [(RateLimiter.after_limits _ calls).2.2] at size

/-- Three clients, and room for two. -/
theorem rateLimiter_exact_three :
    answersOf "a" ⟨1, 1, 2, []⟩ [⟨"a", 0, 0⟩, ⟨"b", 0, 0⟩, ⟨"a", 0, 0⟩, ⟨"c", 0, 0⟩, ⟨"a", 1, 1⟩] =
      privateAnswers 1 1 [⟨"a", 0, 0⟩, ⟨"a", 0, 0⟩, ⟨"a", 1, 1⟩] := by
  have first : Frequent 2 "a" ([⟨"a", 0, 0⟩, ⟨"b", 0, 0⟩] ++ [⟨"a", 0, 0⟩]) :=
    .of_few (by decide)
  have second : Frequent 2 "a" [⟨"a", 0, 0⟩, ⟨"c", 0, 0⟩, ⟨"a", 1, 1⟩] := .of_few (by decide)
  exact (rateLimiter_exact 1 1 2 _).2 "a" (first.join rfl second)

end Karr.RateLimit
