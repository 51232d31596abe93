import Karr.Api.RateLimit
import Mathlib.Tactic.Linarith
import Mathlib.Tactic.FieldSimp

/-!
# Bounds of a token bucket

A bucket grants no more than it holds and what flows in. Refused calls take
nothing, and a full bucket loses what flows in.
-/

set_option autoImplicit false

namespace Karr.RateLimit

namespace TokenBucket

/-- The times of the calls that are granted. -/
def granted (b : TokenBucket) : List ℚ → List ℚ
  | [] => []
  | now :: times =>
    if (b.tryAcquire now).1 then now :: granted (b.tryAcquire now).2 times
    else granted (b.tryAcquire now).2 times

/-- Neither in debt nor over its capacity. -/
structure Ok (b : TokenBucket) : Prop where
  refill : 0 ≤ b.refill
  nonneg : 0 ≤ b.tokens
  full : b.tokens ≤ b.capacity

variable {b : TokenBucket} {now : ℚ} {times : List ℚ}

theorem Ok.new {capacity : Int} {refill : ℚ} (hcap : 0 ≤ capacity) (hr : 0 ≤ refill)
    (created : ℚ) : (new capacity refill created).Ok where
  refill := hr
  nonneg := by simpa [TokenBucket.new] using hcap
  full := le_refl _

theorem level_le_capacity (b : TokenBucket) (now : ℚ) : b.level now ≤ b.capacity :=
  min_le_left _ _

theorem level_le (b : TokenBucket) (now : ℚ) :
    b.level now ≤ b.tokens + (now - b.updated) * b.refill :=
  min_le_right _ _

theorem Ok.tokens_le_level (h : b.Ok) (hnow : b.updated ≤ now) : b.tokens ≤ b.level now := by
  have inflow : 0 ≤ (now - b.updated) * b.refill := mul_nonneg (sub_nonneg.mpr hnow) h.refill
  exact le_min h.full (by linarith)

theorem Ok.tryAcquire (h : b.Ok) (hnow : b.updated ≤ now) : (b.tryAcquire now).2.Ok := by
  have level := h.tokens_le_level hnow
  have full := b.level_le_capacity now
  have nonneg := h.nonneg
  by_cases free : 1 ≤ b.level now
  · rw [tryAcquire_of_le free]
    exact ⟨h.refill, sub_nonneg.mpr free, by dsimp only; linarith⟩
  · rw [tryAcquire_of_lt (not_le.mp free)]
    exact ⟨h.refill, by dsimp only; linarith, full⟩

theorem granted_sublist (b : TokenBucket) (times : List ℚ) :
    (b.granted times).Sublist times := by
  induction times generalizing b with
  | nil => exact List.nil_sublist _
  | cons now times ih =>
    rw [granted]
    split
    · exact (ih _).cons_cons now
    · exact (ih _).cons now

theorem count_granted_cons (b : TokenBucket) (now : ℚ) (times : List ℚ) (p : ℚ → Bool) :
    ((b.granted (now :: times)).countP p : ℚ) + (b.tryAcquire now).2.tokens ≤
      ((b.tryAcquire now).2.granted times).countP p + b.level now := by
  rw [granted]
  by_cases free : 1 ≤ b.level now
  · have taken : (b.tryAcquire now).2.tokens = b.level now - 1 := by rw [tryAcquire_of_le free]
    have one : (if p now = true then 1 else 0 : ℚ) ≤ 1 := by split <;> norm_num
    rw [if_pos (by rw [tryAcquire_of_le free]), List.countP_cons, taken]
    push_cast
    linarith
  · have kept : (b.tryAcquire now).2.tokens = b.level now := by
      rw [tryAcquire_of_lt (not_le.mp free)]
    rw [if_neg (by rw [tryAcquire_of_lt (not_le.mp free)]; exact Bool.false_ne_true), kept]

theorem count_granted_cons_of_not {p : ℚ → Bool} (h : p now = false) :
    (b.granted (now :: times)).countP p = ((b.tryAcquire now).2.granted times).countP p := by
  rw [granted]
  split
  · exact List.countP_cons_of_neg (by rw [h]; exact Bool.false_ne_true)
  · rfl

theorem count_granted_eq_zero {p : ℚ → Bool} (h : ∀ t ∈ times, p t = false) :
    (b.granted times).countP p = 0 := by
  refine List.countP_eq_zero.mpr fun t ht => ?_
  rw [h t ((b.granted_sublist times).subset ht)]
  exact Bool.false_ne_true

/-- Until a given time: what the bucket holds and what flows in. -/
theorem granted_until_le (h : b.Ok) (sorted : (b.updated :: times).Pairwise (· ≤ ·)) {e : ℚ}
    (hu : b.updated ≤ e) :
    ((b.granted times).countP (fun t => decide (t ≤ e)) : ℚ) ≤
      b.tokens + (e - b.updated) * b.refill := by
  have nonneg : 0 ≤ b.tokens + (e - b.updated) * b.refill :=
    add_nonneg h.nonneg (mul_nonneg (sub_nonneg.mpr hu) h.refill)
  induction times generalizing b with
  | nil =>
    simp only [granted, List.countP_nil, Nat.cast_zero]
    exact nonneg
  | cons now times ih =>
    obtain ⟨later, sorted'⟩ := List.pairwise_cons.mp sorted
    have hnow : b.updated ≤ now := later now List.mem_cons_self
    by_cases inside : now ≤ e
    · have ok := h.tryAcquire hnow
      have step := b.count_granted_cons now times fun t => decide (t ≤ e)
      have rest := ih ok (by rwa [tryAcquire_updated]) (by rwa [tryAcquire_updated])
        (add_nonneg ok.nonneg (mul_nonneg
          (by rw [tryAcquire_updated]; exact sub_nonneg.mpr inside) ok.refill))
      have level := b.level_le now
      rw [tryAcquire_updated, tryAcquire_refill] at rest
      linarith
    · have late : ∀ t ∈ now :: times, decide (t ≤ e) = false := by
        intro t ht
        refine decide_eq_false fun hte => inside (le_trans ?_ hte)
        rcases List.mem_cons.mp ht with rfl | ht
        · exact le_refl _
        · exact (List.pairwise_cons.mp sorted').1 t ht
      rw [count_granted_eq_zero late, Nat.cast_zero]
      exact nonneg

/-- In any window: a full bucket and what flows in. -/
theorem granted_window_le (h : b.Ok) (sorted : (b.updated :: times).Pairwise (· ≤ ·))
    {s e : ℚ} (hse : s ≤ e) :
    ((b.granted times).countP (fun t => decide (s ≤ t ∧ t ≤ e)) : ℚ) ≤
      b.capacity + (e - s) * b.refill := by
  have nonneg : 0 ≤ b.capacity + (e - s) * b.refill :=
    add_nonneg (h.nonneg.trans h.full) (mul_nonneg (sub_nonneg.mpr hse) h.refill)
  induction times generalizing b with
  | nil =>
    simp only [granted, List.countP_nil, Nat.cast_zero]
    exact nonneg
  | cons now times ih =>
    obtain ⟨later, sorted'⟩ := List.pairwise_cons.mp sorted
    have hnow : b.updated ≤ now := later now List.mem_cons_self
    have ok := h.tryAcquire hnow
    by_cases outside : now < s ∨ e < now
    · -- a call outside the window only changes the bucket
      have skip : decide (s ≤ now ∧ now ≤ e) = false := by
        refine decide_eq_false fun inside => ?_
        rcases outside with early | late
        · exact absurd inside.1 (not_le.mpr early)
        · exact absurd inside.2 (not_le.mpr late)
      rw [count_granted_cons_of_not skip]
      have rest := ih ok (by rwa [tryAcquire_updated])
        (by rwa [tryAcquire_capacity, tryAcquire_refill])
      rwa [tryAcquire_capacity, tryAcquire_refill] at rest
    · -- from the first call inside it on, the bucket was at most full
      push Not at outside
      have step := b.count_granted_cons now times fun t => decide (s ≤ t ∧ t ≤ e)
      have rest := granted_until_le (e := e) ok (by rwa [tryAcquire_updated])
        (by rw [tryAcquire_updated]; exact outside.2)
      have level := b.level_le_capacity now
      have inflow : (e - now) * b.refill ≤ (e - s) * b.refill :=
        mul_le_mul_of_nonneg_right (by linarith [outside.1]) h.refill
      have fewer : (((b.tryAcquire now).2.granted times).countP
          (fun t => decide (s ≤ t ∧ t ≤ e)) : ℚ) ≤
          (((b.tryAcquire now).2.granted times).countP fun t => decide (t ≤ e) : ℕ) :=
        Nat.cast_le.mpr (List.countP_mono_left fun t _ inside =>
          decide_eq_true (of_decide_eq_true inside).2)
      rw [tryAcquire_updated, tryAcquire_refill] at rest
      linarith

/-- A caller that waits for a token between its calls. -/
theorem granted_of_gaps (h : b.Ok) (hcap : 1 ≤ b.capacity) (hr : 0 < b.refill)
    (gaps : (b.updated :: times).IsChain fun t now => t + 1 / b.refill ≤ now) :
    b.granted times = times := by
  induction times generalizing b with
  | nil => rfl
  | cons now times ih =>
    obtain ⟨gap, gaps'⟩ := List.isChain_cons_cons.mp gaps
    have later : b.updated ≤ now := by
      have : 0 < 1 / b.refill := one_div_pos.mpr hr
      linarith
    have inflow : 1 ≤ (now - b.updated) * b.refill := by
      rw [← div_le_iff₀ hr]
      linarith
    have free : 1 ≤ b.level now := by
      have nonneg := h.nonneg
      exact le_min (by exact_mod_cast hcap) (by linarith)
    have rest := ih (h.tryAcquire later) (by rwa [tryAcquire_capacity])
      (by rwa [tryAcquire_refill]) (by rwa [tryAcquire_updated, tryAcquire_refill])
    rw [granted, if_pos (by rw [tryAcquire_of_le free]), rest]

/-- A new bucket asked at times that do not go back. -/
theorem tokenBucket_bounds (capacity : Int) (refill created : ℚ) (times : List ℚ)
    (hcap : 1 ≤ capacity) (hr : 0 ≤ refill) (sorted : (created :: times).Pairwise (· ≤ ·)) :
    (∀ s T : ℚ, 0 ≤ T →
      (((new capacity refill created).granted times).countP
        (fun t => decide (s ≤ t ∧ t ≤ s + T)) : ℚ) ≤ capacity + refill * T) ∧
    (0 < refill → times.IsChain (fun t now => 1 / refill ≤ now - t) →
      (new capacity refill created).granted times = times) := by
  have ok : (new capacity refill created).Ok := Ok.new (by omega) hr created
  refine ⟨fun s T hT => ?_, fun positive gaps => ?_⟩
  · have window := granted_window_le ok sorted (le_add_of_nonneg_right hT : s ≤ s + T)
    rwa [add_sub_cancel_left, mul_comm] at window
  · cases times with
    | nil => rfl
    | cons now times =>
      -- the first call finds the bucket full, the others wait
      have first : created ≤ now := (List.pairwise_cons.mp sorted).1 now List.mem_cons_self
      have free : 1 ≤ (new capacity refill created).level now := by
        have full := ok.tokens_le_level first
        have : (1 : ℚ) ≤ capacity := by exact_mod_cast hcap
        exact this.trans full
      have gaps' : (now :: times).IsChain fun t now => t + 1 / refill ≤ now :=
        gaps.imp fun t now gap => by linarith
      have rest := granted_of_gaps (ok.tryAcquire first) (by rwa [tryAcquire_capacity])
        (by rwa [tryAcquire_refill]) (by rwa [tryAcquire_updated, tryAcquire_refill])
      rw [granted, if_pos (by rw [tryAcquire_of_le free]), rest]

/-- Two tokens and one more each second: four calls at once and two that wait long enough. -/
theorem tokenBucket_bounds_burst :
    (((new 2 1 100).granted [100, 100, 100, 100, 102, 104]).countP
      (fun t => decide (100 ≤ t ∧ t ≤ 100 + 3)) : ℚ) ≤ (2 : Int) + 1 * 3 ∧
    (new 2 1 100).granted [100, 102, 104] = [100, 102, 104] := by
  have burst := (tokenBucket_bounds 2 1 100 [100, 100, 100, 100, 102, 104]
    (by decide) (by norm_num) (by norm_num)).1 100 3
  have steady := (tokenBucket_bounds 2 1 100 [100, 102, 104]
    (by decide) (by norm_num) (by norm_num)).2
  exact ⟨burst (by norm_num), steady (by norm_num) (by norm_num)⟩

end TokenBucket

end Karr.RateLimit
