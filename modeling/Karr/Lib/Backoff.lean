import Mathlib.Algebra.Ring.Nat

/-!
# Exponential backoff

The waits of a retry whose delay doubles from `base` up to `cap`. From some retry
on each of them is the cap, so all but a few retries of a client cost the whole
of it, however often it begins anew.
-/

set_option autoImplicit false

namespace Backoff

def delay (base cap attempt : Nat) : Nat := min cap (base * 2 ^ attempt)

/-- The first `n` delays together. -/
def waits (base cap : Nat) : Nat → Nat
  | 0 => 0
  | n + 1 => waits base cap n + delay base cap n

variable {base cap k : Nat}

theorem le_delay (h : base ≤ cap) (attempt : Nat) : base ≤ delay base cap attempt := by
  have grows : base * 1 ≤ base * 2 ^ attempt := Nat.mul_le_mul_left base Nat.one_le_two_pow
  rw [Nat.mul_one] at grows
  exact Nat.le_min.mpr ⟨h, grows⟩

theorem delay_of_le (h : cap ≤ base * 2 ^ k) {n : Nat} (hn : k ≤ n) : delay base cap n = cap := by
  have grows : base * 2 ^ k ≤ base * 2 ^ n :=
    Nat.mul_le_mul_left base (Nat.pow_le_pow_right (by omega) hn)
  exact Nat.min_eq_left (Nat.le_trans h grows)

/-- All but `k` retries cost the whole cap. -/
theorem mul_le_waits (h : cap ≤ base * 2 ^ k) (n : Nat) : cap * n ≤ waits base cap n + cap * k := by
  induction n with
  | zero => omega
  | succ n ih =>
    rw [waits, Nat.mul_succ]
    by_cases hn : k ≤ n
    · rw [delay_of_le h hn]
      omega
    · have few : cap * n + cap ≤ cap * k := by
        rw [← Nat.mul_succ]
        exact Nat.mul_le_mul_left cap (by omega)
      omega

/-- The account of a client: its retries, what it has waited for them, how often it began
anew and the retries since. -/
structure Ledger where
  retries : Nat := 0
  waited : Nat := 0
  resets : Nat := 0
  attempt : Nat := 0
  deriving DecidableEq, Repr

namespace Ledger

def retry (base cap : Nat) (l : Ledger) : Ledger where
  retries := l.retries + 1
  waited := l.waited + delay base cap l.attempt
  resets := l.resets
  attempt := l.attempt + 1

def reset (l : Ledger) : Ledger := { l with resets := l.resets + 1, attempt := 0 }

/-- The retries are paid for, up to `k` of them for each fresh start. -/
structure Balanced (base cap k : Nat) (l : Ledger) : Prop where
  paid : cap * l.retries + waits base cap l.attempt ≤
    l.waited + cap * k * l.resets + cap * l.attempt
  each : base * l.retries ≤ l.waited

theorem balanced_empty : Balanced base cap k {} := ⟨by simp [waits], by simp⟩

theorem Balanced.retry {l : Ledger} (hb : base ≤ cap) (h : Balanced base cap k l) :
    Balanced base cap k (l.retry base cap) := by
  obtain ⟨paid, each⟩ := h
  have := le_delay hb l.attempt
  constructor
  · simp only [Ledger.retry, waits, Nat.mul_succ]
    omega
  · simp only [Ledger.retry, Nat.mul_succ]
    omega

theorem Balanced.reset {l : Ledger} (hk : cap ≤ base * 2 ^ k) (h : Balanced base cap k l) :
    Balanced base cap k l.reset := by
  obtain ⟨paid, each⟩ := h
  have := mul_le_waits hk l.attempt
  refine ⟨?_, each⟩
  simp only [Ledger.reset, waits, Nat.mul_succ]
  omega

theorem Balanced.retries_le {l : Ledger} (hk : cap ≤ base * 2 ^ k) (h : Balanced base cap k l) :
    cap * l.retries ≤ l.waited + cap * k * (l.resets + 1) := by
  have paid := h.paid
  have := mul_le_waits hk l.attempt
  rw [Nat.mul_succ]
  omega

end Ledger

end Backoff
