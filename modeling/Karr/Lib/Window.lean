import Mathlib.Data.List.DropRight

/-!
# A bounded window on a growing list

What is pushed goes to the back, and the front makes room. Whatever is pushed in
whatever order, the window shows the last elements of all that was pushed.
-/

set_option autoImplicit false

namespace Window

universe u
variable {α : Type u}

def push (n : Nat) (xs : List α) (x : α) : List α :=
  (if n ≤ xs.length then xs.drop (xs.length - n + 1) else xs) ++ [x]

variable {n : Nat} {xs : List α}

theorem length_rtake_le (n : Nat) (xs : List α) : (xs.rtake n).length ≤ n := by
  rw [List.rtake, List.length_drop]
  omega

theorem push_eq_rtake (hn : 0 < n) (xs : List α) (x : α) : push n xs x = (xs ++ [x]).rtake n := by
  obtain ⟨n, rfl⟩ : ∃ m, n = m + 1 := ⟨n - 1, by omega⟩
  rw [push, List.rtake_concat_succ, List.rtake]
  split
  · rename_i full
    have room : xs.length - (n + 1) + 1 = xs.length - n := by omega
    rw [room]
  · rename_i roomy
    have all : xs.length - n = 0 := by omega
    rw [all, List.drop_zero]

/-- The window forgets nothing that the next push would have kept. -/
theorem push_rtake (hn : 0 < n) (xs : List α) (x : α) :
    push n (xs.rtake n) x = (xs ++ [x]).rtake n := by
  obtain ⟨n, rfl⟩ : ∃ m, n = m + 1 := ⟨n - 1, by omega⟩
  rw [push_eq_rtake hn, List.rtake_concat_succ, List.rtake_concat_succ]
  simp only [List.rtake, List.length_drop, List.drop_drop]
  congr 2
  omega

end Window
