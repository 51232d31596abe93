import Karr.Lib.Interleaving

/-!
# One process alone

A process that nothing interrupts, with everything it was answered and did. Its
runs are runs of a relation like any other, so that `Run.invariant` applies;
`drive` is the one run in which each input is a function of the local state.
-/

set_option autoImplicit false

namespace Interleaving

variable {σ ι α ε : Type}

structure Solo (σ ι α ε : Type) where
  store : σ
  proc : ι
  trace : List (α × ε) := []

namespace System

def alone (S : System σ ι α ε) (c : Solo σ ι α ε) (a : α) : Option (Solo σ ι α ε) :=
  (S.step c.store c.proc a).map fun r =>
    { store := S.apply c.store r.1, proc := r.2, trace := c.trace ++ [(a, r.1)] }

theorem alone_cases {S : System σ ι α ε} {c c' : Solo σ ι α ε} {a : α}
    (h : S.alone c a = some c') :
    ∃ e p', S.step c.store c.proc a = some (e, p') ∧
      c' = ⟨S.apply c.store e, p', c.trace ++ [(a, e)]⟩ := by
  obtain ⟨⟨e, p'⟩, hs, rfl⟩ := Option.map_eq_some_iff.mp h
  exact ⟨e, p', hs, rfl⟩

/-- At most this many steps, each with the input `answer` gives; it stops where there is none. -/
def drive (S : System σ ι α ε) (answer : ι → α) : Nat → σ → ι → σ × ι
  | 0, w, p => (w, p)
  | fuel + 1, w, p =>
    match S.step w p (answer p) with
    | none => (w, p)
    | some r => S.drive answer fuel (S.apply w r.1) r.2

variable {S : System σ ι α ε} {answer : ι → α} {w : σ} {p p' : ι} {e : ε}

theorem drive_step (fuel : Nat) (h : S.step w p (answer p) = some (e, p')) :
    S.drive answer (fuel + 1) w p = S.drive answer fuel (S.apply w e) p' := by
  simp only [drive, h]

/-- Fuel beyond the end is not used. -/
theorem drive_stop (fuel : Nat) (h : S.step w p (answer p) = none) :
    S.drive answer fuel w p = (w, p) := by
  cases fuel with
  | zero => rfl
  | succ fuel => simp only [drive, h]

end System

end Interleaving
