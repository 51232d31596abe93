import Mathlib.Data.List.Nodup

/-!
# asyncio.Semaphore

The counter and the deque of futures as CPython keeps them. A release hands its
permit to the first waiter that has none; that waiter resumes later, and until
then nobody who comes after it gets past. No permit is lost, and whoever waits
while the counter is positive stands behind a waiter that has its permit.
-/

set_option autoImplicit false

namespace Asyncio

structure Semaphore (ι : Type) where
  value : Nat
  /-- Who waits, in order, and whether its future has a result. -/
  waiters : List (ι × Bool) := []

variable {ι : Type}

/-- The first future without a result gets one; `none` where there is no such future. -/
def wakeFirst : List (ι × Bool) → Option (List (ι × Bool))
  | [] => none
  | (i, false) :: ws => some ((i, true) :: ws)
  | (i, true) :: ws => (wakeFirst ws).map ((i, true) :: ·)

/-- `while self._value > 0: if not self._wake_up_next(): break` -/
def wakeUp : Nat → List (ι × Bool) → Semaphore ι
  | 0, ws => ⟨0, ws⟩
  | n + 1, ws =>
    match wakeFirst ws with
    | none => ⟨n + 1, ws⟩
    | some ws => wakeUp n ws

/-- How many have a permit they have not taken up. -/
def woken (ws : List (ι × Bool)) : Nat := ws.countP Prod.snd

namespace Semaphore

def locked (s : Semaphore ι) : Bool := s.value == 0 || !s.waiters.isEmpty

/-- Whether `acquire` returns at once; otherwise the caller waits. -/
def acquire (s : Semaphore ι) (i : ι) : Bool × Semaphore ι :=
  if s.locked then (false, { s with waiters := s.waiters ++ [(i, false)] })
  else (true, { s with value := s.value - 1 })

/-- `_wake_up_next` with a permit to give. -/
def release (s : Semaphore ι) : Semaphore ι :=
  match wakeFirst s.waiters with
  | none => { s with value := s.value + 1 }
  | some ws => { s with waiters := ws }

/-- A waiter that has its permit goes on. -/
def resume [DecidableEq ι] (s : Semaphore ι) (i : ι) : Semaphore ι :=
  wakeUp s.value (s.waiters.erase (i, true))

def keys (s : Semaphore ι) : List ι := s.waiters.map Prod.fst

/-- The permits that nobody works under. -/
def free (s : Semaphore ι) : Nat := s.value + woken s.waiters

/-- Who waits in vain for now stands behind one that is about to go on. -/
def Live (s : Semaphore ι) : Prop := s.value ≠ 0 → s.waiters ≠ [] → woken s.waiters ≠ 0

end Semaphore

variable {ws ws' : List (ι × Bool)}

theorem wakeFirst_some (h : wakeFirst ws = some ws') :
    ws'.map Prod.fst = ws.map Prod.fst ∧ woken ws' = woken ws + 1 := by
  induction ws generalizing ws' with
  | nil => cases h
  | cons w ws ih =>
    obtain ⟨i, given⟩ := w
    cases given with
    | false =>
      cases h
      exact ⟨rfl, by simp [woken]⟩
    | true =>
      obtain ⟨rest, hrest, rfl⟩ := Option.map_eq_some_iff.mp h
      obtain ⟨keys, count⟩ := ih hrest
      refine ⟨by simp [keys], ?_⟩
      simp only [woken, List.countP_cons, if_true] at count ⊢
      omega

theorem wakeFirst_none (h : wakeFirst ws = none) : woken ws = ws.length := by
  induction ws with
  | nil => rfl
  | cons w ws ih =>
    obtain ⟨i, given⟩ := w
    cases given with
    | false => cases h
    | true =>
      have count := ih (Option.map_eq_none_iff.mp h)
      simp only [woken, List.countP_cons, if_true, List.length_cons] at count ⊢
      omega

theorem wakeUp_spec (n : Nat) (ws : List (ι × Bool)) :
    (wakeUp n ws).keys = ws.map Prod.fst ∧ (wakeUp n ws).free = n + woken ws ∧
      (wakeUp n ws).Live := by
  induction n generalizing ws with
  | zero => exact ⟨rfl, rfl, fun h => absurd rfl h⟩
  | succ n ih =>
    rw [wakeUp]
    cases h : wakeFirst ws with
    | none =>
      refine ⟨rfl, rfl, fun _ some none => some ?_⟩
      exact List.length_eq_zero_iff.mp ((wakeFirst_none h).symm.trans none)
    | some ws' =>
      obtain ⟨keys, count⟩ := wakeFirst_some h
      obtain ⟨keys', free, live⟩ := ih ws'
      exact ⟨keys'.trans keys, by rw [free, count]; omega, live⟩

namespace Semaphore
variable {s : Semaphore ι} {i : ι}

theorem acquire_unlocked (h : s.locked = false) :
    s.acquire i = (true, { s with value := s.value - 1 }) := if_neg (Bool.eq_false_iff.mp h)

theorem acquire_locked (h : s.locked = true) :
    s.acquire i = (false, { s with waiters := s.waiters ++ [(i, false)] }) := if_pos h

theorem acquired {s' : Semaphore ι} (h : s.acquire i = (true, s')) :
    s.locked = false ∧ s' = { s with value := s.value - 1 } := by
  cases locked : s.locked with
  | false =>
    rw [acquire_unlocked locked] at h
    exact ⟨rfl, (Prod.mk.inj h).2.symm⟩
  | true =>
    rw [acquire_locked locked] at h
    cases h

theorem queued {s' : Semaphore ι} (h : s.acquire i = (false, s')) :
    s.locked = true ∧ s' = { s with waiters := s.waiters ++ [(i, false)] } := by
  cases locked : s.locked with
  | false =>
    rw [acquire_unlocked locked] at h
    cases h
  | true =>
    rw [acquire_locked locked] at h
    exact ⟨rfl, (Prod.mk.inj h).2.symm⟩

theorem unlocked_iff : s.locked = false ↔ s.value ≠ 0 ∧ s.waiters = [] := by
  simp [locked]

theorem take_spec (h : s.locked = false) :
    ({ s with value := s.value - 1 } : Semaphore ι).free + 1 = s.free ∧
      ({ s with value := s.value - 1 } : Semaphore ι).Live := by
  obtain ⟨positive, none⟩ := unlocked_iff.mp h
  refine ⟨?_, fun _ some => absurd none some⟩
  simp only [free]
  omega

theorem queue_spec (i : ι) (h : s.locked = true) (live : s.Live) :
    ({ s with waiters := s.waiters ++ [(i, false)] } : Semaphore ι).free = s.free ∧
      ({ s with waiters := s.waiters ++ [(i, false)] } : Semaphore ι).Live := by
  have count : woken (s.waiters ++ [(i, false)]) = woken s.waiters := by simp [woken]
  refine ⟨by simp only [free, count], fun positive _ => ?_⟩
  dsimp only at positive ⊢
  rw [count]
  have waits : s.waiters ≠ [] := fun none =>
    Bool.eq_false_iff.mp (unlocked_iff.mpr ⟨positive, none⟩) h
  exact live positive waits

theorem release_spec (s : Semaphore ι) :
    s.release.keys = s.keys ∧ s.release.free = s.free + 1 ∧ s.release.Live := by
  unfold release
  cases h : wakeFirst s.waiters with
  | none =>
    refine ⟨rfl, by simp only [free]; omega, fun _ some none => some ?_⟩
    exact List.length_eq_zero_iff.mp ((wakeFirst_none h).symm.trans none)
  | some ws =>
    obtain ⟨keys, count⟩ := wakeFirst_some h
    refine ⟨keys, by simp only [free, count]; omega, fun _ _ => ?_⟩
    dsimp only
    omega

variable [DecidableEq ι]

theorem resume_spec (nodup : s.keys.Nodup) (h : (i, true) ∈ s.waiters) :
    (s.resume i).keys.Nodup ∧ (∀ j, j ∈ (s.resume i).keys ↔ j ∈ s.keys ∧ j ≠ i) ∧
      (s.resume i).free + 1 = s.free ∧ (s.resume i).Live := by
  obtain ⟨keys, count, live⟩ := wakeUp_spec s.value (s.waiters.erase (i, true))
  have perm := List.perm_cons_erase h
  have all : s.keys.Perm (i :: (s.resume i).keys) := by
    have := perm.map Prod.fst
    rwa [List.map_cons, ← keys] at this
  obtain ⟨out, rest⟩ := List.nodup_cons.mp (all.nodup_iff.mp nodup)
  refine ⟨rest, fun j => ?_, ?_, live⟩
  · rw [all.mem_iff, List.mem_cons]
    constructor
    · exact fun hj => ⟨Or.inr hj, fun same => out (same ▸ hj)⟩
    · exact fun hj => hj.1.resolve_left hj.2
  · have taken : woken s.waiters = woken (s.waiters.erase (i, true)) + 1 := by
      rw [woken, perm.countP_eq]
      simp [woken]
    rw [resume, count, free, taken]
    omega

end Semaphore

end Asyncio
