import Karr.ReconcileOnce

/-!
# A pass over agents that hang

Where every agent hangs until its timeout, the rounds of a pass are whole: an
attempt begins no earlier than a timeout after the one that many permits before
it, so the pass lasts as long as a pass can.
-/

set_option autoImplicit false

namespace Karr.Reconcile

open Asyncio Interleaving Rounds

/-- `list_containers` never returns. -/
def hanging : Hosts where
  get _ := some .hangs
  reconcileAgent _ _ := .hangs

/-- So many agents, all of them online. -/
def onlineAgents (n : Nat) : List Agent := (List.range n).map fun i => ⟨i, .online⟩

theorem online_onlineAgents (n : Nat) : online (onlineAgents n) = onlineAgents n := by
  refine List.filter_eq_self.mpr fun a ha => ?_
  obtain ⟨i, _, rfl⟩ := List.mem_map.mp ha
  rfl

theorem length_onlineAgents (n : Nat) : (onlineAgents n).length = n := by
  rw [onlineAgents, List.length_map, List.length_range]

theorem length_tasks (agents : List Agent) (hosts : Hosts) (concurrency : Int) (began : ℚ) :
    (reconcileOnce agents hosts concurrency began).tasks.length = (online agents).length :=
  List.length_map _

variable {timeout began : ℚ} {permits : Nat} {p : Pass} {k : Nat} {t : Task}

/-- When the attempt in place `i` can have come to this. -/
def Slow (timeout began : ℚ) (permits : Nat) (now : ℚ) (i : Nat) : Phase → Prop
  | .running since => began + (i / permits : ℕ) * timeout ≤ since
  | .ended _ => began + ((i / permits : ℕ) + 1) * timeout ≤ now
  | _ => True

structure SlowOk (timeout began : ℚ) (permits : Nat) (p : Pass) : Prop where
  hangs : ∀ t ∈ p.tasks, t.fetch = .hangs
  late : began ≤ p.now
  places : ∀ i k t, p.attempts[i]? = some k → p.tasks[k]? = some t →
    Slow timeout began permits p.now i t.phase

namespace SlowOk

/-- While a permit is free, the round of the next attempt has been reached. -/
theorem reached (h : SlowOk timeout began permits p) (ok : PassOk timeout began permits p)
    (nonneg : 0 ≤ timeout) (free : p.gate.free ≠ 0) :
    began + (p.attempts.length / permits : ℕ) * timeout ≤ p.now := by
  have busy := ok.free
  by_cases first : p.attempts.length < permits
  · rw [Nat.div_eq_of_lt first]
    simpa using h.late
  · have fewer : p.attempts.countP (fun k => (p.tasks[k]?).any fun t => t.phase.isRunning) <
        permits := by
      rw [ok.countP_attempts]
      omega
    obtain ⟨i, k, hi, idle, back⟩ := exists_late fewer (not_lt.mp first)
    obtain ⟨t, ht, begun⟩ := (ok.begun k).mp (List.mem_of_getElem? hi)
    obtain ⟨result, hr⟩ : ∃ result, t.phase = .ended result := by
      rw [ht, Option.any_some] at idle
      revert begun idle
      cases t.phase <;> simp [Phase.begun, Phase.isRunning, Phase.isEnded]
    have positive : 0 < permits := by omega
    have places : p.attempts.length / permits ≤ i / permits + 1 := by
      rw [← Nat.add_div_right i positive]
      exact Nat.div_le_div_right back
    have earlier : ((p.attempts.length / permits : ℕ) : ℚ) ≤ (i / permits : ℕ) + 1 := by
      exact_mod_cast places
    calc began + (p.attempts.length / permits : ℕ) * timeout
        ≤ began + ((i / permits : ℕ) + 1) * timeout := by gcongr
      _ ≤ p.now := by
        have place := h.places i k t hi ht
        rwa [hr] at place

theorem attempt (h : SlowOk timeout began permits p) (ok : PassOk timeout began permits p)
    (nonneg : 0 ≤ timeout) (ht : p.tasks[k]? = some t) (hp : t.phase.begun = false)
    {gate : Semaphore Nat} (free : p.gate.free ≠ 0) :
    SlowOk timeout began permits (p.attempt k t gate) :=
  ⟨forall_setPhase h.hangs (h.hangs t (List.mem_of_getElem? ht)), h.late,
    places_attempt ht (ok.not_begun ht hp) h.places (h.reached ok nonneg free)⟩

theorem settle (h : SlowOk timeout began permits p) (ht : p.tasks[k]? = some t) {since : ℚ}
    (hp : t.phase = .running since) (due : since + timeout ≤ p.now) {result : Except Raised Nat} :
    SlowOk timeout began permits (p.settle k t result) := by
  refine ⟨forall_setPhase h.hangs (h.hangs t (List.mem_of_getElem? ht)), h.late,
    places_setPhase ht h.places fun i hi => ?_⟩
  have round := h.places i k t hi ht
  rw [hp] at round
  calc began + ((i / permits : ℕ) + 1) * timeout
      = began + (i / permits : ℕ) * timeout + timeout := by ring
    _ ≤ since + timeout := by
      gcongr
      exact round
    _ ≤ p.now := due

theorem tick (h : SlowOk timeout began permits p) {time : ℚ} (le : p.now ≤ time) :
    SlowOk timeout began permits { p with now := time } := by
  refine ⟨h.hangs, h.late.trans le, fun i k t hi ht => ?_⟩
  have place := h.places i k t hi ht
  cases hp : t.phase with
  | ended result =>
    rw [hp] at place
    exact place.trans le
  | _ =>
    rw [hp] at place
    exact place

theorem step (h : SlowOk timeout began permits p) (ok : PassOk timeout began permits p)
    (nonneg : 0 ≤ timeout) {a : PassAction} {p' : Pass} (hs : p.step timeout a = some p') :
    SlowOk timeout began permits p' := by
  cases pass_rule hs with
  | enter ht hp free =>
    refine h.attempt ok nonneg ht (by rw [hp]; rfl) ?_
    have := (Semaphore.take_spec free).1
    omega
  | @queue k t ht hp locked =>
    exact ⟨forall_setPhase h.hangs (h.hangs t (List.mem_of_getElem? ht)), h.late,
      places_setPhase ht h.places fun _ _ => trivial⟩
  | @resume k t ht woken =>
    have waiting := (ok.waits k).mp (List.mem_map.mpr ⟨_, woken, rfl⟩)
    rw [exists_phase ht (Q := (· = .waiting))] at waiting
    refine h.attempt ok nonneg ht (by rw [waiting]; rfl) ?_
    have := (Semaphore.resume_spec ok.keys woken).2.2.1
    omega
  | @finish k t since after result ht hp hf =>
    rw [h.hangs t (List.mem_of_getElem? ht)] at hf
    cases hf
  | timeout ht hp due => exact h.settle ht hp due
  | tick le => exact h.tick le

/-- Once every agent has timed out, every round has been. -/
theorem ends (h : SlowOk timeout began permits p) (ok : PassOk timeout began permits p)
    (positive : 0 < permits) (done : p.result ≠ none) :
    began + (rounds p.tasks.length permits : ℕ) * timeout ≤ p.now := by
  cases hn : p.tasks.length with
  | zero =>
    rw [rounds_zero positive]
    simpa using h.late
  | succ n =>
    have all := (attempts_perm ok done).length_eq
    rw [List.length_range, hn] at all
    have hi : p.attempts[n]? = some p.attempts[n] := List.getElem?_eq_getElem (by omega)
    obtain ⟨t, ht, _⟩ := (ok.begun _).mp (List.mem_of_getElem? hi)
    obtain ⟨result, hr⟩ := ended_of_result done t (List.mem_of_getElem? ht)
    rw [rounds_succ n positive]
    have place := h.places n _ t hi ht
    rw [hr] at place
    push_cast
    exact place

end SlowOk

section Runs
variable {concurrency : Int} {n : Nat}

theorem slowOk_start (timeout : ℚ) (n : Nat) (concurrency : Int) (began : ℚ) :
    SlowOk timeout began (max 1 concurrency).toNat
      (reconcileOnce (onlineAgents n) hanging concurrency began) := by
  refine ⟨fun t ht => ?_, le_refl _, fun i k t hi => ?_⟩
  · obtain ⟨a, _, rfl⟩ := List.mem_map.mp ht
    rfl
  · cases hi

/-- However a pass over hanging agents goes, it lasts a timeout for every round of them. -/
theorem le_ends_of_run (nonneg : 0 ≤ timeout)
    (hr : Schedule timeout (reconcileOnce (onlineAgents n) hanging concurrency began) p)
    (done : p.result ≠ none) :
    began + (rounds n (max 1 concurrency).toNat : ℕ) * timeout ≤ p.now := by
  have slow : SlowOk timeout began (max 1 concurrency).toNat p :=
    (hr.strengthen passOk_of_run).invariant (slowOk_start _ _ _ _) fun h known hs =>
      h.step known.2 nonneg hs
  have tasks := length_of_run hr
  rw [online_onlineAgents, length_onlineAgents] at tasks
  rw [← tasks]
  exact slow.ends (passOk_of_run hr) (permits_pos concurrency) done

/-- Such a pass goes on to its last moment and then completes. -/
theorem exists_slow (began : ℚ) (nonneg : 0 ≤ timeout)
    (lasts : 0 < (rounds n (max 1 concurrency).toNat : ℕ) * timeout) :
    ∃ q a q', Schedule timeout (reconcileOnce (onlineAgents n) hanging concurrency began) q ∧
      q.result = none ∧ q.step timeout a = some q' ∧ q'.result ≠ none ∧
      began + (rounds n (max 1 concurrency).toNat : ℕ) * timeout ≤ q.now := by
  have ongoing : (reconcileOnce (onlineAgents n) hanging concurrency began).result = none := by
    by_contra done
    have ends := le_ends_of_run nonneg .refl done
    change began + _ ≤ began at ends
    linarith
  obtain ⟨q, a, q', hr, open_, hs, now, done⟩ :=
    completes (passOk_start _ _ _ _ _) (permits_pos concurrency) ongoing
  have late := le_ends_of_run nonneg (.step hr trivial hs) done
  rw [now] at late
  exact ⟨q, a, q', hr, open_, hs, done, late⟩

end Runs

end Karr.Reconcile
