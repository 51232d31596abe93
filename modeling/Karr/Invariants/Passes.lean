import Karr.Lib.Rounds
import Karr.Services.Reconcile
import Mathlib.Tactic.Linarith
import Mathlib.Tactic.Ring

/-!
# Permits, attempts and deadlines of a pass

Every permit is free or held by an agent in progress. While an agent waits, all
are held; so the attempts begin in rounds, each at most a timeout after the one
before. What an agent is given it is given from its own attempt on.
-/

set_option autoImplicit false

namespace Karr.Reconcile

open Asyncio Interleaving Rounds

/-- A task that has had its permit. -/
def Phase.begun (phase : Phase) : Bool := phase.isRunning || phase.isEnded

/-- How `wait_for` can end. -/
inductive Fits (timeout : ℚ) : Coroutine Nat → Except Raised Nat → Prop where
  | inTime {after : ℚ≥0} {result : Except Raised Nat} (le : after ≤ timeout) :
      Fits timeout (.ends after result) result
  | late {after : ℚ≥0} {result : Except Raised Nat} (le : timeout ≤ after) :
      Fits timeout (.ends after result) (.error .timeoutError)
  | hung : Fits timeout .hangs (.error .timeoutError)

/-- The invariant of a pass that began at this time with so many permits. -/
structure PassOk (timeout began : ℚ) (permits : Nat) (p : Pass) : Prop where
  keys : p.gate.keys.Nodup
  live : p.gate.Live
  free : p.gate.free + p.running = permits
  waits : ∀ k, k ∈ p.gate.keys ↔ ∃ t, p.tasks[k]? = some t ∧ t.phase = .waiting
  nodup : p.attempts.Nodup
  begun : ∀ k, k ∈ p.attempts ↔ ∃ t, p.tasks[k]? = some t ∧ t.phase.begun = true
  budget : ∀ t ∈ p.tasks, ∀ since, t.phase = .running since →
    since ≤ p.now ∧ p.now ≤ since + max 0 (t.fetch.due timeout)
  round : ∀ i k t since, p.attempts[i]? = some k → p.tasks[k]? = some t →
    t.phase = .running since → since ≤ began + (i / permits : ℕ) * max 0 timeout
  early : p.attempts.length < p.tasks.length →
    p.now ≤ began + (p.attempts.length / permits : ℕ) * max 0 timeout
  ended : ∀ t ∈ p.tasks, ∀ result, t.phase = .ended result → Fits timeout t.fetch result

theorem due_le {timeout : ℚ} (f : Coroutine Nat) : f.due timeout ≤ timeout := by
  cases f with
  | ends after result => exact min_le_right _ _
  | hangs => exact le_refl _

section Tasks
variable {p : Pass} {k : Nat} {t : Task} {phase : Phase}

theorem getElem?_setPhase (ht : p.tasks[k]? = some t) {j : Nat} {u : Task} :
    (p.setPhase k t phase)[j]? = some u ↔
      j = k ∧ u = { t with phase := phase } ∨ j ≠ k ∧ p.tasks[j]? = some u := by
  have hlt := (List.getElem?_eq_some_iff.mp ht).1
  rw [Pass.setPhase, List.getElem?_set]
  by_cases hj : k = j
  · subst hj
    simp [hlt, eq_comm]
  · simp [hj, Ne.symm hj]

@[simp] theorem length_setPhase : (p.setPhase k t phase).length = p.tasks.length :=
  List.length_set

theorem countP_setPhase (q : Task → Bool) (ht : p.tasks[k]? = some t) :
    (p.setPhase k t phase).countP q + (if q t then 1 else 0) =
      p.tasks.countP q + (if q { t with phase := phase } then 1 else 0) := by
  obtain ⟨hlt, rfl⟩ := List.getElem?_eq_some_iff.mp ht
  rw [Pass.setPhase, List.countP_set hlt]
  have : (if q p.tasks[k] then 1 else 0) ≤ p.tasks.countP q := by
    split
    · rename_i h
      exact List.countP_pos_iff.mpr ⟨_, List.getElem_mem hlt, h⟩
    · exact Nat.zero_le _
  omega

theorem running_setPhase (ht : p.tasks[k]? = some t) {q : Pass}
    (hq : q.tasks = p.setPhase k t phase) :
    q.running + t.phase.isRunning.toNat = p.running + phase.isRunning.toNat := by
  have count : (p.setPhase k t phase).countP (fun u => u.phase.isRunning) + _ = _ :=
    countP_setPhase _ ht
  rw [Pass.running, Pass.running, hq]
  cases hr : t.phase.isRunning <;> cases hs : phase.isRunning <;> simpa [hr, hs] using count

theorem exists_setPhase (ht : p.tasks[k]? = some t) {Q : Phase → Prop} {j : Nat} :
    (∃ u, (p.setPhase k t phase)[j]? = some u ∧ Q u.phase) ↔
      j = k ∧ Q phase ∨ j ≠ k ∧ ∃ u, p.tasks[j]? = some u ∧ Q u.phase := by
  constructor
  · rintro ⟨u, hu, hq⟩
    rcases (getElem?_setPhase ht).mp hu with ⟨hj, rfl⟩ | ⟨hj, hu⟩
    · exact Or.inl ⟨hj, hq⟩
    · exact Or.inr ⟨hj, u, hu, hq⟩
  · rintro (⟨hj, hq⟩ | ⟨hj, u, hu, hq⟩)
    · exact ⟨_, (getElem?_setPhase ht).mpr (Or.inl ⟨hj, rfl⟩), hq⟩
    · exact ⟨u, (getElem?_setPhase ht).mpr (Or.inr ⟨hj, hu⟩), hq⟩

theorem exists_phase (ht : p.tasks[k]? = some t) {Q : Phase → Prop} :
    (∃ u, p.tasks[k]? = some u ∧ Q u.phase) ↔ Q t.phase := by
  simp [ht]

/-- What holds of every task is not lost when one that changes keeps it. -/
theorem forall_setPhase {P : Task → Prop} (h : ∀ u ∈ p.tasks, P u)
    (changed : P { t with phase := phase }) : ∀ u ∈ p.setPhase k t phase, P u := by
  intro u hu
  rcases List.mem_or_eq_of_mem_set hu with hu | rfl
  · exact h u hu
  · exact changed

/-- What holds of every attempt by its place is not lost when one task that changes keeps it. -/
theorem places_setPhase {Q : Nat → Phase → Prop} (ht : p.tasks[k]? = some t)
    (h : ∀ i j u, p.attempts[i]? = some j → p.tasks[j]? = some u → Q i u.phase)
    (changed : ∀ i, p.attempts[i]? = some k → Q i phase) :
    ∀ i j u, p.attempts[i]? = some j → (p.setPhase k t phase)[j]? = some u → Q i u.phase := by
  intro i j u hi hu
  rcases (getElem?_setPhase ht).mp hu with ⟨rfl, rfl⟩ | ⟨_, hu⟩
  · exact changed i hi
  · exact h i j u hi hu

theorem places_attempt {Q : Nat → Phase → Prop} (ht : p.tasks[k]? = some t) (out : k ∉ p.attempts)
    (h : ∀ i j u, p.attempts[i]? = some j → p.tasks[j]? = some u → Q i u.phase)
    (last : Q p.attempts.length phase) :
    ∀ i j u, (p.attempts ++ [k])[i]? = some j → (p.setPhase k t phase)[j]? = some u →
      Q i u.phase := by
  intro i j u hi hu
  rcases (getElem?_setPhase ht).mp hu with ⟨rfl, rfl⟩ | ⟨hj, hu⟩
  · rcases getElem?_concat_eq_some.mp hi with hi | ⟨rfl, _⟩
    · exact absurd (List.mem_of_getElem? hi) out
    · exact last
  · rcases getElem?_concat_eq_some.mp hi with hi | ⟨_, same⟩
    · exact h i j u hi hu
    · exact absurd same hj

end Tasks

namespace PassOk
variable {timeout began : ℚ} {permits : Nat} {p : Pass} {k : Nat} {t : Task}

theorem lt_length (h : PassOk timeout began permits p) : ∀ j ∈ p.attempts, j < p.tasks.length := by
  intro j hj
  obtain ⟨u, hu, _⟩ := (h.begun j).mp hj
  exact (List.getElem?_eq_some_iff.mp hu).1

theorem not_begun (h : PassOk timeout began permits p) (ht : p.tasks[k]? = some t)
    (hp : t.phase.begun = false) : k ∉ p.attempts := by
  intro hk
  obtain ⟨u, hu, hb⟩ := (h.begun k).mp hk
  rw [ht] at hu
  cases hu
  rw [hp] at hb
  cases hb

theorem attempts_lt (h : PassOk timeout began permits p) (ht : p.tasks[k]? = some t)
    (hp : t.phase.begun = false) : p.attempts.length < p.tasks.length :=
  length_lt h.nodup h.lt_length (List.getElem?_eq_some_iff.mp ht).1 (h.not_begun ht hp)

theorem countP_attempts (h : PassOk timeout began permits p) :
    p.attempts.countP (fun k => (p.tasks[k]?).any fun t => t.phase.isRunning) = p.running := by
  refine countP_begun h.nodup fun k t ht hr => (h.begun k).mpr ⟨t, ht, ?_⟩
  simp [Phase.begun, hr]

/-- While an agent waits for its permit, and nothing is left to do at this moment, every
permit is in use. -/
theorem all_running (h : PassOk timeout began permits p) (quiet : p.quiet)
    (fewer : p.attempts.length < p.tasks.length) : p.running = permits := by
  obtain ⟨k, hk, out⟩ := exists_not_begun fewer
  have ht : p.tasks[k]? = some p.tasks[k] := List.getElem?_eq_getElem hk
  have waiting : k ∈ p.gate.keys := by
    refine (h.waits k).mpr ⟨_, ht, ?_⟩
    have created := quiet.1 _ (List.getElem_mem hk)
    have idle : p.tasks[k].phase.begun ≠ true := fun hb => out ((h.begun k).mpr ⟨_, ht, hb⟩)
    revert created idle
    cases p.tasks[k].phase <;> simp [Phase.isCreated, Phase.begun, Phase.isRunning, Phase.isEnded]
  have value : p.gate.value = 0 := by
    by_contra positive
    refine h.live positive (fun none => ?_) quiet.2
    rw [Semaphore.keys, none] at waiting
    cases waiting
  have := h.free
  rw [Semaphore.free, value, quiet.2] at this
  omega

/-- A task gets its permit, at once or after it has waited. -/
theorem attempt (h : PassOk timeout began permits p) (ht : p.tasks[k]? = some t)
    (hp : t.phase.begun = false) {gate : Semaphore Nat} (keys : gate.keys.Nodup)
    (mem : ∀ j, j ∈ gate.keys ↔ j ∈ p.gate.keys ∧ j ≠ k) (live : gate.Live)
    (free : gate.free + 1 = p.gate.free) :
    PassOk timeout began permits (p.attempt k t gate) := by
  have fewer := h.attempts_lt ht hp
  have out := h.not_begun ht hp
  have idle : t.phase.isRunning = false := (Bool.or_eq_false_iff.mp hp).1
  have now := h.early fewer
  refine ⟨keys, live, ?_, fun j => ?_, ?_, fun j => ?_, ?_, ?_, fun _ => ?_, ?_⟩
  · have count := running_setPhase ht (q := p.attempt k t gate) rfl
    rw [idle] at count
    change _ + 0 = _ + 1 at count
    change gate.free + _ = permits
    have := h.free
    omega
  · refine Iff.trans ?_ (exists_setPhase ht (Q := (· = .waiting))).symm
    change j ∈ gate.keys ↔ _
    rw [mem, h.waits]
    simp [and_comm]
  · exact List.nodup_append.mpr ⟨h.nodup, List.nodup_singleton k, fun x hx y hy => by
      rw [List.mem_singleton.mp hy]
      exact fun same => out (same ▸ hx)⟩
  · refine Iff.trans ?_ (exists_setPhase ht (Q := (·.begun = true))).symm
    rw [Pass.attempt, List.mem_append, List.mem_singleton, h.begun]
    by_cases hj : j = k
    · simp [hj, Phase.begun, Phase.isRunning]
    · simp [hj]
  · refine forall_setPhase h.budget fun since hs => ?_
    cases hs
    exact ⟨le_refl _, le_add_of_nonneg_right (le_max_left _ _)⟩
  · intro i j u since hi hu
    refine places_attempt (Q := fun i phase => ∀ since, phase = .running since →
      since ≤ began + (i / permits : ℕ) * max 0 timeout) ht out
      (fun i j u hi hu since => h.round i j u since hi hu) ?_ i j u hi hu since
    intro since hs
    cases hs
    exact now
  · refine now.trans ?_
    simp only [Pass.attempt, List.length_append, List.length_singleton]
    gcongr
    exact Nat.le_succ _
  · exact forall_setPhase h.ended fun result hr => by cases hr

theorem queue (h : PassOk timeout began permits p) (ht : p.tasks[k]? = some t)
    (hp : t.phase = .created) (locked : p.gate.locked = true) :
    PassOk timeout began permits
      { p with
        gate := { p.gate with waiters := p.gate.waiters ++ [(k, false)] }
        tasks := p.setPhase k t .waiting } := by
  obtain ⟨free, live⟩ := Semaphore.queue_spec k locked h.live
  have keys : ({ p.gate with waiters := p.gate.waiters ++ [(k, false)] } : Semaphore Nat).keys =
    p.gate.keys ++ [k] := List.map_append
  have out : k ∉ p.gate.keys := by
    rw [h.waits, exists_phase ht (Q := (· = .waiting)), hp]
    exact Phase.noConfusion
  refine ⟨?_, live, ?_, fun j => ?_, h.nodup, fun j => ?_, ?_, ?_, ?_, ?_⟩
  · rw [keys]
    exact List.nodup_append.mpr ⟨h.keys, List.nodup_singleton k, fun x hx y hy => by
      rw [List.mem_singleton.mp hy]
      exact fun same => out (same ▸ hx)⟩
  · have count := running_setPhase ht
      (q := { p with
        gate := { p.gate with waiters := p.gate.waiters ++ [(k, false)] }
        tasks := p.setPhase k t .waiting }) (rfl : _ = p.setPhase k t .waiting)
    rw [hp] at count
    change _ + 0 = _ + 0 at count
    rw [free, Nat.add_right_cancel count]
    exact h.free
  · refine Iff.trans ?_ (exists_setPhase ht (Q := (· = .waiting))).symm
    rw [keys, List.mem_append, List.mem_singleton, h.waits]
    by_cases hj : j = k
    · simp [hj]
    · simp [hj]
  · refine Iff.trans ?_ (exists_setPhase ht (Q := (·.begun = true))).symm
    rw [h.begun]
    by_cases hj : j = k
    · simp [hj, ht, hp, Phase.begun, Phase.isRunning, Phase.isEnded]
    · simp [hj]
  · exact forall_setPhase h.budget fun since hs => by cases hs
  · intro i j u since hi hu hs
    rcases (getElem?_setPhase ht).mp hu with ⟨_, rfl⟩ | ⟨_, hu⟩
    · cases hs
    · exact h.round i j u since hi hu hs
  · intro fewer
    rw [length_setPhase] at fewer
    exact h.early fewer
  · exact forall_setPhase h.ended fun result hr => by cases hr

theorem settle (h : PassOk timeout began permits p) (ht : p.tasks[k]? = some t) {since : ℚ}
    (hp : t.phase = .running since) {result : Except Raised Nat}
    (fits : Fits timeout t.fetch result) : PassOk timeout began permits (p.settle k t result) := by
  obtain ⟨keys, free, live⟩ := p.gate.release_spec
  refine ⟨?_, live, ?_, fun j => ?_, h.nodup, fun j => ?_, ?_, ?_, ?_, ?_⟩
  · exact keys ▸ h.keys
  · have count := running_setPhase ht (q := p.settle k t result) rfl
    rw [hp] at count
    change _ + 1 = _ + 0 at count
    change p.gate.release.free + _ = permits
    have := h.free
    omega
  · refine Iff.trans ?_ (exists_setPhase ht (Q := (· = .waiting))).symm
    rw [Pass.settle, keys, h.waits]
    by_cases hj : j = k
    · simp [hj, ht, hp]
    · simp [hj]
  · refine Iff.trans ?_ (exists_setPhase ht (Q := (·.begun = true))).symm
    rw [Pass.settle, h.begun]
    by_cases hj : j = k
    · simp [hj, ht, hp, Phase.begun, Phase.isRunning, Phase.isEnded]
    · simp [hj]
  · exact forall_setPhase h.budget fun since hs => by cases hs
  · intro i j u since hi hu hs
    rcases (getElem?_setPhase ht).mp hu with ⟨_, rfl⟩ | ⟨_, hu⟩
    · cases hs
    · exact h.round i j u since hi hu hs
  · intro fewer
    simp only [Pass.settle, length_setPhase] at fewer
    exact h.early fewer
  · refine forall_setPhase h.ended fun result' hr => ?_
    cases hr
    exact fits

theorem tick (h : PassOk timeout began permits p) (positive : 0 < permits) {time : ℚ}
    (le : p.now ≤ time) (quiet : p.quiet) (allows : ∀ t ∈ p.tasks, t.allows timeout time = true) :
    PassOk timeout began permits { p with now := time } := by
  have due {t : Task} (ht : t ∈ p.tasks) {since : ℚ} (hs : t.phase = .running since) :
      time ≤ since + t.fetch.due timeout := by
    have := allows t ht
    rw [Task.allows, hs] at this
    exact of_decide_eq_true this
  refine { h with budget := fun t ht since hs => ?_, early := fun fewer => ?_ }
  · refine ⟨(h.budget t ht since hs).1.trans le, (due ht hs).trans ?_⟩
    gcongr
    exact le_max_right _ _
  · -- the attempt `permits` places back is still in progress
    have busy : permits ≤
        p.attempts.countP fun k => (p.tasks[k]?).any fun t => t.phase.isRunning := by
      rw [h.countP_attempts, h.all_running quiet fewer]
    obtain ⟨i, k, hi, hr, back⟩ := exists_early positive busy
    obtain ⟨t, ht, hr⟩ := (Option.any_eq_true _ _).mp hr
    obtain ⟨since, hs⟩ : ∃ since, t.phase = .running since := by
      cases hp : t.phase <;> rw [hp] at hr <;> simp [Phase.isRunning] at hr ⊢
    have round := h.round i k t since hi ht hs
    have places : i / permits + 1 ≤ p.attempts.length / permits := by
      rw [← Nat.add_div_right i positive]
      exact Nat.div_le_div_right back
    have later : ((i / permits : ℕ) : ℚ) + 1 ≤ (p.attempts.length / permits : ℕ) := by
      exact_mod_cast places
    calc time ≤ since + t.fetch.due timeout := due (List.mem_of_getElem? ht) hs
      _ ≤ began + (i / permits : ℕ) * max 0 timeout + max 0 timeout :=
        add_le_add round ((due_le _).trans (le_max_right _ _))
      _ = began + ((i / permits : ℕ) + 1) * max 0 timeout := by ring
      _ ≤ began + (p.attempts.length / permits : ℕ) * max 0 timeout := by gcongr

theorem step (h : PassOk timeout began permits p) (positive : 0 < permits) {a : PassAction}
    {p' : Pass} (hs : p.step timeout a = some p') : PassOk timeout began permits p' := by
  cases pass_rule hs with
  | enter ht hp free =>
    obtain ⟨taken, live⟩ := Semaphore.take_spec free
    refine h.attempt ht (by rw [hp]; rfl) h.keys (fun j => ?_) live taken
    have none : p.gate.keys = [] := by rw [Semaphore.keys, (Semaphore.unlocked_iff.mp free).2]; rfl
    change j ∈ p.gate.keys ↔ _
    simp [none]
  | queue ht hp locked => exact h.queue ht hp locked
  | @resume k t ht woken =>
    obtain ⟨keys, mem, free, live⟩ := Semaphore.resume_spec h.keys woken
    have waiting := (h.waits k).mp (List.mem_map.mpr ⟨_, woken, rfl⟩)
    rw [exists_phase ht (Q := (· = .waiting))] at waiting
    exact h.attempt ht (by rw [waiting]; rfl) keys mem live free
  | @finish k t since after result ht hp hf positive due =>
    refine h.settle ht hp (hf ▸ .inTime ?_)
    have budget := (h.budget t (List.mem_of_getElem? ht) since hp).2
    have nonneg : (0 : ℚ) ≤ after := after.2
    rw [hf, Coroutine.due, max_eq_right (le_min nonneg positive.le)] at budget
    linarith [min_le_right (after : ℚ) timeout]
  | @timeout k t since ht hp due =>
    refine h.settle ht hp ?_
    have budget := (h.budget t (List.mem_of_getElem? ht) since hp).2
    cases hf : t.fetch with
    | hangs => exact .hung
    | ends after result =>
      refine .late ?_
      rw [hf, Coroutine.due] at budget
      have most : max 0 (min (after : ℚ) timeout) ≤ after := max_le after.2 (min_le_left _ _)
      linarith
  | tick le quiet allows => exact h.tick positive le quiet allows

end PassOk

section Runs
variable {timeout began : ℚ} {concurrency : Int} {agents : List Agent} {hosts : Hosts} {p : Pass}

abbrev Schedule (timeout : ℚ) : Pass → Pass → Prop := Run (Pass.step timeout) fun _ _ => True

theorem permits_pos (concurrency : Int) : 0 < (max 1 concurrency).toNat := by omega

theorem passOk_start (timeout : ℚ) (agents : List Agent) (hosts : Hosts) (concurrency : Int)
    (began : ℚ) : PassOk timeout began (max 1 concurrency).toNat
      (reconcileOnce agents hosts concurrency began) := by
  have created {t : Task} (ht : t ∈ (reconcileOnce agents hosts concurrency began).tasks) :
      t.phase = .created := by
    obtain ⟨a, _, rfl⟩ := List.mem_map.mp ht
    rfl
  have absent {Q : Phase → Prop} (hQ : ¬ Q .created) (k : Nat) :
      ¬ ∃ t, (reconcileOnce agents hosts concurrency began).tasks[k]? = some t ∧ Q t.phase := by
    rintro ⟨t, ht, hq⟩
    rw [created (List.mem_of_getElem? ht)] at hq
    exact hQ hq
  refine ⟨List.nodup_nil, fun _ some => absurd rfl some, ?_, fun k => ?_, List.nodup_nil,
    fun k => ?_, ?_, ?_, fun _ => ?_, ?_⟩
  · have none : (reconcileOnce agents hosts concurrency began).running = 0 :=
      List.countP_eq_zero.mpr fun t ht => by rw [created ht]; exact Bool.false_ne_true
    rw [none]
    rfl
  · exact iff_of_false List.not_mem_nil (absent (Q := (· = .waiting)) Phase.noConfusion k)
  · exact iff_of_false List.not_mem_nil
      (absent (Q := (·.begun = true)) Bool.false_ne_true k)
  · intro t ht since hs
    rw [created ht] at hs
    cases hs
  · intro i k t since hi
    cases hi
  · change began ≤ began + ((0 / (max 1 concurrency).toNat : ℕ) : ℚ) * max 0 timeout
    simp
  · intro t ht result hr
    rw [created ht] at hr
    cases hr

theorem passOk_of_run
    (hr : Schedule timeout (reconcileOnce agents hosts concurrency began) p) :
    PassOk timeout began (max 1 concurrency).toNat p :=
  hr.invariant (passOk_start timeout agents hosts concurrency began) fun h _ hs =>
    h.step (permits_pos concurrency) hs

theorem step_tasks {p' : Pass} {a : PassAction} (hs : p.step timeout a = some p') :
    p'.tasks.map (fun t => (t.agent, t.fetch)) = p.tasks.map fun t => (t.agent, t.fetch) := by
  have same {k : Nat} {t : Task} (ht : p.tasks[k]? = some t) (phase : Phase) :
      (p.setPhase k t phase).map (fun t => (t.agent, t.fetch)) =
        p.tasks.map fun t => (t.agent, t.fetch) := by
    obtain ⟨hlt, rfl⟩ := List.getElem?_eq_some_iff.mp ht
    rw [Pass.setPhase, List.map_set]
    have place : k < (p.tasks.map fun t => (t.agent, t.fetch)).length := by rwa [List.length_map]
    have kept := List.set_getElem_self place
    rwa [List.getElem_map] at kept
  cases pass_rule hs with
  | enter ht => exact same ht _
  | queue ht => exact same ht _
  | resume ht => exact same ht _
  | finish ht => exact same ht _
  | timeout ht => exact same ht _
  | tick => rfl

theorem length_step {p' : Pass} {a : PassAction} (hs : p.step timeout a = some p') :
    p'.tasks.length = p.tasks.length := by
  have tasks := congrArg List.length (step_tasks hs)
  rwa [List.length_map, List.length_map] at tasks

theorem tasks_of_run (hr : Schedule timeout (reconcileOnce agents hosts concurrency began) p) :
    p.tasks.map (fun t => (t.agent, t.fetch)) =
      (online agents).map fun a => (a.id, fetchAndApply hosts a.id) := by
  refine hr.invariant ?_ fun h _ hs => (step_tasks hs).trans h
  rw [reconcileOnce, List.map_map]
  rfl

theorem length_of_run (hr : Schedule timeout (reconcileOnce agents hosts concurrency began) p) :
    p.tasks.length = (online agents).length := by
  have tasks := congrArg List.length (tasks_of_run hr)
  rwa [List.length_map, List.length_map] at tasks

end Runs

end Karr.Reconcile
