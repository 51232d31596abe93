import Karr.Invariants.Passes
import Mathlib.Algebra.Order.BigOperators.Group.List

/-!
# One reconcile pass

Under every schedule a pass comes to an end, within a timeout for each round of
agents, and has by then attempted every online agent once. How an agent ends
depends on its own coroutine alone.
-/

set_option autoImplicit false

namespace Karr.Reconcile

open Asyncio Interleaving Rounds

variable {timeout began : ℚ} {permits : Nat} {p : Pass} {k : Nat} {t : Task}

/-! ## Going on -/

namespace Pass

/-- The steps that are left, but for those of the clock. -/
def weight (p : Pass) : Nat := (p.tasks.map fun t => t.phase.weight).sum

theorem result_eq_none : p.result = none ↔ ∃ t ∈ p.tasks, t.phase.isEnded = false := by
  unfold result
  split
  · rename_i all
    refine iff_of_false (by simp) ?_
    rintro ⟨t, ht, open_⟩
    rw [all t ht] at open_
    cases open_
  · rename_i open_
    refine iff_of_true rfl ?_
    push Not at open_
    simpa using open_

end Pass

theorem sum_set_lt {α : Type} (f : α → Nat) {l : List α} {x y : α} (hx : l[k]? = some x)
    (h : f y < f x) : ((l.set k y).map f).sum < (l.map f).sum := by
  induction l generalizing k with
  | nil => cases hx
  | cons a l ih =>
    cases k with
    | zero =>
      cases hx
      simpa using h
    | succ k => simpa using ih hx

theorem weight_lt {p' : Pass} {a : PassAction} (h : PassOk timeout began permits p)
    (hs : p.step timeout a = some p') (clock : ∀ time, a ≠ .tick time) : p'.weight < p.weight := by
  cases pass_rule hs with
  | enter ht hp => exact sum_set_lt _ ht (by rw [hp]; exact Nat.one_lt_ofNat)
  | queue ht hp => exact sum_set_lt _ ht (by rw [hp]; exact Nat.lt_succ_self 2)
  | @resume k t ht woken =>
    have waiting := (h.waits k).mp (List.mem_map.mpr ⟨_, woken, rfl⟩)
    rw [exists_phase ht (Q := (· = .waiting))] at waiting
    exact sum_set_lt _ ht (by rw [waiting]; exact Nat.lt_succ_self 1)
  | finish ht hp => exact sum_set_lt _ ht (by rw [hp]; exact Nat.zero_lt_one)
  | timeout ht hp => exact sum_set_lt _ ht (by rw [hp]; exact Nat.zero_lt_one)
  | tick => exact absurd rfl (clock _)

/-- A step that takes no time. -/
def Advances (timeout : ℚ) (p : Pass) : Prop :=
  ∃ a p', p.step timeout a = some p' ∧ (∀ time, a ≠ .tick time) ∧ p'.now = p.now

theorem advances_start (ht : p.tasks[k]? = some t) (hp : t.phase = .created) :
    Advances timeout p := by
  cases locked : p.gate.locked with
  | false =>
    refine ⟨.start k, p.attempt k t { p.gate with value := p.gate.value - 1 }, ?_,
      fun _ => PassAction.noConfusion, rfl⟩
    simp only [Pass.step, ht, hp, Semaphore.acquire_unlocked locked]
  | true =>
    refine ⟨.start k, { p with
      gate := { p.gate with waiters := p.gate.waiters ++ [(k, false)] }
      tasks := p.setPhase k t .waiting }, ?_, fun _ => PassAction.noConfusion, rfl⟩
    simp only [Pass.step, ht, hp, Semaphore.acquire_locked locked]

theorem advances_resume (h : PassOk timeout began permits p) (woken : (k, true) ∈ p.gate.waiters) :
    Advances timeout p := by
  obtain ⟨t, ht, _⟩ := (h.waits k).mp (List.mem_map.mpr ⟨_, woken, rfl⟩)
  refine ⟨.resume k, p.attempt k t (p.gate.resume k), ?_, fun _ => PassAction.noConfusion, rfl⟩
  simp only [Pass.step, ht, if_pos woken]

theorem advances_due (ht : p.tasks[k]? = some t) {since : ℚ} (hp : t.phase = .running since)
    (due : since + t.fetch.due timeout ≤ p.now) : Advances timeout p := by
  by_cases late : since + timeout ≤ p.now
  · refine ⟨.timeout k, p.settle k t (.error .timeoutError), ?_, fun _ => PassAction.noConfusion,
      rfl⟩
    simp only [Pass.step, ht, hp, if_pos late]
  · cases hf : t.fetch with
    | hangs =>
      rw [hf] at due
      exact absurd due late
    | ends after result =>
      rw [hf, Coroutine.due] at due
      have nonneg : (0 : ℚ) ≤ after := after.2
      have answered : since + after ≤ p.now := by
        rcases min_choice (after : ℚ) timeout with least | least
        · rwa [least] at due
        · rw [least] at due
          exact absurd due late
      have positive : 0 < timeout := by linarith
      refine ⟨.finish k, p.settle k t result, ?_, fun _ => PassAction.noConfusion, rfl⟩
      simp only [Pass.step, ht, hp, hf, if_pos (And.intro positive answered)]

theorem isRunning_iff {phase : Phase} :
    phase.isRunning = true ↔ ∃ since, phase = .running since := by
  cases phase <;> simp [Phase.isRunning]

/-- While a pass is not over and nothing is left to do at this moment, an agent is in progress. -/
theorem exists_running (h : PassOk timeout began permits p) (positive : 0 < permits)
    (quiet : p.quiet) (ongoing : p.result = none) :
    ∃ t ∈ p.tasks, ∃ since, t.phase = .running since := by
  by_cases fewer : p.attempts.length < p.tasks.length
  · have all := h.all_running quiet fewer
    obtain ⟨t, ht, hr⟩ := List.countP_pos_iff.mp (all ▸ positive : 0 < p.running)
    exact ⟨t, ht, isRunning_iff.mp hr⟩
  · obtain ⟨t, ht, ended⟩ := Pass.result_eq_none.mp ongoing
    obtain ⟨k, hk⟩ := List.mem_iff_getElem?.mp ht
    refine ⟨t, ht, isRunning_iff.mp ?_⟩
    by_contra idle
    have out : t.phase.begun = false :=
      Bool.or_eq_false_iff.mpr ⟨Bool.eq_false_iff.mpr idle, ended⟩
    exact fewer (h.attempts_lt hk out)

/-- Among the agents in progress one is the first to be due. -/
theorem exists_first (timeout : ℚ) {tasks : List Task}
    (some : ∃ t ∈ tasks, ∃ since, t.phase = .running since) :
    ∃ t ∈ tasks, ∃ since, t.phase = .running since ∧ ∀ u ∈ tasks, ∀ since',
      u.phase = .running since' → since + t.fetch.due timeout ≤ since' + u.fetch.due timeout := by
  induction tasks with
  | nil =>
    obtain ⟨t, ht, _⟩ := some
    cases ht
  | cons a tasks ih =>
    by_cases rest : ∃ t ∈ tasks, ∃ since, t.phase = .running since
    · obtain ⟨t, ht, since, hs, least⟩ := ih rest
      by_cases first : ∃ since', a.phase = .running since' ∧
          since' + a.fetch.due timeout < since + t.fetch.due timeout
      · obtain ⟨since', hs', lt⟩ := first
        refine ⟨a, List.mem_cons_self, since', hs', List.forall_mem_cons.mpr ⟨?_, ?_⟩⟩
        · intro since'' hs''
          rw [hs'] at hs''
          cases hs''
          exact le_refl _
        · exact fun u hu since'' hs'' => lt.le.trans (least u hu since'' hs'')
      · push Not at first
        exact ⟨t, List.mem_cons_of_mem a ht, since, hs, List.forall_mem_cons.mpr ⟨first, least⟩⟩
    · obtain ⟨t, ht, since, hs⟩ := some
      rcases List.mem_cons.mp ht with rfl | ht
      · refine ⟨t, List.mem_cons_self, since, hs, List.forall_mem_cons.mpr ⟨?_, ?_⟩⟩
        · intro since' hs'
          rw [hs] at hs'
          cases hs'
          exact le_refl _
        · exact fun u hu since' hs' => absurd ⟨u, hu, since', hs'⟩ rest
      · exact absurd ⟨t, ht, since, hs⟩ rest

/-- A pass that is not over goes on, at once or at the next moment at which an agent is due. -/
theorem goes_on (h : PassOk timeout began permits p) (positive : 0 < permits)
    (ongoing : p.result = none) :
    ∃ time, p.now ≤ time ∧ Schedule timeout p { p with now := time } ∧
      Advances timeout { p with now := time } := by
  by_cases created : ∃ t ∈ p.tasks, t.phase = .created
  · obtain ⟨t, ht, hp⟩ := created
    obtain ⟨k, hk⟩ := List.mem_iff_getElem?.mp ht
    exact ⟨p.now, le_refl _, .refl, advances_start hk hp⟩
  by_cases woken : ∃ k, (k, true) ∈ p.gate.waiters
  · obtain ⟨k, hk⟩ := woken
    exact ⟨p.now, le_refl _, .refl, advances_resume h hk⟩
  have quiet : p.quiet := by
    refine ⟨fun t ht => ?_, List.countP_eq_zero.mpr ?_⟩
    · cases hp : t.phase with
      | created => exact absurd ⟨t, ht, hp⟩ created
      | _ => rfl
    · rintro ⟨k, given⟩ hk rfl
      exact woken ⟨k, hk⟩
  obtain ⟨t, ht, since, hs, least⟩ := exists_first timeout (exists_running h positive quiet ongoing)
  obtain ⟨k, hk⟩ := List.mem_iff_getElem?.mp ht
  by_cases due : since + t.fetch.due timeout ≤ p.now
  · exact ⟨p.now, le_refl _, .refl, advances_due hk hs due⟩
  · have later := (not_le.mp due).le
    refine ⟨since + t.fetch.due timeout, later, ?_, advances_due hk hs (le_refl _)⟩
    refine .step (a := .tick (since + t.fetch.due timeout)) .refl trivial ?_
    refine if_pos ⟨later, quiet, fun u hu => ?_⟩
    unfold Task.allows
    split
    · rename_i since' hs'
      exact decide_eq_true (least u hu since' hs')
    · rfl

/-- It can be completed, and its last step takes no time. -/
theorem completes (h : PassOk timeout began permits p) (positive : 0 < permits)
    (ongoing : p.result = none) :
    ∃ q a q', Schedule timeout p q ∧ q.result = none ∧ q.step timeout a = some q' ∧
      q'.now = q.now ∧ q'.result ≠ none := by
  induction hw : p.weight using Nat.strong_induction_on generalizing p with
  | h w ih =>
    obtain ⟨time, le, hr, a, p', hs, clock, now⟩ := goes_on h positive ongoing
    have h₀ := hr.invariant h fun h _ hs => h.step positive hs
    by_cases last : p'.result = none
    · have less := Nat.lt_of_lt_of_eq (weight_lt h₀ hs clock) hw
      obtain ⟨q, b, q', hr', rest⟩ := ih p'.weight less (h₀.step positive hs) last rfl
      exact ⟨q, b, q', (Run.step hr trivial hs).trans hr', rest⟩
    · exact ⟨_, a, p', hr, ongoing, hs, now, last⟩

/-! ## The laws -/

/-- The changes an agent makes, if it finishes within its timeout. -/
def Coroutine.changes (timeout : ℚ) : Coroutine Nat → Nat
  | .ends after (.ok changed) => if after < timeout then changed else 0
  | _ => 0

/-- What holds at any moment of a pass, for these agents. -/
structure PassLaws (timeout began : ℚ) (concurrency : Int) (agents : List Agent) (hosts : Hosts)
    (p : Pass) : Prop where
  /-- There is a task for each online agent, with what that agent does. -/
  tasks : p.tasks.map (fun t => (t.agent, t.fetch)) =
    (online agents).map fun a => (a.id, fetchAndApply hosts a.id)
  limit : (p.running : Int) ≤ max 1 concurrency
  /-- Every permit is in use or back. -/
  permits : (p.gate.free : Int) + p.running = max 1 concurrency
  attempted : p.attempted.Subperm ((online agents).map Agent.id)
  /-- An agent that needs less than its timeout ends as it would alone. -/
  inTime : ∀ t ∈ p.tasks, ∀ (after : ℚ≥0) result, t.fetch = .ends after result →
    after < timeout → t.phase.isEnded = true → t.phase = .ended result
  /-- One that finished is one that needs no more than that. -/
  finished : ∀ t ∈ p.tasks, ∀ changed, t.finished = some changed →
    ∃ after : ℚ≥0, t.fetch = .ends after (.ok changed) ∧ after ≤ timeout
  /-- No agent waits longer than this for its attempt, or for its end. -/
  waits : ∀ t ∈ p.tasks, t.phase.begun = false →
    p.now ≤ began + ((p.tasks.length - 1) / (max 1 concurrency).toNat : ℕ) * max 0 timeout
  ends : p.result = none →
    p.now ≤ began + (rounds p.tasks.length (max 1 concurrency).toNat : ℕ) * max 0 timeout
  /-- The pass is never stuck, and not for ever busy. -/
  goesOn : p.result = none → ∃ q, Schedule timeout p q ∧ q.result ≠ none
  nearer : ∀ a p', p.step timeout a = some p' → (∀ time, a ≠ .tick time) → p'.weight < p.weight
  /-- Once it is over, every online agent has been attempted and every permit is back. -/
  everyone : p.result ≠ none → p.attempted.Perm ((online agents).map Agent.id)
  returned : p.result ≠ none → (p.gate.value : Int) = max 1 concurrency
  sum : ∀ n, p.result = some n → n = p.finished.sum
  /-- With no agent that takes exactly the timeout, the sum depends on the agents alone. -/
  total : ∀ n, p.result = some n →
    (∀ t ∈ p.tasks, ∀ (after : ℚ≥0) result, t.fetch = .ends after result → (after : ℚ) ≠ timeout) →
    n = ((online agents).map fun a => (fetchAndApply hosts a.id).changes timeout).sum

theorem Fits.inTime_eq {after : ℚ≥0} {result result' : Except Raised Nat}
    (h : Fits timeout (.ends after result) result') (lt : after < timeout) : result' = result := by
  cases h with
  | inTime => rfl
  | late le => exact absurd lt (not_lt.mpr le)

theorem Fits.changes_eq {f : Coroutine Nat} {result : Except Raised Nat} (h : Fits timeout f result)
    (tie : ∀ (after : ℚ≥0) result, f = .ends after result → (after : ℚ) ≠ timeout) :
    one result = f.changes timeout := by
  cases h with
  | @inTime after result le =>
    have lt : (after : ℚ) < timeout := lt_of_le_of_ne le (tie after result rfl)
    rcases result with (_ | _ | _) | changed <;> simp [one, Coroutine.changes, lt]
  | @late after result le =>
    have out : ¬ (after : ℚ) < timeout := not_lt.mpr le
    rcases result with _ | changed <;> simp [one, Coroutine.changes, out]
  | hung => rfl

theorem sum_filterMap {α : Type} (f : α → Option Nat) (l : List α) :
    (l.filterMap f).sum = (l.map fun x => (f x).getD 0).sum := by
  induction l with
  | nil => rfl
  | cons a l ih =>
    rw [List.filterMap_cons, List.map_cons, List.sum_cons, ← ih]
    cases f a <;> simp

theorem finished_eq_some {changed : Nat} :
    t.finished = some changed ↔ t.phase = .ended (.ok changed) := by
  unfold Task.finished
  rcases t.phase with _ | _ | _ | (_ | _) <;> simp

theorem result_eq_some {n : Nat} (h : p.result = some n) : n = (p.tasks.map Task.value).sum := by
  unfold Pass.result at h
  split at h
  · exact (Option.some.inj h).symm
  · cases h

theorem value_eq_finished (t : Task) : t.value = t.finished.getD 0 := by
  unfold Task.value Task.finished
  rcases t.phase with _ | _ | _ | ((_ | _ | _) | _) <;> rfl

section Over
variable {concurrency : Int} {agents : List Agent} {hosts : Hosts}

theorem ended_of_result (done : p.result ≠ none) :
    ∀ t ∈ p.tasks, ∃ result, t.phase = .ended result := by
  intro t ht
  have ended : t.phase.isEnded = true := by
    by_contra open_
    exact done (Pass.result_eq_none.mpr ⟨t, ht, Bool.eq_false_iff.mpr open_⟩)
  revert ended
  cases t.phase <;> simp [Phase.isEnded]

theorem attempted_subperm (h : PassOk timeout began permits p) :
    p.attempted.Subperm (p.tasks.map Task.agent) := by
  obtain ⟨l, perm, sub⟩ := subperm_range h.nodup h.lt_length
  rw [← filterMap_range]
  exact ⟨_, perm.filterMap _, sub.filterMap _⟩

theorem attempts_perm (h : PassOk timeout began permits p) (done : p.result ≠ none) :
    p.attempts.Perm (List.range p.tasks.length) := by
  refine perm_range h.nodup h.lt_length ?_
  by_contra fewer
  obtain ⟨k, hk, out⟩ := exists_not_begun (not_le.mp fewer)
  obtain ⟨result, hr⟩ := ended_of_result done _ (List.getElem_mem hk)
  exact out ((h.begun k).mpr ⟨_, List.getElem?_eq_getElem hk, by rw [hr]; rfl⟩)

theorem attempted_perm (h : PassOk timeout began permits p) (done : p.result ≠ none) :
    p.attempted.Perm (p.tasks.map Task.agent) := by
  rw [← filterMap_range]
  exact (attempts_perm h done).filterMap _

/-- Nobody is left at the gate, and every permit is back. -/
theorem gate_of_result (h : PassOk timeout began permits p) (done : p.result ≠ none) :
    p.gate.value = permits := by
  have idle : p.running = 0 := by
    refine List.countP_eq_zero.mpr fun t ht => ?_
    obtain ⟨result, hr⟩ := ended_of_result done t ht
    rw [hr]
    exact Bool.false_ne_true
  have keys : p.gate.keys = [] := by
    refine List.eq_nil_iff_forall_not_mem.mpr fun k hk => ?_
    obtain ⟨t, ht, waiting⟩ := (h.waits k).mp hk
    obtain ⟨result, hr⟩ := ended_of_result done t (List.mem_of_getElem? ht)
    rw [hr] at waiting
    cases waiting
  have := h.free
  rw [Semaphore.free, idle, List.map_eq_nil_iff.mp keys] at this
  exact this

theorem waits_le (h : PassOk timeout began permits p) (ht : t ∈ p.tasks)
    (hp : t.phase.begun = false) :
    p.now ≤ began + ((p.tasks.length - 1) / permits : ℕ) * max 0 timeout := by
  obtain ⟨k, hk⟩ := List.mem_iff_getElem?.mp ht
  have fewer := h.attempts_lt hk hp
  refine (h.early fewer).trans ?_
  gcongr
  omega

theorem ends_le (h : PassOk timeout began permits p) (positive : 0 < permits)
    (ongoing : p.result = none) :
    p.now ≤ began + (rounds p.tasks.length permits : ℕ) * max 0 timeout := by
  obtain ⟨t, ht, open_⟩ := Pass.result_eq_none.mp ongoing
  obtain ⟨k, hk⟩ := List.mem_iff_getElem?.mp ht
  have hlt := (List.getElem?_eq_some_iff.mp hk).1
  cases begun : t.phase.begun with
  | false =>
    refine (waits_le h ht begun).trans ?_
    gcongr
    exact (Nat.le_succ _).trans (div_lt_rounds positive (by omega))
  | true =>
    -- the agent of place `i` is in progress
    have hr : t.phase.isRunning = true := by
      rw [Phase.begun, open_, Bool.or_false] at begun
      exact begun
    obtain ⟨since, hs⟩ := isRunning_iff.mp hr
    obtain ⟨i, hi⟩ := List.mem_iff_getElem?.mp ((h.begun k).mpr ⟨t, hk, begun⟩)
    have place : i < p.tasks.length := by
      have all := (subperm_range h.nodup h.lt_length).length_le
      rw [List.length_range] at all
      exact Nat.lt_of_lt_of_le (List.getElem?_eq_some_iff.mp hi).1 all
    have last : ((i / permits : ℕ) : ℚ) + 1 ≤ (rounds p.tasks.length permits : ℕ) := by
      exact_mod_cast div_lt_rounds positive place
    calc p.now ≤ since + max 0 (t.fetch.due timeout) := (h.budget t ht since hs).2
      _ ≤ began + (i / permits : ℕ) * max 0 timeout + max 0 timeout :=
        add_le_add (h.round i k t since hi hk hs) (max_le_max_left 0 (due_le _))
      _ = began + ((i / permits : ℕ) + 1) * max 0 timeout := by ring
      _ ≤ began + (rounds p.tasks.length permits : ℕ) * max 0 timeout := by gcongr

theorem phase_of_inTime (h : PassOk timeout began permits p) (ht : t ∈ p.tasks) {after : ℚ≥0}
    {result : Except Raised Nat} (hf : t.fetch = .ends after result) (lt : after < timeout)
    (ended : t.phase.isEnded = true) : t.phase = .ended result := by
  obtain ⟨result', hp⟩ : ∃ result', t.phase = .ended result' := by
    revert ended
    cases t.phase <;> simp [Phase.isEnded]
  have fits := h.ended t ht result' hp
  rw [hf] at fits
  rw [hp, fits.inTime_eq lt]

theorem fetch_of_finished (h : PassOk timeout began permits p) (ht : t ∈ p.tasks) {changed : Nat}
    (hc : t.finished = some changed) :
    ∃ after : ℚ≥0, t.fetch = .ends after (.ok changed) ∧ after ≤ timeout := by
  have fits := h.ended t ht _ (finished_eq_some.mp hc)
  cases hf : t.fetch with
  | hangs =>
    rw [hf] at fits
    cases fits
  | ends after result =>
    rw [hf] at fits
    cases fits with
    | inTime le => exact ⟨after, rfl, le⟩

theorem result_eq_finished {n : Nat} (hn : p.result = some n) : n = p.finished.sum := by
  rw [result_eq_some hn, Pass.finished, sum_filterMap]
  exact congrArg List.sum (List.map_congr_left fun t _ => value_eq_finished t)

/-- With no tie between an answer and the timeout, the sum is known beforehand. -/
theorem result_eq_changes (h : PassOk timeout began permits p) {n : Nat} (hn : p.result = some n)
    (tie : ∀ t ∈ p.tasks, ∀ (after : ℚ≥0) result, t.fetch = .ends after result →
      (after : ℚ) ≠ timeout) : n = (p.tasks.map fun t => t.fetch.changes timeout).sum := by
  have done : p.result ≠ none := by
    rw [hn]
    exact Option.some_ne_none n
  rw [result_eq_some hn]
  refine congrArg List.sum (List.map_congr_left fun t ht => ?_)
  obtain ⟨result, ended⟩ := ended_of_result done t ht
  rw [Task.value, ended]
  exact (h.ended t ht result ended).changes_eq (tie t ht)

end Over

/-- The laws of a pass, under every schedule. -/
theorem reconcileOnce_laws {concurrency : Int} {agents : List Agent} {hosts : Hosts}
    (hr : Schedule timeout (reconcileOnce agents hosts concurrency began) p) :
    PassLaws timeout began concurrency agents hosts p := by
  have h := passOk_of_run hr
  have positive := permits_pos concurrency
  have all : (((max 1 concurrency).toNat : ℕ) : Int) = max 1 concurrency := by omega
  have tasks : p.tasks.map (fun t => (t.agent, t.fetch)) =
      (online agents).map fun a => (a.id, fetchAndApply hosts a.id) := tasks_of_run hr
  have names : p.tasks.map Task.agent = (online agents).map Agent.id := by
    have := congrArg (List.map Prod.fst) tasks
    rwa [List.map_map, List.map_map] at this
  have changes : (p.tasks.map fun t => t.fetch.changes timeout) =
      (online agents).map fun a => (fetchAndApply hosts a.id).changes timeout := by
    have := congrArg (List.map fun x => x.2.changes timeout) tasks
    rwa [List.map_map, List.map_map] at this
  refine {
    tasks := tasks
    limit := ?_
    permits := ?_
    attempted := names ▸ attempted_subperm h
    inTime := fun t ht after result => phase_of_inTime h ht
    finished := fun t ht changed => fetch_of_finished h ht
    waits := fun t ht hp => waits_le h ht hp
    ends := fun ongoing => ends_le h positive ongoing
    goesOn := ?_
    nearer := fun _ _ hs clock => weight_lt h hs clock
    everyone := fun done => names ▸ attempted_perm h done
    returned := fun done => by rw [gate_of_result h done, all]
    sum := fun n => result_eq_finished
    total := fun n hn tie => changes ▸ result_eq_changes h hn tie }
  · have := h.free
    omega
  · have := h.free
    omega
  · intro ongoing
    obtain ⟨q, a, q', hq, _, hs, _, done⟩ := completes h positive ongoing
    exact ⟨q', .step hq trivial hs, done⟩

/-- The first agent hangs, the other one answers. -/
def slowFirst : Hosts where
  get agentId := if agentId = 1 then some .hangs else some (.ends 3 (.ok []))
  reconcileAgent _ _ := .ends 2 (.ok 3)

def threeAgents : List Agent := [⟨1, .online⟩, ⟨2, .offline⟩, ⟨3, .online⟩]

theorem reconcileOnce_laws_slowFirst :
    ∃ p, p.result = some 3 ∧ PassLaws 20 0 1 threeAgents slowFirst p := by
  obtain ⟨p, hr, done⟩ : ∃ p, Schedule 20 (reconcileOnce threeAgents slowFirst 1 0) p ∧
      decide (p.result = some 3) = true :=
    exists_run_of_execute (Pass.step 20) (fun _ _ => true) (reconcileOnce threeAgents slowFirst 1 0)
      [.start 0, .start 1, .tick 20, .timeout 0, .resume 1, .tick 25, .finish 1]
      (fun p => decide (p.result = some 3)) (fun _ _ _ => trivial) (by decide +kernel)
  exact ⟨p, of_decide_eq_true done, reconcileOnce_laws hr⟩

end Karr.Reconcile
