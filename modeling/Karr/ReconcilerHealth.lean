import Karr.Invariants.SlowPasses
import Karr.Services.Reconciler

/-!
# The health of the reconciler

Between two passes the check is lenient by two intervals. Within a pass it allows
the timeout or, where that is more, what the last pass took. So it can raise
while a pass goes on that takes longer than the last one, if the agents are many
or slow enough; and it raises in no other case.
-/

set_option autoImplicit false

namespace Karr.Reconcile

open Interleaving Rounds

namespace Reconciler

def permits (r : Reconciler) : Nat := (max 1 r.concurrency).toNat

/-- The longest pass over `n` agents. -/
def longest (r : Reconciler) (n : Nat) : ℚ := (rounds n r.permits : ℕ) * r.perAgentTimeout

/-- The check bears with every pass over `n` agents, after a pass as long as the last one. -/
def Covers (r : Reconciler) (n : Nat) : Prop :=
  r.longest n ≤ 2 * r.interval + max r.perAgentTimeout r.lastPassSeconds

theorem check_eq_ok {r : Reconciler} {now since : ℚ} (started : r.startedAt ≠ none)
    (anchor : r.anchor = some since) : r.check now = .ok () ↔ now - since ≤ r.limit := by
  obtain ⟨at_, hat⟩ := Option.ne_none_iff_exists'.mp started
  rw [check, hat]
  dsimp only
  rw [secondsSinceSuccess, anchor, Option.map_some]
  dsimp only
  split
  · rename_i late
    exact iff_of_false (fun ok => by cases ok) (not_le.mpr late)
  · rename_i within
    exact iff_of_true rfl (not_lt.mp within)

end Reconciler

/-! ## One pass of the loop -/

section Passes
variable {timeout began : ℚ} {permits : Nat} {p p' : Pass} {a : PassAction}

/-- A pass that is over stays so, for as long as nobody looks. -/
theorem open_of_step (h : PassOk timeout began permits p) (hs : p.step timeout a = some p')
    (ongoing : p'.result = none) : p.result = none := by
  by_contra done
  have none : p.weight = 0 := by
    refine List.sum_eq_zero fun w hw => ?_
    obtain ⟨t, ht, rfl⟩ := List.mem_map.mp hw
    obtain ⟨result, hr⟩ := ended_of_result done t ht
    rw [hr]
    rfl
  cases pass_rule hs with
  | tick => exact done ongoing
  | _ =>
    have less := weight_lt h hs fun _ => PassAction.noConfusion
    omega

/-- The step that ends a pass takes no time. -/
theorem now_of_step (hs : p.step timeout a = some p') (ongoing : p.result = none)
    (done : p'.result ≠ none) : p'.now = p.now := by
  cases pass_rule hs with
  | tick => exact absurd ongoing done
  | _ => rfl

end Passes

/-- A sleep takes no longer than the interval, and a pass than the longest over its agents. -/
def Within (r : Reconciler) (now : ℚ) : Option Awaited → Prop
  | none => False
  | some (.sleep since) => r.anchor = some since ∧ now ≤ since + r.interval
  | some (.reconcileOnce started p) =>
    r.anchor = some (started - r.interval) ∧ p.now = now ∧
      PassOk r.perAgentTimeout started r.permits p ∧ now ≤ started + r.longest p.tasks.length

/-- The invariant of a loop whose passes all complete. -/
structure LoopOk (l : Loop) : Prop where
  interval : 0 ≤ l.reconciler.interval
  timeout : 0 ≤ l.reconciler.perAgentTimeout
  started : l.reconciler.startedAt ≠ none
  task : Within l.reconciler l.now l.task

namespace LoopAction

/-- An action of a loop whose passes all complete, and which is not stopped. -/
def completing : LoopAction → Bool
  | .stop => false
  | .fail => false
  | _ => true

/-- At most so many agents are online. -/
def few (n : Nat) : LoopAction → Bool
  | .wake agents _ => decide ((online agents).length ≤ n)
  | _ => true

end LoopAction

namespace LoopOk
variable {l l' : Loop} {a : LoopAction}

theorem within (h : LoopOk l) {awaited : Awaited} (ht : l.task = some awaited) :
    Within l.reconciler l.now (some awaited) := by
  have task := h.task
  rwa [ht] at task

theorem not_idle (h : LoopOk l) : l.task ≠ none := by
  intro none
  have task := h.task
  rw [none] at task
  exact task

theorem start (h : LoopOk l) : l.start = l := by
  unfold Loop.start
  split
  · rename_i none
    exact absurd none h.not_idle
  · rfl

theorem step (h : LoopOk l) (ok : a.completing = true) (hs : l.step a = some l') : LoopOk l' := by
  cases loop_rule hs with
  | start => exact h.start.symm ▸ h
  | stop => cases ok
  | fail => cases ok
  | @wake since agents hosts ht due =>
    obtain ⟨anchor, before⟩ := h.within ht
    have now : since = l.now - l.reconciler.interval := by linarith
    exact ⟨h.interval, h.timeout, h.started, anchor.trans (congrArg some now), rfl,
      passOk_start _ _ _ _ _, le_add_of_nonneg_right (mul_nonneg (Nat.cast_nonneg _) h.timeout)⟩
  | @pass started p p' a ht ongoing hp =>
    obtain ⟨anchor, now, pass, _⟩ := h.within ht
    have positive : 0 < l.reconciler.permits := permits_pos _
    refine ⟨h.interval, h.timeout, h.started, anchor, rfl, pass.step positive hp, ?_⟩
    have ends {q : Pass} (ok : PassOk l.reconciler.perAgentTimeout started l.reconciler.permits q)
        (ongoing : q.result = none) : q.now ≤ started + l.reconciler.longest q.tasks.length := by
      have := ends_le ok positive ongoing
      rwa [max_eq_right h.timeout] at this
    by_cases last : p'.result = none
    · exact ends (pass.step positive hp) last
    · change p'.now ≤ started + l.reconciler.longest p'.tasks.length
      rw [now_of_step hp ongoing last, length_step hp]
      exact ends pass ongoing
  | complete =>
    exact ⟨h.interval, h.timeout, h.started, rfl, le_add_of_nonneg_right h.interval⟩
  | idle ht => exact absurd ht h.not_idle
  | @sleep time since ht le before =>
    refine ⟨h.interval, h.timeout, h.started, ?_⟩
    change Within l.reconciler time l.task
    rw [ht]
    exact ⟨(h.within ht).1, before⟩

theorem check_asleep (h : LoopOk l) {since : ℚ} (ht : l.task = some (.sleep since)) :
    l.check = .ok () := by
  obtain ⟨anchor, before⟩ := h.within ht
  refine (Reconciler.check_eq_ok h.started anchor).mpr ?_
  have := h.interval
  have lenient : 0 ≤ max l.reconciler.perAgentTimeout l.reconciler.lastPassSeconds :=
    le_max_of_le_left h.timeout
  rw [Reconciler.limit, missedPassesBeforeUnhealthy]
  linarith

/-- In a pass the check looks at how long it has been going on. -/
theorem check_during (h : LoopOk l) {started : ℚ} {p : Pass}
    (ht : l.task = some (.reconcileOnce started p)) :
    l.check = .ok () ↔ l.now - started ≤ 2 * l.reconciler.interval +
      max l.reconciler.perAgentTimeout l.reconciler.lastPassSeconds := by
  have anchor := (h.within ht).1
  rw [Loop.check, Reconciler.check_eq_ok h.started anchor, Reconciler.limit,
    missedPassesBeforeUnhealthy]
  constructor
  · intro le
    linarith
  · intro le
    linarith

end LoopOk

/-! ## The runs -/

/-- No pass is in progress. -/
def Loop.asleep (l : Loop) : Bool := l.task matches some (.sleep _)

/-- A run in which every pass completes, over at most `n` online agents. -/
abbrev LoopRun (n : Nat) : Loop → Loop → Prop :=
  Run Loop.step fun _ a => a.completing = true ∧ a.few n = true

def afterStart (r : Reconciler) (now : ℚ) : Loop := Loop.start { now := now, reconciler := r }

section Bearable
variable {l l' : Loop} {a : LoopAction}

/-- The pass that begins is one that the check bears with. -/
def Bearable (l : Loop) : LoopAction → Prop
  | .wake agents _ => l.reconciler.Covers (online agents).length
  | _ => True

/-- So is the pass in progress. -/
def Borne (l : Loop) : Prop :=
  ∀ started p, l.task = some (.reconcileOnce started p) → l.reconciler.Covers p.tasks.length

theorem Borne.step (h : Borne l) (inv : LoopOk l) (ok : a.completing = true)
    (bearable : Bearable l a) (hs : l.step a = some l') : Borne l' := by
  cases loop_rule hs with
  | start => exact inv.start.symm ▸ h
  | stop => cases ok
  | fail => cases ok
  | wake =>
    intro started p task
    cases task
    rw [length_tasks]
    exact bearable
  | @pass started p p' a ht ongoing hp =>
    intro started' q task
    cases task
    rw [length_step hp]
    exact h started p ht
  | complete =>
    intro started p task
    cases task
  | idle => exact h
  | sleep => exact h

theorem check_ok (inv : LoopOk l) (h : Borne l) : l.check = .ok () := by
  obtain ⟨awaited, ht⟩ := Option.ne_none_iff_exists'.mp inv.not_idle
  cases awaited with
  | sleep since => exact inv.check_asleep ht
  | reconcileOnce started p =>
    refine (inv.check_during ht).mpr ?_
    obtain ⟨_, _, _, now⟩ := inv.within ht
    have covers := h started p ht
    rw [Reconciler.Covers] at covers
    linarith

theorem loopOk_of_run {n : Nat} (inv : LoopOk l) (hr : LoopRun n l l') : LoopOk l' :=
  hr.invariant inv fun h ok hs => h.step ok.1 hs

/-- In every run whose passes all complete, none of them longer than the check bears with when it
begins, the check does not raise. -/
theorem check_ok_of_run (inv : LoopOk l) {since : ℚ} (ht : l.task = some (.sleep since))
    (hr : Run Loop.step (fun l a => a.completing = true ∧ Bearable l a) l l') :
    l'.check = .ok () := by
  have ok {m : Loop} (hr : Run Loop.step (fun l a => a.completing = true ∧ Bearable l a) l m) :
      LoopOk m := hr.invariant inv fun h ok hs => h.step ok.1 hs
  refine check_ok (ok hr) ((hr.strengthen ok).invariant ?_ fun h known hs =>
    h.step known.2 known.1.1 known.1.2 hs)
  intro started p task
  rw [ht] at task
  cases task

end Bearable

section Raises
variable {l : Loop} {n : Nat} {began : ℚ} {permits : Nat}

theorem step_pass {started : ℚ} {p p' : Pass} {a : PassAction} (ongoing : p.result = none)
    (hs : p.step l.reconciler.perAgentTimeout a = some p') :
    (l.during started p).step (.pass a) = some (l.during started p') := by
  simp only [Loop.step, Loop.during, if_pos ongoing, hs, Option.map_some]

theorem loop_of_schedule (started : ℚ) {p q : Pass}
    (ok : PassOk l.reconciler.perAgentTimeout began permits p) (positive : 0 < permits)
    (hr : Schedule l.reconciler.perAgentTimeout p q) (ongoing : q.result = none) :
    LoopRun n (l.during started p) (l.during started q) := by
  induction hr with
  | refl => exact .refl
  | step hr _ hs ih =>
    have open_ := open_of_step (hr.invariant ok fun h _ hs => h.step positive hs) hs ongoing
    exact .step (a := .pass _) (ih open_) ⟨rfl, rfl⟩ (step_pass open_ hs)

theorem loop_begins (h : LoopOk l) {since : ℚ} (ht : l.task = some (.sleep since))
    {agents : List Agent} (few : (online agents).length ≤ n) (hosts : Hosts) :
    LoopRun n l (l.during (since + l.reconciler.interval)
      (reconcileOnce agents hosts l.reconciler.concurrency (since + l.reconciler.interval))) := by
  have before := (h.within ht).2
  have sleeps : l.step (.tick (since + l.reconciler.interval)) =
      some { l with now := since + l.reconciler.interval } := by
    simp only [Loop.step, ht]
    exact if_pos ⟨before, le_refl _⟩
  refine .step (a := .wake agents hosts) (.step .refl ⟨rfl, rfl⟩ sleeps)
    ⟨rfl, decide_eq_true few⟩ ?_
  simp only [Loop.step, ht]
  exact if_pos (le_refl _)

/-- After any sleep: over more agents than the check bears with, all of them hanging, the pass is
still going on when the check raises, and completes. -/
theorem exists_raise (h : LoopOk l) {since : ℚ} (ht : l.task = some (.sleep since))
    (slow : ¬ l.reconciler.Covers n) :
    ∃ m m', LoopRun n l m ∧ LoopRun n m m' ∧ m'.asleep = true ∧ m.check ≠ .ok () := by
  have few : (online (onlineAgents n)).length ≤ n := by
    rw [online_onlineAgents, length_onlineAgents]
  have tooLong := not_le.mp slow
  have lenient : 0 ≤ max l.reconciler.perAgentTimeout l.reconciler.lastPassSeconds :=
    le_max_of_le_left h.timeout
  have lasts : 0 < l.reconciler.longest n := by linarith [h.interval]
  obtain ⟨q, a, q', hr, open_, hs, done, late⟩ :=
    exists_slow (since + l.reconciler.interval) h.timeout lasts
  have going : LoopRun n l (l.during (since + l.reconciler.interval) q) :=
    (loop_begins h ht few hanging).trans
      (loop_of_schedule _ (passOk_start _ _ _ _ _) (permits_pos _) hr open_)
  have completed : (l.during (since + l.reconciler.interval) q').step .complete =
      some ((l.during (since + l.reconciler.interval) q').succeed
        (since + l.reconciler.interval)) := by
    simp only [Loop.step, Loop.during, if_neg done]
  have ends : LoopRun n (l.during (since + l.reconciler.interval) q) _ :=
    .step (.step (a := .pass a) .refl ⟨rfl, rfl⟩ (step_pass open_ hs)) ⟨rfl, rfl⟩ completed
  refine ⟨_, _, going, ends, rfl, fun fine => ?_⟩
  have age := ((loopOk_of_run h going).check_during rfl).mp fine
  change q.now - (since + l.reconciler.interval) ≤ 2 * l.reconciler.interval +
    max l.reconciler.perAgentTimeout l.reconciler.lastPassSeconds at age
  have : since + l.reconciler.interval + l.reconciler.longest n ≤ q.now := late
  linarith

end Raises

/-! ## All runs -/

namespace Reconciler

/-- As `lifespan` makes it, where the concurrency is the default. -/
def new (interval timeout : ℚ) (concurrency : Int) : Reconciler where
  interval := interval
  perAgentTimeout := timeout
  concurrency := concurrency

def SameSettings (r r' : Reconciler) : Prop :=
  r'.interval = r.interval ∧ r'.perAgentTimeout = r.perAgentTimeout ∧ r'.concurrency = r.concurrency

theorem covers_of_bound {r r' : Reconciler} (same : SameSettings r r')
    (nonneg : 0 ≤ r.perAgentTimeout) {m n : Nat} (le : m ≤ n)
    (bound : r.longest n ≤ 2 * r.interval + r.perAgentTimeout) : r'.Covers m := by
  obtain ⟨interval, timeout, concurrency⟩ := same
  have permits : r'.permits = r.permits := congrArg (fun c => (max 1 c).toNat) concurrency
  have fewer : r'.longest m ≤ r.longest n := by
    rw [longest, longest, permits, timeout]
    gcongr
    exact rounds_mono le
  rw [Covers, interval, timeout]
  linarith [le_max_left r.perAgentTimeout r'.lastPassSeconds]

end Reconciler

section All
variable {l l' : Loop} {a : LoopAction} {r : Reconciler} {n : Nat}

theorem sameSettings_step (hs : l.step a = some l') : l.reconciler.SameSettings l'.reconciler := by
  cases loop_rule hs with
  | start =>
    unfold Loop.start
    split <;> exact ⟨rfl, rfl, rfl⟩
  | _ => exact ⟨rfl, rfl, rfl⟩

theorem sameSettings_of_run (hr : LoopRun n l l') : l.reconciler.SameSettings l'.reconciler := by
  induction hr with
  | refl => exact ⟨rfl, rfl, rfl⟩
  | step _ _ hs ih =>
    obtain ⟨interval, timeout, concurrency⟩ := sameSettings_step hs
    exact ⟨interval.trans ih.1, timeout.trans ih.2.1, concurrency.trans ih.2.2⟩

theorem loopOk_afterStart {interval timeout : ℚ} (hi : 0 ≤ interval) (ht : 0 ≤ timeout)
    (concurrency : Int) (began : ℚ) :
    LoopOk (afterStart (.new interval timeout concurrency) began) :=
  ⟨hi, ht, Option.some_ne_none _, rfl, le_add_of_nonneg_right hi⟩

/-- The check raises at no moment of any run in which every pass, over at most `n` online agents,
completes. -/
def NeverRaises (r : Reconciler) (n : Nat) : Prop :=
  ∀ began l l', LoopRun n (afterStart r began) l → LoopRun n l l' → l'.asleep = true →
    l.check = .ok ()

/-- The check never raises just where even the first pass cannot be too long for it. -/
theorem neverRaises_iff {interval timeout : ℚ} {concurrency : Int}
    (hi : saneInterval interval = .ok interval) (ht : saneTimeout timeout = .ok timeout) :
    NeverRaises (.new interval timeout concurrency) n ↔
      (rounds n (max 1 concurrency).toNat : ℕ) * timeout ≤ 2 * interval + timeout := by
  have nonneg : 0 ≤ interval := zero_le_one.trans (saneSeconds_eq_ok.mp hi).1
  have nonneg' : 0 ≤ timeout := zero_le_one.trans (saneSeconds_eq_ok.mp ht).1
  have inv (began : ℚ) : LoopOk (afterStart (.new interval timeout concurrency) began) :=
    loopOk_afterStart nonneg nonneg' concurrency began
  constructor
  · intro never
    by_contra slow
    obtain ⟨l, l', hr, hr', asleep, raises⟩ := exists_raise (n := n) (inv 0) rfl fun covers => by
      rw [Reconciler.Covers] at covers
      change _ ≤ 2 * interval + max timeout 0 at covers
      rw [max_eq_left nonneg'] at covers
      exact slow covers
    exact raises (never 0 l l' hr hr' asleep)
  · intro bound began l l' hr _ _
    refine check_ok_of_run (inv began) rfl
      ((hr.strengthen sameSettings_of_run).mono fun c a ok => ⟨ok.1.1, ?_⟩)
    cases a with
    | wake agents hosts =>
      exact Reconciler.covers_of_bound ok.2 nonneg' (of_decide_eq_true ok.1.2) bound
    | _ => trivial

/-- With the defaults, 16 agents are not too many. -/
theorem neverRaises_iff_defaults :
    NeverRaises (.new defaultReconcileInterval defaultReconcileTimeout defaultConcurrency) 16 ∧
    ¬ NeverRaises (.new defaultReconcileInterval defaultReconcileTimeout defaultConcurrency)
      17 := by
  obtain ⟨hi, ht⟩ := defaults_sane
  refine ⟨(neverRaises_iff hi ht).mpr ?_, fun never => absurd ((neverRaises_iff hi ht).mp never) ?_⟩
  · decide +kernel
  · decide +kernel

def calm (n : Nat) (_ : Loop) (a : LoopAction) : Bool := a.completing && a.few n

theorem calm_sound (l : Loop) (a : LoopAction) (h : calm n l a = true) :
    a.completing = true ∧ a.few n = true := (Bool.and_eq_true _ _).mp h

/-- The first pass, over 17 agents that hang: four of them time out in each of four rounds, and the
last one is left. -/
def firstPass : List LoopAction :=
  [.tick 30, .wake (onlineAgents 17) hanging] ++ (List.range 17).map (fun k => .pass (.start k)) ++
    (List.range 4).flatMap (fun i =>
      [.pass (.tick (30 + 20 * (i + 1)))] ++
        (List.range 4).map (fun k => .pass (.timeout (4 * i + k))) ++
        ((List.range 17).filter (fun k => k / 4 = i + 1)).map (fun k => .pass (.resume k))) ++
    [.pass (.tick 130)]

/-- At second 130 the check raises; the pass completes at that second. -/
theorem not_neverRaises : ¬ ∀ (interval timeout : ℚ) (concurrency : Int) (n : Nat),
    saneInterval interval = .ok interval → saneTimeout timeout = .ok timeout →
      NeverRaises (.new interval timeout concurrency) n := by
  intro never
  obtain ⟨l, hr, hl⟩ := exists_run_of_execute Loop.step (calm 17) (afterStart (.new 30 20 4) 0)
    firstPass (fun l => !l.check.toBool &&
      (execute Loop.step (calm 17) l [.pass (.timeout 16), .complete]).any Loop.asleep)
    calm_sound (by decide +kernel)
  obtain ⟨raises, rest⟩ := (Bool.and_eq_true _ _).mp hl
  obtain ⟨l', hr', asleep⟩ :=
    exists_run_of_execute Loop.step (calm 17) l _ Loop.asleep calm_sound rest
  have fine := never 30 20 4 17 (by decide +kernel) (by decide +kernel) 0 l l' hr hr' asleep
  rw [fine] at raises
  cases raises

end All

end Karr.Reconcile
