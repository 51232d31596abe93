import Karr.Python
import Karr.Services.Reconcile

/-!
# Reconciler

The loop that sleeps and makes a pass in turn, and the check on its health. A
sleep takes the interval, a pass as long as its tasks; the code between them
takes no time.
-/

set_option autoImplicit false

namespace Karr.Reconcile

open Python

/-! ## Configuration -/

def defaultReconcileInterval : ℚ := 30

def defaultReconcileTimeout : ℚ := 20

def maxReconcileInterval : ℚ := 3600

def maxReconcileTimeout : ℚ := 300

/-- A field of `KarrConfig` in seconds. Of the floats, the infinite ones and NaN are refused too. -/
def saneSeconds (key : String) (most value : ℚ) : Except String ℚ :=
  if 1 ≤ value ∧ value ≤ most then .ok value
  else .error (key ++ " must be between 1 and " ++ formatFixed most ++ " seconds")

def saneInterval : ℚ → Except String ℚ := saneSeconds "KARR_RECONCILE_INTERVAL" maxReconcileInterval

def saneTimeout : ℚ → Except String ℚ := saneSeconds "KARR_RECONCILE_TIMEOUT" maxReconcileTimeout

theorem defaults_sane : saneInterval defaultReconcileInterval = .ok defaultReconcileInterval ∧
    saneTimeout defaultReconcileTimeout = .ok defaultReconcileTimeout := by
  decide +kernel

theorem saneSeconds_eq_ok {key : String} {most value : ℚ} :
    saneSeconds key most value = .ok value ↔ 1 ≤ value ∧ value ≤ most := by
  unfold saneSeconds
  split <;> simp_all

/-! ## The check -/

def defaultPerAgentTimeout : ℚ := 20

def defaultConcurrency : Int := 4

def missedPassesBeforeUnhealthy : ℚ := 3

structure Reconciler where
  interval : ℚ := defaultReconcileInterval
  perAgentTimeout : ℚ := defaultPerAgentTimeout
  concurrency : Int := defaultConcurrency
  startedAt : Option ℚ := none
  lastSuccessAt : Option ℚ := none
  lastPassSeconds : ℚ := 0
  deriving Repr

namespace Reconciler

def anchor (r : Reconciler) : Option ℚ := r.lastSuccessAt <|> r.startedAt

/-- Age of the last completed pass, or of the start when none completed yet. -/
def secondsSinceSuccess (r : Reconciler) (now : ℚ) : Option ℚ := r.anchor.map fun at_ => now - at_

def limit (r : Reconciler) : ℚ :=
  r.interval * missedPassesBeforeUnhealthy + max r.perAgentTimeout r.lastPassSeconds

def check (r : Reconciler) (now : ℚ) : Except String Unit :=
  match r.startedAt with
  | none => .error "reconciler not started"
  | some _ =>
    match r.secondsSinceSuccess now with
    | some age =>
      if r.limit < age then
        .error ("no completed reconcile pass for " ++ formatFixed age ++ "s (limit " ++
          formatFixed r.limit ++ "s)")
      else .ok ()
    | none => .ok ()

end Reconciler

/-! ## The loop -/

/-- What the task of the reconciler awaits. -/
inductive Awaited where
  | sleep (since : ℚ)
  | reconcileOnce (started : ℚ) (p : Pass)

structure Loop where
  now : ℚ
  reconciler : Reconciler
  task : Option Awaited := none

inductive LoopAction where
  | start
  | stop
  /-- The sleep is over; the registry lists these agents, and this is what they do. -/
  | wake (agents : List Agent) (hosts : Hosts)
  /-- The sleep is over, and `registry.agents` raises. -/
  | fail
  | pass (a : PassAction)
  /-- `reconcile_once` returns. -/
  | complete
  | tick (time : ℚ)

namespace Loop

def check (l : Loop) : Except String Unit := l.reconciler.check l.now

/-- The loop in a pass, at the time of that pass. -/
def during (l : Loop) (started : ℚ) (p : Pass) : Loop :=
  { l with now := p.now, task := some (.reconcileOnce started p) }

/-- The loop when a pass returns. -/
def succeed (l : Loop) (started : ℚ) : Loop where
  now := l.now
  reconciler := { l.reconciler with
    lastSuccessAt := some l.now
    lastPassSeconds := l.now - started }
  task := some (.sleep l.now)

def start (l : Loop) : Loop :=
  match l.task with
  | none =>
    { l with
      reconciler := { l.reconciler with startedAt := some l.now }
      task := some (.sleep l.now) }
  | some _ => l

/-- A sleep or a pass that is over does not keep the loop waiting. -/
def step (l : Loop) : LoopAction → Option Loop
  | .start => some l.start
  | .stop => some { l with task := none }
  | .wake agents hosts =>
    match l.task with
    | some (.sleep since) =>
      if since + l.reconciler.interval ≤ l.now then
        some (l.during l.now (reconcileOnce agents hosts l.reconciler.concurrency l.now))
      else none
    | _ => none
  | .fail =>
    match l.task with
    | some (.sleep since) =>
      if since + l.reconciler.interval ≤ l.now then some { l with task := some (.sleep l.now) }
      else none
    | _ => none
  | .pass a =>
    match l.task with
    | some (.reconcileOnce started p) =>
      if p.result = none then (p.step l.reconciler.perAgentTimeout a).map (l.during started)
      else none
    | _ => none
  | .complete =>
    match l.task with
    | some (.reconcileOnce started p) => if p.result = none then none else some (l.succeed started)
    | _ => none
  | .tick time =>
    match l.task with
    | none => if l.now ≤ time then some { l with now := time } else none
    | some (.sleep since) =>
      if l.now ≤ time ∧ time ≤ since + l.reconciler.interval then some { l with now := time }
      else none
    | some (.reconcileOnce _ _) => none

end Loop

/-- What one action does to the loop. -/
inductive LoopRule (l : Loop) : LoopAction → Loop → Prop where
  | start : LoopRule l .start l.start
  | stop : LoopRule l .stop { l with task := none }
  | wake {since : ℚ} {agents : List Agent} {hosts : Hosts} (task : l.task = some (.sleep since))
      (due : since + l.reconciler.interval ≤ l.now) :
      LoopRule l (.wake agents hosts)
        (l.during l.now (reconcileOnce agents hosts l.reconciler.concurrency l.now))
  | fail {since : ℚ} (task : l.task = some (.sleep since))
      (due : since + l.reconciler.interval ≤ l.now) :
      LoopRule l .fail { l with task := some (.sleep l.now) }
  | pass {started : ℚ} {p p' : Pass} {a : PassAction}
      (task : l.task = some (.reconcileOnce started p)) (ongoing : p.result = none)
      (step : p.step l.reconciler.perAgentTimeout a = some p') :
      LoopRule l (.pass a) (l.during started p')
  | complete {started : ℚ} {p : Pass} (task : l.task = some (.reconcileOnce started p))
      (done : p.result ≠ none) : LoopRule l .complete (l.succeed started)
  | idle {time : ℚ} (task : l.task = none) (le : l.now ≤ time) :
      LoopRule l (.tick time) { l with now := time }
  | sleep {time since : ℚ} (task : l.task = some (.sleep since)) (le : l.now ≤ time)
      (before : time ≤ since + l.reconciler.interval) :
      LoopRule l (.tick time) { l with now := time }

theorem loop_rule {l l' : Loop} {a : LoopAction} : l.step a = some l' → LoopRule l a l' := by
  fun_cases Loop.step l a <;> intro h
  case case9 task ongoing =>
    obtain ⟨p', step, rfl⟩ := Option.map_eq_some_iff.mp h
    exact .pass task ongoing step
  all_goals cases h
  case case1 => exact .start
  case case2 => exact .stop
  case case3 task due => exact .wake task due
  case case6 task due => exact .fail task due
  case case13 task done => exact .complete task done
  case case15 task le => exact .idle task le
  case case17 task h => exact .sleep task h.1 h.2

end Karr.Reconcile
