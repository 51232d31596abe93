import Karr.Lib.Interleaving
import Karr.Lib.Semaphore
import Karr.Models
import Karr.Services.Registrations
import Mathlib.Algebra.Field.Rat
import Mathlib.Data.Rat.Defs

/-!
# reconcile_once

The tasks that `asyncio.gather` runs, one for each online agent, and the
semaphore they pass. Code takes no time: time passes while every task waits, for
its permit or for what it has asked for, and not past a moment at which one of
them goes on. At one moment the tasks go on in any order.
-/

set_option autoImplicit false

namespace Karr.Reconcile

open Registrations Asyncio

/-- The `Exception`s by the clauses of `one`. `CancelledError` is none: it is how `stop` ends the
loop. -/
inductive Raised where
  | bonnieError
  | timeoutError
  | exception
  deriving DecidableEq, Repr

/-- An awaited coroutine: it returns or raises so long after its start, or is still running
when it is cancelled. -/
inductive Coroutine (α : Type) where
  | ends (after : ℚ≥0) (result : Except Raised α)
  | hangs

namespace Coroutine

def bind {α β : Type} : Coroutine α → (α → Coroutine β) → Coroutine β
  | .hangs, _ => .hangs
  | .ends after (.error e), _ => .ends after (.error e)
  | .ends after (.ok a), f =>
    match f a with
    | .hangs => .hangs
    | .ends more result => .ends (after + more) result

/-- How long `wait_for` takes. -/
def due {α : Type} (timeout : ℚ) : Coroutine α → ℚ
  | .ends after _ => min after timeout
  | .hangs => timeout

end Coroutine

/-- What the registry knows of an agent. -/
structure Agent where
  id : AgentId
  status : AgentStatus
  deriving DecidableEq, Repr

/-- `registry.get` with `list_containers` of the client it finds; then the session with
`reconcile_agent`, which returns the number of changes. -/
structure Hosts where
  get : AgentId → Option (Coroutine (List ContainerInfo))
  reconcileAgent : AgentId → List ContainerInfo → Coroutine Nat

def fetchAndApply (hosts : Hosts) (agentId : AgentId) : Coroutine Nat :=
  match hosts.get agentId with
  | none => .ends 0 (.ok 0)
  | some listContainers => listContainers.bind (hosts.reconcileAgent agentId)

/-- What `one` returns, by how `wait_for` ended. -/
def one : Except Raised Nat → Nat
  | .ok changed => changed
  | .error .bonnieError => 0
  | .error .timeoutError => 0
  | .error .exception => 0

inductive Phase where
  | created
  /-- In `async with gate`. -/
  | waiting
  /-- In `wait_for`, with a permit. -/
  | running (since : ℚ)
  | ended (result : Except Raised Nat)

namespace Phase

def isCreated : Phase → Bool
  | .created => true
  | _ => false

def isRunning : Phase → Bool
  | .running _ => true
  | _ => false

def isEnded : Phase → Bool
  | .ended _ => true
  | _ => false

/-- The steps a task has before it. -/
def weight : Phase → Nat
  | .created => 3
  | .waiting => 2
  | .running _ => 1
  | .ended _ => 0

end Phase

structure Task where
  agent : AgentId
  fetch : Coroutine Nat
  phase : Phase := .created

namespace Task

/-- The changes of an agent that finished. -/
def finished (t : Task) : Option Nat :=
  match t.phase with
  | .ended (.ok changed) => some changed
  | _ => none

def value (t : Task) : Nat :=
  match t.phase with
  | .ended result => one result
  | _ => 0

/-- The task has nothing to do before this time. -/
def allows (timeout : ℚ) (time : ℚ) (t : Task) : Bool :=
  match t.phase with
  | .running since => decide (time ≤ since + t.fetch.due timeout)
  | _ => true

end Task

structure Pass where
  now : ℚ
  gate : Semaphore Nat
  tasks : List Task
  /-- The tasks that got their permit, in order. -/
  attempts : List Nat := []

def online (agents : List Agent) : List Agent := agents.filter fun a => decide (a.status = .online)

/-- The pass at its start: no task has run yet. -/
def reconcileOnce (agents : List Agent) (hosts : Hosts) (concurrency : Int) (now : ℚ) : Pass where
  now := now
  gate := { value := (max 1 concurrency).toNat }
  tasks := (online agents).map fun a => { agent := a.id, fetch := fetchAndApply hosts a.id }

inductive PassAction where
  | start (k : Nat)
  | resume (k : Nat)
  /-- The coroutine in `wait_for` ends. -/
  | finish (k : Nat)
  | timeout (k : Nat)
  | tick (time : ℚ)
  deriving DecidableEq

namespace Pass

def setPhase (p : Pass) (k : Nat) (t : Task) (phase : Phase) : List Task :=
  p.tasks.set k { t with phase := phase }

/-- With its permit a task enters `wait_for`. -/
def attempt (p : Pass) (k : Nat) (t : Task) (gate : Semaphore Nat) : Pass :=
  { p with
    gate := gate
    tasks := p.setPhase k t (.running p.now)
    attempts := p.attempts ++ [k] }

/-- However `wait_for` ends, the permit is given back. -/
def settle (p : Pass) (k : Nat) (t : Task) (result : Except Raised Nat) : Pass :=
  { p with gate := p.gate.release, tasks := p.setPhase k t (.ended result) }

def quiet (p : Pass) : Prop := (∀ t ∈ p.tasks, t.phase.isCreated = false) ∧ woken p.gate.waiters = 0

instance (p : Pass) : Decidable p.quiet :=
  inferInstanceAs (Decidable ((∀ t ∈ p.tasks, t.phase.isCreated = false) ∧ woken p.gate.waiters = 0))

/-- `wait_for` with a timeout that is not positive does not wait for anything. -/
def step (timeout : ℚ) (p : Pass) : PassAction → Option Pass
  | .start k =>
    match p.tasks[k]? with
    | some t =>
      match t.phase with
      | .created =>
        match p.gate.acquire k with
        | (true, gate) => some (p.attempt k t gate)
        | (false, gate) => some { p with gate := gate, tasks := p.setPhase k t .waiting }
      | _ => none
    | none => none
  | .resume k =>
    match p.tasks[k]? with
    | some t => if (k, true) ∈ p.gate.waiters then some (p.attempt k t (p.gate.resume k)) else none
    | none => none
  | .finish k =>
    match p.tasks[k]? with
    | some t =>
      match t.phase, t.fetch with
      | .running since, .ends after result =>
        if 0 < timeout ∧ since + after ≤ p.now then some (p.settle k t result) else none
      | _, _ => none
    | none => none
  | .timeout k =>
    match p.tasks[k]? with
    | some t =>
      match t.phase with
      | .running since =>
        if since + timeout ≤ p.now then some (p.settle k t (.error .timeoutError)) else none
      | _ => none
    | none => none
  | .tick time =>
    if p.now ≤ time ∧ p.quiet ∧ ∀ t ∈ p.tasks, t.allows timeout time = true then
      some { p with now := time }
    else none

/-- `sum(results)`, once `gather` has all of them. -/
def result (p : Pass) : Option Nat :=
  if ∀ t ∈ p.tasks, t.phase.isEnded = true then some (p.tasks.map Task.value).sum else none

/-- The agents in progress. -/
def running (p : Pass) : Nat := p.tasks.countP fun t => t.phase.isRunning

/-- The agents that were attempted, in order. -/
def attempted (p : Pass) : List AgentId :=
  p.attempts.filterMap fun k => (p.tasks[k]?).map Task.agent

/-- The changes of the agents that finished. -/
def finished (p : Pass) : List Nat := p.tasks.filterMap Task.finished

end Pass

/-- What one action does to a pass. -/
inductive PassRule (timeout : ℚ) (p : Pass) : PassAction → Pass → Prop where
  | enter {k : Nat} {t : Task} (ht : p.tasks[k]? = some t) (hp : t.phase = .created)
      (free : p.gate.locked = false) :
      PassRule timeout p (.start k)
        (p.attempt k t { p.gate with value := p.gate.value - 1 })
  | queue {k : Nat} {t : Task} (ht : p.tasks[k]? = some t) (hp : t.phase = .created)
      (locked : p.gate.locked = true) :
      PassRule timeout p (.start k)
        { p with
          gate := { p.gate with waiters := p.gate.waiters ++ [(k, false)] }
          tasks := p.setPhase k t .waiting }
  | resume {k : Nat} {t : Task} (ht : p.tasks[k]? = some t) (woken : (k, true) ∈ p.gate.waiters) :
      PassRule timeout p (.resume k) (p.attempt k t (p.gate.resume k))
  | finish {k : Nat} {t : Task} {since : ℚ} {after : ℚ≥0} {result : Except Raised Nat}
      (ht : p.tasks[k]? = some t) (hp : t.phase = .running since)
      (hf : t.fetch = .ends after result) (positive : 0 < timeout) (due : since + after ≤ p.now) :
      PassRule timeout p (.finish k) (p.settle k t result)
  | timeout {k : Nat} {t : Task} {since : ℚ} (ht : p.tasks[k]? = some t)
      (hp : t.phase = .running since) (due : since + timeout ≤ p.now) :
      PassRule timeout p (.timeout k) (p.settle k t (.error .timeoutError))
  | tick {time : ℚ} (le : p.now ≤ time) (quiet : p.quiet)
      (allows : ∀ t ∈ p.tasks, t.allows timeout time = true) :
      PassRule timeout p (.tick time) { p with now := time }

theorem pass_rule {timeout : ℚ} {p p' : Pass} {a : PassAction} :
    p.step timeout a = some p' → PassRule timeout p a p' := by
  fun_cases Pass.step timeout p a <;> intro h <;> cases h
  case case1 ht hp gate acquired =>
    obtain ⟨free, rfl⟩ := Semaphore.acquired acquired
    exact .enter ht hp free
  case case2 ht hp gate queued =>
    obtain ⟨locked, rfl⟩ := Semaphore.queued queued
    exact .queue ht hp locked
  case case5 ht woken => exact .resume ht woken
  case case8 ht since after result hf hp due => exact .finish ht hp hf due.1 due.2
  case case12 ht since hp due => exact .timeout ht hp due
  case case16 h => exact .tick h.1 h.2.1 h.2.2

end Karr.Reconcile
