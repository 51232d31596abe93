import Karr.Api.StreamSlots
import Karr.Python
import Karr.World

/-!
# EnvironmentService

Each operation is a process. A step runs from one await to the next: it is one
committed statement, one read, or one BONNIE request together with its answer.
A guard that compares ages runs with the read it follows; `clock` is what the
application clock shows then.
-/

set_option autoImplicit false

namespace Karr

/-- `timedelta(seconds=60)`. -/
def createGrace : Int := 60 * 1000000

def createNeverCompleted : String := "create never completed"
def containerMissing : String := "container missing"

def age (env : Environment) (clock : Int) : Int := clock - env.createdAt

/-- In flight as far as a guard can tell: `creating` and younger than the grace. -/
def young (env : Environment) (clock : Int) : Bool :=
  decide (env.status = .creating ∧ age env clock < createGrace)

def Status.text : Status → String
  | .creating => "creating"
  | .running => "running"
  | .stopped => "stopped"
  | .error => "error"

/-- What a suspended process resumes with. -/
inductive Input where
  /-- The database or the registry answered. -/
  | run (clock : Int)
  /-- `create_container` returned an id. -/
  | made (id : ContainerId)
  | ok
  | notFound (message : String)
  /-- A `BonnieError` other than not-found; the host did nothing. -/
  | error (message : String)
  /-- The host carried the request out, yet the caller sees a `BonnieError`. -/
  | lost (message : String)
  | lostMade (message : String) (id : ContainerId)
  | listed (containers : List ContainerInfo)
  /-- The commit of a pass. A single-row `UPDATE` that matches nothing raises, a
  batched one cannot tell (`strict = false`). -/
  | flush (strict : Bool)
  /-- A call into the registry raises. -/
  | raise
  | crash
  deriving DecidableEq, Repr

/-! ## create -/

inductive Create where
  | start (body : EnvironmentCreate)
  /-- The agent row was read, in a transaction begun at `begun`. -/
  | agentRead (body : EnvironmentCreate) (begun : Int)
  | checked (body : EnvironmentCreate) (begun : Int)
  | inserted (env : Environment)
  | refreshed (env : Environment)
  | requested (env : Environment)
  | created (env : Environment) (id : ContainerId)
  | failed (env : Environment) (message : String)
  | saved (env : Environment)
  | done (result : Result)
  deriving DecidableEq, Repr

/-- The row as `INSERT` makes it: `now()` is when the transaction began. -/
def newRow (id : Nat) (body : EnvironmentCreate) (begun : Int) : Environment where
  id := id
  projectId := body.projectId
  agentId := body.agentId
  name := Python.strip body.name
  image := Python.strip body.image
  status := .creating
  gpu := body.gpu
  env := body.env
  mounts := body.mounts
  command := body.command
  createdAt := begun

def noClient : String := "no BONNIE client registered for agent"

def createFailure (message : String) : String := "create container on agent failed: " ++ message

def containerOf (env : Environment) (id : ContainerId) : Container :=
  ⟨env.agentId, id, env.name, some .created, some env.id⟩

def projectMissing (w : World) (body : EnvironmentCreate) : Bool :=
  body.projectId.any fun p => decide (p ∉ w.projects)

def createStep (w : World) : Create → Input → Option (Effect × Create)
  | .start body, .run _ =>
    if Python.strip body.name = "" then
      some (.none, .done (.apiError 422 "name is required"))
    else if Python.strip body.image = "" then
      some (.none, .done (.apiError 422 "image is required"))
    else if body.agentId ∉ w.agents then
      some (.none, .done (.apiError 400 "agent not found"))
    else some (.none, .agentRead body w.now)
  | .agentRead body begun, .run _ =>
    if projectMissing w body then some (.none, .done (.apiError 400 "project not found"))
    else some (.none, .checked body begun)
  | .checked body begun, .run _ =>
    let row := newRow w.nextEnv body begun
    match w.envs.find? fun r => decide (r.agentId = row.agentId ∧ r.name = row.name) with
    | some r =>
      -- the unique index waits for the transaction that deletes the other row
      if r.id ∈ w.locks then none
      else some (.none, .done
        (.apiError 409 "an environment with that name already exists on this agent"))
    | none =>
      if body.agentId ∈ w.agentLocks then none
      else if body.agentId ∉ w.agents ∨ projectMissing w body then
        some (.none, .done (.apiError 400 "agent or project not found"))
      else some (.insert row, .inserted row)
  -- refresh raises when the row is gone
  | .inserted env, .run _ =>
    if (w.find env.id).isSome then some (.none, .refreshed env)
    else some (.none, .done .exception)
  | .refreshed env, .run _ =>
    if env.agentId ∈ w.clients then some (.none, .requested env)
    else some (.none, .failed env noClient)
  | .requested env, .made id => some (.addContainer (containerOf env id), .created env id)
  | .requested env, .lostMade message id =>
    some (.addContainer (containerOf env id), .failed env (createFailure message))
  | .requested env, .notFound message => some (.none, .failed env (createFailure message))
  | .requested env, .error message => some (.none, .failed env (createFailure message))
  | .created env id, .run _ =>
    if env.id ∈ w.locks then none else some (.finish env.id id, .saved env)
  | .failed env message, .run _ =>
    if env.id ∈ w.locks then none
    else some (.setStatus env.id .error message, .done (.apiError 502 message))
  | .saved env, .run _ =>
    if (w.find env.id).isSome then some (.none, .done .ok) else some (.none, .done .exception)
  | .done _, _ => none
  | _, .crash => some (.none, .done .crashed)
  | _, _ => none

/-- The row a create has inserted and neither finished nor marked yet. -/
def Create.row : Create → Option Environment
  | .inserted env => some env
  | .refreshed env => some env
  | .requested env => some env
  | .created env _ => some env
  | .failed env _ => some env
  | _ => none

/-- Every step of a create, with the guard it passed. -/
inductive CreateRule (w : World) : Create → Input → Effect → Create → Prop where
  | quit {p : Create} {i : Input} {r : Result} (early : p.row = none) :
      CreateRule w p i .none (.done r)
  | read {body : EnvironmentCreate} {clock : Int} :
      CreateRule w (.start body) (.run clock) .none (.agentRead body w.now)
  | check {body : EnvironmentCreate} {begun clock : Int} :
      CreateRule w (.agentRead body begun) (.run clock) .none (.checked body begun)
  | insert {body : EnvironmentCreate} {begun clock : Int}
      (unique : ∀ r ∈ w.envs, r.agentId = body.agentId → r.name ≠ Python.strip body.name)
      (agent : body.agentId ∈ w.agents) :
      CreateRule w (.checked body begun) (.run clock) (.insert (newRow w.nextEnv body begun))
        (.inserted (newRow w.nextEnv body begun))
  | refresh {env : Environment} {clock : Int} :
      CreateRule w (.inserted env) (.run clock) .none (.refreshed env)
  | vanished {env : Environment} {clock : Int} (gone : w.find env.id = none) :
      CreateRule w (.inserted env) (.run clock) .none (.done .exception)
  | request {env : Environment} {clock : Int} :
      CreateRule w (.refreshed env) (.run clock) .none (.requested env)
  | refuse {env : Environment} {clock : Int} :
      CreateRule w (.refreshed env) (.run clock) .none (.failed env noClient)
  | made {env : Environment} {id : ContainerId} :
      CreateRule w (.requested env) (.made id) (.addContainer (containerOf env id))
        (.created env id)
  | lostMade {env : Environment} {message : String} {id : ContainerId} :
      CreateRule w (.requested env) (.lostMade message id) (.addContainer (containerOf env id))
        (.failed env (createFailure message))
  | fail {env : Environment} {i : Input} {message : String} :
      CreateRule w (.requested env) i .none (.failed env (createFailure message))
  | finish {env : Environment} {id : ContainerId} {clock : Int} (unlocked : env.id ∉ w.locks) :
      CreateRule w (.created env id) (.run clock) (.finish env.id id) (.saved env)
  | mark {env : Environment} {message : String} {clock : Int} (unlocked : env.id ∉ w.locks) :
      CreateRule w (.failed env message) (.run clock) (.setStatus env.id .error message)
        (.done (.apiError 502 message))
  | crash {p : Create} : CreateRule w p .crash .none (.done .crashed)

theorem createStep_rule {w : World} {p p' : Create} {i : Input} {e : Effect} :
    createStep w p i = some (e, p') → CreateRule w p i e p' := by
  fun_cases createStep w p i <;> intro h <;> cases h
  case case4 => exact .read
  case case6 => exact .check
  case case11 body begun clock row free _ ready =>
    refine .insert ?_ (by simpa using fun h => (not_or.mp ready).1 h)
    intro r hr ha hn
    have := List.find?_eq_none.mp free r hr
    exact this (by simpa [row, newRow] using ⟨ha, hn⟩)
  case case12 => exact .refresh
  case case13 gone => exact .vanished (by simpa using gone)
  case case14 => exact .request
  case case15 => exact .refuse
  case case16 => exact .made
  case case17 => exact .lostMade
  case case18 => exact .fail
  case case19 => exact .fail
  case case21 unlocked => exact .finish unlocked
  case case23 unlocked => exact .mark unlocked
  case case27 => exact .crash
  all_goals exact .quit rfl

/-! ## start and stop -/

inductive Verb where
  | start
  | stop
  deriving DecidableEq, Repr

def Verb.text : Verb → String
  | .start => "start"
  | .stop => "stop"

/-- `TRANSITIONS[action].get(status)`. -/
def transitions : Verb → Status → Option Status
  | .start, .stopped => some .running
  | .stop, .running => some .stopped
  | _, _ => none

/-- The state `start_container` and `stop_container` bring a container to. -/
def Verb.containerState : Verb → ContainerState
  | .start => .running
  | .stop => .exited

inductive Transition where
  | start (verb : Verb) (id : Nat)
  | requested (verb : Verb) (env : Environment) (target : Status)
  | answered (env : Environment) (status : Status) (message : String) (result : Result)
  | done (result : Result)
  deriving DecidableEq, Repr

def transitionFailure (verb : Verb) (message : String) : String :=
  verb.text ++ " container failed: " ++ message

def Transition.fail (verb : Verb) (env : Environment) (message : String) : Transition :=
  .answered env .error (transitionFailure verb message)
    (.apiError 502 (transitionFailure verb message))

def transitionStep (w : World) : Transition → Input → Option (Effect × Transition)
  | .start verb id, .run _ =>
    match w.find id with
    | none => some (.none, .done (.apiError 404 "environment not found"))
    | some env =>
      match transitions verb env.status with
      | none => some (.none, .done (.apiError 409
          ("cannot " ++ verb.text ++ " an environment that is " ++ env.status.text)))
      | some target =>
        if env.agentId ∈ w.clients then some (.none, .requested verb env target)
        else some (.none, .done (.apiError 502 noClient))
  | .requested verb env target, .ok =>
    some (.setContainer env.agentId env.containerId verb.containerState,
      .answered env target "" .ok)
  | .requested verb env _, .lost message =>
    some (.setContainer env.agentId env.containerId verb.containerState,
      Transition.fail verb env message)
  | .requested verb env _, .notFound message => some (.none, Transition.fail verb env message)
  | .requested verb env _, .error message => some (.none, Transition.fail verb env message)
  | .answered env status message result, .run _ =>
    if env.id ∈ w.locks then none else some (.setStatus env.id status message, .done result)
  | .done _, _ => none
  | _, .crash => some (.none, .done .crashed)
  | _, _ => none

theorem transitions_ne_creating {verb : Verb} {status target : Status}
    (h : transitions verb status = some target) : status ≠ .creating := by
  rintro rfl
  cases verb <;> cases h

inductive TransitionRule (w : World) : Transition → Input → Effect → Transition → Prop where
  | quit {verb : Verb} {id : Nat} {i : Input} {r : Result} :
      TransitionRule w (.start verb id) i .none (.done r)
  | request {verb : Verb} {id : Nat} {clock : Int} {env : Environment} {target : Status}
      (found : w.find id = some env) (legal : transitions verb env.status = some target) :
      TransitionRule w (.start verb id) (.run clock) .none (.requested verb env target)
  | act {verb : Verb} {env : Environment} {target : Status} :
      TransitionRule w (.requested verb env target) .ok
        (.setContainer env.agentId env.containerId verb.containerState)
        (.answered env target "" .ok)
  | lost {verb : Verb} {env : Environment} {target : Status} {message : String} :
      TransitionRule w (.requested verb env target) (.lost message)
        (.setContainer env.agentId env.containerId verb.containerState)
        (Transition.fail verb env message)
  | fail {verb : Verb} {env : Environment} {target : Status} {i : Input} {message : String} :
      TransitionRule w (.requested verb env target) i .none (Transition.fail verb env message)
  | write {env : Environment} {status : Status} {message : String} {result : Result} {clock : Int}
      (unlocked : env.id ∉ w.locks) :
      TransitionRule w (.answered env status message result) (.run clock)
        (.setStatus env.id status message) (.done result)
  | crash {p : Transition} : TransitionRule w p .crash .none (.done .crashed)

theorem transitionStep_rule {w : World} {p p' : Transition} {i : Input} {e : Effect} :
    transitionStep w p i = some (e, p') → TransitionRule w p i e p' := by
  fun_cases transitionStep w p i <;> intro h <;> cases h
  case case3 found target legal _ => exact .request found legal
  case case5 => exact .act
  case case6 => exact .lost
  case case7 => exact .fail
  case case8 => exact .fail
  case case10 unlocked => exact .write unlocked
  case case12 => exact .crash
  all_goals exact .quit

/-! ## remove -/

inductive Remove where
  | start (id : Nat)
  | requested (env : Environment)
  | marking (env : Environment) (message : String)
  | deleting (env : Environment)
  | done (result : Result)
  deriving DecidableEq, Repr

def removeFailure (message : String) : String := "remove container failed: " ++ message

/-- After a `BonnieError` that is not not-found. -/
def Remove.fail (env : Environment) (message : String) : Remove :=
  if env.statusMessage ≠ containerMissing then .marking env (removeFailure message)
  else .deleting env

def removeStep (w : World) : Remove → Input → Option (Effect × Remove)
  | .start id, .run clock =>
    match w.find id with
    | none => some (.none, .done (.apiError 404 "environment not found"))
    | some env =>
      if young env clock then
        some (.none, .done (.apiError 409 "environment is still being created"))
      else if env.containerId = "" then some (.none, .deleting env)
      else if env.agentId ∈ w.clients then some (.none, .requested env)
      else some (.none, .done (.apiError 502 noClient))
  | .requested env, .ok => some (.removeContainer env.agentId env.containerId, .deleting env)
  -- already gone counts as success
  | .requested env, .notFound _ =>
    some (.removeContainer env.agentId env.containerId, .deleting env)
  | .requested env, .error message => some (.none, Remove.fail env message)
  | .requested env, .lost message =>
    some (.removeContainer env.agentId env.containerId, Remove.fail env message)
  | .marking env message, .run _ =>
    if env.id ∈ w.locks then none
    else some (.setStatus env.id .error message, .done (.apiError 502 message))
  -- the ORM only warns when the row is gone already
  | .deleting env, .run _ =>
    if env.id ∈ w.locks then none else some (.deleteRow env.id, .done .ok)
  | .done _, _ => none
  | _, .crash => some (.none, .done .crashed)
  | _, _ => none

inductive RemoveRule (w : World) : Remove → Input → Effect → Remove → Prop where
  | quit {id : Nat} {i : Input} {r : Result} (refused : r ≠ .ok) :
      RemoveRule w (.start id) i .none (.done r)
  | request {id : Nat} {clock : Int} {env : Environment} (found : w.find id = some env)
      (settled : young env clock = false) (container : env.containerId ≠ "") :
      RemoveRule w (.start id) (.run clock) .none (.requested env)
  | bare {id : Nat} {clock : Int} {env : Environment} (found : w.find id = some env)
      (settled : young env clock = false) (container : env.containerId = "") :
      RemoveRule w (.start id) (.run clock) .none (.deleting env)
  | removed {env : Environment} {i : Input} :
      RemoveRule w (.requested env) i (.removeContainer env.agentId env.containerId)
        (.deleting env)
  | lost {env : Environment} {message : String} :
      RemoveRule w (.requested env) (.lost message)
        (.removeContainer env.agentId env.containerId) (Remove.fail env message)
  | fail {env : Environment} {message : String} :
      RemoveRule w (.requested env) (.error message) .none (Remove.fail env message)
  | mark {env : Environment} {message : String} {clock : Int} (unlocked : env.id ∉ w.locks) :
      RemoveRule w (.marking env message) (.run clock) (.setStatus env.id .error message)
        (.done (.apiError 502 message))
  | delete {env : Environment} {clock : Int} (unlocked : env.id ∉ w.locks) :
      RemoveRule w (.deleting env) (.run clock) (.deleteRow env.id) (.done .ok)
  | crash {p : Remove} : RemoveRule w p .crash .none (.done .crashed)

theorem removeStep_rule {w : World} {p p' : Remove} {i : Input} {e : Effect} :
    removeStep w p i = some (e, p') → RemoveRule w p i e p' := by
  fun_cases removeStep w p i <;> intro h <;> cases h
  case case3 found settled container => exact .bare found (by simpa using settled) container
  case case4 found settled container _ =>
    exact .request found (by simpa using settled) container
  case case6 => exact .removed
  case case7 => exact .removed
  case case8 => exact .fail
  case case9 => exact .lost
  case case11 unlocked => exact .mark unlocked
  case case13 unlocked => exact .delete unlocked
  case case15 => exact .crash
  all_goals exact .quit (by simp)

/-- A remove answers success only by deleting the row it read. -/
theorem RemoveRule.done_ok {w : World} {p p' : Remove} {i : Input} {e : Effect}
    (h : RemoveRule w p i e p') (hp : p' = .done .ok) :
    ∃ env, p = .deleting env ∧ e = .deleteRow env.id := by
  have fail (env : Environment) (message : String) : Remove.fail env message ≠ .done .ok := by
    unfold Remove.fail
    split <;> exact nofun
  cases h
  case quit refused => exact absurd (Remove.done.inj hp) refused
  case delete env _ _ => exact ⟨env, rfl, rfl⟩
  case lost => exact absurd hp (fail _ _)
  case fail => exact absurd hp (fail _ _)
  all_goals cases hp

/-! ## reconcile_agent, as `reconcile_once` calls it -/

/-- `_observed`. -/
def observed : Option ContainerInfo → Status × String
  | none => (.error, containerMissing)
  | some container => if container.state = .running then (.running, "") else (.stopped, "")

/-- The loop body: what the pass assigns to one row, `none` where it leaves it alone. -/
def reconcileRow (clock : Int) (containers : List ContainerInfo) (env : Environment) :
    Option Environment :=
  if env.status = .creating then
    if age env clock < createGrace then none
    else
      match Python.dictGet ContainerInfo.name containers env.name with
      | none => some { env with status := .error, statusMessage := createNeverCompleted }
      | some container => some
          { env with
            containerId := container.id
            status := (observed (some container)).1
            statusMessage := (observed (some container)).2 }
  else if env.containerId = "" then none
  else
    let seen := observed (Python.dictGet ContainerInfo.id containers env.containerId)
    if env.status ≠ seen.1 ∨ env.statusMessage ≠ seen.2 then
      some { env with status := seen.1, statusMessage := seen.2 }
    else none

theorem observed_ne_creating (container : Option ContainerInfo) :
    (observed container).1 ≠ .creating := by
  cases container with
  | none => decide
  | some container =>
    simp only [observed]
    split <;> decide

theorem observed_missing {container : Option ContainerInfo}
    (h : (observed container).2 = containerMissing) : container = none := by
  cases container with
  | none => rfl
  | some container =>
    simp only [observed] at h
    split at h <;> exact absurd h (by decide)

/-- The three ways the loop body assigns to a row. -/
inductive ReconcileRule (clock : Int) (containers : List ContainerInfo) (env : Environment) :
    Environment → Prop where
  | abandon (creating : env.status = .creating) (old : createGrace ≤ age env clock)
      (none : ∀ c ∈ containers, c.name ≠ env.name) :
      ReconcileRule clock containers env
        { env with status := .error, statusMessage := createNeverCompleted }
  | adopt {container : ContainerInfo} (creating : env.status = .creating)
      (old : createGrace ≤ age env clock) (listed : container ∈ containers)
      (named : container.name = env.name) :
      ReconcileRule clock containers env
        { env with
          containerId := container.id
          status := (observed (some container)).1
          statusMessage := (observed (some container)).2 }
  | observe (settled : env.status ≠ .creating) (container : env.containerId ≠ "") :
      ReconcileRule clock containers env
        { env with
          status := (observed (Python.dictGet ContainerInfo.id containers env.containerId)).1
          statusMessage :=
            (observed (Python.dictGet ContainerInfo.id containers env.containerId)).2 }

theorem reconcileRow_rule {clock : Int} {containers : List ContainerInfo} {env new : Environment} :
    reconcileRow clock containers env = some new → ReconcileRule clock containers env new := by
  fun_cases reconcileRow clock containers env <;> intro h <;> cases h
  case case2 creating old none =>
    exact .abandon creating (Int.not_lt.mp old) fun c hc => Python.not_mem_of_dictGet none hc
  case case3 creating old container found =>
    obtain ⟨listed, named⟩ := Python.mem_of_dictGet found
    exact .adopt creating (Int.not_lt.mp old) listed named
  case case5 settled container _ _ => exact .observe settled container

theorem reconcileRow_settled {clock : Int} {containers : List ContainerInfo}
    {env new : Environment} (h : reconcileRow clock containers env = some new) :
    young env clock = false := by
  refine decide_eq_false fun hy => ?_
  simp [reconcileRow, hy.1, hy.2] at h

def reconcileChanges (clock : Int) (containers : List ContainerInfo) (rows : List Environment) :
    List Change :=
  rows.filterMap fun env => (reconcileRow clock containers env).map fun new => ⟨env, new⟩

inductive Pass where
  | start (agentId : AgentId)
  | listed (agentId : AgentId) (containers : List ContainerInfo)
  | loaded (agentId : AgentId) (changes : List Change)
  | done (result : Result) (changed : Nat)
  deriving DecidableEq, Repr

def passStep (w : World) : Pass → Input → Option (Effect × Pass)
  | .start agentId, .run _ =>
    if agentId ∈ w.clients then none else some (.none, .done .ok 0)
  | .start agentId, .listed containers =>
    if agentId ∈ w.clients then some (.none, .listed agentId containers) else none
  | .start _, .notFound _ => some (.none, .done .exception 0)
  | .start _, .error _ => some (.none, .done .exception 0)
  | .listed agentId containers, .run clock =>
    let changes := reconcileChanges clock containers
      (w.envs.filter fun r => decide (r.agentId = agentId))
    if changes = [] then some (.none, .done .ok 0) else some (.none, .loaded agentId changes)
  | .loaded _ changes, .flush strict =>
    if changes.any fun c => decide (c.loaded.id ∈ w.locks) then none
    else if strict && changes.any fun c => (w.find c.loaded.id).isNone then
      some (.none, .done .exception 0)
    else some (.flush changes, .done .ok changes.length)
  | .done _ _, _ => none
  | _, .crash => some (.none, .done .crashed 0)
  | _, _ => none

inductive PassRule (w : World) : Pass → Input → Effect → Pass → Prop where
  | quit {agentId : AgentId} {i : Input} {r : Result} :
      PassRule w (.start agentId) i .none (.done r 0)
  | list {agentId : AgentId} {containers : List ContainerInfo} :
      PassRule w (.start agentId) (.listed containers) .none (.listed agentId containers)
  | idle {agentId : AgentId} {containers : List ContainerInfo} {clock : Int} :
      PassRule w (.listed agentId containers) (.run clock) .none (.done .ok 0)
  | load {agentId : AgentId} {containers : List ContainerInfo} {clock : Int} :
      PassRule w (.listed agentId containers) (.run clock) .none
        (.loaded agentId (reconcileChanges clock containers
          (w.envs.filter fun r => decide (r.agentId = agentId))))
  | stale {agentId : AgentId} {changes : List Change} {strict : Bool} :
      PassRule w (.loaded agentId changes) (.flush strict) .none (.done .exception 0)
  | flush {agentId : AgentId} {changes : List Change} {strict : Bool}
      (unlocked : ∀ c ∈ changes, c.loaded.id ∉ w.locks) :
      PassRule w (.loaded agentId changes) (.flush strict) (.flush changes)
        (.done .ok changes.length)
  | crash {p : Pass} : PassRule w p .crash .none (.done .crashed 0)

theorem passStep_rule {w : World} {p p' : Pass} {i : Input} {e : Effect} :
    passStep w p i = some (e, p') → PassRule w p i e p' := by
  fun_cases passStep w p i <;> intro h <;> cases h
  case case3 => exact .list
  case case7 => exact .idle
  case case8 => exact .load
  case case10 => exact .stale
  case case11 unlocked _ => exact .flush (by simpa using unlocked)
  case case13 => exact .crash
  all_goals exact .quit

/-- A row the pass assigns to is a row it loaded, with the change the loop body made. -/
theorem mem_reconcileChanges {clock : Int} {containers : List ContainerInfo}
    {rows : List Environment} {c : Change} (h : c ∈ reconcileChanges clock containers rows) :
    c.loaded ∈ rows ∧ reconcileRow clock containers c.loaded = some c.assigned := by
  obtain ⟨env, henv, hc⟩ := List.mem_filterMap.mp h
  obtain ⟨new, hnew, rfl⟩ := Option.map_eq_some_iff.mp hc
  exact ⟨henv, hnew⟩

/-! ## log_lines -/

/-- The container whose log the relay will read, and the lease it must release. -/
structure LogLease where
  agentId : AgentId
  containerId : ContainerId
  lease : Nat
  deriving DecidableEq, Repr

/-- The status code and the text of the `ApiError`, or the lease. The only await is the
read of the row, so this is one step; it writes nothing but the slots. -/
def logLines (w : World) (slots : Sse.StreamSlots) (now : Int) (id : Nat) (clientId : String) :
    Except (Nat × String) LogLease × Sse.StreamSlots :=
  match w.find id with
  | none => (.error (404, "environment not found"), slots)
  | some env =>
    if env.containerId = "" then (.error (409, "environment has no container"), slots)
    else if env.agentId ∈ w.clients then
      match slots.acquire env.agentId clientId now with
      | (.error message, slots) =>
        (.error (429, message ++ "; close another log view first"), slots)
      | (.ok lease, slots) => (.ok ⟨env.agentId, env.containerId, lease⟩, slots)
    else (.error (502, noClient), slots)

/-- A request for a log that raises takes no slot; it may evict expired ones. -/
theorem logLines_error {w : World} {slots slots' : Sse.StreamSlots} {now : Int} {id : Nat}
    {clientId : String} {code : Nat} {message : String}
    (h : logLines w slots now id clientId = (.error (code, message), slots')) :
    (slots' = slots ∨ slots' = slots.evictExpired now) ∧
      (code = 404 ∨ code = 409 ∨ code = 429 ∨ code = 502) := by
  revert h
  fun_cases logLines w slots now id clientId <;> intro h <;> cases h
  case case1 => exact ⟨Or.inl rfl, by simp⟩
  case case2 => exact ⟨Or.inl rfl, by simp⟩
  case case3 refused =>
    rcases Sse.StreamSlots.acquire_cases refused with ⟨_, _, hs⟩ | ⟨hok, _⟩
    · exact ⟨Or.inr hs, by simp⟩
    · cases hok
  case case5 => exact ⟨Or.inl rfl, by simp⟩

theorem logLines_ok {w : World} {slots slots' : Sse.StreamSlots} {now : Int} {id : Nat}
    {clientId : String} {lease : LogLease}
    (h : logLines w slots now id clientId = (.ok lease, slots')) :
    slots.acquire lease.agentId clientId now = (.ok lease.lease, slots') := by
  revert h
  fun_cases logLines w slots now id clientId <;> intro h <;> cases h
  case case4 admitted => exact admitted

/-! ## Only passes say that a container is missing -/

theorem append_ne {s t u : String} (h : ¬ s.toList <+: u.toList) : s ++ t ≠ u := by
  rintro rfl
  exact h ⟨t.toList, (String.toList_append).symm⟩

theorem empty_ne_missing : "" ≠ containerMissing := by decide

theorem createNeverCompleted_ne_missing : createNeverCompleted ≠ containerMissing := by decide

theorem noClient_ne_missing : noClient ≠ containerMissing := by decide

theorem createFailure_ne_missing (message : String) : createFailure message ≠ containerMissing :=
  append_ne (by decide)

theorem removeFailure_ne_missing (message : String) : removeFailure message ≠ containerMissing :=
  append_ne (by decide)

theorem transitionFailure_ne_missing (verb : Verb) (message : String) :
    transitionFailure verb message ≠ containerMissing := by
  unfold transitionFailure
  rw [String.append_assoc]
  exact append_ne (by cases verb <;> decide)

end Karr
