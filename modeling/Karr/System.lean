import Karr.Lib.Interleaving
import Karr.Services.Agents

/-!
# KARR as interleaved calls

The processes are the calls of the two services and the reconcile passes; the
store is the database, the registry and the hosts.
-/

set_option autoImplicit false

namespace Karr

inductive Call where
  | create (p : Create)
  | transition (p : Transition)
  | remove (p : Remove)
  | pass (p : Pass)
  | delete (p : Delete)
  deriving DecidableEq, Repr

def Call.step (w : World) : Call → Input → Option (Effect × Call)
  | .create p, i => (createStep w p i).map fun r => (r.1, .create r.2)
  | .transition p, i => (transitionStep w p i).map fun r => (r.1, .transition r.2)
  | .remove p, i => (removeStep w p i).map fun r => (r.1, .remove r.2)
  | .pass p, i => (passStep w p i).map fun r => (r.1, .pass r.2)
  | .delete p, i => (deleteStep w p i).map fun r => (r.1, .delete r.2)

def Call.fresh : Call → Bool
  | .create (.start _) => true
  | .transition (.start _ _) => true
  | .remove (.start _) => true
  | .pass (.start _) => true
  | .delete (.start _ _) => true
  | _ => false

def Call.result : Call → Option Result
  | .create (.done r) => some r
  | .transition (.done r) => some r
  | .remove (.done r) => some r
  | .pass (.done r _) => some r
  | .delete (.done r) => some r
  | _ => none

/-- No call is in flight. -/
def Call.finished (c : Call) : Bool := c.result.isSome

abbrev Config := Interleaving.Config World Call
abbrev Action := Interleaving.Action Call Input Effect

def karr : Interleaving.System World Call Input Effect where
  step := Call.step
  apply := World.apply
  fresh := Call.fresh
  outside := Effect.outside

/-- The service at boot over an empty table: any agents, projects and clients,
and hosts that hold only containers KARR did not make. -/
def boot (now : Int) (agents : List AgentId) (projects : List ProjectId)
    (clients : List AgentId) (host : List Container) : Config where
  store := {
    now := now
    agents := agents
    projects := projects
    envs := []
    nextEnv := 0
    locks := []
    agentLocks := []
    clients := clients
    host := host.map fun c => { c with origin := none } }
  procs := []

/-- The changes an action flushes. -/
def flushed (c : Config) : Action → List Change
  | .proc k (.flush _) =>
    match c.procs[k]? with
    | some (.pass (.loaded _ changes)) => changes
    | _ => []
  | _ => []

/-- The call that takes the step. -/
def actor : Action → Option Nat
  | .proc k _ => some k
  | _ => none

/-- No agent is deleted: the calls are those of `EnvironmentService` and the passes. -/
def environmentCall : Action → Bool
  | .spawn (.delete _) => false
  | _ => true

/-- The steps of a create that nothing goes wrong with. -/
def createActions (k : Nat) (body : EnvironmentCreate) (id : ContainerId) : List Action :=
  [.spawn (.create (.start body)), .proc k (.run 0), .proc k (.run 0), .proc k (.run 0),
    .proc k (.run 0), .proc k (.run 0), .proc k (.made id), .proc k (.run 0), .proc k (.run 0)]

inductive CallRule (w : World) : Call → Input → Effect → Call → Prop where
  | create {p p' : Create} {i : Input} {e : Effect} (h : CreateRule w p i e p') :
      CallRule w (.create p) i e (.create p')
  | transition {p p' : Transition} {i : Input} {e : Effect} (h : TransitionRule w p i e p') :
      CallRule w (.transition p) i e (.transition p')
  | remove {p p' : Remove} {i : Input} {e : Effect} (h : RemoveRule w p i e p') :
      CallRule w (.remove p) i e (.remove p')
  | pass {p p' : Pass} {i : Input} {e : Effect} (h : PassRule w p i e p') :
      CallRule w (.pass p) i e (.pass p')
  | delete {p p' : Delete} {i : Input} {e : Effect} (h : DeleteRule w p i e p') :
      CallRule w (.delete p) i e (.delete p')

theorem call_rule {w : World} {p p' : Call} {i : Input} {e : Effect}
    (h : karr.step w p i = some (e, p')) : CallRule w p i e p' := by
  cases p <;> obtain ⟨q, hs, rfl⟩ := Interleaving.step_of_sum h
  · exact .create (createStep_rule hs)
  · exact .transition (transitionStep_rule hs)
  · exact .remove (removeStep_rule hs)
  · exact .pass (passStep_rule hs)
  · exact .delete (deleteStep_rule hs)

theorem remove_done {c c' : Config} {k : Nat} {p : Remove} {i : Input}
    (hp : c.procs[k]? = some (.remove p)) (he : karr.exec c (.proc k i) = some c')
    (hdone : c'.procs[k]? = some (.remove (.done .ok))) :
    ∃ env, p = .deleting env ∧ c'.store = c.store.apply (.deleteRow env.id) := by
  obtain ⟨e, q, hs, rfl⟩ := Interleaving.System.exec_proc hp he
  rw [List.getElem?_set_self (List.getElem?_eq_some_iff.mp hp).1] at hdone
  have answered : q = .remove (.done .ok) := Option.some.inj hdone
  cases call_rule hs with
  | remove hr =>
    obtain ⟨env, rfl, rfl⟩ := hr.done_ok (Call.remove.inj answered)
    exact ⟨env, rfl, rfl⟩

/-- What happens outside the calls leaves status, message and container id alone. -/
theorem outside_frame {e : Effect} (h : karr.outside e = true) :
    (∀ row, e ≠ .insert row) ∧ ∀ r, (e.updateRow r).status = r.status ∧
      (e.updateRow r).statusMessage = r.statusMessage ∧
      (e.updateRow r).containerId = r.containerId := by
  cases e <;> simp_all [karr, Effect.outside, Effect.updateRow]
  intro r
  split <;> simp

theorem outside_drops {e : Effect} (he : karr.outside e = true) (r : Environment) :
    e.drops r = false := by
  cases e <;> first
    | rfl
    | simp [karr, Effect.outside] at he

/-! ## The rows a call knows -/

/-- The row of a create that is still in flight. -/
def Call.row : Call → Option Environment
  | .create p => p.row
  | _ => none

def Transition.held : Transition → List Environment
  | .requested _ env _ => [env]
  | .answered env _ _ _ => [env]
  | _ => []

def Remove.held : Remove → List Environment
  | .requested env => [env]
  | .marking env _ => [env]
  | .deleting env => [env]
  | _ => []

def Pass.held : Pass → List Environment
  | .loaded _ changes => changes.map Change.loaded
  | _ => []

/-- The rows, as it read them, that a call other than a create may still write. -/
def Call.held : Call → List Environment
  | .transition p => p.held
  | .remove p => p.held
  | .pass p => p.held
  | _ => []

@[simp] theorem remove_held_fail (env : Environment) (message : String) :
    (Remove.fail env message).held = [env] := by
  unfold Remove.fail
  split <;> rfl

theorem fresh_row {p : Call} (h : karr.fresh p = true) : p.row = none := by
  cases p with
  | create p => cases p <;> simp_all [karr, Call.fresh, Call.row, Create.row]
  | _ => rfl

theorem fresh_held {p : Call} (h : karr.fresh p = true) : p.held = [] := by
  rcases p with p | p | p | p | p <;> cases p <;>
    simp_all [karr, Call.fresh, Call.held, Transition.held, Remove.held, Pass.held]

/-- A call learns of a row by inserting it or by reading the table. -/
theorem CallRule.row_origin {w : World} {p p' : Call} {i : Input} {e : Effect}
    (h : CallRule w p i e p') {env : Environment} (hr : p'.row = some env) :
    p.row = some env ∨ e = .insert env := by
  cases h with
  | create h =>
    cases h <;> simp_all [Call.row, Create.row]
  | _ => simp [Call.row] at hr

/-- The steps of a create before its last write update no row. -/
theorem CallRule.keeps_row {w : World} {p p' : Call} {i : Input} {e : Effect}
    (h : CallRule w p i e p') {env : Environment} (hr : p'.row = some env) (r : Environment) :
    e.updateRow r = r := by
  cases h with
  | create h =>
    cases h
    case finish => cases hr
    case mark => cases hr
    all_goals rfl
  | _ => cases hr

/-- What a call has read is a row that no guard took for one in flight. -/
theorem CallRule.held_origin {w : World} {p p' : Call} {i : Input} {e : Effect}
    (h : CallRule w p i e p') {env : Environment} (hr : env ∈ p'.held) :
    env ∈ p.held ∨ (env ∈ w.envs ∧ ∃ clock, i = .run clock ∧ young env clock = false) := by
  cases h with
  | create h => simp [Call.held] at hr
  | transition h =>
    simp only [Call.held] at hr ⊢
    cases h
    case request clock _ _ found legal =>
      obtain rfl := List.mem_singleton.mp hr
      refine Or.inr ⟨(World.find_mem found).1, clock, rfl, ?_⟩
      exact decide_eq_false fun h => transitions_ne_creating legal h.1
    case lost => exact Or.inl hr
    case fail => exact Or.inl hr
    all_goals simp_all [Transition.held]
  | remove h =>
    simp only [Call.held] at hr ⊢
    cases h
    case request clock _ found settled _ =>
      obtain rfl := List.mem_singleton.mp hr
      exact Or.inr ⟨(World.find_mem found).1, clock, rfl, settled⟩
    case bare clock _ found settled _ =>
      obtain rfl := List.mem_singleton.mp hr
      exact Or.inr ⟨(World.find_mem found).1, clock, rfl, settled⟩
    case lost =>
      rw [remove_held_fail] at hr
      exact Or.inl hr
    case fail =>
      rw [remove_held_fail] at hr
      exact Or.inl hr
    all_goals simp_all [Remove.held]
  | pass h =>
    simp only [Call.held] at hr ⊢
    cases h
    case load clock =>
      obtain ⟨c, hc, rfl⟩ := List.mem_map.mp hr
      obtain ⟨hm, hrow⟩ := mem_reconcileChanges hc
      exact Or.inr ⟨(List.mem_filter.mp hm).1, clock, rfl, reconcileRow_settled hrow⟩
    all_goals simp_all [Pass.held]
  | delete h => simp [Call.held] at hr

/-- A statement updates only rows its call knows. -/
theorem CallRule.updates_known {w : World} {p p' : Call} {i : Input} {e : Effect}
    (h : CallRule w p i e p') {r : Environment} (owned : ∀ env, p.row = some env → r.id ≠ env.id)
    (held : ∀ env ∈ p.held, r.id ≠ env.id) : e.updateRow r = r := by
  cases h with
  | create h =>
    cases h
    case finish env _ _ _ => exact if_neg (owned env rfl)
    case mark env _ _ _ => exact if_neg (owned env rfl)
    all_goals rfl
  | transition h =>
    cases h
    case write env _ _ _ _ _ => exact if_neg (held env (List.mem_singleton_self env))
    all_goals rfl
  | remove h =>
    cases h
    case mark env _ _ _ => exact if_neg (held env (List.mem_singleton_self env))
    all_goals rfl
  | pass h =>
    cases h
    case flush changes _ _ =>
      have hnone : (changes.find? fun c => decide (c.loaded.id = r.id)) = none := by
        refine List.find?_eq_none.mpr fun c hc => ?_
        simpa using (held c.loaded (List.mem_map.mpr ⟨c, hc, rfl⟩)).symm
      simp only [Effect.updateRow, hnone]
    all_goals rfl
  | delete h => cases h <;> rfl

/-- Outside the delete of an agent, a call drops only the row it holds. -/
theorem CallRule.drops_held {w : World} {p p' : Call} {i : Input} {e : Effect}
    (h : CallRule w p i e p') {r : Environment} (held : ∀ env ∈ p.held, r.id ≠ env.id)
    (notDelete : ∀ d, p ≠ .delete d) : e.drops r = false := by
  cases h with
  | create h => cases h <;> rfl
  | transition h => cases h <;> rfl
  | remove h =>
    cases h
    case delete env _ _ => exact decide_eq_false (held env (List.mem_singleton_self env))
    all_goals rfl
  | pass h => cases h <;> rfl
  | delete h => exact absurd rfl (notDelete _)

/-- A new row gets the next id, and a name its agent has no row for. -/
theorem CallRule.insert_fresh {w : World} {p p' : Call} {i : Input} {row : Environment}
    (h : CallRule w p i (.insert row) p') :
    row.id = w.nextEnv ∧ (∀ r ∈ w.envs, r.agentId = row.agentId → r.name ≠ row.name) ∧
      row.status = .creating ∧ row.containerId = "" ∧ row.statusMessage = "" := by
  rcases h with h | h | h | h | h <;> cases h
  case insert body begun clock unique _ => exact ⟨rfl, unique, rfl, rfl, rfl⟩

end Karr
