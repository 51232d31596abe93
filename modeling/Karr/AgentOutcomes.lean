import Karr.ForcedDelete
import Karr.Registering
import Karr.Services.AgentCreate

/-!
# What the caller of an agent operation is told

Three operations commit and then tell the registry. `register` says what the
database says, whatever the registry does; `create` and `delete` let a failure of
the registry through, after the commit.
-/

set_option autoImplicit false

namespace Karr

open Registrations Interleaving

structure Tables where
  agents : List Registrations.Agent
  environments : List Environment
  registrations : List Registration
  deriving DecidableEq, Repr

/-- The database at a moment when no transaction is open, as the two services see it. -/
structure Store where
  db : Db
  world : World
  agents : world.agents = db.agents.map Registrations.Agent.id
  ids : ∀ r ∈ world.envs, ∀ t ∈ world.envs, r.id = t.id → r = t
  fresh : ∀ a ∈ db.agents, a.id ≠ db.nextAgent
  locks : world.locks = [] ∧ db.locks = []
  agentLocks : world.agentLocks = [] ∧ db.names = []

def Store.tables (st : Store) : Tables := ⟨st.db.agents, st.world.envs, st.db.registrations⟩

inductive AgentRequest where
  | create (body : AgentCreate)
  | register (request : RegisterRequest)
  | delete (agentId : AgentId) (force : Bool)
  deriving DecidableEq, Repr

/-- The answers from outside: the clock, BONNIE's, and whether the call of the registry returns. -/
structure Outside where
  clock : Int
  bonnie : ContainerId → Answer
  registry : Bool

/-- What the caller sees. -/
inductive Ending where
  | returned
  | raised
  deriving DecidableEq, Repr

def Registrations.CreateAgent.ending : CreateAgent → Option Ending
  | .done reply => some (if reply = .ok then .returned else .raised)
  | _ => none

def Registrations.Call.ending : Registrations.Call → Option Ending
  | .register (.done reply) => some (if reply = .ok then .returned else .raised)
  | _ => none

def Call.ending (c : Call) : Option Ending :=
  c.result.map fun r => if r = .ok then .returned else .raised

/-- What the delete of the agent has made of the rows of the other service. -/
def Store.deleted (st : Store) (agentId : AgentId) (w : World) : Db :=
  if agentId ∈ st.world.agents ∧ agentId ∉ w.agents then st.db.apply (.deleteAgent agentId)
  else st.db

/-- The operation with nothing else going on: the tables it leaves, and how it ends. -/
def AgentRequest.run (s : Settings) (o : Outside) (st : Store) : AgentRequest → Tables × Option Ending
  | .create body =>
    let r := createAlone s body o.clock o.registry st.db
    (⟨r.1.agents, st.world.envs, r.1.registrations⟩, r.2.ending)
  | .register request =>
    let r := registerAlone s request o.clock o.registry st.db
    (⟨r.1.agents, st.world.envs, r.1.registrations⟩, r.2.ending)
  | .delete agentId force =>
    let r := deleteRun o.bonnie o.clock o.registry force agentId st.world
    let db := st.deleted agentId r.1
    (⟨db.agents, r.1.envs, db.registrations⟩, r.2.ending)

/-- The change the operation is asked for. -/
inductive AgentRequest.Changes (s : Settings) (clock : Int) (before : Tables) :
    AgentRequest → Tables → Prop where
  | create {body : AgentCreate} {agent : Registrations.Agent}
      (name : agent.name = Python.strip body.name)
      (url : s.validateAgentUrl body.url = .valid agent.url)
      (token : agent.tokenEncrypted = s.encrypt body.token)
      (fresh : ∀ a ∈ before.agents, a.id ≠ agent.id) :
      Changes s clock before (.create body) { before with agents := before.agents ++ [agent] }
  | register {request : RegisterRequest} {row : Registration} {agent : Registrations.Agent}
      (found : row ∈ before.registrations) (token : row.tokenHash = s.hash request.token)
      (pending : row.status = .pending)
      (name : agent.name = if row.label = "" then request.host else row.label)
      (url : s.validateAgentUrl ("http://" ++ request.host ++ ":" ++ toString request.port) =
        .valid agent.url)
      (encrypted : agent.tokenEncrypted = s.encrypt request.authToken)
      (fresh : ∀ a ∈ before.agents, a.id ≠ agent.id) :
      Changes s clock before (.register request) { before with
        agents := before.agents ++ [agent]
        registrations := before.registrations.map fun r =>
          if r.id = row.id then
            { r with status := .claimed, claimedAt := some clock, agentId := some agent.id }
          else r }
  | delete {agentId : AgentId} {force : Bool} (known : ∃ a ∈ before.agents, a.id = agentId) :
      Changes s clock before (.delete agentId force) {
        agents := before.agents.filter fun a => decide (a.id ≠ agentId)
        environments := before.environments.filter fun r => decide (r.agentId ≠ agentId)
        registrations := before.registrations.map fun r =>
          if r.agentId = some agentId then { r with agentId := none } else r }

/-- Returns with its change committed, or raises with the tables as they were. -/
def Atomic (s : Settings) (o : Outside) (st : Store) (q : AgentRequest) : Prop :=
  (q.run s o st).2 = some .returned ∧ q.Changes s o.clock st.tables (q.run s o st).1 ∨
    (q.run s o st).2 = some .raised ∧ (q.run s o st).1 = st.tables

/-- The call gets to the registry, past its commit, and does not catch what that raises. -/
inductive AgentRequest.Exposed (s : Settings) (o : Outside) (st : Store) : AgentRequest → Prop where
  | create {body : AgentCreate} {url : String} (ok : Creatable s st.db body url) :
      Exposed s o st (.create body)
  | delete {agentId : AgentId} {force : Bool} (go : Proceeds o.bonnie st.world agentId force) :
      Exposed s o st (.delete agentId force)

section Outcomes
variable {s : Settings} {o : Outside} {st : Store}

theorem AgentRequest.Changes.ne {q : AgentRequest} {clock : Int} {before after : Tables}
    (h : q.Changes s clock before after) : after.agents ≠ before.agents := by
  cases h with
  | create => simp
  | register => simp
  | delete known =>
    obtain ⟨a, ha, hid⟩ := known
    intro same
    rw [← same] at ha
    exact of_decide_eq_true (List.mem_filter.mp ha).2 hid

theorem create_ends (s : Settings) (o : Outside) (st : Store) (body : AgentCreate) :
    ((∃ url, Creatable s st.db body url) ∧
        (AgentRequest.create body).Changes s o.clock st.tables
          ((AgentRequest.create body).run s o st).1 ∧
        ((AgentRequest.create body).run s o st).2 =
          some (if o.registry then .returned else .raised)) ∨
      ((∀ url, ¬ Creatable s st.db body url) ∧
        (AgentRequest.create body).run s o st = (st.tables, some .raised)) := by
  simp only [AgentRequest.run]
  rcases createAlone_cases s body o.clock o.registry st.agentLocks.2 with
    ⟨url, ok, run⟩ | ⟨no, reply, hreply, run⟩
  · rw [run]
    refine Or.inl ⟨⟨url, ok⟩, ?_, ?_⟩
    · exact .create rfl ok.url rfl st.fresh
    · cases o.registry <;> rfl
  · rw [run]
    refine Or.inr ⟨no, ?_⟩
    simp only [Registrations.CreateAgent.ending, if_neg hreply]
    rfl

theorem register_ends (s : Settings) (o : Outside) (st : Store) (request : RegisterRequest) :
    Atomic s o st (.register request) := by
  simp only [Atomic, AgentRequest.run]
  rcases registerAlone_cases s st.db request o.clock o.registry st.locks.2 st.agentLocks.2 with
    ⟨row, url, found, valid, run⟩ | ⟨reply, hreply, run⟩
  · rw [run]
    refine Or.inl ⟨rfl, ?_⟩
    have claimable : row.claimable (s.hash request.token) st.db.now = true :=
      List.find?_some found
    obtain ⟨token, pending, _⟩ := of_decide_eq_true claimable
    simp only [committed_agents, committed_registrations]
    exact .register (List.mem_of_find?_eq_some found) token pending rfl valid rfl st.fresh
  · rw [run]
    refine Or.inr ⟨?_, rfl⟩
    simp only [Registrations.Call.ending, if_neg hreply]

theorem delete_ends (s : Settings) (o : Outside) (st : Store) (agentId : AgentId)
    (force : Bool) :
    (Proceeds o.bonnie st.world agentId force ∧
        (AgentRequest.delete agentId force).Changes s o.clock st.tables
          ((AgentRequest.delete agentId force).run s o st).1 ∧
        ((AgentRequest.delete agentId force).run s o st).2 =
          some (if o.registry then .returned else .raised)) ∨
      (¬ Proceeds o.bonnie st.world agentId force ∧
        (AgentRequest.delete agentId force).run s o st = (st.tables, some .raised)) := by
  simp only [AgentRequest.run]
  rcases deleteRun_cases o.bonnie o.clock o.registry force agentId st.ids st.locks.1
    st.agentLocks.1 with ⟨go, w, run, dropped⟩ | ⟨stop, host, statusCode, message, run⟩
  · rw [run]
    have gone : st.deleted agentId w = st.db.apply (.deleteAgent agentId) := by
      refine if_pos ⟨go.known, ?_⟩
      rw [dropped.agents]
      simp
    have known : ∃ a ∈ st.db.agents, a.id = agentId := by
      have := go.known
      rwa [st.agents, List.mem_map] at this
    refine Or.inl ⟨go, ?_, ?_⟩
    · simp only [gone, dropped.envs]
      exact .delete known
    · cases o.registry <;> rfl
  · rw [run]
    have kept : st.deleted agentId { st.world with host := host } = st.db :=
      if_neg fun h => h.2 h.1
    refine Or.inr ⟨stop, ?_⟩
    simp only [kept]
    rfl

end Outcomes

/-- An operation is atomic towards its caller, except that `create` and `delete` raise
after their commit when the registry does. -/
theorem agentRequest_atomic_iff (s : Settings) (o : Outside) (st : Store) (q : AgentRequest) :
    Atomic s o st q ↔ (q.Exposed s o st → o.registry = true) := by
  -- an operation that changes the tables and raises is not atomic
  have raised (change : q.Changes s o.clock st.tables (q.run s o st).1)
      (ending : (q.run s o st).2 = some (if o.registry then .returned else .raised)) :
      Atomic s o st q ↔ o.registry = true := by
    unfold Atomic
    rw [ending]
    cases o.registry with
    | true => exact iff_of_true (Or.inl ⟨rfl, change⟩) rfl
    | false =>
      refine iff_of_false ?_ Bool.noConfusion
      rintro (⟨h, _⟩ | ⟨_, same⟩)
      · cases h
      · exact change.ne (congrArg Tables.agents same)
  cases q with
  | create body =>
    rcases create_ends s o st body with ⟨⟨url, ok⟩, change, ending⟩ | ⟨no, run⟩
    · rw [raised change ending]
      exact ⟨fun h _ => h, fun h => h (.create ok)⟩
    · refine iff_of_true (Or.inr (by rw [run]; exact ⟨rfl, rfl⟩)) ?_
      rintro ⟨ok⟩
      exact absurd ok (no _)
  | register request =>
    refine iff_of_true (register_ends s o st request) ?_
    intro h
    cases h
  | delete agentId force =>
    rcases delete_ends s o st agentId force with ⟨go, change, ending⟩ | ⟨stop, run⟩
    · rw [raised change ending]
      exact ⟨fun h _ => h, fun h => h (.delete go)⟩
    · refine iff_of_true (Or.inr (by rw [run]; exact ⟨rfl, rfl⟩)) ?_
      intro h
      cases h with
      | delete go => exact absurd go stop

def AgentsAtomic : Prop :=
  ∀ (s : Settings) (o : Outside) (st : Store) (q : AgentRequest), Atomic s o st q

/-- One agent, without environments. -/
def soleAgent : Store where
  db := ⟨0, [], [⟨0, "gpu-1", "http://10.0.0.1:7777", "", .online⟩], 0, 1, [], [], [], []⟩
  world := ⟨0, [0], [], [], 0, [], [], [0], []⟩
  agents := rfl
  ids := by decide
  fresh := by decide
  locks := ⟨rfl, rfl⟩
  agentLocks := ⟨rfl, rfl⟩

/-- The registry raises: a create stores its agent and raises, a delete deletes it and raises. -/
theorem not_agentsAtomic : ¬ AgentsAtomic ∧
    (AgentRequest.create ⟨" gpu-2 ", "http://10.0.0.2:7777", "secret"⟩).run zeroSettings
        ⟨0, fun _ => .ok, false⟩ soleAgent =
      (⟨[⟨0, "gpu-1", "http://10.0.0.1:7777", "", .online⟩,
          ⟨1, "gpu-2", "http://10.0.0.2:7777", "secret", .offline⟩], [], []⟩, some .raised) ∧
    (AgentRequest.delete 0 false).run zeroSettings ⟨0, fun _ => .ok, false⟩ soleAgent =
      (⟨[], [], []⟩, some .raised) := by
  have create : (AgentRequest.create ⟨" gpu-2 ", "http://10.0.0.2:7777", "secret"⟩).run
      zeroSettings ⟨0, fun _ => .ok, false⟩ soleAgent =
        (⟨[⟨0, "gpu-1", "http://10.0.0.1:7777", "", .online⟩,
          ⟨1, "gpu-2", "http://10.0.0.2:7777", "secret", .offline⟩], [], []⟩, some .raised) := by
    decide
  have delete : (AgentRequest.delete 0 false).run zeroSettings ⟨0, fun _ => .ok, false⟩ soleAgent =
      (⟨[], [], []⟩, some .raised) := by decide
  refine ⟨fun atomic => ?_, create, delete⟩
  rcases atomic zeroSettings ⟨0, fun _ => .ok, false⟩ soleAgent (.delete 0 false) with
    ⟨returned, _⟩ | ⟨_, same⟩
  · rw [delete] at returned
    cases returned
  · rw [delete] at same
    cases congrArg Tables.agents same

end Karr
