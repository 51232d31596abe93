import Karr.Lib.Solo
import Karr.Services.Registrations

/-!
# AgentService.create

The insert of the agent is a transaction of its own; the registry is told after
it. To the registrations it is an effect from outside.
-/

set_option autoImplicit false

namespace Karr.Registrations

open Interleaving

/-- The body of `POST /api/v1/agents`. -/
structure AgentCreate where
  name : String
  url : String
  token : String := ""
  deriving DecidableEq, Repr

inductive CreateAgent where
  | start (body : AgentCreate)
  /-- Before the commit: the name and the URL as they will be stored. -/
  | added (name url token : String)
  | committed (agent : Agent)
  | refreshed (agent : Agent)
  | done (reply : Reply)
  deriving DecidableEq, Repr

variable (s : Settings)

def createAgentStep (db : Db) : CreateAgent → Input → Option (Effect × CreateAgent)
  | .start body, .run _ =>
    if Python.strip body.name = "" then some (.none, .done (.apiError 422 "name is required"))
    else
      match s.validateAgentUrl body.url with
      | .invalid message => some (.none, .done (.apiError 422 message))
      | .raised => some (.none, .done .exception)
      | .valid url => some (.none, .added (Python.strip body.name) url body.token)
  | .added name url token, .run _ =>
    if db.agents.any fun a => decide (a.name = name) then
      some (.none, .done (.apiError 409 "agent name already exists"))
    else if name ∈ db.names then none
    else some (.addAgent name url (s.encrypt token),
      .committed ⟨db.nextAgent, name, url, s.encrypt token, .offline⟩)
  | .committed agent, .run _ =>
    if db.agents.any fun a => decide (a.id = agent.id) then some (.none, .refreshed agent)
    else some (.none, .done .exception)
  | .refreshed _, .run _ => some (.none, .done .ok)
  -- `AgentRegistry.upsert` raises: nothing catches it
  | .refreshed _, .raise => some (.none, .done .exception)
  | .done _, _ => none
  | _, .crash => some (.none, .done .crashed)
  | _, _ => none

def agentService : Interleaving.System Db CreateAgent Input Effect where
  step := createAgentStep s
  apply := Db.apply
  fresh
    | .start _ => true
    | _ => false
  outside := Effect.outside

/-- What a create does to the tables other calls of the service see as coming from outside. -/
theorem createAgent_outside {db : Db} {p p' : CreateAgent} {i : Input} {e : Effect} :
    (agentService s).step db p i = some (e, p') → e = .none ∨ (service s).outside e = true := by
  change createAgentStep s db p i = _ → _
  fun_cases createAgentStep s db p i <;> intro h <;> cases h
  case case7 => exact Or.inr rfl
  all_goals exact Or.inl rfl

/-- The outcome of the upsert, which is the last step. -/
def upserted (clock : Int) (upsert : Bool) : CreateAgent → Input
  | .refreshed _ => if upsert then .run clock else .raise
  | _ => .run clock

/-- `create` with nothing else going on. -/
def createAlone (body : AgentCreate) (clock : Int) (upsert : Bool) (db : Db) : Db × CreateAgent :=
  (agentService s).drive (upserted clock upsert) 4 db (.start body)

/-- Nothing stops the call before its commit. -/
structure Creatable (db : Db) (body : AgentCreate) (url : String) : Prop where
  named : Python.strip body.name ≠ ""
  url : s.validateAgentUrl body.url = .valid url
  unused : ∀ a ∈ db.agents, a.name ≠ Python.strip body.name

section Alone
variable {s} {db : Db} {body : AgentCreate} {url : String}

theorem start_valid (db : Db) (clock : Int) (upsert : Bool)
    (named : Python.strip body.name ≠ "") (valid : s.validateAgentUrl body.url = .valid url) :
    (agentService s).step db (.start body) (upserted clock upsert (.start body)) =
      some (.none, .added (Python.strip body.name) url body.token) := by
  simp only [agentService, createAgentStep, upserted, if_neg named, valid]

/-- The agent is stored whatever the registry does, and the call answers what that does. -/
theorem createAlone_creatable (clock : Int) (upsert : Bool) (free : db.names = [])
    (ok : Creatable s db body url) :
    createAlone s body clock upsert db =
      (db.apply (.addAgent (Python.strip body.name) url (s.encrypt body.token)),
        .done (if upsert then .ok else .exception)) := by
  have unused : (db.agents.any fun a => decide (a.name = Python.strip body.name)) = false :=
    List.any_eq_false.mpr fun a ha => by simpa using ok.unused a ha
  have commit : (agentService s).step db (.added (Python.strip body.name) url body.token)
      (upserted clock upsert (.added (Python.strip body.name) url body.token)) =
      some (.addAgent (Python.strip body.name) url (s.encrypt body.token),
        .committed ⟨db.nextAgent, Python.strip body.name, url, s.encrypt body.token, .offline⟩) := by
    simp [agentService, createAgentStep, upserted, unused, free]
  have refresh (agent : Agent) (h : agent.id = db.nextAgent) :
      (agentService s).step
          (db.apply (.addAgent (Python.strip body.name) url (s.encrypt body.token)))
          (.committed agent) (upserted clock upsert (.committed agent)) =
        some (.none, .refreshed agent) := by
    simp [agentService, createAgentStep, upserted, Db.apply, h]
  have start := start_valid db clock upsert ok.named ok.url
  unfold createAlone
  rw [System.drive_step 3 start]
  change (agentService s).drive _ 3 db _ = _
  rw [System.drive_step 2 commit]
  change (agentService s).drive _ 2
    (db.apply (.addAgent (Python.strip body.name) url (s.encrypt body.token))) _ = _
  rw [System.drive_step 1 (refresh _ rfl)]
  cases upsert <;> rfl

theorem createAlone_taken (clock : Int) (upsert : Bool) (named : Python.strip body.name ≠ "")
    (valid : s.validateAgentUrl body.url = .valid url)
    (taken : ∃ a ∈ db.agents, a.name = Python.strip body.name) :
    createAlone s body clock upsert db =
      (db, .done (.apiError 409 "agent name already exists")) := by
  have taken : (db.agents.any fun a => decide (a.name = Python.strip body.name)) = true := by
    simpa using taken
  have refused : (agentService s).step db (.added (Python.strip body.name) url body.token)
      (upserted clock upsert (.added (Python.strip body.name) url body.token)) =
      some (.none, .done (.apiError 409 "agent name already exists")) := by
    simp only [agentService, createAgentStep, upserted, if_pos taken]
  have start := start_valid db clock upsert named valid
  unfold createAlone
  rw [System.drive_step 3 start]
  change (agentService s).drive _ 3 db _ = _
  rw [System.drive_step 2 refused, System.drive_stop 2 rfl]
  rfl

/-- It commits, or it refuses and the tables are as they were. -/
theorem createAlone_cases (s : Settings) (body : AgentCreate) (clock : Int) (upsert : Bool)
    (free : db.names = []) :
    (∃ url, Creatable s db body url ∧ createAlone s body clock upsert db =
        (db.apply (.addAgent (Python.strip body.name) url (s.encrypt body.token)),
          .done (if upsert then .ok else .exception))) ∨
      ((∀ url, ¬ Creatable s db body url) ∧ ∃ reply, reply ≠ .ok ∧
        createAlone s body clock upsert db = (db, .done reply)) := by
  have refused {reply : Reply} (step : (agentService s).step db (.start body)
      (upserted clock upsert (.start body)) = some (.none, .done reply)) :
      createAlone s body clock upsert db = (db, .done reply) := by
    unfold createAlone
    rw [System.drive_step 3 step, System.drive_stop 3 rfl]
    rfl
  by_cases named : Python.strip body.name = ""
  · refine Or.inr ⟨fun url ok => ok.named named, .apiError 422 "name is required",
      Reply.noConfusion, refused ?_⟩
    simp only [agentService, createAgentStep, upserted, if_pos named]
  · cases valid : s.validateAgentUrl body.url with
    | valid url =>
      by_cases taken : ∃ a ∈ db.agents, a.name = Python.strip body.name
      · have refused := createAlone_taken clock upsert named valid taken
        refine Or.inr ⟨fun _ ok => ?_, _, Reply.noConfusion, refused⟩
        obtain ⟨a, ha, same⟩ := taken
        exact ok.unused a ha same
      · push Not at taken
        have ok : Creatable s db body url := ⟨named, valid, taken⟩
        exact Or.inl ⟨url, ok, createAlone_creatable clock upsert free ok⟩
    | invalid message =>
      refine Or.inr ⟨fun url ok => ?_, .apiError 422 message, Reply.noConfusion, refused ?_⟩
      · cases valid.symm.trans ok.url
      · simp only [agentService, createAgentStep, upserted, if_neg named, valid]
    | raised =>
      refine Or.inr ⟨fun url ok => ?_, .exception, Reply.noConfusion, refused ?_⟩
      · cases valid.symm.trans ok.url
      · simp only [agentService, createAgentStep, upserted, if_neg named, valid]

/-- The registry failed, so the caller tries again: the name is taken, by the first try. -/
theorem createAlone_again (clock : Int) (upsert : Bool) (free : db.names = [])
    (ok : Creatable s db body url) :
    (createAlone s body clock upsert (createAlone s body clock false db).1).2 =
      .done (.apiError 409 "agent name already exists") := by
  rw [createAlone_creatable clock false free ok, createAlone_taken clock upsert ok.named ok.url]
  exact ⟨_, List.mem_append_right _ (List.mem_singleton_self _), rfl⟩

end Alone

end Karr.Registrations
