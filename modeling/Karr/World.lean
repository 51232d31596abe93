import Karr.Models

/-!
# The store: database, registry and hosts

Every change a service makes is one effect: a committed statement on
`karr_environments`, the locks of the one transaction that stays open over
several statements, a change of the registry, or what a BONNIE request does to
the containers of a host. The last group of effects is what happens outside the
modelled services.
-/

set_option autoImplicit false

namespace Karr

/-- A row a reconcile pass assigned to: the columns it loaded and their new values. -/
structure Change where
  loaded : Environment
  assigned : Environment
  deriving DecidableEq, Repr

/-- The ORM flush writes only the columns whose value differs from the loaded one. -/
def Change.write (c : Change) (row : Environment) : Environment :=
  { row with
    containerId :=
      if c.assigned.containerId = c.loaded.containerId then row.containerId
      else c.assigned.containerId
    status := if c.assigned.status = c.loaded.status then row.status else c.assigned.status
    statusMessage :=
      if c.assigned.statusMessage = c.loaded.statusMessage then row.statusMessage
      else c.assigned.statusMessage }

inductive Effect where
  | none
  | insert (row : Environment)
  /-- `_set_status`: both columns, by id. -/
  | setStatus (id : Nat) (status : Status) (message : String)
  /-- The final update of `create`. -/
  | finish (id : Nat) (containerId : ContainerId)
  | deleteRow (id : Nat)
  | flush (changes : List Change)
  /-- `DELETE` of rows inside a transaction that is still open. -/
  | lockRows (ids : List Nat)
  | lockAgent (agentId : AgentId)
  | rollback (ids : List Nat) (agentIds : List AgentId)
  /-- The commit of that transaction. -/
  | dropAgent (ids : List Nat) (agentId : AgentId)
  | unregister (agentId : AgentId)
  | addContainer (container : Container)
  | setContainer (agentId : AgentId) (id : ContainerId) (state : ContainerState)
  | removeContainer (agentId : AgentId) (id : ContainerId)
  | tick (d : Nat)
  | register (agentId : AgentId)
  | addProject (projectId : ProjectId)
  | deleteProject (projectId : ProjectId)
  deriving DecidableEq, Repr

structure World where
  /-- The database clock. -/
  now : Int
  agents : List AgentId
  projects : List ProjectId
  envs : List Environment
  nextEnv : Nat
  /-- Rows an open transaction has deleted: still visible, but no one can write them. -/
  locks : List Nat
  agentLocks : List AgentId
  /-- The agents the registry has a BONNIE client for. -/
  clients : List AgentId
  host : List Container
  deriving DecidableEq, Repr

/-- What an effect does to a row that is in the table before and after. -/
def Effect.updateRow : Effect → Environment → Environment
  | .setStatus id status message, row =>
    if row.id = id then { row with status := status, statusMessage := message } else row
  | .finish id containerId, row =>
    if row.id = id then
      { row with containerId := containerId, status := .stopped, statusMessage := "" }
    else row
  | .flush changes, row =>
    match changes.find? fun c => decide (c.loaded.id = row.id) with
    | some c => c.write row
    | Option.none => row
  -- ON DELETE SET NULL
  | .deleteProject projectId, row =>
    if row.projectId = some projectId then { row with projectId := Option.none } else row
  | _, row => row

def Effect.drops : Effect → Environment → Bool
  | .deleteRow id, row => decide (row.id = id)
  | .dropAgent ids _, row => decide (row.id ∈ ids)
  | _, _ => false

def Container.update (agentId : AgentId) (id : ContainerId) (state : Option ContainerState)
    (c : Container) : Container :=
  if c.agentId = agentId ∧ c.id = id ∧ c.state ≠ none then { c with state := state } else c

namespace World

def update (w : World) (e : Effect) : World := { w with envs := w.envs.map e.updateRow }
def drop (w : World) (e : Effect) : World :=
  { w with envs := w.envs.filter fun row => !e.drops row }

def apply (w : World) (e : Effect) : World :=
  match e with
  | .none => w
  | .insert row => { w with envs := w.envs ++ [row], nextEnv := w.nextEnv + 1 }
  | .setStatus _ _ _ => w.update e
  | .finish _ _ => w.update e
  | .deleteRow _ => w.drop e
  | .flush _ => w.update e
  | .lockRows ids => { w with locks := w.locks ++ ids }
  | .lockAgent agentId => { w with agentLocks := w.agentLocks ++ [agentId] }
  | .rollback ids agentIds =>
    { w with
      locks := w.locks.filter fun id => decide (id ∉ ids)
      agentLocks := w.agentLocks.filter fun a => decide (a ∉ agentIds) }
  | .dropAgent ids agentId =>
    { w.drop e with
      agents := w.agents.filter fun a => decide (a ≠ agentId)
      locks := w.locks.filter fun id => decide (id ∉ ids)
      agentLocks := w.agentLocks.filter fun a => decide (a ≠ agentId) }
  | .unregister agentId => { w with clients := w.clients.filter fun a => decide (a ≠ agentId) }
  | .addContainer c => { w with host := w.host ++ [c] }
  | .setContainer agentId id state =>
    { w with host := w.host.map (Container.update agentId id (some state)) }
  | .removeContainer agentId id =>
    { w with host := w.host.map (Container.update agentId id Option.none) }
  | .tick d => { w with now := w.now + d }
  | .register agentId => { w with clients := agentId :: w.clients }
  | .addProject projectId => { w with projects := projectId :: w.projects }
  | .deleteProject projectId =>
    { w.update e with projects := w.projects.filter fun p => decide (p ≠ projectId) }

end World

/-- The changes that need no call: time, the registry's reload, other services,
and whatever else happens to the containers of a host. -/
def Effect.outside : Effect → Bool
  | .tick _ => true
  | .register _ => true
  | .unregister _ => true
  | .addProject _ => true
  | .deleteProject _ => true
  | .addContainer c => c.origin.isNone
  | .setContainer _ _ _ => true
  | .removeContainer _ _ => true
  | _ => false

/-! ## Reading the store -/

def World.find (w : World) (id : Nat) : Option Environment :=
  w.envs.find? fun row => decide (row.id = id)

/-- The answer of `list_containers` on a host in this state. -/
def listContainers (agentId : AgentId) (host : List Container) : List ContainerInfo :=
  host.filterMap fun c =>
    if c.agentId = agentId then c.state.map fun state => ⟨c.id, c.name, state⟩ else none

/-- The container is on the host, running or not. -/
def OnHost (host : List Container) (agentId : AgentId) (id : ContainerId) : Prop :=
  ∃ c ∈ host, c.agentId = agentId ∧ c.id = id ∧ c.state ≠ none

instance (host : List Container) (agentId : AgentId) (id : ContainerId) :
    Decidable (OnHost host agentId id) :=
  inferInstanceAs (Decidable (∃ c ∈ host, _))

/-! ## What an effect can do -/

theorem updateRow_id (e : Effect) (row : Environment) : (e.updateRow row).id = row.id := by
  cases e <;> simp only [Effect.updateRow]
  case flush changes => cases changes.find? _ <;> rfl
  all_goals split <;> rfl

/-- The columns no statement ever updates. -/
structure SameKey (r s : Environment) : Prop where
  id : r.id = s.id
  agentId : r.agentId = s.agentId
  name : r.name = s.name
  createdAt : r.createdAt = s.createdAt

theorem SameKey.refl (r : Environment) : SameKey r r := ⟨rfl, rfl, rfl, rfl⟩

theorem SameKey.trans {r s t : Environment} (h : SameKey r s) (h' : SameKey s t) : SameKey r t :=
  ⟨h.id.trans h'.id, h.agentId.trans h'.agentId, h.name.trans h'.name,
    h.createdAt.trans h'.createdAt⟩

theorem updateRow_sameKey (e : Effect) (row : Environment) : SameKey (e.updateRow row) row := by
  cases e <;> simp only [Effect.updateRow]
  case flush changes => cases changes.find? _ <;> exact ⟨rfl, rfl, rfl, rfl⟩
  all_goals first
    | exact SameKey.refl row
    | split <;> exact ⟨rfl, rfl, rfl, rfl⟩

theorem updateRow_flush (changes : List Change) (row : Environment) :
    Effect.updateRow (.flush changes) row = row ∨
      ∃ ch ∈ changes, ch.loaded.id = row.id ∧
        Effect.updateRow (.flush changes) row = ch.write row := by
  cases hfind : changes.find? fun c => decide (c.loaded.id = row.id) with
  | none => exact Or.inl (by simp only [Effect.updateRow, hfind])
  | some ch =>
    exact Or.inr ⟨ch, List.mem_of_find?_eq_some hfind, by simpa using List.find?_some hfind,
      by simp only [Effect.updateRow, hfind]⟩

/-- A container id is written by the end of a create and by passes, nothing else. -/
theorem updateRow_containerId {e : Effect} {row : Environment}
    (h : (e.updateRow row).containerId ≠ row.containerId) :
    (∃ id containerId, e = .finish id containerId ∧ row.id = id) ∨
      ∃ changes, e = .flush changes ∧ ∃ ch ∈ changes, ch.loaded.id = row.id ∧
        e.updateRow row = ch.write row := by
  cases e with
  | finish id containerId =>
    by_cases hid : row.id = id
    · exact Or.inl ⟨id, containerId, rfl, hid⟩
    · exact absurd (by simp [Effect.updateRow, hid]) h
  | flush changes =>
    rcases updateRow_flush changes row with hr | hr
    · exact absurd (by rw [hr]) h
    · exact Or.inr ⟨changes, rfl, hr⟩
  | setStatus id status message =>
    refine absurd ?_ h
    simp only [Effect.updateRow]
    split <;> rfl
  | deleteProject projectId =>
    refine absurd ?_ h
    simp only [Effect.updateRow]
    split <;> rfl
  | _ => exact absurd rfl h

namespace World

/-- Every row of the next table is an inserted one or an updated survivor. -/
theorem mem_envs_apply {w : World} {e : Effect} {row : Environment} :
    row ∈ (w.apply e).envs ↔
      e = .insert row ∨ ∃ r ∈ w.envs, e.drops r = false ∧ e.updateRow r = row := by
  cases e
  case insert r =>
    simp only [apply, List.mem_append, List.mem_singleton, Effect.insert.injEq, Effect.drops,
      Effect.updateRow, true_and, exists_eq_right]
    exact ⟨fun h => h.symm.imp_left Eq.symm, fun h => h.symm.imp_right Eq.symm⟩
  all_goals simp [apply, update, drop, Effect.updateRow, Effect.drops]

theorem nextEnv_le_apply (w : World) (e : Effect) : w.nextEnv ≤ (w.apply e).nextEnv := by
  cases e <;> simp [apply, update, drop]

theorem find_mem {w : World} {id : Nat} {row : Environment} (h : w.find id = some row) :
    row ∈ w.envs ∧ row.id = id := by
  have hid := List.find?_some h
  exact ⟨List.mem_of_find?_eq_some h, by simpa using hid⟩

end World

end Karr
