import Mathlib.Data.List.Basic

/-!
# Rows, requests and container records

Identifiers that PostgreSQL generates (`gen_random_uuid`) are numbers, of which
only freshness matters. Text columns are strings and times are microseconds on
an integer line. `updated_at` is left out: no modelled function reads it.
-/

set_option autoImplicit false

namespace Karr

abbrev AgentId := Nat
abbrev ProjectId := Nat
abbrev ContainerId := String

/-- `ENVIRONMENT_STATUSES`, which the check constraint on the column enforces. -/
inductive Status where
  | creating
  | running
  | stopped
  | error
  deriving DecidableEq, Repr

/-- A row of `karr_environments`. -/
structure Environment where
  id : Nat
  projectId : Option ProjectId
  agentId : AgentId
  name : String
  image : String
  containerId : ContainerId := ""
  status : Status
  statusMessage : String := ""
  gpu : Bool
  env : List String
  mounts : List String
  command : List String
  createdAt : Int
  deriving DecidableEq, Repr

/-- The body of `POST /api/v1/environments`. -/
structure EnvironmentCreate where
  agentId : AgentId
  projectId : Option ProjectId := none
  name : String
  image : String
  gpu : Bool := false
  env : List String := []
  mounts : List String := []
  command : List String := []
  deriving DecidableEq, Repr

/-- The container states Docker reports; KARR tells `running` from all others. -/
inductive ContainerState where
  | created
  | running
  | paused
  | restarting
  | removing
  | exited
  | dead
  deriving DecidableEq, Repr

/-- What `list_containers` returns of one container. -/
structure ContainerInfo where
  id : ContainerId
  name : String
  state : ContainerState
  deriving DecidableEq, Repr

/-- A container some host has or had. A removed one keeps its record with state
`none`. `origin` remembers the row whose create request made it, `none` for a
container KARR did not make; no operation reads it. -/
structure Container where
  agentId : AgentId
  id : ContainerId
  name : String
  state : Option ContainerState
  origin : Option Nat
  deriving DecidableEq, Repr

/-- How a call ended: it returned, raised `ApiError`, raised something else, or
its process stopped. -/
inductive Result where
  | ok
  | apiError (statusCode : Nat) (message : String)
  | exception
  | crashed
  deriving DecidableEq, Repr

end Karr
