import Karr.Api.Auth
import Karr.Lib.Routing

/-!
# Routes

The routers as the application includes them, in this order. The health routes
and those of the install script are another package's, under the paths that the
documentation gives them. A body that is not JSON is refused before the
dependencies of a route; what a handler does is not looked at here.
-/

set_option autoImplicit false

namespace Karr.Routes

open Routing

inductive Endpoint where
  | health
  | ready
  | metrics
  | check
  | provision
  | listRegistrations
  | deleteRegistration
  | installScript
  | register
  | listAgents
  | createAgent
  | getAgent
  | deleteAgent
  | agentStatus
  | listProjects
  | createProject
  | getProject
  | updateProject
  | deleteProject
  | listEnvironments
  | createEnvironment
  | getEnvironment
  | startEnvironment
  | stopEnvironment
  | removeEnvironment
  | environmentLogs
  | assets
  | unknownApiRoute
  | spaFallback
  deriving DecidableEq, Repr

inductive Dependency where
  | requireAdmin
  /-- With the name of the limiter. -/
  | rateLimited (limiterName : String)
  deriving DecidableEq, Repr

structure Operation where
  endpoint : Endpoint
  dependencies : List Dependency
  deriving DecidableEq, Repr

/-- `APIRouter`, with what `include_router` adds to its own prefix and dependencies. -/
def router (pathPrefix : String) (dependencies : List Dependency)
    (routes : List (String × String × List Dependency × Endpoint)) : List (Route Operation) :=
  routes.map fun (method, path, own, endpoint) =>
    ⟨some [method], compile (pathPrefix ++ path), ⟨endpoint, dependencies ++ own⟩⟩

def healthRouter : List (Route Operation) :=
  router "" [] [("GET", "/health", [], .health), ("GET", "/ready", [], .ready)]

def metricsRouter : List (Route Operation) := router "" [] [("GET", "/metrics", [], .metrics)]

def authRouter : List (Route Operation) :=
  router "/api/v1/auth" []
    [("GET", "/check", [.rateLimited "auth_limiter", .requireAdmin], .check)]

def adminRouter : List (Route Operation) :=
  router "/api/v1/agents" [.requireAdmin]
    [("POST", "/provision", [.rateLimited "provision_limiter"], .provision),
      ("GET", "/registrations", [], .listRegistrations),
      ("DELETE", "/registrations/{registration_id}", [], .deleteRegistration)]

def publicRouter : List (Route Operation) :=
  router "/api/v1" [.rateLimited "register_limiter"]
    [("GET", "/install.sh", [], .installScript), ("POST", "/agents/register", [], .register)]

def agentsRouter : List (Route Operation) :=
  router "/api/v1/agents" [.requireAdmin]
    [("GET", "", [], .listAgents),
      ("POST", "", [], .createAgent),
      ("GET", "/{agent_id}", [], .getAgent),
      ("DELETE", "/{agent_id}", [], .deleteAgent),
      ("GET", "/{agent_id}/status", [], .agentStatus)]

def projectsRouter : List (Route Operation) :=
  router "/api/v1/projects" [.requireAdmin]
    [("GET", "", [], .listProjects),
      ("POST", "", [], .createProject),
      ("GET", "/{project_id}", [], .getProject),
      ("PUT", "/{project_id}", [], .updateProject),
      ("DELETE", "/{project_id}", [], .deleteProject)]

def environmentsRouter : List (Route Operation) :=
  router "/api/v1/environments" [.requireAdmin]
    [("GET", "", [], .listEnvironments),
      ("POST", "", [], .createEnvironment),
      ("GET", "/{env_id}", [], .getEnvironment),
      ("POST", "/{env_id}/start", [], .startEnvironment),
      ("POST", "/{env_id}/stop", [], .stopEnvironment),
      ("DELETE", "/{env_id}", [], .removeEnvironment),
      ("GET", "/{env_id}/logs", [], .environmentLogs)]

def assetsMount : Route Operation := ⟨none, compile "/assets/{path:path}", ⟨.assets, []⟩⟩

def unknownApiRoute : Route Operation where
  methods := some ["GET", "POST", "PUT", "PATCH", "DELETE", "OPTIONS", "HEAD"]
  template := compile "/api/{path:path}"
  endpoint := ⟨.unknownApiRoute, []⟩

def spaFallback : Route Operation where
  methods := some ["GET", "HEAD"]
  template := compile "/{path:path}"
  endpoint := ⟨.spaFallback, []⟩

/-- The assets are mounted where there is a build. -/
def mountSpa (built : Bool) : List (Route Operation) :=
  (if built then [assetsMount] else []) ++ [unknownApiRoute, spaFallback]

/-- `create_app` -/
def routes (built : Bool) : List (Route Operation) :=
  healthRouter ++ metricsRouter ++ authRouter ++ adminRouter ++ publicRouter ++ agentsRouter ++
    projectsRouter ++ environmentsRouter ++ mountSpa built

/-! ## Requests -/

structure Request where
  method : String
  /-- Decoded. -/
  path : List Char
  /-- The credentials of the bearer header. -/
  presented : Option String
  deriving DecidableEq, Repr

inductive Served where
  | reached (endpoint : Endpoint) (params : List (List Char))
  | refused (statusCode : Nat)
  | methodNotAllowed
  | redirect (path : List Char)
  | notFound
  deriving DecidableEq, Repr

/-- What a dependency answers in place of the handler. -/
def Dependency.refuses (adminToken : String) (presented : Option String) (allows : String → Bool) :
    Dependency → Option Nat
  | .requireAdmin => if Auth.tokenMatches presented adminToken then none else some 401
  | .rateLimited limiterName => if allows limiterName then none else some 429

/-- With what the limiters say to the client of the request. -/
def serve (built : Bool) (adminToken : String) (allows : String → Bool) (r : Request) : Served :=
  match dispatch (routes built) r.method r.path with
  | .handled operation params =>
    match operation.dependencies.findSome? (Dependency.refuses adminToken r.presented allows) with
    | some statusCode => .refused statusCode
    | none => .reached operation.endpoint params
  | .methodNotAllowed => .methodNotAllowed
  | .redirect path => .redirect path
  | .notFound => .notFound

end Karr.Routes
