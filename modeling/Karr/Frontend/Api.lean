import Karr.Lib.PercentEncoding
import Karr.Lib.Routing

/-!
# The calls of the client

Where the calls of `api` go: their URLs, what the browser makes of the path, and
what the server gets of it. Ids are texts without lone surrogates.
-/

set_option autoImplicit false

namespace Karr.Frontend

open Routing

inductive ApiCall where
  | authCheck
  | listAgents
  | getAgent (id : String)
  | createAgent
  | deleteAgent (id : String)
  | getAgentStatus (id : String)
  | provisionAgent
  | listRegistrations
  | deleteRegistration (id : String)
  | listProjects
  | getProject (id : String)
  | createProject
  | updateProject (id : String)
  | deleteProject (id : String)
  | listEnvironments
  | getEnvironment (id : String)
  | createEnvironment
  | startEnvironment (id : String)
  | stopEnvironment (id : String)
  | removeEnvironment (id : String)
  /-- The fetch of the log view. -/
  | environmentLogs (id : String)
  deriving DecidableEq, Repr

/-- What `encodeURIComponent` keeps. -/
def isUnreserved (c : Char) : Bool := c.isAlphanum || "-_.!~*'()".toList.contains c

/-- `encodeURIComponent` -/
def enc (id : String) : List Char := PercentEncoding.encode isUnreserved id.toList

def ApiCall.method : ApiCall → String
  | .createAgent | .provisionAgent | .createProject | .createEnvironment => "POST"
  | .startEnvironment _ | .stopEnvironment _ => "POST"
  | .updateProject _ => "PUT"
  | .deleteAgent _ | .deleteRegistration _ | .deleteProject _ | .removeEnvironment _ => "DELETE"
  | _ => "GET"

/-- Behind `BASE`; `environmentLogsUrl` puts the id there as it is. -/
def ApiCall.path (enc : String → List Char) : ApiCall → List Char
  | .authCheck => "/auth/check".toList
  | .listAgents | .createAgent => "/agents".toList
  | .getAgent id | .deleteAgent id => "/agents/".toList ++ enc id
  | .getAgentStatus id => "/agents/".toList ++ enc id ++ "/status".toList
  | .provisionAgent => "/agents/provision".toList
  | .listRegistrations => "/agents/registrations".toList
  | .deleteRegistration id => "/agents/registrations/".toList ++ enc id
  | .listProjects | .createProject => "/projects".toList
  | .getProject id | .updateProject id | .deleteProject id => "/projects/".toList ++ enc id
  | .listEnvironments | .createEnvironment => "/environments".toList
  | .getEnvironment id | .removeEnvironment id => "/environments/".toList ++ enc id
  | .startEnvironment id => "/environments/".toList ++ enc id ++ "/start".toList
  | .stopEnvironment id => "/environments/".toList ++ enc id ++ "/stop".toList
  | .environmentLogs id => "/environments/".toList ++ id.toList ++ "/logs".toList

def base : List Char := "/api/v1".toList

def ApiCall.url (c : ApiCall) : List Char := base ++ c.path enc

/-! ## The way to the server -/

def dots : List (List Char) := [".".toList, "%2e".toList, "%2E".toList]

def isSingleDot (p : List Char) : Bool := dots.contains p

def isDoubleDot (p : List Char) : Bool := dots.any fun a => dots.any fun b => p = a ++ b

/-- The segments of a path without its dot segments. -/
def resolve (done : List (List Char)) : List (List Char) → List (List Char)
  | [] => done
  | p :: ps =>
    let ending := if ps = [] then [[]] else []
    if isDoubleDot p then resolve (done.dropLast ++ ending) ps
    else if isSingleDot p then resolve (done ++ ending) ps
    else resolve (done ++ [p]) ps

/-- The path the browser asks for; `none` where a character is escaped there or ends the path. -/
def fetchPath (url : List Char) : Option (List Char) :=
  if url.all fun c => isUnreserved c || c == '%' || c == '/' then
    match pieces url with
    | [] :: ps => some ('/' :: joined (resolve [] ps))
    | _ => none
  else none

/-- The path as the server decodes it, where its bytes are UTF-8. -/
def received (url : List Char) : Option (List Char) :=
  (fetchPath url).bind PercentEncoding.decodeText

end Karr.Frontend
