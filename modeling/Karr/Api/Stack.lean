import Karr.Api.Middleware
import Karr.Lib.Interleaving

/-!
# The layers around the application

What `SecurityHeadersMiddleware` and `RequestLogMiddleware` make of the messages
that pass them, and the answer to an exception no other handler took. That one
comes from the outermost layer of the framework, which answers where no response
has started and sends it past the others. The CORS layer between them and the
body limit is the framework's: of its answers and headers only the shape is known.
-/

set_option autoImplicit false

namespace Karr.Middleware

open Python

abbrev Headers := List (List UInt8 × List UInt8)

def csp : String :=
  "default-src 'self'; img-src 'self' data:; style-src 'self' 'unsafe-inline'; " ++
  "object-src 'none'; base-uri 'none'; form-action 'self'; frame-ancestors 'none'"

def securityHeaderPairs (enableHsts : Bool) : Headers :=
  [(ascii "x-frame-options", ascii "DENY"),
   (ascii "x-content-type-options", ascii "nosniff"),
   (ascii "referrer-policy", ascii "strict-origin-when-cross-origin"),
   (ascii "content-security-policy", ascii csp),
   (ascii "permissions-policy", ascii "camera=(), microphone=(), geolocation=()")] ++
  if enableHsts then
    [(ascii "strict-transport-security", ascii "max-age=31536000; includeSubDomains")]
  else []

/-- `message.get("headers", [])` -/
def Message.headers (m : Message) : Headers :=
  match m.fields.lookup "headers" with
  | some (.headers hs) => hs
  | _ => []

/-- `message[key] = value` -/
def Message.setItem (m : Message) (key : String) (value : Value) : Message :=
  { m with
    fields := if m.fields.any fun f => f.1 == key then
        m.fields.map fun f => if f.1 == key then (key, value) else f
      else m.fields ++ [(key, value)] }

def names (hs : Headers) : List (List UInt8) := hs.map fun h => lowerBytes h.1

/-- The pairs whose name the response does not have. -/
def extra (enableHsts : Bool) (hs : Headers) : Headers :=
  (securityHeaderPairs enableHsts).filter fun h => !(names hs).contains h.1

def sendWithHeaders (enableHsts : Bool) (m : Message) : Message :=
  if isStart m then m.setItem "headers" (.headers (m.headers ++ extra enableHsts m.headers)) else m

/-- `int(message["status"])`, which a start message has. -/
def Message.status (m : Message) : Option Int :=
  match m.fields.lookup "status" with
  | some (.int n) => some n
  | _ => none

/-- The status the request is counted and logged with. -/
def recorded (sent : List Message) : Int :=
  sent.foldl (fun status m => if isStart m then m.status.getD status else status) 500

/-! ## The 500 handler -/

def corsHeadersFor (origin : Option (List UInt8)) (allowed : List (List UInt8)) : Headers :=
  match origin with
  | some o =>
    if o ≠ [] ∧ o ∈ allowed then
      [(ascii "access-control-allow-origin", o), (ascii "vary", ascii "Origin")]
    else []
  | none => []

/-- The headers of the response of `_unhandled`, one assignment after the other. -/
def unhandledHeaders (set : Headers → List UInt8 → List UInt8 → Headers) (base : Headers)
    (enableHsts : Bool) (origin : Option (List UInt8)) (allowed : List (List UInt8)) : Headers :=
  (securityHeaderPairs enableHsts ++ corsHeadersFor origin allowed).foldl
    (fun hs h => set hs h.1 h.2) base

def unhandled (headers : Headers) : List Message :=
  [{ type := "http.response.start"
     fields := [("status", .int 500), ("headers", .headers headers)] },
   { type := "http.response.body"
     fields := [("body", .bytes (ascii "\x7b\"error\":\"internal server error\"\x7d"))] }]

/-! ## The CORS layer -/

/-- A response that is sent whole. -/
structure Response where
  status : Int
  headers : Headers
  body : List UInt8

def Response.messages (r : Response) : List Message :=
  [{ type := "http.response.start"
     fields := [("status", .int r.status), ("headers", .headers r.headers)] },
   { type := "http.response.body", fields := [("body", .bytes r.body)] }]

/-- `CORSMiddleware`: how it answers a preflight, and what it makes of a message that answers
another request with an origin. -/
structure Cors where
  preflight : Scope → Response
  simple : Scope → Message → Message

def hasHeader (scope : Scope) (name : String) : Bool :=
  scope.headers.any fun h => decide (lowerBytes h.1 = ascii name)

/-- A request the CORS layer answers itself. -/
def isPreflight (method : String) (scope : Scope) : Bool :=
  decide (method = "OPTIONS") && hasHeader scope "origin" &&
    hasHeader scope "access-control-request-method"

/-- `install_middleware` adds the layer where there are origins to allow; it takes no notice
of a request without an origin. -/
def corsMessage (cors : Option Cors) (scope : Scope) (m : Message) : Message :=
  match cors with
  | some c => if hasHeader scope "origin" then c.simple scope m else m
  | none => m

/-- What comes up through the CORS layer of an http request, and how it ended: the answer to a
preflight, or what the body limit let through of the call below. -/
inductive Upward (maxBytes : Nat) (cors : Option Cors) (method : String) (scope : Scope) :
    Option Exchange → List Message → Outcome → Prop where
  | preflight {c : Cors} (installed : cors = some c) (http : scope.type = "http")
      (h : isPreflight method scope = true) :
      Upward maxBytes cors method scope none (c.preflight scope).messages .returned
  | below {c e : Exchange} {o : Outcome} (h : cors = none ∨ isPreflight method scope = false)
      (called : call maxBytes scope = some c)
      (hr : Interleaving.Run (appStep maxBytes) (fun _ _ => True) c e)
      (ended : e.outcome = some o) :
      Upward maxBytes cors method scope (some e) (e.client.map (corsMessage cors scope)) o

/-- What the client gets of what has come up. -/
def served (enableHsts : Bool) (onError : List Message) (up : List Message) (o : Outcome) :
    List Message :=
  let passed := up.map (sendWithHeaders enableHsts)
  match o with
  | .raised _ => if up.any isStart then passed else passed ++ onError
  | .returned => passed

end Karr.Middleware
