import Karr.Frontend.Client

/-!
# The sign-in gate

The state of `AuthGate` with the token of the client and what `sessionStorage` holds
of it. The fetches of all calls in flight settle in any order.
-/

set_option autoImplicit false

namespace Karr.Frontend.AuthGate

open JavaScript

/-- A call in flight: of `check` and `submit` with the token it carries. -/
inductive Call where
  | check (token : JsString)
  | submit (value : JsString)
  | request (path : JsString)
  deriving DecidableEq, Repr

def Call.isRequest : Call → Bool
  | .request _ => true
  | _ => false

/-- A browser tab. `enabled` says whether its session storage works; `accepted` are the tokens
of the auth checks that settled well, and `opened` says that the children were there. -/
structure Tab where
  enabled : Bool
  token : Option JsString
  stored : Option JsString
  authed : Option Bool := none
  serverError : JsString := []
  input : JsString := []
  loginError : JsString := []
  submitting : Bool := false
  calls : List Call := []
  accepted : List JsString := []
  opened : Bool := false
  deriving DecidableEq, Repr

namespace Tab

def setToken (t : Tab) (value : JsString) (persist : Bool) : Tab :=
  { t with
    token := some value
    stored := if persist && t.enabled then some value else t.stored }

def clearToken (t : Tab) : Tab :=
  { t with token := none, stored := if t.enabled then none else t.stored }

def hasToken (t : Tab) : Bool := t.token != none && t.token != some []

def check (t : Tab) : Tab :=
  if ¬ t.hasToken then { t with authed := some false }
  else { t with calls := t.calls ++ [.check (t.token.getD [])] }

/-- The call of `check` settles. -/
def checked (t : Tab) (token : JsString) : Outcome → Tab
  | .done => { t with authed := some true, accepted := t.accepted ++ [token], opened := true }
  | .apiError status message =>
    if status = 401 then { t.clearToken with authed := some false }
    else if status = 0 then { t with serverError := js "Cannot reach the KARR server." }
    else { t with serverError := message }
  | .thrown message => { t with serverError := message }

/-- The handler of `karr:unauthorized`. -/
def onUnauthorized (t : Tab) : Tab := { t.clearToken with authed := some false }

def submit (t : Tab) : Tab :=
  let value := trim t.input
  { ({ t with submitting := true, loginError := [] } : Tab).setToken value false with
    calls := t.calls ++ [.submit value] }

/-- The call of `submit` settles. -/
def submitted (t : Tab) (value : JsString) : Outcome → Tab
  | .done => { t.setToken value true with
      input := [], authed := some true, submitting := false
      accepted := t.accepted ++ [value], opened := true }
  | .apiError status _ => { t.clearToken with
      submitting := false
      loginError := if status = 401 then js "Invalid admin token."
        else js "Connection failed. Check that KARR is running." }
  | .thrown _ => { t.clearToken with
      submitting := false, loginError := js "Connection failed. Check that KARR is running." }

/-- What is on the screen: the error card, the form, or the children. -/
def errorCard (t : Tab) : Bool := t.serverError != []
def form (t : Tab) : Bool := !t.errorCard && t.authed == some false
def children (t : Tab) : Bool := !t.errorCard && t.authed == some true

end Tab

inductive Action where
  | input (value : JsString)
  | submit
  | retry
  /-- A component calls the API. -/
  | request (path : JsString)
  | settle (k : Nat) (settled : Option Answer)
  deriving Repr

def settle (t : Tab) (call : Call) (settled : Option Answer) : Tab :=
  match call with
  | .check token => t.checked token (request settled)
  | .submit value => t.submitted value (request settled)
  | .request path => if dispatches path settled then t.onUnauthorized else t

def step (t : Tab) : Action → Option Tab
  | .input value => if t.form then some { t with input := value } else none
  | .submit =>
    if t.form && !t.submitting && trim t.input != [] then some t.submit else none
  | .retry => if t.errorCard then some ({ t with serverError := [] } : Tab).check else none
  | .request path =>
    if t.opened then some { t with calls := t.calls ++ [.request path] } else none
  | .settle k settled => t.calls[k]?.map fun call =>
    settle { t with calls := t.calls.eraseIdx k } call settled

/-- `readStoredToken` -/
def readStoredToken (enabled : Bool) (item : Option JsString) : Option JsString :=
  if enabled then item else none

def fresh (enabled : Bool) (token : Option JsString) : Tab where
  enabled := enabled
  token := token
  stored := token

/-- The page is loaded, and the gate mounted. -/
def loaded (enabled : Bool) (item : Option JsString) : Tab :=
  (fresh enabled (readStoredToken enabled item)).check

end Karr.Frontend.AuthGate
