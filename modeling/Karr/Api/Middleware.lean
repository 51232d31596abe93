import Karr.Python

/-!
# The body limit

`BodyLimitMiddleware` between the server and the application: the declared
length, and the two callbacks it wraps around `receive` and `send`. An
application is any sequence of calls of these two and an end; it may wait in
several receives at once and send meanwhile.
-/

set_option autoImplicit false

namespace Karr.Middleware

open Python

/-- What stands under a key of an ASGI message. -/
inductive Value where
  | bytes (b : List UInt8)
  | int (n : Int)
  | bool (b : Bool)
  | headers (hs : List (List UInt8 × List UInt8))
  deriving DecidableEq

structure Message where
  type : String
  fields : List (String × Value) := []
  deriving DecidableEq

/-- `message.get("body", b"")` -/
def Message.body (m : Message) : List UInt8 :=
  match m.fields.lookup "body" with
  | some (.bytes b) => b
  | _ => []

structure Scope where
  type : String
  headers : List (List UInt8 × List UInt8) := []

def maxBodyBytes : Nat := 1024 * 1024

def jsonMessages (status : Int) (body : List UInt8) : List Message :=
  [{ type := "http.response.start"
     fields := [("status", .int status), ("headers", .headers [
       (ascii "content-type", ascii "application/json"),
       (ascii "content-length", ascii (toString body.length))])] },
   { type := "http.response.body", fields := [("body", .bytes body)] }]

/-- What `_reject` sends. -/
def rejection : List Message :=
  jsonMessages 413 (ascii "\x7b\"error\": \"request body too large\"\x7d")

def contentLength (scope : Scope) : Option Int :=
  match scope.headers.find? fun h => decide (lowerBytes h.1 = ascii "content-length") with
  | some h => intOfBytes h.2
  | none => none

inductive Outcome where
  | returned
  | raised (exception : String)
  deriving DecidableEq

/-- The limited call: its variables, who has seen which messages, and how it ended. -/
structure Exchange where
  total : Nat := 0
  isOver : Bool := false
  responseStarted : Bool := false
  /-- Receives that wait for the server. -/
  waiting : Nat := 0
  /-- What the server has given. -/
  pulled : List Message := []
  /-- What the application has got. -/
  handed : List Message := []
  /-- What the application has sent. -/
  sent : List Message := []
  /-- What the client has got. -/
  client : List Message := []
  outcome : Option Outcome := none
  deriving DecidableEq

/-- How `__call__` begins; `none` where the application gets the callbacks of the server. -/
def call (maxBytes : Nat) (scope : Scope) : Option Exchange :=
  if scope.type ≠ "http" then none
  else match contentLength scope with
    | some declared =>
      if maxBytes < declared then some { client := rejection, outcome := some .returned }
      else some {}
    | none => some {}

inductive AppAction where
  | receive
  /-- The server answers a receive that waits. -/
  | arrive (m : Message)
  | send (m : Message)
  | finish (o : Outcome)

def disconnect : Message := { type := "http.disconnect" }

def isStart (m : Message) : Bool := decide (m.type = "http.response.start")

/-- `counting_receive`, from the answer of the server on. -/
def countingReceive (maxBytes : Nat) (c : Exchange) (m : Message) : Exchange :=
  let c := { c with waiting := c.waiting - 1, pulled := c.pulled ++ [m] }
  if m.type = "http.request" then
    let c := { c with total := c.total + m.body.length }
    if maxBytes < c.total then { c with isOver := true, handed := c.handed ++ [disconnect] }
    else { c with handed := c.handed ++ [m] }
  else { c with handed := c.handed ++ [m] }

def trackingSend (c : Exchange) (m : Message) : Exchange :=
  let c := { c with sent := c.sent ++ [m] }
  if c.isOver && !c.responseStarted then c
  else { c with responseStarted := c.responseStarted || isStart m, client := c.client ++ [m] }

theorem trackingSend_dropped {c : Exchange} (on : c.isOver = true)
    (quiet : c.responseStarted = false) (m : Message) :
    trackingSend c m = { c with sent := c.sent ++ [m] } :=
  if_pos (by simp only [on, quiet, Bool.not_false, Bool.and_self])

theorem trackingSend_forwarded {c : Exchange} (h : c.isOver = true → c.responseStarted = true)
    (m : Message) : trackingSend c m = { c with
      sent := c.sent ++ [m]
      responseStarted := c.responseStarted || isStart m
      client := c.client ++ [m] } := by
  refine if_neg fun dropped => ?_
  obtain ⟨on, quiet⟩ := Bool.and_eq_true_iff.mp dropped
  rw [h on] at quiet
  cases quiet

/-- After the application. -/
def conclude (c : Exchange) (o : Outcome) : Exchange :=
  if c.isOver then
    if c.responseStarted then { c with outcome := some .returned }
    else { c with client := c.client ++ rejection, outcome := some .returned }
  else { c with outcome := some o }

def appStep (maxBytes : Nat) (c : Exchange) (a : AppAction) : Option Exchange :=
  if c.outcome.isSome then none
  else match a with
    | .receive =>
      if c.isOver then some { c with handed := c.handed ++ [disconnect] }
      else some { c with waiting := c.waiting + 1 }
    | .arrive m => if c.waiting = 0 then none else some (countingReceive maxBytes c m)
    | .send m => some (trackingSend c m)
    | .finish o => some (conclude c o)

/-- What an action of the application or of the server can do. -/
theorem appStep_cases {maxBytes : Nat} {c c' : Exchange} {a : AppAction}
    (h : appStep maxBytes c a = some c') :
    c.outcome = none ∧
    ((a = .receive ∧ c.isOver = true ∧ c' = { c with handed := c.handed ++ [disconnect] }) ∨
      (a = .receive ∧ c.isOver = false ∧ c' = { c with waiting := c.waiting + 1 }) ∨
      (∃ m, a = .arrive m ∧ 0 < c.waiting ∧ c' = countingReceive maxBytes c m) ∨
      (∃ m, a = .send m ∧ c' = trackingSend c m) ∨
      ∃ o, a = .finish o ∧ c' = conclude c o) := by
  unfold appStep at h
  split at h
  · cases h
  · rename_i running
    refine ⟨Option.not_isSome_iff_eq_none.mp running, ?_⟩
    cases a with
    | receive =>
      dsimp only at h
      split at h <;> cases h
      · exact Or.inl ⟨rfl, ‹_›, rfl⟩
      · exact Or.inr (Or.inl ⟨rfl, Bool.eq_false_iff.mpr ‹_›, rfl⟩)
    | arrive m =>
      dsimp only at h
      split at h
      · cases h
      · cases h
        exact Or.inr (Or.inr (Or.inl ⟨m, rfl, Nat.pos_of_ne_zero ‹_›, rfl⟩))
    | send m =>
      cases h
      exact Or.inr (Or.inr (Or.inr (Or.inl ⟨m, rfl, rfl⟩)))
    | finish o =>
      cases h
      exact Or.inr (Or.inr (Or.inr (Or.inr ⟨o, rfl, rfl⟩)))

theorem appStep_arrive {maxBytes : Nat} {c c' : Exchange} {m : Message}
    (h : appStep maxBytes c (.arrive m) = some c') :
    c.outcome = none ∧ c' = countingReceive maxBytes c m := by
  obtain ⟨running, h⟩ := appStep_cases h
  rcases h with ⟨ha, -⟩ | ⟨ha, -⟩ | ⟨x, ha, -, rfl⟩ | ⟨x, ha, -⟩ | ⟨o, ha, -⟩ <;> cases ha
  exact ⟨running, rfl⟩

theorem appStep_finish {maxBytes : Nat} {c c' : Exchange} {o : Outcome}
    (h : appStep maxBytes c (.finish o) = some c') : c.outcome = none ∧ c' = conclude c o := by
  obtain ⟨running, h⟩ := appStep_cases h
  rcases h with ⟨ha, -⟩ | ⟨ha, -⟩ | ⟨x, ha, -⟩ | ⟨x, ha, -⟩ | ⟨x, ha, rfl⟩ <;> cases ha
  exact ⟨running, rfl⟩

end Karr.Middleware
