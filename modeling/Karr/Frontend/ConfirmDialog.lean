import Karr.Frontend.Api
import Karr.JavaScript

/-!
# The confirm dialog

The state of `ConfirmProvider`, and the handlers of the pages that ask it before they
send anything. Promise `k` is that of the `k`-th question. What `setOptions` is
given is drawn later. Where the focus goes is left out.
-/

set_option autoImplicit false

namespace Karr.Frontend.Dialog

open JavaScript

structure ConfirmOptions where
  title : JsString
  message : JsString
  confirmLabel : JsString
  deriving DecidableEq, Repr

/-- A call of `confirm`, by the handler that makes it. -/
inductive Question where
  | stop (id : String) (name : JsString)
  | remove (id : String) (name : JsString)
  | removeAgent (id : String) (name : JsString)
  | cancelRegistration (id : String) (regLabel : JsString)
  /-- `remove` of the projects. -/
  | removeProject (id : String) (name : JsString)
  deriving DecidableEq, Repr

namespace Question

def options : Question → ConfirmOptions
  | .stop _ name =>
    ⟨js "Stop environment", js "Stop \"" ++ name ++ js "\"? Running processes are terminated.",
      js "Stop"⟩
  | .remove _ name =>
    ⟨js "Remove environment",
      js "Remove \"" ++ name ++ js "\" and its container? This cannot be undone.", js "Remove"⟩
  | .removeAgent _ name =>
    ⟨js "Remove agent",
      js "Remove \"" ++ name ++ js "\" from KARR? Environments on it must be deleted first.",
      js "Remove"⟩
  | .cancelRegistration _ regLabel =>
    ⟨js "Cancel registration",
      js "Cancel the pending registration \"" ++ regLabel ++
        js "\"? Its install command stops working.",
      js "Cancel registration"⟩
  | .removeProject _ name =>
    ⟨js "Delete project",
      js "Delete \"" ++ name ++ js "\"? Environments keep running but lose their project.",
      js "Delete"⟩

/-- What the handler sends when the answer is yes. -/
def call : Question → ApiCall
  | .stop id _ => .stopEnvironment id
  | .remove id _ => .removeEnvironment id
  | .removeAgent id _ => .deleteAgent id
  | .cancelRegistration id _ => .deleteRegistration id
  | .removeProject id _ => .deleteProject id

end Question

structure Provider where
  asked : List Question := []
  /-- The promises that are settled. -/
  answers : List (Nat × Bool) := []
  /-- The promise `resolver` settles. -/
  resolver : Option Nat := none
  options : Option ConfirmOptions := none
  /-- As it was last drawn. -/
  drawn : Option ConfirmOptions := none
  mounted : Bool := true
  /-- The handlers that went on after their `await`. -/
  resumed : List Nat := []
  sent : List ApiCall := []
  /-- Clicks on the confirm button. -/
  clicks : Nat := 0
  deriving DecidableEq, Repr

namespace Provider

/-- The promises that are settled. -/
def settled (p : Provider) : List Nat := p.answers.map Prod.fst

/-- `resolver.current?.(ok)`: a promise keeps its first answer. -/
def resolve (p : Provider) (ok : Bool) : Provider :=
  match p.resolver with
  | some k => if k ∈ p.settled then p else { p with answers := p.answers ++ [(k, ok)] }
  | none => p

def settle (p : Provider) (ok : Bool) : Provider :=
  { p.resolve ok with resolver := none, options := none }

def confirm (p : Provider) (q : Question) : Provider :=
  { p.resolve false with
    asked := p.asked ++ [q]
    resolver := some p.asked.length
    options := some q.options }

/-- The rest of a handler. -/
def resume (p : Provider) (k : Nat) (q : Question) (ok : Bool) : Provider :=
  { p with resumed := k :: p.resumed, sent := if ok then p.sent ++ [q.call] else p.sent }

end Provider

inductive Action where
  | ask (q : Question)
  | draw
  | accept
  /-- The cancel button, a click beside the dialog, or Escape. -/
  | cancel
  | resume (k : Nat)
  | unmount
  deriving DecidableEq, Repr

def step (p : Provider) : Action → Option Provider
  | .ask q => some (p.confirm q)
  | .draw => if p.mounted then some { p with drawn := p.options } else none
  | .accept =>
    if p.drawn.isSome then some ({ p with clicks := p.clicks + 1 }.settle true) else none
  | .cancel => if p.drawn.isSome then some (p.settle false) else none
  | .resume k =>
    match p.asked[k]?, p.answers.lookup k with
    | some q, some ok => if k ∈ p.resumed then none else some (p.resume k q ok)
    | _, _ => none
  | .unmount =>
    if p.mounted then some { p.resolve false with drawn := none, mounted := false } else none

end Karr.Frontend.Dialog
