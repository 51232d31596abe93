import Karr.JavaScript

/-!
# Toasts

The state of `ToastProvider` in milliseconds. What is given to `setToasts` is run
later, in its order, and drawn when all of it has run; after an unmount it is run
or not, and drawn no more. A timer runs out at its time or at any moment after it.
-/

set_option autoImplicit false

namespace Karr.Frontend.Toasts

open JavaScript

inductive ToastKind where
  | error
  | success
  | info
  deriving DecidableEq, Repr

structure Toast where
  id : Nat
  kind : ToastKind
  message : JsString
  deriving DecidableEq, Repr

def toastTtlMs : Nat := 6000

def maxToasts : Nat := 5

/-- The updaters of `notify` and `dismiss`. -/
inductive Update where
  | add (kind : ToastKind) (message : JsString)
  | drop (id : Nat)
  deriving DecidableEq, Repr

structure Provider where
  now : Nat := 0
  toasts : List Toast := []
  /-- Given to `setToasts` and not run yet. -/
  updates : List Update := []
  /-- As it was last drawn. -/
  shown : List Toast := []
  next : Nat := 1
  /-- The id of a toast, and when its timer is due. -/
  timers : List (Nat × Nat) := []
  mounted : Bool := true
  deriving DecidableEq, Repr

namespace Provider

def dismiss (p : Provider) (id : Nat) : Provider :=
  { p with
    timers := p.timers.filter fun timer => decide (timer.1 ≠ id)
    updates := p.updates ++ [.drop id] }

def notify (p : Provider) (kind : ToastKind) (message : JsString) : Provider :=
  { p with updates := p.updates ++ [.add kind message] }

/-- What a toast more leaves of the list. -/
def kept (toasts : List Toast) : List Toast :=
  if maxToasts ≤ toasts.length then toasts.drop (toasts.length - maxToasts + 1) else toasts

def evicted (toasts : List Toast) : List Toast :=
  toasts.take (toasts.length - (kept toasts).length)

/-- With a toast that is not there yet. -/
def added (p : Provider) (kind : ToastKind) (message : JsString) : Provider :=
  { p with
    next := p.next + 1
    timers := (p.timers ++ [(p.next, p.now + toastTtlMs)]).filter fun timer =>
      decide (timer.1 ∉ (evicted p.toasts).map Toast.id)
    toasts := kept p.toasts ++ [⟨p.next, kind, message⟩] }

def run (p : Provider) : Update → Provider
  | .drop id => { p with toasts := p.toasts.filter fun toast => decide (toast.id ≠ id) }
  | .add kind message =>
    if p.toasts.any fun toast => decide (toast.kind = kind ∧ toast.message = message) then p
    else p.added kind message

end Provider

inductive Action where
  | notify (kind : ToastKind) (message : JsString)
  /-- On the cross of a toast. -/
  | click (id : Nat)
  | fire (id : Nat)
  | update
  | draw
  | tick (time : Nat)
  | unmount
  deriving DecidableEq, Repr

def step (p : Provider) : Action → Option Provider
  | .notify kind message => some (p.notify kind message)
  | .click id =>
    if p.shown.any fun toast => decide (toast.id = id) then some (p.dismiss id) else none
  | .fire id =>
    if p.timers.any fun timer => decide (timer.1 = id ∧ timer.2 ≤ p.now) then some (p.dismiss id)
    else none
  | .update =>
    match p.updates with
    | u :: us => some ({ p with updates := us }.run u)
    | [] => none
  | .draw => if p.mounted ∧ p.updates = [] then some { p with shown := p.toasts } else none
  | .tick time =>
    if p.now ≤ time then some { p with now := time } else none
  | .unmount => some { p with shown := [], timers := [], mounted := false }

end Karr.Frontend.Toasts
