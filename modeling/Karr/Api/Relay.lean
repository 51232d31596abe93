import Karr.Api.Sse
import Karr.Api.StreamSlots

/-!
# relay

The pump task reads the upstream and fills a bounded queue; the generator takes
from it whenever its client asks for the next frame. A step of either runs from
one await or `yield` to the next.
-/

set_option autoImplicit false

namespace Karr.Sse

def defaultKeepaliveSeconds : Int := 15 * 1000000
def queueMaxLines : Nat := 1000

def timeLimitReached : String := "stream time limit reached; reconnect to continue"

/-- What `async for` gets from the upstream: a line, its end, or an exception. -/
inductive Pulled where
  | line (text : String)
  | finished
  | bonnieError (message : String)
  | exception (className : String)
  deriving DecidableEq, Repr

/-- What the pump puts into the queue. -/
inductive Item where
  | line (text : String)
  | ended
  | error (message : String)
  deriving DecidableEq, Repr

def Pulled.item : Pulled → Item
  | .line text => .line text
  | .finished => .ended
  | .bonnieError message => .error message
  | .exception className => .error ("stream failed: " ++ className)

def Item.isLine : Item → Bool
  | .line _ => true
  | _ => false

def Item.frame : Item → Frame
  | .line text => .data text
  | .ended => .terminal .ended ""
  | .error message => .terminal .error (if message = "" then "stream failed" else message)

inductive Pump where
  /-- The task does not exist yet. -/
  | idle
  /-- Waits for the upstream, which has given `n` lines. -/
  | reading (n : Nat)
  /-- Waits for room in the queue. -/
  | putting (n : Nat) (item : Item)
  | done
  deriving DecidableEq, Repr

inductive Consumer where
  | unstarted
  /-- At a `yield`, until the client asks for the next frame. -/
  | yielded
  /-- In `wait_for(queue.get())`, with the time at which it times out. -/
  | waiting (timeout : Int)
  /-- At the `yield` of a terminal frame; the cleanup comes after it. -/
  | finishing
  /-- The cleanup has run. -/
  | closed
  deriving DecidableEq, Repr

structure Relay where
  deadline : Int := 0
  queue : List Item := []
  pump : Pump := .idle
  consumer : Consumer := .unstarted
  /-- All frames yielded so far. -/
  emitted : List Frame := []
  deriving DecidableEq, Repr

/-- The arguments of `relay`, and the bound of its queue. The `n`-th read of the upstream
gives `lines n`, or never returns. -/
structure RelaySettings where
  lines : Nat → Option Pulled
  keepaliveSeconds : Int := defaultKeepaliveSeconds
  maxSeconds : Int := maxStreamSeconds
  queueMax : Nat := queueMaxLines

inductive RelayAction where
  /-- The client asks for the next frame. -/
  | pull
  /-- The generator is cancelled, closed or garbage collected. -/
  | disconnect
  | read
  | put
  | get
  | timeout
  deriving DecidableEq, Repr

namespace Relay

def emit (r : Relay) (frame : Frame) (next : Consumer) : Relay :=
  { r with emitted := r.emitted ++ [frame], consumer := next }

/-- The head of the loop, up to the next `yield` or `wait_for`. -/
def loop (s : RelaySettings) (now : Int) (r : Relay) : Relay :=
  if r.deadline - now ≤ 0 then r.emit (.terminal .ended timeLimitReached) .finishing
  else { r with consumer := .waiting (now + min s.keepaliveSeconds (r.deadline - now)) }

/-- The body up to the loop: the deadline is set when the first frame is asked for. -/
def start (s : RelaySettings) (now : Int) (r : Relay) : Relay :=
  { r with deadline := now + s.maxSeconds, pump := .reading 0 }

/-- The `finally` block, which also cancels the pump. -/
def close (r : Relay) : Relay := { r with pump := .done, consumer := .closed }

end Relay

def relayStep (s : RelaySettings) (now : Int) (r : Relay) : RelayAction → Option Relay
  | .pull =>
    match r.consumer with
    | .unstarted => some ((r.start s now).loop s now)
    | .yielded => some (r.loop s now)
    | .finishing => some r.close
    | _ => none
  | .disconnect => if r.consumer = .closed then none else some r.close
  | .read =>
    match r.pump with
    | .reading n => (s.lines n).map fun p => { r with pump := .putting n p.item }
    | _ => none
  | .put =>
    match r.pump with
    | .putting n item =>
      if r.queue.length < s.queueMax then
        some { r with
          queue := r.queue ++ [item]
          pump := if item.isLine then .reading (n + 1) else .done }
      else none
    | _ => none
  | .get =>
    match r.consumer, r.queue with
    | .waiting _, item :: rest => some
        (({ r with queue := rest } : Relay).emit item.frame
          (if item.isLine then .yielded else .finishing))
    | _, _ => none
  | .timeout =>
    match r.consumer with
    | .waiting timeout =>
      if timeout ≤ now then
        if r.deadline - now > 0 then some (r.emit .keepalive .yielded)
        else some (r.loop s now)
      else none
    | _ => none

end Karr.Sse
