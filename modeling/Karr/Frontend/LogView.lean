import Karr.Frontend.Reader
import Karr.Frontend.LogStream
import Karr.Lib.Window
import Karr.Lib.Backoff

/-!
# The log view

The effect of `LogStream` from its mount on: `connect`, the loop it reads the
stream in, `scheduleReconnect` and the cleanup. Each awaited thing settles at any
moment and in any way the platform allows, the cleanup may run between any two.
-/

set_option autoImplicit false

namespace Karr.Frontend.LogView

open JavaScript Interleaving

def maxLines : Nat := 5000
def reconnectBaseMs : Nat := 1000
def reconnectMaxMs : Nat := 30000
def restartMarker : JsString :=
  js "— connection lost; log restarted from the container tail —"

inductive Phase where
  | connecting
  | streaming
  | ended
  | error
  | reconnecting
  deriving DecidableEq, Repr

structure Response where
  status : Nat
  statusText : JsString
  /-- `resp.body` is not null. -/
  body : Bool
  deriving DecidableEq, Repr

def Response.ok (resp : Response) : Bool := 200 ≤ resp.status && resp.status ≤ 299

def Response.statusLine (resp : Response) : JsString :=
  js (toString resp.status) ++ [space] ++ resp.statusText

/-- A stream the view has opened: the fetch that opened it, the generator, how many of its
events the loop has handled, and whether the body came to its end. `received` is that some
have been handled. -/
structure Opened where
  fetch : Nat
  connection : Connection
  handled : Nat := 0
  finished : Bool := false
  deriving DecidableEq, Repr

def Opened.yielded (o : Opened) : List SseEvent := o.connection.events ++ o.connection.late

/-- What the effect awaits. -/
inductive Pending where
  | fetch
  /-- `resp.json()` of an answer that is not ok, and the message if there is none in it. -/
  | json (message : JsString)
  | events (o : Opened)
  | timer (delay : Nat)
  | nothing
  deriving DecidableEq, Repr

/-- The state of the component and of its effect; behind them what has happened so far:
the fetches, the delays of the timers that fired, the `karr:unauthorized` events and the
streams that are over. -/
structure View where
  lines : List JsString := []
  phase : Phase := .connecting
  detail : JsString := []
  attempt : Nat := 0
  aborted : Bool := false
  pending : Pending := .nothing
  fetches : Nat := 0
  waited : Nat := 0
  unauthorized : Nat := 0
  past : List Opened := []
  deriving DecidableEq, Repr

namespace View

def append (v : View) (line : JsString) : View :=
  { v with lines := Window.push maxLines v.lines line }

def fail (v : View) (message : JsString) : View :=
  if v.aborted then v else { v with detail := message, phase := .error }

/-- `if (!signal.aborted) setPhase('ended')` -/
def finish (v : View) : View := { v with phase := if v.aborted then v.phase else .ended }

def done (v : View) : View := { v with pending := .nothing }

def scheduleReconnect (v : View) : View :=
  { v with
    attempt := v.attempt + 1
    phase := .reconnecting
    pending := .timer (Backoff.delay reconnectBaseMs reconnectMaxMs v.attempt) }

/-- Up to the `await` of the fetch. -/
def connect (v : View) : View :=
  if v.aborted then v.done
  else { v with
    phase := if v.attempt = 0 then .connecting else .reconnecting
    pending := .fetch
    fetches := v.fetches + 1 }

/-- The end of a connection that may come back. -/
def dropped (v : View) : View := if v.aborted then v.done else v.scheduleReconnect

/-- The loop asks for its first event. -/
def opened (v : View) : Opened where
  fetch := v.fetches
  connection := ({} : Connection).emit (readLoop false [])

def answered (v : View) (resp : Response) : View :=
  if v.aborted then v.done
  else if resp.status = 401 then
    ({ v with unauthorized := v.unauthorized + 1 }.fail (js "unauthorized")).done
  else if ¬ resp.ok then { v with pending := .json resp.statusLine }
  else if ¬ resp.body then (v.fail (js "the server sent no stream")).done
  else
    { v with
      lines := if 0 < v.attempt then (v.append restartMarker).lines else v.lines
      phase := .streaming
      pending := .events v.opened }

/-- The body of an answer that is not ok: none if it is no JSON, else its `error`. -/
def explained (v : View) (message : JsString) (body : Option JsString) : View :=
  let message := match body with
    | none => message
    | some error => if error = [] then message else error
  (v.fail message).done

/-- The stream is over, and the generator closed. -/
def closed (v : View) (o : Opened) : View := { v with past := v.past ++ [o], pending := .nothing }

/-- Only a stream that delivers something resets the backoff. -/
def counted (v : View) (o : Opened) : View :=
  { v with attempt := if o.handled = 0 then 0 else v.attempt }

/-- The body of the loop, up to the next event it asks for. -/
def handle (v : View) (o : Opened) (event : SseEvent) : Option View :=
  let v := v.counted o
  let o := { o with handled := o.handled + 1 }
  if event.event = js "end" then
    (o.connection.step .leave).map fun c => v.finish.closed { o with connection := c }
  else if event.event = js "error" then
    (o.connection.step .leave).map fun c =>
      (v.fail (if event.data = [] then js "stream failed" else event.data)).closed
        { o with connection := c }
  else
    (o.connection.step .pull).map fun c =>
      { v.append (unescapeLine event.data) with pending := .events { o with connection := c } }

end View

inductive Action where
  | refuse
  | answer (resp : Response)
  | json (body : Option JsString)
  /-- The read the generator waits for settles. -/
  | read (a : ReaderAction)
  /-- The loop gets the event the generator has yielded. -/
  | deliver
  /-- The loop learns that there is none left. -/
  | close
  | fire
  | cleanup
  deriving DecidableEq, Repr

def settles : ReaderAction → Bool
  | .chunk _ => true
  | .finish => true
  | .raise => true
  | _ => false

def Opened.settled (o : Opened) (a : ReaderAction) (c : Connection) : Opened :=
  { o with connection := c, finished := o.finished || a == .finish }

namespace View

/-- The cleanup of the effect. -/
def cleanup (v : View) : View :=
  { v with
    aborted := true
    pending := match v.pending with
      | .timer _ => .nothing
      | .events o => .events { o with connection := { o.connection with aborted := true } }
      | pending => pending }

def step (v : View) (a : Action) : Option View :=
  match a, v.pending with
  | .refuse, .fetch => some v.dropped
  | .answer resp, .fetch => some (v.answered resp)
  | .json body, .json message => some (v.explained message body)
  | .read a, .events o =>
    if settles a then
      (o.connection.step a).map fun c => { v with pending := .events (o.settled a c) }
    else none
  | .deliver, .events o => o.yielded[o.handled]?.bind (v.handle o)
  | .close, .events o =>
    if o.connection.reader = .closed ∧ o.handled = o.yielded.length then
      some (v.closed o).dropped
    else none
  | .fire, .timer delay => some { v with waited := v.waited + delay }.connect
  | .cleanup, _ => some v.cleanup
  | _, _ => none

end View

/-- The effect runs. -/
def mounted : View := ({} : View).connect

/-! ## What a step does -/

namespace View

def failed (v : View) (message : JsString) : View := { v with detail := message, phase := .error }

theorem fail_running {v : View} (h : v.aborted = false) (message : JsString) :
    v.fail message = v.failed message := by
  rw [fail, if_neg (Bool.eq_false_iff.mp h)]
  rfl

theorem fail_aborted {v : View} (h : v.aborted = true) (message : JsString) :
    v.fail message = v := by
  rw [fail, if_pos h]

theorem fail_eq (v : View) (message : JsString) :
    ∃ detail phase, v.fail message = { v with detail := detail, phase := phase } := by
  unfold fail
  split
  · exact ⟨v.detail, v.phase, rfl⟩
  · exact ⟨message, .error, rfl⟩

theorem dropped_running {v : View} (h : v.aborted = false) : v.dropped = v.scheduleReconnect := by
  rw [dropped, h]
  rfl

theorem dropped_aborted {v : View} (h : v.aborted = true) : v.dropped = v.done := by
  rw [dropped, if_pos h]

theorem dropped_eq (v : View) : ∃ attempt phase pending, v.dropped = { v with
    attempt := attempt, phase := phase, pending := pending } ∧ pending ≠ .fetch ∧
    (∀ o, pending ≠ .events o) ∧ ∀ delay, pending = .timer delay → 0 < attempt := by
  unfold dropped
  split
  · exact ⟨v.attempt, v.phase, .nothing, rfl, by simp⟩
  · exact ⟨v.attempt + 1, .reconnecting, .timer _, rfl, by simp⟩

end View

def Opened.next (o : Opened) (c : Connection) : Opened :=
  { o with connection := c, handled := o.handled + 1 }

/-- The event in flight. -/
def Opened.Yields (o : Opened) (e : SseEvent) : Prop := o.yielded[o.handled]? = some e

inductive ViewRule (v : View) : Action → View → Prop where
  /-- After the cleanup an answer is not looked at. -/
  | ignored {a : Action} (aborted : v.aborted = true)
      (h : v.pending = .fetch ∨ ∃ message, v.pending = .json message) : ViewRule v a v.done
  | refused (running : v.aborted = false) (h : v.pending = .fetch) :
      ViewRule v .refuse v.scheduleReconnect
  | unauthorized {resp : Response} (running : v.aborted = false) (h : v.pending = .fetch)
      (status : resp.status = 401) :
      ViewRule v (.answer resp)
        (({ v with unauthorized := v.unauthorized + 1 } : View).failed (js "unauthorized")).done
  | refusal {resp : Response} (running : v.aborted = false) (h : v.pending = .fetch)
      (status : resp.ok = false) :
      ViewRule v (.answer resp) { v with pending := .json resp.statusLine }
  | empty {resp : Response} (running : v.aborted = false) (h : v.pending = .fetch)
      (body : resp.body = false) :
      ViewRule v (.answer resp) (v.failed (js "the server sent no stream")).done
  | stream {resp : Response} (running : v.aborted = false) (h : v.pending = .fetch)
      (ok : resp.ok = true) :
      ViewRule v (.answer resp) { v with
        lines := if 0 < v.attempt then (v.append restartMarker).lines else v.lines,
        phase := .streaming, pending := .events v.opened }
  | explained {message : JsString} {body : Option JsString} (running : v.aborted = false)
      (h : v.pending = .json message) (detail : JsString) :
      ViewRule v (.json body) (v.failed detail).done
  | read {o : Opened} {a : ReaderAction} {c : Connection} (h : v.pending = .events o)
      (hset : settles a = true) (hs : o.connection.step a = some c) :
      ViewRule v (.read a) { v with pending := .events (o.settled a c) }
  | ended {o : Opened} {e : SseEvent} {c : Connection} (h : v.pending = .events o)
      (he : o.Yields e) (kind : e.event = js "end") (hs : o.connection.step .leave = some c) :
      ViewRule v .deliver ((v.counted o).finish.closed (o.next c))
  | failed {o : Opened} {e : SseEvent} {c : Connection} (h : v.pending = .events o)
      (he : o.Yields e) (kind : e.event = js "error") (hs : o.connection.step .leave = some c) :
      ViewRule v .deliver
        (((v.counted o).fail (if e.data = [] then js "stream failed" else e.data)).closed (o.next c))
  | line {o : Opened} {e : SseEvent} {c : Connection} (h : v.pending = .events o)
      (he : o.Yields e) (not_end : e.event ≠ js "end") (not_error : e.event ≠ js "error")
      (hs : o.connection.step .pull = some c) :
      ViewRule v .deliver
        { (v.counted o).append (unescapeLine e.data) with pending := .events (o.next c) }
  | closed {o : Opened} (h : v.pending = .events o) (closed : o.connection.reader = .closed)
      (all : o.handled = o.yielded.length) : ViewRule v .close (v.closed o).dropped
  | fire {delay : Nat} (h : v.pending = .timer delay) :
      ViewRule v .fire ({ v with waited := v.waited + delay } : View).connect
  | cleanup : ViewRule v .cleanup v.cleanup

theorem answered_rule {v : View} {resp : Response} (h : v.pending = .fetch) :
    ViewRule v (.answer resp) (v.answered resp) := by
  unfold View.answered
  by_cases aborted : v.aborted = true
  · rw [if_pos aborted]
    exact .ignored aborted (Or.inl h)
  · have running : v.aborted = false := Bool.eq_false_iff.mpr aborted
    rw [if_neg aborted]
    by_cases status : resp.status = 401
    · have counted : ({ v with unauthorized := v.unauthorized + 1 } : View).aborted = false := running
      rw [if_pos status, View.fail_running counted]
      exact .unauthorized running h status
    · rw [if_neg status]
      by_cases ok : resp.ok = true
      · rw [if_neg (not_not_intro ok)]
        by_cases body : resp.body = true
        · rw [if_neg (not_not_intro body)]
          exact .stream running h ok
        · rw [if_pos body, View.fail_running running]
          exact .empty running h (Bool.eq_false_iff.mpr body)
      · rw [if_pos ok]
        exact .refusal running h (Bool.eq_false_iff.mpr ok)

theorem explained_rule {v : View} {message : JsString} {body : Option JsString}
    (h : v.pending = .json message) : ViewRule v (.json body) (v.explained message body) := by
  unfold View.explained
  by_cases aborted : v.aborted = true
  · dsimp only
    rw [View.fail_aborted aborted]
    exact .ignored aborted (Or.inr ⟨message, h⟩)
  · have running : v.aborted = false := Bool.eq_false_iff.mpr aborted
    dsimp only
    rw [View.fail_running running]
    exact .explained running h _

theorem handle_rule {v v' : View} {o : Opened} {e : SseEvent} (h : v.pending = .events o)
    (he : o.Yields e) (hv : v.handle o e = some v') : ViewRule v .deliver v' := by
  unfold View.handle at hv
  dsimp only at hv
  by_cases kind : e.event = js "end"
  · rw [if_pos kind] at hv
    obtain ⟨c, hs, rfl⟩ := Option.map_eq_some_iff.mp hv
    exact .ended h he kind hs
  · rw [if_neg kind] at hv
    by_cases kind' : e.event = js "error"
    · rw [if_pos kind'] at hv
      obtain ⟨c, hs, rfl⟩ := Option.map_eq_some_iff.mp hv
      exact .failed h he kind' hs
    · rw [if_neg kind'] at hv
      obtain ⟨c, hs, rfl⟩ := Option.map_eq_some_iff.mp hv
      exact .line h he kind kind' hs

theorem view_rule {v v' : View} {a : Action} : v.step a = some v' → ViewRule v a v' := by
  fun_cases View.step v a <;> intro h
  case case1 hp =>
    cases h
    by_cases aborted : v.aborted = true
    · rw [View.dropped_aborted aborted]
      exact .ignored aborted (Or.inl hp)
    · have running : v.aborted = false := Bool.eq_false_iff.mpr aborted
      rw [View.dropped_running running]
      exact .refused running hp
  case case2 resp hp =>
    cases h
    exact answered_rule hp
  case case3 hp =>
    cases h
    exact explained_rule hp
  case case4 hp hset =>
    obtain ⟨c, hs, rfl⟩ := Option.map_eq_some_iff.mp h
    exact .read hp hset hs
  case case5 => cases h
  case case6 hp =>
    obtain ⟨e, he, hv⟩ := Option.bind_eq_some_iff.mp h
    exact handle_rule hp he hv
  case case7 hp closed =>
    cases h
    exact .closed hp closed.1 closed.2
  case case8 => cases h
  case case9 hp =>
    cases h
    exact .fire hp
  case case10 =>
    cases h
    exact .cleanup
  case case11 => cases h

end Karr.Frontend.LogView
