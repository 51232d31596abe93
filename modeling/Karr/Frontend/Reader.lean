import Karr.Frontend.Sse
import Karr.Lib.Interleaving

/-!
# The reader as a generator

`readEvents` with its abort signal. Between two steps the generator is suspended
at one of its three yields or waits for a read; it goes on when the consumer
pulls, or when the read settles. Where nothing aborts it, it yields the events of
the plain `readEvents`, in pieces.
-/

set_option autoImplicit false

namespace Karr.Frontend

open JavaScript Blocks Interleaving

/-- Where the generator stands. -/
inductive Reader where
  | start
  | reading (buffer : JsString)
  /-- At the yield of a block; the buffer holds what comes after it. -/
  | yielded (buffer held : JsString)
  /-- At the yield of an over-long rest, which is dropped. -/
  | capped (held : JsString)
  | tail
  | closed
  deriving DecidableEq, Repr

/-- The loop on `indexOf('\n\n')` up to its next yield: the event, and the buffer after it. -/
def nextEvent (buffer : JsString) : Option SseEvent × JsString :=
  match _h : indexOf [lf, lf] buffer with
  | none => (none, buffer)
  | some split =>
    match parseBlock (buffer.take split) with
    | some parsed => (some parsed, buffer.drop (split + 2))
    | none => nextEvent (buffer.drop (split + 2))
termination_by buffer.length
decreasing_by
  have := indexOf_le _h
  rw [List.length_drop]
  simp only [List.length_cons, List.length_nil] at this
  omega

/-- Behind the read loop. -/
def readTail (buffer : JsString) : Option SseEvent × Reader :=
  match parseBlock (normalise buffer).1 with
  | some tail => (some tail, .tail)
  | none => (none, .closed)

/-- The head of the read loop, the only place that looks at the signal. -/
def readLoop (aborted : Bool) (buffer : JsString) : Option SseEvent × Reader :=
  if aborted then readTail buffer else (none, .reading buffer)

def readRest (aborted : Bool) (buffer held : JsString) : Option SseEvent × Reader :=
  if maxPendingChars < buffer.length then
    match parseBlock (buffer.take maxEventChars) with
    | some parsed => (some parsed.mark, .capped held)
    | none => readLoop aborted held
  else readLoop aborted (buffer ++ held)

def readBlocks (aborted : Bool) (buffer held : JsString) : Option SseEvent × Reader :=
  match nextEvent buffer with
  | (some parsed, buffer) => (some parsed, .yielded buffer held)
  | (none, buffer) => readRest aborted buffer held

inductive ReaderAction where
  | pull
  /-- The read resolves with bytes, decoded. -/
  | chunk (value : JsString)
  | finish
  | raise
  /-- The consumer leaves its loop. -/
  | leave
  | abort
  deriving DecidableEq, Repr

/-- The generator, the signal, what has been read and what has been yielded. -/
structure Connection where
  reader : Reader := .start
  aborted : Bool := false
  chunks : List JsString := []
  /-- The events yielded before the abort, and those yielded since. -/
  events : List SseEvent := []
  late : List SseEvent := []
  deriving DecidableEq, Repr

namespace Connection

def emit (c : Connection) (r : Option SseEvent × Reader) : Connection :=
  if c.aborted then { c with reader := r.2, late := c.late ++ r.1.toList }
  else { c with reader := r.2, events := c.events ++ r.1.toList }

def step (c : Connection) (a : ReaderAction) : Option Connection :=
  match a, c.reader with
  | .pull, .start => some (c.emit (readLoop c.aborted []))
  | .pull, .yielded buffer held => some (c.emit (readBlocks c.aborted buffer held))
  | .pull, .capped held => some (c.emit (readLoop c.aborted held))
  | .pull, .tail => some { c with reader := .closed }
  | .chunk value, .reading buffer =>
    some ({ c with chunks := c.chunks ++ [value] }.emit
      (readBlocks c.aborted (normalise (buffer ++ value)).1 (normalise (buffer ++ value)).2))
  | .finish, .reading buffer => some (c.emit (readTail buffer))
  | .raise, .reading _ => some { c with reader := .closed }
  | .leave, .start => some { c with reader := .closed }
  | .leave, .yielded _ _ => some { c with reader := .closed }
  | .leave, .capped _ => some { c with reader := .closed }
  | .leave, .tail => some { c with reader := .closed }
  | .abort, _ => some { c with aborted := true }
  | _, _ => none

theorem emit_running {c : Connection} (h : c.aborted = false) (r : Option SseEvent × Reader) :
    c.emit r = { c with reader := r.2, events := c.events ++ r.1.toList } := by
  rw [emit, h]
  rfl

theorem emit_aborted {c : Connection} (h : c.aborted = true) (r : Option SseEvent × Reader) :
    c.emit r = { c with reader := r.2, late := c.late ++ r.1.toList } := by
  rw [emit, h]
  rfl

end Connection

inductive ReaderRule (c : Connection) : ReaderAction → Connection → Prop where
  | start (h : c.reader = .start) : ReaderRule c .pull (c.emit (readLoop c.aborted []))
  | blocks {buffer held : JsString} (h : c.reader = .yielded buffer held) :
      ReaderRule c .pull (c.emit (readBlocks c.aborted buffer held))
  | rest {held : JsString} (h : c.reader = .capped held) :
      ReaderRule c .pull (c.emit (readLoop c.aborted held))
  | last (h : c.reader = .tail) : ReaderRule c .pull { c with reader := .closed }
  | chunk {buffer value : JsString} (h : c.reader = .reading buffer) :
      ReaderRule c (.chunk value) ({ c with chunks := c.chunks ++ [value] }.emit
        (readBlocks c.aborted (normalise (buffer ++ value)).1 (normalise (buffer ++ value)).2))
  | finish {buffer : JsString} (h : c.reader = .reading buffer) :
      ReaderRule c .finish (c.emit (readTail buffer))
  | close {a : ReaderAction} (h : a = .raise ∨ a = .leave) :
      ReaderRule c a { c with reader := .closed }
  | abort : ReaderRule c .abort { c with aborted := true }

theorem reader_rule {c c' : Connection} {a : ReaderAction} :
    c.step a = some c' → ReaderRule c a c' := by
  fun_cases Connection.step c a <;> intro h <;> cases h
  case case1 hr => exact .start hr
  case case2 hr => exact .blocks hr
  case case3 hr => exact .rest hr
  case case4 hr => exact .last hr
  case case5 hr => exact .chunk hr
  case case6 hr => exact .finish hr
  case case12 => exact .abort
  all_goals first
    | exact .close (Or.inl rfl)
    | exact .close (Or.inr rfl)

/-! ## Without an abort -/

section Refinement
variable {buffer held : JsString} {chunks : List JsString}

theorem nextEvent_none (h : indexOf [lf, lf] buffer = none) : nextEvent buffer = (none, buffer) := by
  rw [nextEvent]
  split
  · rfl
  · rename_i h'
    rw [h] at h'
    cases h'

theorem nextEvent_some {split : Nat} (h : indexOf [lf, lf] buffer = some split) :
    nextEvent buffer =
      match parseBlock (buffer.take split) with
      | some parsed => (some parsed, buffer.drop (split + 2))
      | none => nextEvent (buffer.drop (split + 2)) := by
  rw [nextEvent]
  split
  · rename_i h'
    rw [h] at h'
    cases h'
  · rename_i h'
    rw [h] at h'
    cases h'
    rfl

/-- A block that is an event is yielded before anything that follows it. -/
theorem nextEvent_block {b : JsString} {parsed : SseEvent} (h : IsBlock [lf, lf] b)
    (hp : parseBlock b = some parsed) (rest : JsString) :
    nextEvent (b ++ [lf, lf] ++ rest) = (some parsed, rest) := by
  rw [nextEvent_some (h.indexOf rest)]
  simp [hp]

theorem readBlocks_block {b : JsString} {parsed : SseEvent} (h : IsBlock [lf, lf] b)
    (hp : parseBlock b = some parsed) (aborted : Bool) (rest held : JsString) :
    readBlocks aborted (b ++ [lf, lf] ++ rest) held = (some parsed, .yielded rest held) := by
  rw [readBlocks, nextEvent_block h hp]

theorem drain_none (h : indexOf [lf, lf] buffer = none) : drain buffer = ([], buffer) := by
  rw [drain, blocks_of_none _ h]
  rfl

theorem drain_some {split : Nat} (h : indexOf [lf, lf] buffer = some split) :
    drain buffer = ((parseBlock (buffer.take split)).toList ++ (drain (buffer.drop (split + 2))).1,
      (drain (buffer.drop (split + 2))).2) := by
  rw [drain, blocks_of_some _ h]
  dsimp only [drain, List.length_cons, List.length_nil]
  rw [List.filterMap_cons]
  cases parseBlock (buffer.take split) <;> rfl

/-- The blocks before the next event are none; it and those after it are the events of the loop. -/
theorem drain_nextEvent (buffer : JsString) :
    drain buffer = match nextEvent buffer with
      | (some parsed, rest) => (parsed :: (drain rest).1, (drain rest).2)
      | (none, rest) => ([], rest) := by
  fun_induction nextEvent buffer with
  | case1 buffer h => exact drain_none h
  | case2 buffer split h parsed hp =>
    rw [drain_some h, hp]
    rfl
  | case3 buffer split h hp ih =>
    rw [drain_some h, hp, ih]
    rfl

/-- What one chunk gives, once it is in the buffer. -/
def readReady (buffer held : JsString) : List SseEvent × JsString :=
  let (events, buffer) := drain buffer
  if maxPendingChars < buffer.length then
    (events ++ ((parseBlock (buffer.take maxEventChars)).map SseEvent.mark).toList, held)
  else (events, buffer ++ held)

theorem readChunk_eq (buffer value : JsString) :
    readChunk buffer value =
      readReady (normalise (buffer ++ value)).1 (normalise (buffer ++ value)).2 := rfl

/-- The events to come if these are the chunks to come and nothing aborts. -/
def Reader.remaining : Reader → List JsString → List SseEvent
  | .start, chunks => readFrom [] chunks
  | .reading buffer, chunks => readFrom buffer chunks
  | .yielded buffer held, chunks =>
    (readReady buffer held).1 ++ readFrom (readReady buffer held).2 chunks
  | .capped held, chunks => readFrom held chunks
  | .tail, _ => []
  | .closed, _ => []

def Reader.ended : Reader → Bool
  | .tail => true
  | .closed => true
  | _ => false

theorem readTail_remaining (buffer : JsString) :
    (readTail buffer).1.toList ++ (readTail buffer).2.remaining [] = readFrom buffer [] ∧
      (readTail buffer).2.ended = true := by
  rw [readTail, readFrom]
  cases parseBlock (normalise buffer).1 <;> exact ⟨rfl, rfl⟩

theorem readRest_remaining (buffer held : JsString) (chunks : List JsString) :
    (readRest false buffer held).1.toList ++ (readRest false buffer held).2.remaining chunks =
      if maxPendingChars < buffer.length then
        ((parseBlock (buffer.take maxEventChars)).map SseEvent.mark).toList ++ readFrom held chunks
      else readFrom (buffer ++ held) chunks := by
  unfold readRest
  split
  · cases parseBlock (buffer.take maxEventChars) <;> rfl
  · rfl

theorem readBlocks_remaining (buffer held : JsString) (chunks : List JsString) :
    (readBlocks false buffer held).1.toList ++ (readBlocks false buffer held).2.remaining chunks =
      (readReady buffer held).1 ++ readFrom (readReady buffer held).2 chunks := by
  have events := drain_nextEvent buffer
  unfold readBlocks
  cases h : nextEvent buffer with
  | mk parsed rest =>
    rw [h] at events
    cases parsed with
    | none =>
      rw [readReady, events]
      dsimp only
      rw [readRest_remaining]
      split <;> simp
    | some parsed =>
      rw [readReady, events]
      simp only [Option.toList_some, Reader.remaining, readReady]
      split <;> simp

/-- A generator that goes on yields its events in order. -/
structure Continues (c : Connection) : Prop where
  running : c.aborted = false
  total : ∀ chunks, (c.reader.ended = true → chunks = []) →
    c.events ++ c.reader.remaining chunks = readEvents (c.chunks ++ chunks)

/-- The actions of a connection that is read to its end. -/
def undisturbed : ReaderAction → Prop
  | .pull => True
  | .chunk _ => True
  | .finish => True
  | _ => False

theorem Continues.step {c c' : Connection} {a : ReaderAction} (h : Continues c)
    (ha : undisturbed a) (hs : c.step a = some c') : Continues c' := by
  obtain ⟨running, total⟩ := h
  -- a step that takes nothing from outside
  have pulled {r : Option SseEvent × Reader} (opened : c.reader.ended = false)
      (same : ∀ chunks, r.1.toList ++ r.2.remaining chunks = c.reader.remaining chunks) :
      Continues (c.emit r) := by
    rw [Connection.emit_running running]
    refine ⟨running, fun chunks _ => ?_⟩
    rw [List.append_assoc, same]
    exact total chunks fun h => by rw [opened] at h; cases h
  cases reader_rule hs with
  | start hr =>
    rw [running]
    exact pulled (by rw [hr]; rfl) fun chunks => by rw [hr]; rfl
  | blocks hr =>
    rw [running]
    exact pulled (by rw [hr]; rfl) fun chunks => by rw [hr, readBlocks_remaining]; rfl
  | rest hr =>
    rw [running]
    exact pulled (by rw [hr]; rfl) fun chunks => by rw [hr]; rfl
  | last hr =>
    refine ⟨running, fun chunks hc => ?_⟩
    have := total chunks fun _ => hc rfl
    rwa [hr] at this
  | @chunk buffer value hr =>
    have got : ({ c with chunks := c.chunks ++ [value] } : Connection).aborted = false := running
    rw [Connection.emit_running got, running]
    refine ⟨rfl, fun chunks _ => ?_⟩
    have := total (value :: chunks) fun h => by rw [hr] at h; cases h
    dsimp only
    rw [List.append_assoc, readBlocks_remaining, ← readChunk_eq, List.append_assoc,
      List.singleton_append, ← this, hr]
    rfl
  | finish hr =>
    rw [Connection.emit_running running]
    refine ⟨running, fun chunks hc => ?_⟩
    obtain rfl := hc (readTail_remaining _).2
    have := total [] fun _ => rfl
    dsimp only
    rw [List.append_assoc, (readTail_remaining _).1, ← this, hr]
    rfl
  | close h => rcases h with rfl | rfl <;> exact absurd ha id
  | abort => exact absurd ha id

/-- Read to its end, the generator has yielded the events of the chunks it has read. -/
theorem events_of_ended {c : Connection} (hr : Run Connection.step (fun _ a => undisturbed a) {} c)
    (ended : c.reader = .closed) : c.events = readEvents c.chunks := by
  have h : Continues c := hr.invariant ⟨rfl, fun _ _ => rfl⟩ fun h ha hs => h.step ha hs
  have := h.total [] fun _ => rfl
  rwa [ended, Reader.remaining, List.append_nil, List.append_nil] at this

end Refinement

end Karr.Frontend
