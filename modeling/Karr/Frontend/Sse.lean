import Karr.JavaScript
import Karr.Lib.Blocks

/-!
# The reader of the log stream

`readEvents` with no abort signal. What the body is read in is a list of decoded
chunks, and the events are those the generator yields until the body ends.
-/

set_option autoImplicit false

namespace Karr.Frontend

open JavaScript Blocks

structure SseEvent where
  event : JsString
  data : JsString
  deriving DecidableEq, Repr

def maxPendingChars : Nat := 1024 * 1024
def maxEventChars : Nat := 64 * 1024
def truncatedMarker : JsString := js " …[truncated]"

/-- `data.replace(/\\(n|r|\\)/g, …)`, from left to right. -/
def unescapeLine : JsString → JsString
  | [] => []
  | [c] => [c]
  | c :: e :: s =>
    if c = backslash then
      if e = 110 then lf :: unescapeLine s
      else if e = 114 then cr :: unescapeLine s
      else if e = backslash then backslash :: unescapeLine s
      else c :: unescapeLine (e :: s)
    else c :: unescapeLine (e :: s)

def parseField (line : JsString) : JsString × JsString :=
  match indexOf [colon] line with
  | none => (line, [])
  | some k =>
    let value := line.drop (k + 1)
    (line.take k, if value.head? = some space then value.drop 1 else value)

/-- One line of a block: the event and the data so far, and those after it. -/
def parseLine (state : JsString × List JsString) (line : JsString) : JsString × List JsString :=
  if line = [] ∨ line.head? = some colon then state
  else
    let (field, value) := parseField line
    if field = js "event" then (value, state.2)
    else if field = js "data" then (state.1, state.2 ++ [value])
    else state

def truncate (joined : JsString) : JsString :=
  if maxEventChars < joined.length then joined.take maxEventChars ++ truncatedMarker else joined

def parseBlock (block : JsString) : Option SseEvent :=
  let (event, data) := (block.splitOn lf).foldl parseLine (js "message", [])
  if data = [] ∧ event = js "message" then none
  else some ⟨event, truncate (List.intercalate [lf] data)⟩

/-- `replace(/\r\n|\r/g, '\n')` -/
def replaceCr : JsString → JsString
  | [] => []
  | [c] => [if c = cr then lf else c]
  | c :: d :: s =>
    if c = cr then
      if d = lf then lf :: replaceCr s else lf :: replaceCr (d :: s)
    else c :: replaceCr (d :: s)

/-- What is ready, and the `\r` held back. -/
def normalise (buffer : JsString) : JsString × JsString :=
  let held := if buffer.getLast? = some cr then [cr] else []
  (replaceCr (buffer.take (buffer.length - held.length)), held)

/-- The loop on `indexOf('\n\n')`: the events, and the buffer it leaves. -/
def drain (buffer : JsString) : List SseEvent × JsString :=
  let (finished, rest) := blocks [lf, lf] (List.cons_ne_nil _ _) buffer
  (finished.filterMap parseBlock, rest)

def SseEvent.mark (e : SseEvent) : SseEvent := { e with data := e.data ++ truncatedMarker }

/-- One chunk: the events, and the buffer after it. -/
def readChunk (buffer value : JsString) : List SseEvent × JsString :=
  let (ready, held) := normalise (buffer ++ value)
  let (events, buffer) := drain ready
  if maxPendingChars < buffer.length then
    (events ++ ((parseBlock (buffer.take maxEventChars)).map SseEvent.mark).toList, held)
  else (events, buffer ++ held)

def readFrom (buffer : JsString) : List JsString → List SseEvent
  | [] => (parseBlock (normalise buffer).1).toList
  | value :: chunks =>
    let (events, buffer) := readChunk buffer value
    events ++ readFrom buffer chunks

def readEvents (chunks : List JsString) : List SseEvent := readFrom [] chunks

/-! ## Unescaping -/

theorem unescapeLine_cons {c : UInt16} (h : c ≠ backslash) (s : JsString) :
    unescapeLine (c :: s) = c :: unescapeLine s := by
  cases s with
  | nil => rfl
  | cons e s => rw [unescapeLine, if_neg h]

theorem truncate_of_le {s : JsString} (h : s.length ≤ maxEventChars) : truncate s = s :=
  if_neg (Nat.not_lt.mpr h)

/-! ## Blocks -/

theorem splitOn_line {line : JsString} (h : lf ∉ line) : line.splitOn lf = [line] :=
  List.splitOnP_eq_singleton fun u hu => by
    simpa using fun he : u = lf => h (he ▸ hu)

theorem parseBlock_line {line : JsString} (h : lf ∉ line) :
    parseBlock line =
      let (event, data) := parseLine (js "message", []) line
      if data = [] ∧ event = js "message" then none
      else some ⟨event, truncate (List.intercalate [lf] data)⟩ := by
  rw [parseBlock, splitOn_line h]
  rfl

theorem splitOn_cons_line {line : JsString} (h : lf ∉ line) (rest : JsString) :
    (line ++ lf :: rest).splitOn lf = line :: rest.splitOn lf :=
  List.splitOnP_append_cons_of_forall_mem
    (fun u hu => by simpa using fun he : u = lf => h (he ▸ hu)) lf (by simp) rest

/-- An empty line before a block does not matter. -/
theorem parseBlock_lf (block : JsString) : parseBlock (lf :: block) = parseBlock block := by
  have : ([] ++ lf :: block).splitOn lf = [] :: block.splitOn lf :=
    splitOn_cons_line List.not_mem_nil block
  rw [List.nil_append] at this
  rw [parseBlock, this]
  rfl

theorem parseLine_data (state : JsString × List JsString) (s : JsString) :
    parseLine state (js "data: " ++ s) = (state.1, state.2 ++ [s]) := by
  rfl

theorem parseLine_event (state : JsString × List JsString) (s : JsString) :
    parseLine state (js "event: " ++ s) = (s, state.2) := by
  rfl

theorem lf_not_mem_dataField {s : JsString} (h : lf ∉ s) : lf ∉ js "data: " ++ s := by
  rw [List.mem_append, not_or]
  exact ⟨by decide, h⟩

theorem parseBlock_data {s : JsString} (h : lf ∉ s) :
    parseBlock (js "data: " ++ s) = some ⟨js "message", truncate s⟩ := by
  rw [parseBlock_line (lf_not_mem_dataField h), parseLine_data]
  simp

theorem parseBlock_event {name s : JsString} (hname : lf ∉ name) (h : lf ∉ s) :
    parseBlock (js "event: " ++ name ++ lf :: (js "data: " ++ s)) = some ⟨name, truncate s⟩ := by
  have hevent : lf ∉ js "event: " ++ name := by
    rw [List.mem_append, not_or]
    exact ⟨by decide, hname⟩
  rw [parseBlock, splitOn_cons_line hevent, splitOn_line (lf_not_mem_dataField h)]
  simp [parseLine_event, parseLine_data]

end Karr.Frontend
