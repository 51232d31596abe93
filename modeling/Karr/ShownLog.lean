import Karr.Frontend.LogView
import Karr.Abort

/-!
# What the log view shows

However its connections come and go: the last lines of all that its streams
delivered, stream after stream, with the restart marker before each stream but
that of the first fetch. What a stream delivered begins the events of the bytes it
was read in; where the cleanup interrupts it, those read by then.
-/

set_option autoImplicit false

namespace Karr.Frontend

open JavaScript Interleaving

/-! ## The events one after the other -/

theorem follow_append {es : List SseEvent} (h : (follow es).2 = .reconnecting)
    (more : List SseEvent) :
    follow (es ++ more) = ((follow es).1 ++ (follow more).1, (follow more).2) := by
  induction es with
  | nil => rfl
  | cons e es ih =>
    rw [List.cons_append, follow]
    rw [follow] at h ⊢
    by_cases hend : e.event = js "end"
    · rw [if_pos hend] at h
      cases h
    · rw [if_neg hend] at h ⊢
      rw [if_neg hend]
      by_cases herror : e.event = js "error"
      · rw [if_pos herror] at h
        cases h
      · rw [if_neg herror] at h ⊢
        rw [if_neg herror, ih h]
        rfl

theorem follow_line_of_ne {e : SseEvent} (not_end : e.event ≠ js "end")
    (not_error : e.event ≠ js "error") : follow [e] = ([unescapeLine e.data], .reconnecting) := by
  rw [follow, if_neg not_end, if_neg not_error]
  rfl

theorem follow_end {e : SseEvent} (h : e.event = js "end") : follow [e] = ([], .ended) := by
  rw [follow, if_pos h]

theorem follow_error {e : SseEvent} (h : e.event = js "error") :
    follow [e] = ([], .error (if e.data = [] then js "stream failed" else e.data)) := by
  have hend : js "error" ≠ js "end" := by decide
  rw [follow, h, if_neg hend, if_pos rfl]

/-! ## The generator and its loop -/

/-- Suspended at a yield. -/
def Reader.atYield : Reader → Bool
  | .yielded _ _ => true
  | .capped _ => true
  | .tail => true
  | _ => false

/-- An event comes from a yield, and only from there. -/
structure Turns (r : Option SseEvent × Reader) : Prop where
  yields : r.1.isSome = r.2.atYield
  started : r.2 ≠ .start

theorem turns_readTail (buffer : JsString) : Turns (readTail buffer) := by
  rw [readTail]
  split <;> exact ⟨rfl, Reader.noConfusion⟩

theorem turns_readLoop (aborted : Bool) (buffer : JsString) : Turns (readLoop aborted buffer) := by
  unfold readLoop
  split
  · exact turns_readTail buffer
  · exact ⟨rfl, Reader.noConfusion⟩

theorem turns_readBlocks (aborted : Bool) (buffer held : JsString) :
    Turns (readBlocks aborted buffer held) := by
  unfold readBlocks
  split
  · exact ⟨rfl, Reader.noConfusion⟩
  · unfold readRest
    split
    · split
      · exact ⟨rfl, Reader.noConfusion⟩
      · exact turns_readLoop aborted _
    · exact turns_readLoop aborted _

theorem readLoop_aborted (buffer : JsString) : readLoop true buffer = readTail buffer := rfl

theorem readTail_reads (buffer : JsString) :
    (readTail buffer).1.toList ++ (readTail buffer).2.remaining [] = readFrom buffer [] :=
  (readTail_remaining buffer).1

/-- A generator that sees the abort at the head of its loop yields what it would yield at the
end of the body. -/
theorem readBlocks_drains (buffer held : JsString) :
    (readBlocks true buffer held).1.toList ++ (readBlocks true buffer held).2.remaining [] =
      (readReady buffer held).1 ++ readFrom (readReady buffer held).2 [] := by
  have events := drain_nextEvent buffer
  unfold readBlocks
  cases h : nextEvent buffer with
  | mk parsed rest =>
    rw [h] at events
    cases parsed with
    | some parsed =>
      rw [readReady, events]
      simp only [Option.toList_some, Reader.remaining, readReady]
      split <;> simp
    | none =>
      rw [readReady, events]
      dsimp only
      unfold readRest
      by_cases cap : maxPendingChars < rest.length
      · rw [if_pos cap, if_pos cap]
        cases parseBlock (rest.take maxEventChars) with
        | none => exact readTail_reads held
        | some parsed => rfl
      · rw [if_neg cap, if_neg cap]
        exact readTail_reads (rest ++ held)

def Reader.waits : Reader → Bool
  | .reading _ => true
  | _ => false

theorem readTail_waits (buffer : JsString) : (readTail buffer).2.waits = false := by
  rw [readTail]
  split <;> rfl

theorem readBlocks_waits (buffer held : JsString) :
    (readBlocks true buffer held).2.waits = false := by
  unfold readBlocks
  split
  · rfl
  · unfold readRest
    split
    · split
      · rfl
      · exact readTail_waits held
    · exact readTail_waits _

namespace Connection

def yielded (c : Connection) : List SseEvent := c.events ++ c.late

/-- Nothing is late before the abort. -/
def Punctual (c : Connection) : Prop := c.aborted = false → c.late = []

/-- What the generator does next for its loop. -/
structure Moves (c c' : Connection) (new : Option SseEvent) : Prop where
  yielded : c'.yielded = c.yielded ++ new.toList
  turns : Turns (new, c'.reader)
  punctual : c'.Punctual
  aborted : c'.aborted = c.aborted

variable {c c' : Connection}

theorem emit_moves (h : c.Punctual) {r : Option SseEvent × Reader} (hr : Turns r) :
    Moves c (c.emit r) r.1 := by
  by_cases aborted : c.aborted = true
  · rw [emit_aborted aborted]
    exact ⟨(List.append_assoc _ _ _).symm, hr, fun h => absurd (aborted.symm.trans h) (by decide), rfl⟩
  · have running : c.aborted = false := Bool.eq_false_iff.mpr aborted
    rw [emit_running running]
    refine ⟨?_, hr, fun _ => h running, rfl⟩
    simp [Connection.yielded, h running]

theorem closed_moves (h : c.Punctual) : Moves c { c with reader := .closed } none :=
  ⟨(List.append_nil _).symm, ⟨rfl, Reader.noConfusion⟩, h, rfl⟩

theorem moves_of_settled {a : ReaderAction} (h : c.Punctual) (hset : LogView.settles a = true)
    (hs : c.step a = some c') : ∃ new, Moves c c' new := by
  cases reader_rule hs with
  | start => cases hset
  | blocks => cases hset
  | rest => cases hset
  | last => cases hset
  | @chunk buffer value hr =>
    have m := emit_moves (c := { c with chunks := c.chunks ++ [value] }) h (turns_readBlocks c.aborted
      (normalise (buffer ++ value)).1 (normalise (buffer ++ value)).2)
    exact ⟨_, m.yielded, m.turns, m.punctual, m.aborted⟩
  | finish => exact ⟨_, emit_moves h (turns_readTail _)⟩
  | close => exact ⟨_, closed_moves h⟩
  | abort => cases hset

theorem moves_of_pull (h : c.Punctual) (hs : c.step .pull = some c') : ∃ new, Moves c c' new := by
  cases reader_rule hs with
  | start => exact ⟨_, emit_moves h (turns_readLoop _ _)⟩
  | blocks => exact ⟨_, emit_moves h (turns_readBlocks _ _ _)⟩
  | rest => exact ⟨_, emit_moves h (turns_readLoop _ _)⟩
  | last => exact ⟨_, closed_moves h⟩
  | close ha => rcases ha with ha | ha <;> cases ha

theorem leave_eq (hs : c.step .leave = some c') : c' = { c with reader := .closed } := by
  cases reader_rule hs with
  | close => rfl

/-- After the abort no read begins; what is still to come is in the buffer, and in the chunk of
a read that was under way. -/
structure Drains (c : Connection) : Prop where
  aborted : c.aborted = true
  total : ∀ more, (c.reader.waits = false → more = []) →
    c.yielded ++ c.reader.remaining more = readEvents (c.chunks ++ more)

theorem drains_of_continues (h : Continues c) (late : c.late = []) :
    Drains { c with aborted := true } := by
  refine ⟨rfl, fun more hmore => ?_⟩
  have total := h.total more fun ended => hmore <| by
    cases hr : c.reader with
    | reading => rw [hr] at ended; cases ended
    | _ => rfl
  rwa [← List.append_nil c.events, ← late] at total

theorem Drains.emit (h : Drains c) {r : Option SseEvent × Reader} (waits : r.2.waits = false)
    (value : List JsString)
    (same : r.1.toList ++ r.2.remaining [] = c.reader.remaining value)
    (hvalue : c.reader.waits = false → value = []) :
    Drains ({ c with chunks := c.chunks ++ value }.emit r) := by
  have hd : ({ c with chunks := c.chunks ++ value } : Connection).aborted = true := h.aborted
  rw [emit_aborted hd]
  refine ⟨h.aborted, fun more hmore => ?_⟩
  rw [hmore waits, List.append_nil]
  have total := h.total value hvalue
  rw [← same] at total
  simpa [yielded] using total

theorem Drains.step {a : ReaderAction} (h : Drains c) (ha : a ≠ .abort)
    (hs : c.step a = some c') : c' = { c with reader := .closed } ∨ Drains c' := by
  have pulled {r : Option SseEvent × Reader} (waits : r.2.waits = false)
      (same : r.1.toList ++ r.2.remaining [] = c.reader.remaining []) : Drains (c.emit r) := by
    have more := h.emit waits [] same fun _ => rfl
    rwa [List.append_nil] at more
  cases reader_rule hs with
  | start hr =>
    rw [h.aborted, readLoop_aborted]
    exact Or.inr (pulled (readTail_waits _) (by rw [hr]; exact readTail_reads []))
  | blocks hr =>
    rw [h.aborted]
    exact Or.inr (pulled (readBlocks_waits _ _) (by rw [hr]; exact readBlocks_drains _ _))
  | @rest held hr =>
    rw [h.aborted, readLoop_aborted]
    exact Or.inr (pulled (readTail_waits _) (by rw [hr]; exact readTail_reads held))
  | last => exact Or.inl rfl
  | @chunk buffer value hr =>
    refine Or.inr (h.emit ?_ [value] ?_ fun idle => ?_)
    · rw [h.aborted]
      exact readBlocks_waits _ _
    · rw [h.aborted, hr, readBlocks_drains, ← readChunk_eq]
      rfl
    · rw [hr] at idle
      cases idle
  | @finish buffer hr =>
    exact Or.inr (pulled (readTail_waits _) (by rw [hr]; exact readTail_reads buffer))
  | close => exact Or.inl rfl
  | abort => cases ha rfl

/-- The body has come to its end, or the cleanup has been: no more bytes count. -/
def Over (finished : Bool) (c : Connection) : Prop := finished = true ∨ c.aborted = true

/-- The events begin those of any body that begins with the bytes read, and of these alone
where no more count. -/
structure Reads (finished : Bool) (c : Connection) : Prop where
  events : ∀ more, (c.Over finished → more = []) → c.yielded <+: readEvents (c.chunks ++ more)
  reader : c.reader = .closed ∨ (Continues c ∧ (c.reader.ended = true → finished = true)) ∨ Drains c

variable {finished : Bool}

theorem reads_of_continues (h : Continues c) (punctual : c.Punctual)
    (ended : c.reader.ended = true → finished = true) : c.Reads finished := by
  refine ⟨fun more hmore => ?_, Or.inr (Or.inl ⟨h, ended⟩)⟩
  rw [yielded, punctual h.running, List.append_nil]
  exact ⟨_, h.total more fun e => hmore (Or.inl (ended e))⟩

theorem reads_of_drains (h : Drains c) : c.Reads finished := by
  refine ⟨fun more hmore => ?_, Or.inr (Or.inr h)⟩
  obtain rfl := hmore (Or.inr h.aborted)
  exact ⟨_, h.total [] fun _ => rfl⟩

theorem Reads.close (h : c.Reads finished) : Reads finished { c with reader := .closed } :=
  ⟨h.events, Or.inl rfl⟩

/-- The cleanup at any moment. -/
theorem Reads.abort (h : c.Reads finished) (punctual : c.Punctual) :
    Reads finished { c with aborted := true } := by
  rcases h.reader with closed | ⟨continues, -⟩ | drains
  · refine ⟨fun more hmore => ?_, Or.inl closed⟩
    obtain rfl := hmore (Or.inr rfl)
    exact h.events [] fun _ => rfl
  · exact reads_of_drains (drains_of_continues continues (punctual continues.running))
  · have same : ({ c with aborted := true } : Connection) = c := by rw [← drains.aborted]
    rwa [same]

theorem readLoop_open (buffer : JsString) : (readLoop false buffer).2.ended = false := rfl

theorem readBlocks_open (buffer held : JsString) :
    (readBlocks false buffer held).2.ended = false := by
  unfold readBlocks
  split
  · rfl
  · unfold readRest
    split
    · split <;> rfl
    · rfl

theorem emit_reader (c : Connection) (r : Option SseEvent × Reader) : (c.emit r).reader = r.2 := by
  unfold emit
  split <;> rfl

theorem Reads.step {a : ReaderAction} (h : c.Reads finished) (ha : a ≠ .abort)
    (hs : c.step a = some c') (punctual : c'.Punctual) : c'.Reads (finished || a == .finish) := by
  have frozen : Reads finished { c with reader := .closed } →
      Reads (finished || a == .finish) { c with reader := .closed } := fun h =>
    ⟨fun more hmore => h.events more fun e => hmore (e.imp_left fun e => by rw [e]; rfl),
      Or.inl rfl⟩
  rcases h.reader with closed | ⟨continues, ended⟩ | drains
  · cases reader_rule hs with
    | close => exact frozen h.close
    | abort => cases ha rfl
    | start hr => cases closed.symm.trans hr
    | blocks hr => cases closed.symm.trans hr
    | rest hr => cases closed.symm.trans hr
    | last hr => cases closed.symm.trans hr
    | chunk hr => cases closed.symm.trans hr
    | finish hr => cases closed.symm.trans hr
  · have running := continues.running
    have opens {r : Option SseEvent × Reader} {d : Connection} (hr : r.2.ended = false)
        (h : (d.emit r).reader.ended = true) : (finished || a == .finish) = true := by
      rw [emit_reader, hr] at h
      cases h
    cases reader_rule hs with
    | close => exact frozen h.close
    | abort => cases ha rfl
    | start hr =>
      have pull : undisturbed .pull := trivial
      exact reads_of_continues (continues.step pull hs) punctual
        (opens (running ▸ readLoop_open _))
    | blocks hr =>
      have pull : undisturbed .pull := trivial
      exact reads_of_continues (continues.step pull hs) punctual
        (opens (running ▸ readBlocks_open _ _))
    | rest hr =>
      have pull : undisturbed .pull := trivial
      exact reads_of_continues (continues.step pull hs) punctual
        (opens (running ▸ readLoop_open _))
    | @chunk buffer value hr =>
      have chunk : undisturbed (.chunk value) := trivial
      exact reads_of_continues (continues.step chunk hs) punctual
        (opens (running ▸ readBlocks_open _ _))
    | last hr =>
      have pull : undisturbed .pull := trivial
      refine reads_of_continues (continues.step pull hs) punctual fun _ => ?_
      rw [ended (by rw [hr]; rfl)]
      rfl
    | finish hr =>
      have finish : undisturbed .finish := trivial
      refine reads_of_continues (continues.step finish hs) punctual fun _ => ?_
      cases finished <;> rfl
  · -- after the abort a step drains, or it closes the generator
    rcases drains.step ha hs with rfl | drains'
    · exact frozen h.close
    · exact reads_of_drains drains'

end Connection

namespace LogView

/-! ## One stream -/

namespace Opened

/-- The events the loop has handled. -/
def seen (o : Opened) : List SseEvent := o.yielded.take o.handled

def mark (o : Opened) : List JsString := if o.fetch = 1 then [] else [restartMarker]

/-- What the stream puts into the log. -/
def shown (o : Opened) : List JsString := o.mark ++ (follow o.seen).1

/-- While the loop reads. -/
structure Reading (o : Opened) : Prop where
  /-- At most one event is in flight. -/
  turn : if o.connection.reader.atYield then o.yielded.length = o.handled + 1
    else o.yielded.length = o.handled
  started : o.connection.reader ≠ .start
  punctual : o.connection.Punctual
  stays : (follow o.seen).2 = .reconnecting
  reads : o.connection.Reads o.finished

variable {o : Opened} {c : Connection} {e : SseEvent}

theorem seen_all (h : o.yielded.length = o.handled) : o.seen = o.yielded :=
  List.take_of_length_le (Nat.le_of_eq h)

/-- With nothing in flight the loop waits. -/
theorem Reading.idle (h : o.Reading) (hr : o.connection.reader.atYield = false) :
    o.yielded.length = o.handled := by
  have turn := h.turn
  rwa [hr, if_neg Bool.false_ne_true] at turn

theorem Reading.flight (h : o.Reading) (he : o.Yields e) :
    o.connection.reader.atYield = true ∧ o.yielded = o.seen ++ [e] ∧
      o.yielded.length = o.handled + 1 := by
  have turn := h.turn
  obtain ⟨hlt, he⟩ := List.getElem?_eq_some_iff.mp he
  split at turn
  · rename_i hr
    refine ⟨hr, ?_, turn⟩
    rw [seen, ← he, List.take_append_getElem, ← turn, List.take_length]
  · omega

theorem seen_of_settled {new : Option SseEvent} {a : ReaderAction}
    (h : o.yielded.length = o.handled) (m : o.connection.Moves c new) :
    (o.settled a c).seen = o.seen := by
  have yielded : (o.settled a c).yielded = o.yielded ++ new.toList := m.yielded
  have same : (o.settled a c).handled = o.yielded.length := h.symm
  rw [seen, yielded, same, List.take_left, seen_all h]

theorem Reading.settled {a : ReaderAction} (h : o.Reading) (hset : settles a = true)
    (hs : o.connection.step a = some c) :
    (o.settled a c).Reading ∧ (o.settled a c).seen = o.seen ∧
      c.aborted = o.connection.aborted := by
  have idle : o.connection.reader.atYield = false := by
    cases reader_rule hs with
    | start => cases hset
    | blocks => cases hset
    | rest => cases hset
    | last => cases hset
    | chunk hr => rw [hr]; rfl
    | finish hr => rw [hr]; rfl
    | close ha =>
      rcases ha with rfl | rfl
      · cases hr : o.connection.reader with
        | reading => rfl
        | _ => simp [Connection.step, hr] at hs
      · cases hset
    | abort => cases hset
  have all := h.idle idle
  obtain ⟨new, m⟩ := Connection.moves_of_settled h.punctual hset hs
  have seen := seen_of_settled (a := a) all m
  have yielded : (o.settled a c).yielded = o.yielded ++ new.toList := m.yielded
  have not_abort : a ≠ .abort := by
    rintro rfl
    cases hset
  refine ⟨⟨?_, m.turns.started, m.punctual, ?_, ?_⟩, seen, m.aborted⟩
  · have reader : (o.settled a c).connection.reader = c.reader := rfl
    rw [reader, ← m.turns.yields, yielded, List.length_append, all]
    cases new <;> rfl
  · rw [seen]
    exact h.stays
  · exact h.reads.step not_abort hs m.punctual

theorem seen_next {new : Option SseEvent} (h : o.Reading) (he : o.Yields e)
    (m : o.connection.Moves c new) : (o.next c).seen = o.seen ++ [e] := by
  obtain ⟨-, yielded, length⟩ := h.flight he
  have more : (o.next c).yielded = o.yielded ++ new.toList := m.yielded
  have one : (o.next c).handled = o.yielded.length := length.symm
  rw [seen, more, one, List.take_left, yielded]

theorem Reading.next (h : o.Reading) (he : o.Yields e) (not_end : e.event ≠ js "end")
    (not_error : e.event ≠ js "error") (hs : o.connection.step .pull = some c) :
    (o.next c).Reading ∧ (o.next c).shown = o.shown ++ [unescapeLine e.data] ∧
      c.aborted = o.connection.aborted := by
  obtain ⟨-, -, length⟩ := h.flight he
  obtain ⟨new, m⟩ := Connection.moves_of_pull h.punctual hs
  have seen := seen_next h he m
  have more : (o.next c).yielded = o.yielded ++ new.toList := m.yielded
  have follows : follow (o.next c).seen =
      ((follow o.seen).1 ++ [unescapeLine e.data], .reconnecting) := by
    rw [seen, follow_append h.stays, follow_line_of_ne not_end not_error]
  refine ⟨⟨?_, m.turns.started, m.punctual, ?_, ?_⟩, ?_, m.aborted⟩
  · have reader : (o.next c).connection.reader = c.reader := rfl
    rw [reader, ← m.turns.yields, more, List.length_append, length]
    cases new <;> rfl
  · rw [follows]
  · have reads := h.reads.step ReaderAction.noConfusion hs m.punctual
    have same : (o.finished || (ReaderAction.pull == .finish)) = o.finished := Bool.or_false _
    rwa [same] at reads
  · rw [shown, follows, shown, List.append_assoc]
    rfl

/-- The event that ends the stream puts nothing into the log. -/
theorem Reading.last (h : o.Reading) (he : o.Yields e)
    (hs : o.connection.step .leave = some c) :
    (o.next c).seen = o.seen ++ [e] ∧ (follow (o.next c).seen).2 = (follow [e]).2 ∧
      c.aborted = o.connection.aborted := by
  obtain rfl := Connection.leave_eq hs
  have seen := seen_next h he (Connection.closed_moves h.punctual)
  refine ⟨seen, ?_, rfl⟩
  rw [seen, follow_append h.stays]

theorem Reading.aborted (h : o.Reading) :
    ({ o with connection := { o.connection with aborted := true } } : Opened).Reading :=
  ⟨h.turn, h.started, fun running => (nomatch running), h.stays, h.reads.abort h.punctual⟩

/-- What was seen of a stream begins the events of any body that begins with the bytes read; of
one that came to its end, or that the cleanup found open, those of the bytes read alone. -/
def Lawful (o : Opened) : Prop :=
  ∀ more, (o.connection.Over o.finished → more = []) →
    o.seen <+: readEvents (o.connection.chunks ++ more)

theorem Reading.lawful (h : o.Reading) : o.Lawful := fun more hmore =>
  (List.take_prefix _ _).trans (h.reads.events more hmore)

theorem Reading.lawful_next (h : o.Reading) (he : o.Yields e)
    (hs : o.connection.step .leave = some c) : (o.next c).Lawful := by
  intro more hmore
  obtain ⟨-, yielded, -⟩ := h.flight he
  obtain ⟨seen, -, -⟩ := h.last he hs
  obtain rfl := Connection.leave_eq hs
  rw [seen, ← yielded]
  exact h.reads.events more hmore

end Opened

/-! ## All of them -/

def Pending.stream : Pending → List Opened
  | .events o => [o]
  | _ => []

/-- The streams the view has opened. -/
def View.streams (v : View) : List Opened := v.past ++ v.pending.stream

structure LogOk (v : View) : Prop where
  log : v.lines = (v.streams.flatMap Opened.shown).rtake maxLines
  reading : ∀ o, v.pending = .events o → o.Reading ∧ o.connection.aborted = v.aborted
  past : ∀ o ∈ v.past, o.Lawful ∧ (o.connection.aborted = true → v.aborted = true)
  first : v.aborted = false → v.pending = .fetch → (v.attempt = 0 ↔ v.fetches = 1)
  retry : ∀ delay, v.pending = .timer delay → 0 < v.attempt
  begun : 0 < v.fetches

theorem maxLines_pos : 0 < maxLines := by decide

/-- A step that leaves the streams alone and is not about the next fetch. -/
theorem LogOk.quiet {v v' : View} (h : LogOk v) (lines : v'.lines = v.lines)
    (past : v'.past = v.past) (aborted : v.aborted = true → v'.aborted = true)
    (stream : v.pending.stream = []) (stream' : v'.pending.stream = [])
    (first : v'.aborted = false → v'.pending = .fetch → (v'.attempt = 0 ↔ v'.fetches = 1))
    (retry : ∀ delay, v'.pending = .timer delay → 0 < v'.attempt) (begun : 0 < v'.fetches) :
    LogOk v' := by
  refine ⟨?_, ?_, ?_, first, retry, begun⟩
  · have same : v'.streams = v.streams := by
      rw [View.streams, View.streams, past, stream, stream']
    rw [lines, same]
    exact h.log
  · intro o ho
    rw [ho] at stream'
    cases stream'
  · intro o ho
    obtain ⟨lawful, abort⟩ := h.past o (past ▸ ho)
    exact ⟨lawful, fun ha => aborted (abort ha)⟩

theorem opened_reading (v : View) : v.opened.Reading where
  turn := rfl
  started := Reader.noConfusion
  punctual := fun _ => rfl
  stays := rfl
  reads := by
    have start : Continues {} := ⟨rfl, fun _ _ => rfl⟩
    exact Connection.reads_of_continues (start.step (a := .pull) trivial rfl) (fun _ => rfl)
      Bool.noConfusion

/-- The stream is over, and the log as it was. -/
theorem LogOk.ended {v w : View} {o o' : Opened} (h : LogOk v) (hp : v.pending = .events o)
    (lines : w.lines = v.lines) (past : w.past = v.past ++ [o']) (aborted : w.aborted = v.aborted)
    (same : o'.connection.aborted = o.connection.aborted) (stream : w.pending.stream = [])
    (shown : o'.shown = o.shown) (lawful : o'.Lawful)
    (fetch : w.pending ≠ .fetch) (retry : ∀ delay, w.pending = .timer delay → 0 < w.attempt)
    (begun : 0 < w.fetches) : LogOk w := by
  refine ⟨?_, ?_, ?_, fun _ hf => absurd hf fetch, retry, begun⟩
  · have before : v.streams = v.past ++ [o] := by rw [View.streams, hp]; rfl
    have after : w.streams = v.past ++ [o'] := by
      rw [View.streams, stream, List.append_nil, past]
    rw [lines, h.log, before, after]
    simp only [List.flatMap_append, List.flatMap_singleton, shown]
  · intro p hp'
    rw [hp'] at stream
    cases stream
  · intro p hp'
    rw [past] at hp'
    rw [aborted]
    rcases List.mem_append.mp hp' with hp' | hp'
    · exact h.past p hp'
    · rw [List.mem_singleton.mp hp']
      exact ⟨lawful, fun ha => (h.reading o hp).2 ▸ same ▸ ha⟩

theorem LogOk.streams_of {v : View} (h : v.pending.stream = []) : v.streams = v.past := by
  rw [View.streams, h, List.append_nil]

theorem LogOk.step {v v' : View} {a : Action} (h : LogOk v) (hs : v.step a = some v') :
    LogOk v' := by
  have idle (hp : v.pending = .fetch) : v.pending.stream = [] := by rw [hp]; rfl
  cases view_rule hs with
  | ignored aborted hp =>
    have stream : v.pending.stream = [] := by
      rcases hp with hp | ⟨message, hp⟩ <;> rw [hp] <;> rfl
    exact h.quiet rfl rfl id stream rfl (fun _ hf => nomatch hf) (fun _ hf => nomatch hf) h.begun
  | refused running hp =>
    exact h.quiet rfl rfl id (idle hp) rfl (fun _ hf => nomatch hf) (fun _ _ => Nat.succ_pos _) h.begun
  | unauthorized running hp =>
    exact h.quiet rfl rfl id (idle hp) rfl (fun _ hf => nomatch hf) (fun _ hf => nomatch hf) h.begun
  | refusal running hp =>
    exact h.quiet rfl rfl id (idle hp) rfl (fun _ hf => nomatch hf) (fun _ hf => nomatch hf) h.begun
  | empty running hp =>
    exact h.quiet rfl rfl id (idle hp) rfl (fun _ hf => nomatch hf) (fun _ hf => nomatch hf) h.begun
  | stream running hp ok =>
    have first := h.first running hp
    have log := h.log
    rw [LogOk.streams_of (idle hp)] at log
    refine ⟨?_, ?_, h.past, (fun _ hf => nomatch hf), (fun _ hf => nomatch hf),
      h.begun⟩
    · have shown : v.opened.shown = if v.fetches = 1 then [] else [restartMarker] := by
        rw [Opened.shown, Opened.seen]
        exact List.append_nil v.opened.mark
      by_cases retried : 0 < v.attempt
      · have later : v.fetches ≠ 1 := fun one => by
          have := first.mpr one
          omega
        simp only [if_pos retried, View.streams, View.append, Pending.stream,
          List.flatMap_append, List.flatMap_singleton, shown, if_neg later, log]
        exact Window.push_rtake maxLines_pos _ _
      · have one : v.fetches = 1 := first.mp (by omega)
        simp only [if_neg retried, View.streams, Pending.stream, List.flatMap_append,
          List.flatMap_singleton, shown, if_pos one, log, List.append_nil]
    · rintro o ⟨⟩
      exact ⟨opened_reading v, running.symm⟩
  | explained running hp detail =>
    have stream : v.pending.stream = [] := by rw [hp]; rfl
    exact h.quiet rfl rfl id stream rfl (fun _ hf => nomatch hf) (fun _ hf => nomatch hf) h.begun
  | @read o a c hp hset hstep =>
    obtain ⟨reading, aborted⟩ := h.reading _ hp
    obtain ⟨reading', seen, same⟩ := reading.settled hset hstep
    refine ⟨?_, ?_, h.past, (fun _ hf => nomatch hf), (fun _ hf => nomatch hf),
      h.begun⟩
    · have log := h.log
      rw [View.streams, hp] at log
      have shown : (o.settled a c).shown = o.shown := by
        rw [Opened.shown, Opened.shown, seen]
        rfl
      simp only [View.streams, Pending.stream, List.flatMap_append, List.flatMap_singleton,
        shown] at log ⊢
      exact log
    · rintro p ⟨⟩
      exact ⟨reading', same.trans aborted⟩
  | @ended o e c hp he kind hstep =>
    obtain ⟨reading, -⟩ := h.reading _ hp
    obtain ⟨seen, -, same⟩ := reading.last he hstep
    have shown : (o.next c).shown = o.shown := by
      rw [Opened.shown, seen, follow_append reading.stays, follow_end kind, List.append_nil]
      rfl
    exact h.ended (w := (v.counted o).finish.closed (o.next c)) hp rfl rfl rfl same rfl shown
      (reading.lawful_next he hstep) Pending.noConfusion (fun _ hf => nomatch hf) h.begun
  | @failed o e c hp he kind hstep =>
    obtain ⟨reading, -⟩ := h.reading _ hp
    obtain ⟨seen, -, same⟩ := reading.last he hstep
    have shown : (o.next c).shown = o.shown := by
      rw [Opened.shown, seen, follow_append reading.stays, follow_error kind, List.append_nil]
      rfl
    obtain ⟨detail, phase, hfail⟩ := View.fail_eq (v.counted o)
      (if e.data = [] then js "stream failed" else e.data)
    rw [hfail]
    exact h.ended (w := View.closed _ (o.next c)) hp rfl rfl rfl same rfl shown
      (reading.lawful_next he hstep) Pending.noConfusion (fun _ hf => nomatch hf) h.begun
  | @line o e c hp he not_end not_error hstep =>
    obtain ⟨reading, aborted⟩ := h.reading _ hp
    obtain ⟨reading', shown, same⟩ := reading.next he not_end not_error hstep
    refine ⟨?_, ?_, h.past, (fun _ hf => nomatch hf), (fun _ hf => nomatch hf),
      h.begun⟩
    · have log := h.log
      rw [View.streams, hp] at log
      simp only [Pending.stream, List.flatMap_append, List.flatMap_singleton] at log
      simp only [View.streams, View.append, View.counted, Pending.stream, List.flatMap_append,
        List.flatMap_singleton, shown, log]
      rw [← List.append_assoc]
      exact Window.push_rtake maxLines_pos _ _
    · rintro p ⟨⟩
      exact ⟨reading', same.trans aborted⟩
  | @closed o hp closed all =>
    obtain ⟨reading, aborted⟩ := h.reading _ hp
    obtain ⟨attempt, phase, pending, hdrop, hfetch, hevents, htimer⟩ := View.dropped_eq (v.closed o)
    have stream : pending.stream = [] := by
      cases pending with
      | events o => exact absurd rfl (hevents o)
      | _ => rfl
    rw [hdrop]
    exact h.ended (o := o) hp rfl rfl rfl rfl stream rfl reading.lawful hfetch htimer h.begun
  | @fire delay hp =>
    have stream : v.pending.stream = [] := by rw [hp]; rfl
    have retry := h.retry delay hp
    have begun := h.begun
    rw [View.connect]
    split
    · exact h.quiet rfl rfl id stream rfl (fun _ hf => nomatch hf) (fun _ hf => nomatch hf) begun
    · refine h.quiet rfl rfl id stream rfl (fun _ _ => ?_) (fun _ hf => nomatch hf) (Nat.succ_pos _)
      -- neither the first attempt nor the first fetch
      dsimp only
      omega
  | cleanup =>
    cases hp : v.pending with
    | events o =>
      obtain ⟨reading, -⟩ := h.reading _ hp
      have log := h.log
      have shown : ({ o with connection := { o.connection with aborted := true } } : Opened).shown =
        o.shown := rfl
      simp only [View.streams, hp, Pending.stream, List.flatMap_append,
        List.flatMap_singleton] at log
      refine ⟨?_, ?_, fun p hp' => ⟨(h.past p hp').1, fun _ => rfl⟩,
        (fun aborted => nomatch aborted), ?_, h.begun⟩
      · simp only [View.streams, View.cleanup, hp, Pending.stream, List.flatMap_append,
          List.flatMap_singleton, shown]
        exact log
      · simp only [View.cleanup, hp]
        rintro p ⟨⟩
        exact ⟨reading.aborted, rfl⟩
      · simp [View.cleanup, hp]
    | _ =>
      have stream : v.pending.stream = [] := by rw [hp]; rfl
      refine h.quiet rfl rfl (fun _ => rfl) stream ?_ (fun aborted => nomatch aborted) ?_ h.begun
      · simp only [View.cleanup, hp]
        rfl
      · simp [View.cleanup, hp]

theorem logOk_mounted : LogOk mounted where
  log := by
    have none : mounted.streams = [] := rfl
    rw [none, List.flatMap_nil, List.rtake_nil]
    rfl
  reading := fun _ hf => nomatch hf
  past := fun _ hf => nomatch hf
  first := fun _ _ => ⟨fun _ => rfl, fun _ => rfl⟩
  retry := fun _ hf => nomatch hf
  begun := Nat.one_pos

/-- Any run of the view from its mount on. -/
abbrev Runs : View → Prop := Run View.step (fun _ _ => True) mounted

theorem logOk {v : View} (hr : Runs v) : LogOk v :=
  hr.invariant logOk_mounted fun h _ hs => h.step hs

/-- The view shows the last lines of its streams, and what it has seen of a stream begins the
events of the body it was read from, however the stream is over. -/
theorem shown_log {v : View} (hr : Runs v) :
    v.lines = (v.streams.flatMap Opened.shown).rtake maxLines ∧ v.lines.length ≤ maxLines ∧
      ∀ o ∈ v.streams, o.Lawful := by
  have ok := logOk hr
  refine ⟨ok.log, ?_, ?_⟩
  · rw [ok.log]
    exact Window.length_rtake_le _ _
  · intro o ho
    rcases List.mem_append.mp ho with ho | ho
    · exact (ok.past o ho).1
    · cases hp : v.pending with
      | events p =>
        rw [hp] at ho
        rw [List.mem_singleton.mp ho]
        exact (ok.reading p hp).1.lawful
      | _ =>
        rw [hp] at ho
        cases ho

/-! ## A connection that breaks off -/

theorem step_read {v : View} {o : Opened} {a : ReaderAction} {c : Connection}
    (h : v.pending = .events o) (hset : settles a = true) (hs : o.connection.step a = some c) :
    v.step (.read a) = some { v with pending := .events (o.settled a c) } := by
  simp only [View.step, h, if_pos hset, hs]
  rfl

theorem step_line {v : View} {o : Opened} {e : SseEvent} {c : Connection}
    (h : v.pending = .events o) (he : o.Yields e) (not_end : e.event ≠ js "end")
    (not_error : e.event ≠ js "error") (hs : o.connection.step .pull = some c) :
    v.step .deliver =
      some { (v.counted o).append (unescapeLine e.data) with pending := .events (o.next c) } := by
  unfold Opened.Yields at he
  simp only [View.step, h, he, Option.bind_some, View.handle, if_neg not_end, if_neg not_error, hs]
  rfl

/-- The first stream, behind its only frame. -/
def brokeOff : Opened where
  fetch := 1
  connection := { firstYielded [] with reader := .closed }
  handled := 1

/-- The view has reconnected after a frame. -/
def reconnected : View where
  lines := [js "a", restartMarker]
  phase := .streaming
  attempt := 1
  pending := .events ⟨2, { reader := .reading [] }, 0, false⟩
  fetches := 2
  waited := 1000
  past := [brokeOff]

theorem reconnected_run : Runs reconnected := by
  have none : readBlocks false [] [] = (Option.none, .reading []) := by
    rw [readBlocks, nextEvent_none (by decide)]
    rfl
  have pull : (firstYielded []).step .pull =
      some { firstYielded [] with reader := .reading [] } := by
    simp only [Connection.step, firstYielded, none]
    rfl
  have opens : mounted.step (.answer ⟨200, js "OK", true⟩) =
      some { mounted with phase := .streaming, pending := .events mounted.opened } := rfl
  have yields : ∀ o : Opened, o.connection = firstYielded [] → o.handled = 0 →
      o.Yields ⟨js "message", js "a"⟩ := by
    intro o hc hn
    rw [Opened.Yields, Opened.yielded, hc, hn]
    rfl
  have chunk := step_read (v := { mounted with
    phase := .streaming, pending := .events mounted.opened }) rfl rfl
    (@step_first [] (by decide))
  have start : Run View.step (fun _ _ => True) mounted mounted := Run.refl
  have run := Run.step (Run.step start trivial opens) trivial chunk
  have line := step_line (v := { mounted with
    phase := .streaming
    pending := .events (mounted.opened.settled (.chunk (first ++ [lf, lf] ++ [])) (firstYielded []))
    }) rfl (yields _ rfl rfl) (by decide) (by decide) pull
  have run := Run.step run trivial line
  have run := Run.step run trivial (a := .read .raise) rfl
  have run := Run.step run trivial (a := .close) rfl
  have run := Run.step run trivial (a := .fire) rfl
  exact Run.step run trivial (a := .answer ⟨200, js "OK", true⟩) rfl

/-- The cleanup finds the second stream open. -/
theorem shown_log_reconnected : reconnected.cleanup.lines =
    (reconnected.cleanup.streams.flatMap Opened.shown).rtake maxLines ∧
      reconnected.cleanup.lines.length ≤ maxLines ∧
      ∀ o ∈ reconnected.cleanup.streams, o.Lawful :=
  shown_log (.step reconnected_run trivial (a := .cleanup) rfl)

end LogView

end Karr.Frontend
