import Karr.Api.Relay
import Karr.Lib.Interleaving

/-!
# What a relay emits

The queue followed by what the pump holds is what the upstream gives from the
first line on that has not been emitted. A step of the pump extends that
stretch at its end, a step of the generator moves its start.
-/

set_option autoImplicit false

namespace Karr.Sse

open Interleaving

/-- The lines among the first `n` reads of an upstream. -/
def linesTo (lines : Nat → Option Pulled) : Nat → List String
  | 0 => []
  | n + 1 =>
    match lines n with
    | some (.line text) => linesTo lines n ++ [text]
    | _ => linesTo lines n

/-- Read `n` has been answered, with `p`. -/
def Given (lines : Nat → Option Pulled) (reads n : Nat) (p : Pulled) : Prop :=
  n < reads ∧ lines n = some p

/-- The frames sent are the data frames of the first `n` lines, and keepalives. -/
structure Sent (lines : Nat → Option Pulled) (reads n : Nat) (frames : List Frame) : Prop where
  all : ∀ k < n, ∃ text, Given lines reads k (.line text)
  frames : frames.filter (fun f => decide (f ≠ .keepalive)) = (linesTo lines n).map Frame.data

/-- How a stream may end after `n` lines: not yet, or with one terminal frame. -/
inductive Ends (lines : Nat → Option Pulled) (deadline now : Int) (reads n : Nat) :
    List Frame → Prop
  | not_yet : Ends lines deadline now reads n []
  | ended (finished : Given lines reads n .finished) :
      Ends lines deadline now reads n [.terminal .ended ""]
  | error {message : String} (failed : Given lines reads n (.bonnieError message)) :
      Ends lines deadline now reads n
        [.terminal .error (if message = "" then "stream failed" else message)]
  | exception {className : String} (failed : Given lines reads n (.exception className)) :
      Ends lines deadline now reads n [.terminal .error ("stream failed: " ++ className)]
  | timeLimit (passed : deadline ≤ now) :
      Ends lines deadline now reads n [.terminal .ended timeLimitReached]

/-- The law of the output at one moment, when the upstream has answered `reads` reads. -/
def RelayLaw (lines : Nat → Option Pulled) (now : Int) (reads : Nat) (r : Relay) : Prop :=
  ∃ n body last, r.emitted = body ++ last ∧ Sent lines reads n body ∧
    Ends lines r.deadline now reads n last

/-- A relay, the clock of its event loop and the number of reads answered so far. -/
structure Streaming where
  now : Int
  relay : Relay := {}
  reads : Nat := 0

inductive StreamAction where
  | tick (d : Nat)
  | relay (a : RelayAction)

def streamStep (s : RelaySettings) (c : Streaming) : StreamAction → Option Streaming
  | .tick d => some { c with now := c.now + d }
  | .relay a => (relayStep s c.now c.relay a).map fun r =>
      { c with relay := r, reads := if a = .read then c.reads + 1 else c.reads }

/-! ## From the queue to the upstream -/

/-- What lies in the queue and in the hands of the pump is what the upstream gave from read
`m` on. -/
inductive Flows (lines : Nat → Option Pulled) (reads : Nat) : Pump → Nat → List Item → Prop
  | reading : Flows lines reads (.reading reads) reads []
  | putting {m : Nat} {p : Pulled} (answered : reads = m + 1) (pulled : lines m = some p) :
      Flows lines reads (.putting m p.item) m []
  | line {pump : Pump} {m : Nat} {text : String} {rest : List Item}
      (pulled : Given lines reads m (.line text)) (tail : Flows lines reads pump (m + 1) rest) :
      Flows lines reads pump m (.line text :: rest)
  | last {m : Nat} {p : Pulled} (pulled : Given lines reads m p)
      (terminal : p.item.isLine = false) : Flows lines reads .done m [p.item]

theorem Given.later {lines : Nat → Option Pulled} {reads n : Nat} {p : Pulled}
    (h : Given lines reads n p) : Given lines (reads + 1) n p :=
  ⟨Nat.lt_succ_of_lt h.1, h.2⟩

section Flow
variable {lines : Nat → Option Pulled} {reads n m : Nat} {queue : List Item} {p : Pulled}
variable {item : Item}

theorem Flows.read (h : Flows lines reads (.reading n) m queue) (pulled : lines n = some p) :
    Flows lines (reads + 1) (.putting n p.item) m queue := by
  generalize hp : Pump.reading n = pump at h
  induction h with
  | reading =>
    cases hp
    exact .putting rfl pulled
  | putting => cases hp
  | line first _ ih => exact .line first.later (ih hp)
  | last => cases hp

theorem Flows.put (h : Flows lines reads (.putting n item) m queue) :
    Flows lines reads (if item.isLine then .reading (n + 1) else .done) m (queue ++ [item]) := by
  generalize hp : Pump.putting n item = pump at h
  induction h with
  | reading => cases hp
  | @putting m p answered pulled =>
    cases hp
    subst answered
    have given : Given lines (n + 1) n p := ⟨Nat.lt_succ_self n, pulled⟩
    cases p with
    | line text => exact .line given .reading
    | finished => exact .last given rfl
    | bonnieError message => exact .last given rfl
    | exception className => exact .last given rfl
  | line first _ ih => exact .line first (ih hp)
  | last => cases hp

end Flow

/-! ## Frames -/

section Frames
variable {lines : Nat → Option Pulled} {reads n : Nat} {frames : List Frame} {deadline now : Int}

theorem sent_nil (lines : Nat → Option Pulled) (reads : Nat) : Sent lines reads 0 [] :=
  ⟨fun _ hk => absurd hk (Nat.not_lt_zero _), rfl⟩

theorem Sent.later (h : Sent lines reads n frames) : Sent lines (reads + 1) n frames :=
  ⟨fun k hk => (h.all k hk).imp fun _ given => given.later, h.frames⟩

theorem Sent.line {text : String} (h : Sent lines reads n frames)
    (pulled : Given lines reads n (.line text)) :
    Sent lines reads (n + 1) (frames ++ [.data text]) := by
  constructor
  · intro k hk
    rcases Nat.lt_succ_iff_lt_or_eq.mp hk with hk | rfl
    · exact h.all k hk
    · exact ⟨text, pulled⟩
  · have htexts : linesTo lines (n + 1) = linesTo lines n ++ [text] := by simp [linesTo, pulled.2]
    rw [List.filter_append, h.frames, htexts, List.map_append]
    rfl

theorem Sent.keepalive (h : Sent lines reads n frames) :
    Sent lines reads n (frames ++ [.keepalive]) :=
  ⟨h.all, by rw [List.filter_append, h.frames]; simp⟩

theorem Ends.later (h : Ends lines deadline now reads n frames) :
    Ends lines deadline now (reads + 1) n frames := by
  cases h with
  | not_yet => exact .not_yet
  | ended finished => exact .ended finished.later
  | error failed => exact .error failed.later
  | exception failed => exact .exception failed.later
  | timeLimit passed => exact .timeLimit passed

theorem Ends.tick (h : Ends lines deadline now reads n frames) (d : Nat) :
    Ends lines deadline (now + d) reads n frames := by
  cases h with
  | not_yet => exact .not_yet
  | ended finished => exact .ended finished
  | error failed => exact .error failed
  | exception failed => exact .exception failed
  | timeLimit passed => exact .timeLimit (by omega)

theorem ends_item {p : Pulled} (pulled : Given lines reads n p) (terminal : p.item.isLine = false) :
    Ends lines deadline now reads n [p.item.frame] := by
  cases p with
  | line text => cases terminal
  | finished => exact .ended pulled
  | bonnieError message => exact .error pulled
  | exception className =>
    have hne : "stream failed: " ++ className ≠ "" := by
      intro h
      have := congrArg String.toList h
      simp at this
    simp only [Pulled.item, Item.frame, if_neg hne]
    exact .exception pulled

end Frames

/-! ## The invariant -/

/-- Until its terminal frame a relay has sent what the upstream gave before the queue. -/
def RelayOk (s : RelaySettings) (now : Int) (reads : Nat) (r : Relay) : Prop :=
  match r.consumer with
  | .unstarted => r.pump = .idle ∧ r.queue = [] ∧ r.emitted = [] ∧ reads = 0
  | .yielded => ∃ n, Sent s.lines reads n r.emitted ∧ Flows s.lines reads r.pump n r.queue
  | .waiting _ => ∃ n, Sent s.lines reads n r.emitted ∧ Flows s.lines reads r.pump n r.queue
  | .finishing => RelayLaw s.lines now reads r
  | .closed => RelayLaw s.lines now reads r

section Steps
variable {s : RelaySettings} {now : Int} {reads : Nat} {r r' : Relay}

theorem law_of_sent {n : Nat} (h : Sent s.lines reads n r.emitted) :
    RelayLaw s.lines now reads r :=
  ⟨n, r.emitted, [], (List.append_nil _).symm, h, .not_yet⟩

theorem RelayLaw.read {lines : Nat → Option Pulled} {pump : Pump}
    (h : RelayLaw lines now reads r) :
    RelayLaw lines now (reads + 1) { r with pump := pump } := by
  obtain ⟨n, body, last, he, sent, ends⟩ := h
  exact ⟨n, body, last, he, sent.later, ends.later⟩

theorem RelayOk.law (h : RelayOk s now reads r) : RelayLaw s.lines now reads r := by
  unfold RelayOk at h
  split at h
  · exact law_of_sent (h.2.2.1 ▸ sent_nil s.lines reads)
  · exact law_of_sent h.choose_spec.1
  · exact law_of_sent h.choose_spec.1
  · exact h
  · exact h

theorem loop_ok {n : Nat} (sent : Sent s.lines reads n r.emitted)
    (flows : Flows s.lines reads r.pump n r.queue) : RelayOk s now reads (r.loop s now) := by
  unfold Relay.loop
  split
  · rename_i late
    exact ⟨n, r.emitted, _, rfl, sent, .timeLimit (show r.deadline ≤ now by omega)⟩
  · exact ⟨n, sent, flows⟩

theorem start_ok (h : RelayOk s now reads r) (hc : r.consumer = .unstarted) :
    RelayOk s now reads ((r.start s now).loop s now) := by
  simp only [RelayOk, hc] at h
  obtain ⟨-, hq, he, rfl⟩ := h
  refine loop_ok (n := 0) ?_ ?_
  · exact he ▸ sent_nil s.lines 0
  · exact hq ▸ .reading

theorem read_ok {n : Nat} {p : Pulled} (h : RelayOk s now reads r) (hp : r.pump = .reading n)
    (pulled : s.lines n = some p) :
    RelayOk s now (reads + 1) { r with pump := .putting n p.item } := by
  obtain ⟨deadline, queue, pump, consumer, emitted⟩ := r
  obtain rfl : pump = .reading n := hp
  cases consumer with
  | unstarted => cases h.1
  | yielded =>
    obtain ⟨m, sent, flows⟩ := h
    exact ⟨m, sent.later, Flows.read flows pulled⟩
  | waiting timeout =>
    obtain ⟨m, sent, flows⟩ := h
    exact ⟨m, sent.later, Flows.read flows pulled⟩
  | finishing => exact RelayLaw.read h
  | closed => exact RelayLaw.read h

theorem put_ok {n : Nat} {item : Item} (h : RelayOk s now reads r)
    (hp : r.pump = .putting n item) :
    RelayOk s now reads { r with
      queue := r.queue ++ [item]
      pump := if item.isLine then .reading (n + 1) else .done } := by
  obtain ⟨deadline, queue, pump, consumer, emitted⟩ := r
  obtain rfl : pump = .putting n item := hp
  cases consumer with
  | unstarted => cases h.1
  | yielded =>
    obtain ⟨m, sent, flows⟩ := h
    exact ⟨m, sent, Flows.put flows⟩
  | waiting timeout =>
    obtain ⟨m, sent, flows⟩ := h
    exact ⟨m, sent, Flows.put flows⟩
  | finishing => exact h
  | closed => exact h

theorem get_ok {timeout : Int} {item : Item} {rest : List Item} (h : RelayOk s now reads r)
    (hc : r.consumer = .waiting timeout) (hq : r.queue = item :: rest) :
    RelayOk s now reads (({ r with queue := rest } : Relay).emit item.frame
      (if item.isLine then .yielded else .finishing)) := by
  obtain ⟨deadline, items, task, consumer, emitted⟩ := r
  obtain rfl : consumer = .waiting timeout := hc
  obtain rfl : items = item :: rest := hq
  obtain ⟨n, sent, flows⟩ := h
  cases flows with
  | line pulled tail => exact ⟨n + 1, Sent.line sent pulled, tail⟩
  | last pulled terminal =>
    rw [if_neg (by simp [terminal])]
    exact ⟨n, emitted, _, rfl, sent, ends_item pulled terminal⟩

theorem relayStep_ok {a : RelayAction} (h : RelayOk s now reads r) :
    relayStep s now r a = some r' →
      RelayOk s now (if a = .read then reads + 1 else reads) r' := by
  fun_cases relayStep s now r a <;> intro hs
  case case1 hc =>
    cases hs
    exact start_ok h hc
  case case2 hc =>
    cases hs
    simp only [RelayOk, hc] at h
    obtain ⟨n, sent, flows⟩ := h
    exact loop_ok sent flows
  case case3 =>
    cases hs
    exact h.law
  case case4 => cases hs
  case case5 => cases hs
  case case6 =>
    cases hs
    exact h.law
  case case7 n hp =>
    obtain ⟨p, pulled, rfl⟩ := Option.map_eq_some_iff.mp hs
    exact read_ok h hp pulled
  case case8 => cases hs
  case case9 n item hp _ =>
    cases hs
    exact put_ok h hp
  case case10 => cases hs
  case case11 => cases hs
  case case12 hq hc =>
    cases hs
    exact get_ok h hc hq
  case case13 => cases hs
  case case14 hc _ _ =>
    cases hs
    simp only [RelayOk, hc] at h
    obtain ⟨n, sent, flows⟩ := h
    exact ⟨n, sent.keepalive, flows⟩
  case case15 hc _ _ =>
    cases hs
    simp only [RelayOk, hc] at h
    obtain ⟨n, sent, flows⟩ := h
    exact loop_ok sent flows
  case case16 => cases hs
  case case17 => cases hs

theorem tick_ok (h : RelayOk s now reads r) (d : Nat) : RelayOk s (now + d) reads r := by
  have later (hl : RelayLaw s.lines now reads r) : RelayLaw s.lines (now + d) reads r := by
    obtain ⟨n, body, last, he, sent, ends⟩ := hl
    exact ⟨n, body, last, he, sent, ends.tick d⟩
  unfold RelayOk at h ⊢
  split at h
  · exact h
  · exact h
  · exact h
  · exact later h
  · exact later h

end Steps

theorem streamStep_ok {s : RelaySettings} {c c' : Streaming} {a : StreamAction}
    (h : RelayOk s c.now c.reads c.relay) (hs : streamStep s c a = some c') :
    RelayOk s c'.now c'.reads c'.relay := by
  cases a with
  | tick d =>
    cases hs
    exact tick_ok h d
  | relay a =>
    obtain ⟨r', hr, rfl⟩ := Option.map_eq_some_iff.mp hs
    exact relayStep_ok h hr

/-- At every moment of every schedule, with keepalives dropped, a relay has emitted the data
frames of a prefix of the upstream's lines and at most one terminal frame for what came next,
or for the deadline. -/
theorem relay_law (s : RelaySettings) (now : Int) {c : Streaming}
    (h : Run (streamStep s) (fun _ _ => True) { now := now } c) :
    RelayLaw s.lines c.now c.reads c.relay := by
  have ok : RelayOk s c.now c.reads c.relay := by
    induction h with
    | refl => exact ⟨rfl, rfl, rfl, rfl⟩
    | step _ _ hs ih => exact streamStep_ok ih hs
  exact ok.law

/-- One line behind a queue of one, a keepalive, and an upstream that fails. -/
def flaky : RelaySettings where
  lines n := if n = 0 then some (.line "started") else some (.bonnieError "host is gone")
  queueMax := 1

def flakyRun : List StreamAction :=
  [.relay .pull, .relay .read, .relay .put, .relay .read, .relay .get, .relay .pull,
    .tick 15000000, .relay .timeout, .relay .pull, .relay .put, .relay .get]

/-- The law at the end of a run that meets a line, a keepalive and an error. -/
theorem relay_law_flaky : ∃ c : Streaming, RelayLaw flaky.lines c.now c.reads c.relay ∧
    c.relay.emitted = [.data "started", .keepalive, .terminal .error "host is gone"] := by
  obtain ⟨c, hrun, hc⟩ := exists_run_of_execute (streamStep flaky) (fun _ _ => true) { now := 0 }
    flakyRun (fun c => decide (c.relay.emitted =
      [.data "started", .keepalive, .terminal .error "host is gone"]))
    (fun _ _ _ => trivial) (by decide)
  exact ⟨c, relay_law flaky 0 hrun, of_decide_eq_true hc⟩

end Karr.Sse
