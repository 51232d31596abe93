import Karr.Frontend.Reader

/-!
# After the abort

`readEvents` looks at its signal before a read and nowhere else. What it has read
by then it still yields: the blocks left in the buffer, what a pending read
brings, and the rest of the buffer as a last block.
-/

set_option autoImplicit false

namespace Karr.Frontend

open JavaScript Blocks Interleaving

theorem terminator_ne_nil : [lf, lf] ≠ [] := List.cons_ne_nil lf [lf]

/-- The blocks the buffer still holds, and what stands after them. -/
def finished (buffer : JsString) : List JsString := (blocks [lf, lf] terminator_ne_nil buffer).1

def unfinished (buffer : JsString) : JsString := (blocks [lf, lf] terminator_ne_nil buffer).2

/-- No block of the text is an event, nor is the rest, cut off or read as the last block. -/
structure NoEvent (buffer held : JsString) : Prop where
  blocks : ∀ b ∈ finished buffer, parseBlock b = none
  rest : maxPendingChars < (unfinished buffer).length →
    parseBlock ((unfinished buffer).take maxEventChars) = none
  tail : (unfinished buffer).length ≤ maxPendingChars →
    parseBlock (normalise (unfinished buffer ++ held)).1 = none

/-- Once the signal has fired: a consumer that goes on finds no event in the buffer, and a
read that still resolves brings none and completes none. -/
def Spent (c : Connection) (a : ReaderAction) : Prop :=
  c.aborted = true →
    match a, c.reader with
    | .pull, .yielded buffer held => NoEvent buffer held
    | .chunk value, .reading buffer =>
      NoEvent (normalise (buffer ++ value)).1 (normalise (buffer ++ value)).2
    | .finish, .reading buffer => parseBlock (normalise buffer).1 = none
    | _, _ => True

/-- The `\r` held back is all that `held` can be. -/
def HeldOk : Reader → Prop
  | .yielded _ held => held = [] ∨ held = [cr]
  | .capped held => held = [] ∨ held = [cr]
  | _ => True

section Abort
variable {buffer held : JsString}

theorem normalise_held (buffer : JsString) :
    (normalise buffer).2 = [] ∨ (normalise buffer).2 = [cr] := by
  simp only [normalise]
  split
  · exact Or.inr rfl
  · exact Or.inl rfl

theorem readTail_none : (readTail buffer).1 = none ↔ parseBlock (normalise buffer).1 = none := by
  rw [readTail]
  cases parseBlock (normalise buffer).1 <;> simp

/-- A held `\r` alone is no block. -/
theorem readTail_held (h : held = [] ∨ held = [cr]) : readTail held = (none, .closed) := by
  rcases h with rfl | rfl <;> rfl

theorem nextEvent_eq_none (buffer : JsString) :
    ((nextEvent buffer).1 = none ↔ ∀ b ∈ finished buffer, parseBlock b = none) ∧
    ((nextEvent buffer).1 = none → (nextEvent buffer).2 = unfinished buffer) := by
  unfold finished unfinished
  fun_induction nextEvent buffer with
  | case1 buffer h =>
    rw [blocks_of_none _ h]
    exact ⟨iff_of_true rfl (List.forall_mem_nil _), fun _ => rfl⟩
  | case2 buffer split h parsed hp =>
    rw [blocks_of_some _ h]
    refine ⟨iff_of_false (Option.some_ne_none _) fun none => ?_,
      fun h => absurd h (Option.some_ne_none _)⟩
    rw [none _ List.mem_cons_self] at hp
    cases hp
  | case3 buffer split h hp ih =>
    rw [blocks_of_some _ h]
    refine ⟨ih.1.trans ?_, ih.2⟩
    rw [List.forall_mem_cons]
    exact ⟨fun h => ⟨hp, h⟩, fun h => h.2⟩

theorem readRest_eq_none (h : held = [] ∨ held = [cr]) :
    (readRest true buffer held).1 = none ↔
      (maxPendingChars < buffer.length → parseBlock (buffer.take maxEventChars) = none) ∧
      (buffer.length ≤ maxPendingChars → parseBlock (normalise (buffer ++ held)).1 = none) := by
  unfold readRest readLoop
  by_cases cap : maxPendingChars < buffer.length
  · have long : ¬ buffer.length ≤ maxPendingChars := by omega
    rw [if_pos cap]
    cases parseBlock (buffer.take maxEventChars) with
    | none => simp [readTail_held h, long]
    | some parsed => simp [cap]
  · rw [if_neg cap, if_pos rfl, readTail_none]
    exact ⟨fun none => ⟨fun h => absurd h cap, fun _ => none⟩, fun h => h.2 (by omega)⟩

theorem readBlocks_eq_none (h : held = [] ∨ held = [cr]) :
    (readBlocks true buffer held).1 = none ↔ NoEvent buffer held := by
  obtain ⟨none, rest⟩ := nextEvent_eq_none buffer
  unfold readBlocks
  cases next : nextEvent buffer with
  | mk parsed rest' =>
    rw [next] at none rest
    cases parsed with
    | none =>
      obtain rfl : rest' = _ := rest rfl
      rw [readRest_eq_none h]
      exact ⟨fun h => ⟨none.mp rfl, h.1, h.2⟩, fun h => ⟨h.rest, h.tail⟩⟩
    | some parsed =>
      exact iff_of_false (Option.some_ne_none _) fun h => Option.some_ne_none _ (none.mpr h.blocks)

theorem readTail_heldOk (buffer : JsString) : HeldOk (readTail buffer).2 := by
  rw [readTail]
  cases parseBlock (normalise buffer).1 <;> trivial

theorem readLoop_heldOk (aborted : Bool) (buffer : JsString) :
    HeldOk (readLoop aborted buffer).2 := by
  unfold readLoop
  split
  · exact readTail_heldOk buffer
  · trivial

theorem readBlocks_heldOk (aborted : Bool) (buffer : JsString) (h : held = [] ∨ held = [cr]) :
    HeldOk (readBlocks aborted buffer held).2 := by
  unfold readBlocks
  split
  · exact h
  · unfold readRest
    split
    · split
      · exact h
      · exact readLoop_heldOk aborted held
    · exact readLoop_heldOk aborted _

end Abort

section Runs
variable {c c' : Connection} {a : ReaderAction}

theorem HeldOk.step (h : HeldOk c.reader) (hs : c.step a = some c') : HeldOk c'.reader := by
  have emitted (d : Connection) (r : Option SseEvent × Reader) (hr : HeldOk r.2) :
      HeldOk (d.emit r).reader := by
    unfold Connection.emit
    split <;> exact hr
  cases reader_rule hs with
  | start => exact emitted c _ (readLoop_heldOk _ _)
  | blocks hr =>
    rw [hr] at h
    exact emitted c _ (readBlocks_heldOk _ _ h)
  | rest => exact emitted c _ (readLoop_heldOk _ _)
  | last => trivial
  | chunk => exact emitted _ _ (readBlocks_heldOk _ _ (normalise_held _))
  | finish => exact emitted c _ (readTail_heldOk _)
  | close => trivial
  | abort => exact h

/-- A step after the abort yields an event exactly where its condition fails. -/
theorem late_eq_iff (held : HeldOk c.reader) (hs : c.step a = some c') :
    c'.late = c.late ↔ Spent c a := by
  by_cases aborted : c.aborted = true
  · have emitted (d : Connection) (hd : d.aborted = true) (r : Option SseEvent × Reader) :
        (d.emit r).late = d.late ↔ r.1 = none := by
      rw [Connection.emit_aborted hd]
      cases r.1 <;> simp
    have spent : Spent c a ↔ _ := forall_prop_of_true aborted
    rw [spent]
    cases reader_rule hs with
    | start hr =>
      rw [emitted c aborted, hr, aborted]
      exact iff_of_true rfl trivial
    | blocks hr =>
      rw [hr] at held
      rw [emitted c aborted, hr, aborted]
      exact readBlocks_eq_none held
    | rest hr =>
      rw [hr] at held
      rw [emitted c aborted, hr, aborted]
      refine iff_of_true ?_ trivial
      exact congrArg Prod.fst (readTail_held held)
    | last hr =>
      rw [hr]
      exact iff_of_true rfl trivial
    | @chunk buffer value hr =>
      have hd : ({ c with chunks := c.chunks ++ [value] } : Connection).aborted = true := aborted
      rw [emitted _ hd, hr, aborted]
      exact readBlocks_eq_none (normalise_held _)
    | finish hr =>
      rw [emitted c aborted, hr]
      exact readTail_none
    | close h =>
      refine iff_of_true rfl ?_
      rcases h with rfl | rfl <;> cases c.reader <;> trivial
    | abort => exact iff_of_true rfl (by cases c.reader <;> trivial)
  · refine iff_of_true ?_ fun h => absurd h aborted
    have running : c.aborted = false := Bool.eq_false_iff.mpr aborted
    have emitted (d : Connection) (hd : d.aborted = false) (r : Option SseEvent × Reader) :
        (d.emit r).late = d.late := by
      rw [Connection.emit_running hd]
    cases reader_rule hs with
    | start => exact emitted c running _
    | blocks => exact emitted c running _
    | rest => exact emitted c running _
    | last => rfl
    | @chunk buffer value => exact emitted { c with chunks := c.chunks ++ [value] } running _
    | finish => exact emitted c running _
    | close => rfl
    | abort => rfl

end Runs

/-- After the abort no event comes as long as nothing readable is left; the first step for
which that fails yields one. -/
theorem late_of_spent {c : Connection} (hr : Run Connection.step Spent {} c) :
    c.late = [] ∧ ∀ a c', c.step a = some c' → ¬ Spent c a → c'.late ≠ [] := by
  have inv : HeldOk c.reader ∧ c.late = [] := by
    induction hr with
    | refl => exact ⟨trivial, rfl⟩
    | step _ spent hs ih => exact ⟨ih.1.step hs, ((late_eq_iff ih.1 hs).mpr spent).trans ih.2⟩
  refine ⟨inv.2, fun a c' hs left none => left ?_⟩
  exact (late_eq_iff inv.1 hs).mp (none.trans inv.2.symm)

/-- Two frames. -/
def first : JsString := js "data: a"
def second : JsString := js "data: b"

theorem parseBlock_first : IsBlock [lf, lf] first ∧
    parseBlock first = some ⟨js "message", js "a"⟩ :=
  ⟨by unfold IsBlock; decide, by decide⟩

theorem parseBlock_second : IsBlock [lf, lf] second ∧
    parseBlock second = some ⟨js "message", js "b"⟩ :=
  ⟨by unfold IsBlock; decide, by decide⟩

/-- A chunk that starts with the first frame has been read, and the frame yielded. -/
def firstYielded (rest : JsString) : Connection where
  reader := .yielded rest []
  chunks := [first ++ [lf, lf] ++ rest]
  events := [⟨js "message", js "a"⟩]

theorem step_first {rest : JsString}
    (ready : normalise (first ++ [lf, lf] ++ rest) = (first ++ [lf, lf] ++ rest, [])) :
    ({ reader := .reading [] } : Connection).step (.chunk (first ++ [lf, lf] ++ rest)) =
      some (firstYielded rest) := by
  have yields := readBlocks_block parseBlock_first.1 parseBlock_first.2 false rest []
  simp only [Connection.step, List.nil_append, ready, yields]
  rfl

/-- The signal fires at the yield of the only frame. -/
theorem late_of_spent_frame :
    ∃ c, Run Connection.step Spent {} c ∧ c.aborted = true ∧ c.reader = .closed ∧
      c.events = [⟨js "message", js "a"⟩] ∧ c.late = [] := by
  have none : NoEvent [] [] := by
    have hb : blocks [lf, lf] terminator_ne_nil [] = ([], []) := blocks_of_none _ (by decide)
    constructor <;> simp only [finished, unfinished, hb] <;> decide
  have last : ({ firstYielded [] with aborted := true } : Connection).step .pull =
      some { firstYielded [] with aborted := true, reader := .closed } := by
    have yields : readBlocks true [] [] = (Option.none, .closed) := by
      rw [readBlocks, nextEvent_none (by decide)]
      rfl
    simp only [Connection.step, firstYielded, yields]
    rfl
  have run : Run Connection.step Spent {} _ :=
    .step (.step (.step (.step .refl Bool.noConfusion (a := .pull) rfl)
      Bool.noConfusion (step_first (by decide))) Bool.noConfusion (a := .abort) rfl)
      (fun _ => none) last
  exact ⟨_, run, rfl, rfl, rfl, (late_of_spent run).1⟩

def SilentAfterAbort : Prop :=
  ∀ c, Run Connection.step (fun _ _ => True) {} c → c.late = []

/-- Two frames in one chunk: the signal fires at the yield of the first. -/
theorem not_silentAfterAbort : ¬ SilentAfterAbort := by
  intro silent
  have last : ({ firstYielded (second ++ [lf, lf] ++ []) with aborted := true } : Connection).step
      .pull = some { firstYielded (second ++ [lf, lf] ++ []) with
        aborted := true, reader := .yielded [] [], late := [⟨js "message", js "b"⟩] } := by
    have yields := readBlocks_block parseBlock_second.1 parseBlock_second.2 true [] []
    simp only [Connection.step, firstYielded, yields]
    rfl
  have run : Run Connection.step (fun _ _ => True) {} _ :=
    .step (.step (.step (.step .refl trivial (a := .pull) rfl) trivial (step_first (by decide)))
      trivial (a := .abort) rfl) trivial last
  cases silent _ run

end Karr.Frontend
