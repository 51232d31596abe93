import Karr.Api.Sse
import Karr.Frontend.Sse

/-!
# Frames as the reader sees them

Each frame of the relay is one block of the stream, and the text of the relay
has no carriage return for the reader to normalise.
-/

set_option autoImplicit false

namespace Karr.Sse

open JavaScript Blocks Frontend

/-! ## Blank lines -/

theorem blankLine_ne_nil : blankLine ≠ [] := List.cons_ne_nil _ _

theorem indexOf_blank_cons {c : UInt16} (h : c ≠ lf) (s : JsString) :
    indexOf blankLine (c :: s) = (indexOf blankLine s).map (· + 1) := by
  refine indexOf_cons c fun hp => h ?_
  exact (List.cons_prefix_cons.mp hp).1.symm

theorem indexOf_blank_lf {c : UInt16} (h : c ≠ lf) (s : JsString) :
    indexOf blankLine (lf :: c :: s) = (indexOf blankLine (c :: s)).map (· + 1) := by
  refine indexOf_cons lf fun hp => h ?_
  exact (List.cons_prefix_cons.mp (List.cons_prefix_cons.mp hp).2).1.symm

theorem indexOf_blank_append {s : JsString} (h : lf ∉ s) (t : JsString) :
    indexOf blankLine (s ++ t) = (indexOf blankLine t).map (· + s.length) := by
  induction s with
  | nil => simp
  | cons c s ih =>
    rw [List.mem_cons, not_or] at h
    rw [List.cons_append, indexOf_blank_cons (Ne.symm h.1), ih h.2, Option.map_map]
    rfl

theorem isBlock_line {s : JsString} (h : lf ∉ s) : IsBlock blankLine s := by
  have : indexOf blankLine blankLine = some 0 := indexOf_of_prefix (List.prefix_refl _)
  rw [IsBlock, indexOf_blank_append h, this]
  simp

theorem isBlock_lines {s t : JsString} {c : UInt16} (hs : lf ∉ s) (ht : lf ∉ c :: t) :
    IsBlock blankLine (s ++ lf :: c :: t) := by
  have hc : c ≠ lf := fun h => ht (h ▸ List.mem_cons_self)
  have hrest : indexOf blankLine (c :: t ++ blankLine) = some (c :: t).length := isBlock_line ht
  rw [IsBlock, List.append_assoc, indexOf_blank_append hs, List.cons_append, List.cons_append,
    indexOf_blank_lf hc, ← List.cons_append, hrest]
  simp only [Option.map_some, List.length_append, List.length_cons, Option.some.injEq]
  omega

/-! ## Frames -/

theorem lf_not_mem_escaped (line : String) : lf ∉ js (escapeLine line) :=
  fun h => (not_mem_escaped h).1 rfl

theorem lf_not_mem_data (line : String) : lf ∉ js "data: " ++ js (escapeLine line) :=
  lf_not_mem_dataField (lf_not_mem_escaped line)

theorem lf_not_mem_kind (kind : Terminal) : lf ∉ js "event: " ++ js kind.event := by
  cases kind <;> decide

theorem Frame.isBlock (f : Frame) : IsBlock blankLine f.block := by
  cases f with
  | data line => exact isBlock_line (lf_not_mem_data line)
  | keepalive => exact isBlock_line (by decide)
  | terminal kind payload => exact isBlock_lines (lf_not_mem_kind kind) (lf_not_mem_data payload)

/-- The event of a frame that is read as a whole. -/
def Frame.shown : Frame → Option SseEvent
  | .data line => some ⟨js "message", truncate (js (escapeLine line))⟩
  | .keepalive => none
  | .terminal kind payload => some ⟨js kind.event, truncate (js (escapeLine payload))⟩

theorem parseBlock_block (f : Frame) : parseBlock f.block = f.shown := by
  cases f with
  | data line => exact parseBlock_data (lf_not_mem_escaped line)
  | keepalive => rfl
  | terminal kind payload =>
    have hkind : lf ∉ js kind.event := by cases kind <;> decide
    exact parseBlock_event hkind (lf_not_mem_escaped payload)

theorem cr_not_mem_block (f : Frame) : cr ∉ f.block := by
  have escaped (line : String) : cr ∉ js (escapeLine line) := fun h => (not_mem_escaped h).2 rfl
  cases f with
  | data line =>
    rw [Frame.block, List.mem_append, not_or]
    exact ⟨by decide, escaped line⟩
  | keepalive => decide
  | terminal kind payload =>
    simp only [Frame.block, List.mem_append, List.mem_cons, not_or]
    refine ⟨⟨by decide, ?_⟩, by decide, by decide, escaped payload⟩
    cases kind <;> decide

theorem js_streamText (frames : List Frame) :
    js (streamText frames) = stream blankLine (frames.map Frame.block) := by
  induction frames with
  | nil => rfl
  | cons f frames ih =>
    have : streamText (f :: frames) = f.text ++ streamText frames := by simp [streamText]
    rw [this, js_append, js_text, ih]
    rfl

theorem cr_not_mem_stream (frames : List Frame) :
    cr ∉ stream blankLine (frames.map Frame.block) := by
  induction frames with
  | nil => exact List.not_mem_nil
  | cons f frames ih =>
    rw [List.map_cons, stream_cons, List.mem_append, List.mem_append, not_or, not_or]
    exact ⟨⟨cr_not_mem_block f, by decide⟩, ih⟩

/-! ## Reading with no carriage returns -/

theorem replaceCr_of_no_cr {s : JsString} (h : cr ∉ s) : replaceCr s = s := by
  fun_induction replaceCr s with
  | case1 => rfl
  | case2 c =>
    rw [List.mem_singleton] at h
    rw [if_neg (Ne.symm h)]
  | case3 => simp at h
  | case4 => simp at h
  | case5 c d s hc ih =>
    rw [List.mem_cons, not_or] at h
    rw [ih h.2]

theorem normalise_of_no_cr {s : JsString} (h : cr ∉ s) : normalise s = (s, []) := by
  have hlast : s.getLast? ≠ some cr := fun hl => h (List.mem_of_getLast? hl)
  simp [normalise, hlast, replaceCr_of_no_cr h]

theorem readChunk_of_no_cr {buffer value : JsString} (h : cr ∉ buffer ++ value) :
    readChunk buffer value =
      let r := blocks blankLine blankLine_ne_nil (buffer ++ value)
      if maxPendingChars < r.2.length then
        (r.1.filterMap parseBlock ++
          ((parseBlock (r.2.take maxEventChars)).map SseEvent.mark).toList, [])
      else (r.1.filterMap parseBlock, r.2) := by
  rw [readChunk, normalise_of_no_cr h]
  simp only [List.append_nil]
  rfl

end Karr.Sse
