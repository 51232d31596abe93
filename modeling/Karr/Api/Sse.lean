import Karr.JavaScript
import Karr.Python

/-!
# Server-sent events of the log relay

The frames of a stream as text, and as the code units the viewer decodes from it.
-/

set_option autoImplicit false

namespace Karr.Sse

open JavaScript

def escapeLine (line : String) : String :=
  Python.replaceChar (Python.replaceChar (Python.replaceChar line '\\' "\\\\") '\r' "\\r") '\n' "\\n"

def dataFrame (line : String) : String := "data: " ++ escapeLine line ++ "\n\n"

def eventFrame (event data : String) : String :=
  "event: " ++ event ++ "\ndata: " ++ escapeLine data ++ "\n\n"

def keepaliveFrame : String := ": keepalive\n\n"

/-- The two events that close a stream. -/
inductive Terminal where
  | ended
  | error
  deriving DecidableEq, Repr

def Terminal.event : Terminal → String
  | .ended => "end"
  | .error => "error"

/-- What `relay` yields. -/
inductive Frame where
  | data (line : String)
  | keepalive
  | terminal (kind : Terminal) (payload : String)
  deriving DecidableEq, Repr

def Frame.text : Frame → String
  | .data line => dataFrame line
  | .keepalive => keepaliveFrame
  | .terminal kind payload => eventFrame kind.event payload

/-- The log line a frame carries. -/
def Frame.line : Frame → Option String
  | .data line => some line
  | _ => none

def Frame.kind : Frame → Option Terminal
  | .terminal kind _ => some kind
  | _ => none

/-- The text of a response. -/
def streamText (frames : List Frame) : String := String.join (frames.map Frame.text)

example : dataFrame "x\n\ndata: forged" = "data: x\\n\\ndata: forged\n\n" := by decide
example : escapeLine "C:\\new\\rows" = "C:\\\\new\\\\rows" := by decide

/-! ## Code units -/

def escapeUnit (u : UInt16) : JsString :=
  if u = backslash then [backslash, backslash]
  else if u = cr then [backslash, 114]
  else if u = lf then [backslash, 110]
  else [u]

theorem escapeUnit_cases (u : UInt16) :
    escapeUnit u = [u] ∨
      ∃ v, escapeUnit u = [backslash, v] ∧ (u = backslash ∨ u = cr ∨ u = lf) := by
  unfold escapeUnit
  by_cases hb : u = backslash
  · rw [if_pos hb]
    exact Or.inr ⟨backslash, rfl, Or.inl hb⟩
  by_cases hr : u = cr
  · rw [if_neg hb, if_pos hr]
    exact Or.inr ⟨114, rfl, Or.inr (Or.inl hr)⟩
  by_cases hn : u = lf
  · rw [if_neg hb, if_neg hr, if_pos hn]
    exact Or.inr ⟨110, rfl, Or.inr (Or.inr hn)⟩
  rw [if_neg hb, if_neg hr, if_neg hn]
  exact Or.inl rfl

/-- The three replacements work on each character by itself. -/
def escapeChar (c : Char) : List Char :=
  if c = '\\' then ['\\', '\\'] else if c = '\r' then ['\\', 'r']
  else if c = '\n' then ['\\', 'n'] else [c]

theorem escapeLine_toList (line : String) :
    (escapeLine line).toList = line.toList.flatMap escapeChar := by
  simp only [escapeLine, Python.replaceChar, String.toList_ofList, List.flatMap_assoc]
  refine List.flatMap_congr fun c _ => ?_
  unfold escapeChar
  by_cases hb : c = '\\'
  · subst hb
    decide
  by_cases hr : c = '\r'
  · subst hr
    decide
  by_cases hn : c = '\n'
  · subst hn
    decide
  simp [hb, hr, hn]

theorem escape_utf16 (c : Char) : (escapeChar c).flatMap utf16 = (utf16 c).flatMap escapeUnit := by
  by_cases hb : c = '\\'
  · subst hb
    decide
  by_cases hr : c = '\r'
  · subst hr
    decide
  by_cases hn : c = '\n'
  · subst hn
    decide
  -- no unit of any other character is escaped
  have plain (u : UInt16) (hu : u ∈ utf16 c) : escapeUnit u = [u] := by
    unfold escapeUnit
    rw [if_neg, if_neg, if_neg]
    · rintro rfl
      exact hn (Char.toNat_inj.mp (utf16_of_ascii (by decide) hu).2)
    · rintro rfl
      exact hr (Char.toNat_inj.mp (utf16_of_ascii (by decide) hu).2)
    · rintro rfl
      exact hb (Char.toNat_inj.mp (utf16_of_ascii (by decide) hu).2)
  rw [List.flatMap_congr plain]
  simp [escapeChar, hb, hr, hn]

theorem js_escapeLine (line : String) : js (escapeLine line) = (js line).flatMap escapeUnit := by
  simp only [js, escapeLine_toList, List.flatMap_assoc]
  exact List.flatMap_congr fun c _ => escape_utf16 c

theorem js_replicate (n : Nat) :
    js (String.ofList (List.replicate n 'x')) = List.replicate n 120 := by
  have hunit : utf16 'x' = [120] := rfl
  rw [js, String.toList_ofList, List.flatMap_replicate, hunit]
  exact List.flatten_replicate_singleton

theorem escape_replicate (n : Nat) :
    (List.replicate n (120 : UInt16)).flatMap escapeUnit = List.replicate n 120 := by
  have hunit : escapeUnit 120 = [120] := by decide
  rw [List.flatMap_replicate, hunit, List.flatten_replicate_singleton]

/-- No escaped line can end a line of a frame. -/
theorem not_mem_escaped {u : UInt16} {line : String} (hu : u ∈ js (escapeLine line)) :
    u ≠ lf ∧ u ≠ cr := by
  rw [js_escapeLine] at hu
  obtain ⟨v, -, hv⟩ := List.mem_flatMap.mp hu
  unfold escapeUnit at hv
  split at hv
  · simp only [List.mem_cons, List.not_mem_nil, or_false, or_self] at hv
    subst hv
    decide
  split at hv
  · simp only [List.mem_cons, List.not_mem_nil, or_false] at hv
    rcases hv with rfl | rfl <;> decide
  split at hv
  · simp only [List.mem_cons, List.not_mem_nil, or_false] at hv
    rcases hv with rfl | rfl <;> decide
  · rename_i hcr hlf
    rw [List.mem_singleton] at hv
    subst hv
    exact ⟨hlf, hcr⟩

/-! ## Blocks -/

/-- A frame less the blank line that ends it. -/
def Frame.block : Frame → JsString
  | .data line => js "data: " ++ js (escapeLine line)
  | .keepalive => js ": keepalive"
  | .terminal kind payload =>
    js "event: " ++ js kind.event ++ lf :: (js "data: " ++ js (escapeLine payload))

def blankLine : JsString := [lf, lf]

theorem js_text (f : Frame) : js f.text = f.block ++ blankLine := by
  have hend : js "\n\n" = blankLine := rfl
  have hdata : js "\ndata: " = lf :: js "data: " := rfl
  cases f with
  | data line => simp only [Frame.text, dataFrame, js_append, Frame.block, hend]
  | keepalive => rfl
  | terminal kind payload =>
    simp only [Frame.text, eventFrame, js_append, Frame.block, hend, hdata, List.append_assoc,
      List.cons_append]

end Karr.Sse
