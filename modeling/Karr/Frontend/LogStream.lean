import Karr.Frontend.Sse

/-!
# LogStream

What the log view makes of the events of one connection.
-/

set_option autoImplicit false

namespace Karr.Frontend

open JavaScript

inductive Phase where
  | ended
  | error (detail : JsString)
  | reconnecting
  deriving DecidableEq, Repr

/-- The `for await` loop of `connect`: the lines it appends, and how it leaves the view. -/
def follow : List SseEvent → List JsString × Phase
  | [] => ([], .reconnecting)
  | e :: events =>
    if e.event = js "end" then ([], .ended)
    else if e.event = js "error" then
      ([], .error (if e.data = [] then js "stream failed" else e.data))
    else
      let (lines, phase) := follow events
      (unescapeLine e.data :: lines, phase)

theorem follow_message (data : JsString) (events : List SseEvent) :
    follow (⟨js "message", data⟩ :: events) =
      (unescapeLine data :: (follow events).1, (follow events).2) := by
  have hend : js "message" ≠ js "end" := by decide
  have herror : js "message" ≠ js "error" := by decide
  rw [follow, if_neg hend, if_neg herror]

end Karr.Frontend
