import Karr.ShownLog
import Karr.Truncation

/-!
# The log of a relay

A log view whose streams carry what relays send: of each of them it shows lines
from the first on, in order and none left out, as the reader makes them out.
-/

set_option autoImplicit false

namespace Karr.Frontend.LogView

open JavaScript Interleaving Sse

theorem LogOk.running {v : View} (ok : LogOk v) (h : v.aborted = false) :
    ∀ o ∈ v.streams, o.Lawful ∧ o.connection.aborted = false := by
  intro o ho
  rcases List.mem_append.mp ho with ho | ho
  · obtain ⟨lawful, abort⟩ := ok.past o ho
    exact ⟨lawful, Bool.eq_false_iff.mpr fun ha => Bool.eq_false_iff.mp h (abort ha)⟩
  · cases hp : v.pending with
    | events p =>
      rw [hp] at ho
      rw [List.mem_singleton.mp ho]
      obtain ⟨reading, same⟩ := ok.reading p hp
      exact ⟨reading.lawful, same.trans h⟩
    | _ =>
      rw [hp] at ho
      cases ho

theorem follow_prefix {es es' : List SseEvent} (h : es <+: es') :
    (follow es).1 <+: (follow es').1 := by
  induction es generalizing es' with
  | nil => exact List.nil_prefix
  | cons e es ih =>
    obtain ⟨rest, rfl⟩ := h
    have more := ih (List.prefix_append es rest)
    rw [List.cons_append, follow, follow]
    by_cases hend : e.event = js "end"
    · rw [if_pos hend, if_pos hend]
    · rw [if_neg hend, if_neg hend]
      by_cases herror : e.event = js "error"
      · rw [if_pos herror, if_pos herror]
      · rw [if_neg herror, if_neg herror]
        exact (List.prefix_cons_inj _).mpr more

/-- What the relay sends: nothing behind a frame that ends the stream. -/
theorem follow_frames {frames : List Frame} (ending : ∀ f ∈ frames.dropLast, f.kind = none) :
    (follow (frames.filterMap Frame.shown)).1 = (frames.filterMap Frame.line).map logged := by
  rcases List.eq_nil_or_concat frames with rfl | ⟨before, last, rfl⟩
  · rfl
  · rw [List.concat_eq_append, List.dropLast_concat] at ending
    rw [List.concat_eq_append, List.filterMap_append, List.filterMap_append,
      follow_shown ending, List.map_append]
    congr 1
    cases last with
    | data line =>
      have hshown : (Frame.data line).shown = some ⟨js "message", truncate (js (escapeLine line))⟩ :=
        rfl
      rw [List.filterMap_cons_some hshown, follow_message]
      rfl
    | keepalive => rfl
    | terminal kind payload =>
      cases kind with
      | ended =>
        have hshown : (Frame.terminal .ended payload).shown =
          some ⟨js "end", truncate (js (escapeLine payload))⟩ := rfl
        rw [List.filterMap_cons_some hshown, List.filterMap_nil, follow_end rfl]
        rfl
      | error =>
        have hshown : (Frame.terminal .error payload).shown =
          some ⟨js "error", truncate (js (escapeLine payload))⟩ := rfl
        rw [List.filterMap_cons_some hshown, List.filterMap_nil, follow_error rfl]
        rfl

/-- The stream brings these frames, up to where it breaks off; one that comes to its end
brings them all. -/
structure Carries (o : Opened) (frames : List Frame) : Prop where
  ending : ∀ f ∈ frames.dropLast, f.kind = none
  fits : ∀ f ∈ frames, f.block.length < maxPendingChars
  bytes : ∃ more, (o.connection.chunks ++ more).flatten = js (streamText frames) ∧
    (o.finished = true → more = [])

theorem Carries.shown {o : Opened} {frames : List Frame} (h : Carries o frames)
    (lawful : o.Lawful) (running : o.connection.aborted = false) :
    (follow o.seen).1 <+: (frames.filterMap Frame.line).map logged := by
  obtain ⟨more, text, hmore⟩ := h.bytes
  rw [← follow_frames h.ending, ← readEvents_of_fits h.fits text]
  refine follow_prefix (lawful more fun finished => hmore (finished.resolve_right ?_))
  rw [running]
  exact Bool.false_ne_true

/-- While the view is mounted and its streams carry what relays send, it shows the last lines
of the first lines of each, one after the other: of a stream as many as the loop has handled. -/
theorem relayed_log {v : View} (hr : Runs v) (running : v.aborted = false)
    (sent : Opened → List Frame) (carries : ∀ o ∈ v.streams, Carries o (sent o)) :
    v.lines = (v.streams.flatMap fun o => o.mark ++
      (((sent o).filterMap Frame.line).map logged).take (follow o.seen).1.length).rtake maxLines := by
  have ok := logOk hr
  rw [ok.log]
  congr 1
  refine List.flatMap_congr fun o ho => ?_
  obtain ⟨lawful, unaborted⟩ := ok.running running o ho
  rw [Opened.shown, ← List.prefix_iff_eq_take.mp ((carries o ho).shown lawful unaborted)]

/-- The first stream broke off behind a frame, the second has brought nothing yet. -/
def sentTo (o : Opened) : List Frame := if o.fetch = 1 then [.data "a"] else []

theorem relayed_log_reconnected : reconnected.lines = (reconnected.streams.flatMap fun o =>
    o.mark ++ (((sentTo o).filterMap Frame.line).map logged).take
      (follow o.seen).1.length).rtake maxLines := by
  refine relayed_log reconnected_run rfl sentTo fun o ho => ?_
  have two : o = brokeOff ∨ o = ⟨2, { reader := .reading [] }, 0, false⟩ := by
    simpa [View.streams, reconnected, Pending.stream] using ho
  rcases two with rfl | rfl
  · exact ⟨by decide, by decide, [], by decide, fun _ => rfl⟩
  · exact ⟨by decide, by decide, [], by decide, fun _ => rfl⟩

end Karr.Frontend.LogView
