import Karr.FrameInjection
import Karr.Chunking

/-!
# The viewer shows the lines of the container

Frames within the pending cap are read as they were sent, however the text is
cut, and unescaping undoes the relay's escaping.
-/

set_option autoImplicit false

namespace Karr.Sse

open JavaScript Blocks Frontend

theorem unescapeLine_escapeUnit (u : UInt16) (s : JsString) :
    unescapeLine (escapeUnit u ++ s) = u :: unescapeLine s := by
  unfold escapeUnit
  by_cases hb : u = backslash
  · subst hb
    rfl
  by_cases hr : u = cr
  · subst hr
    rfl
  by_cases hn : u = lf
  · subst hn
    rfl
  rw [if_neg hb, if_neg hr, if_neg hn]
  exact unescapeLine_cons hb s

theorem unescapeLine_escapeLine (line : String) : unescapeLine (js (escapeLine line)) = js line := by
  rw [js_escapeLine]
  induction js line with
  | nil => rfl
  | cons u s ih => rw [List.flatMap_cons, unescapeLine_escapeUnit, ih]

theorem fits_streamText {frames : List Frame}
    (fits : ∀ f ∈ frames, f.block.length < maxPendingChars) : Fits (js (streamText frames)) := by
  intro p hp
  have hblocks : ∀ b ∈ frames.map Frame.block, IsBlock blankLine b := by
    simpa using fun f _ => f.isBlock
  rw [js_streamText] at hp
  have hcr : cr ∉ p := fun h => cr_not_mem_stream frames (hp.subset h)
  rw [pending, replaceCr_of_no_cr hcr]
  obtain ⟨done, rest, hsplit, q, rfl, hq⟩ := prefix_stream hp
  have hdone : ∀ b ∈ done, IsBlock blankLine b := fun b hb =>
    hblocks b (hsplit ▸ List.mem_append_left _ hb)
  rw [blocks_stream blankLine_ne_nil hdone]
  rcases hq with ⟨-, rfl⟩ | ⟨b, bs, rfl, hq, hlen⟩
  · rw [blocks_of_none blankLine_ne_nil rfl]
    exact Nat.zero_le _
  · -- an unfinished frame is the buffer
    have hmem : b ∈ frames.map Frame.block := hsplit ▸ List.mem_append_right _ List.mem_cons_self
    obtain ⟨f, hf, rfl⟩ := List.mem_map.mp hmem
    rw [blocks_of_none blankLine_ne_nil (f.isBlock.unfinished hq hlen)]
    have hcap := fits f hf
    have : blankLine.length = 2 := rfl
    simp only
    omega

/-- Frames within the pending cap are read as they were sent. -/
theorem readEvents_of_fits {frames : List Frame}
    (fits : ∀ f ∈ frames, f.block.length < maxPendingChars) {chunks : List JsString}
    (text : chunks.flatten = js (streamText frames)) :
    readEvents chunks = frames.filterMap Frame.shown := by
  have hblocks : ∀ b ∈ frames.map Frame.block, IsBlock blankLine b := by
    simpa using fun f _ => f.isBlock
  have hwhole := blocks_stream blankLine_ne_nil hblocks []
  rw [List.append_nil, blocks_of_none blankLine_ne_nil (s := []) rfl, List.append_nil] at hwhole
  have hshown : (frames.map Frame.block).filterMap parseBlock = frames.filterMap Frame.shown := by
    rw [List.filterMap_map]
    exact List.filterMap_congr fun f _ => parseBlock_block f
  rw [readEvents_of_text (fits_streamText fits) text, js_streamText,
    eventsOf_of_no_cr (cr_not_mem_stream frames), hwhole, hshown]
  exact List.append_nil _

theorem length_block_lt {f : Frame} (hkind : f.kind = none)
    (short : ∀ line, f.line = some line → (js (escapeLine line)).length ≤ maxEventChars) :
    f.block.length < maxPendingChars := by
  cases f with
  | data line =>
    have hlen : (js "data: ").length = 6 := rfl
    have := short line rfl
    have hbig : maxEventChars + 6 < maxPendingChars := by decide
    rw [Frame.block, List.length_append]
    omega
  | keepalive => decide
  | terminal kind payload => cases hkind

/-- The event of a log line, as the viewer appends it. -/
structure Shows (e : SseEvent) (line : String) : Prop where
  event : e.event = js "message"
  data : unescapeLine e.data = js line

theorem shows_message {data : JsString} {line : String} (h : unescapeLine data = js line) :
    Shows ⟨js "message", data⟩ line :=
  ⟨rfl, h⟩

theorem shows_data {line : String} (short : (js (escapeLine line)).length ≤ maxEventChars) :
    Shows ⟨js "message", truncate (js (escapeLine line))⟩ line := by
  rw [truncate_of_le short]
  exact shows_message (unescapeLine_escapeLine line)

theorem shown_lines {body : List Frame} (between : ∀ f ∈ body, f.kind = none)
    (short : ∀ line ∈ body.filterMap Frame.line, (js (escapeLine line)).length ≤ maxEventChars) :
    List.Forall₂ Shows (body.filterMap Frame.shown) (body.filterMap Frame.line) := by
  induction body with
  | nil => exact .nil
  | cons f body ih =>
    have hrest := ih (fun g hg => between g (List.mem_cons_of_mem _ hg)) fun line hline => by
      obtain ⟨g, hg, hgl⟩ := List.mem_filterMap.mp hline
      exact short line (List.mem_filterMap.mpr ⟨g, List.mem_cons_of_mem _ hg, hgl⟩)
    cases f with
    | data line =>
      have hshown : (Frame.data line).shown = some ⟨js "message", truncate (js (escapeLine line))⟩ :=
        rfl
      have hline : (Frame.data line).line = some line := rfl
      rw [List.filterMap_cons_some hline] at short ⊢
      rw [List.filterMap_cons_some hshown]
      exact .cons (shows_data (short line List.mem_cons_self)) hrest
    | keepalive =>
      have hshown : Frame.keepalive.shown = none := rfl
      have hline : Frame.keepalive.line = none := rfl
      rw [List.filterMap_cons_none hshown, List.filterMap_cons_none hline]
      exact hrest
    | terminal kind payload =>
      have hkind := between (.terminal kind payload) List.mem_cons_self
      cases hkind

/-- One event for each line, in order, that unescapes to the line, and one for the
terminal frame, if that frame fits the pending cap too. -/
theorem round_trip {body : List Frame} {kind : Terminal} {payload : String} {chunks : List JsString}
    (between : ∀ f ∈ body, f.kind = none)
    (short : ∀ line ∈ body.filterMap Frame.line, (js (escapeLine line)).length ≤ maxEventChars)
    (fits : (Frame.terminal kind payload).block.length < maxPendingChars)
    (text : chunks.flatten = js (streamText (body ++ [.terminal kind payload]))) :
    ∃ events last, readEvents chunks = events ++ [⟨js kind.event, last⟩] ∧
      List.Forall₂ Shows events (body.filterMap Frame.line) := by
  refine ⟨_, truncate (js (escapeLine payload)), ?_, shown_lines between short⟩
  rw [readEvents_of_fits (fun f hf => ?_) text, List.filterMap_append]
  · rfl
  · rcases List.mem_append.mp hf with hf | hf
    · exact length_block_lt (between f hf) fun line hline =>
        short line (List.mem_filterMap.mpr ⟨f, hf, hline⟩)
    · rw [List.mem_singleton.mp hf]
      exact fits

theorem round_trip_cut :
    ∃ events last, readEvents ((js (streamText
        ([.data "a\\n\r", .keepalive, .data ""] ++ [.terminal .error "data: x"]))).map fun u => [u]) =
      events ++ [⟨js "error", last⟩] ∧
      List.Forall₂ Shows events ["a\\n\r", ""] := by
  have between : ∀ f ∈ [Frame.data "a\\n\r", .keepalive, .data ""], f.kind = none := by decide
  have short : ∀ line ∈ [Frame.data "a\\n\r", .keepalive, .data ""].filterMap Frame.line,
      (js (escapeLine line)).length ≤ maxEventChars := by decide
  have fits : (Frame.terminal .error "data: x").block.length < maxPendingChars := by decide
  have whole (text : JsString) : (text.map fun u => [u]).flatten = text := List.flatMap_singleton' _
  obtain ⟨events, last, hread, hlines⟩ := round_trip between short fits (whole _)
  exact ⟨events, last, hread, hlines⟩

/-- The same of a terminal frame of any length. -/
def RoundTripAlways : Prop :=
  ∀ (body : List Frame) (kind : Terminal) (payload : String) (chunks : List JsString),
    (∀ f ∈ body, f.kind = none) →
    (∀ line ∈ body.filterMap Frame.line, (js (escapeLine line)).length ≤ maxEventChars) →
    chunks.flatten = js (streamText (body ++ [.terminal kind payload])) →
    ∃ events last, readEvents chunks = events ++ [⟨js kind.event, last⟩] ∧
      List.Forall₂ Shows events (body.filterMap Frame.line)

/-- An error message past the cap, with the text of a second terminal event in it. -/
theorem not_roundTripAlways : ¬ RoundTripAlways := by
  intro always
  have hblock : (Frame.terminal .error forgingLine).block =
      js "event: " ++ js "error" ++ lf :: js "data: " ++ js (escapeLine forgingLine) := by
    simp only [Frame.block, Terminal.event, List.append_assoc, List.cons_append]
  have hbefore : js "event: " ++ js "error" ++ lf :: js "data: " ≠ [] := by decide
  obtain ⟨chunks, hflat, hmore⟩ := exists_forged (not_clean_forgingLine hbefore hblock)
  rw [← js_streamText] at hflat
  obtain ⟨events, last, hread, hlines⟩ :=
    always [] .error forgingLine chunks (List.forall_mem_nil _) (List.forall_mem_nil _) hflat
  obtain rfl := List.forall₂_nil_right_iff.mp hlines
  have hone : (readEvents chunks).countP loud ≤ 1 := by
    rw [hread]
    exact List.countP_le_length
  exact absurd hone (Nat.not_le.mpr hmore)

end Karr.Sse
