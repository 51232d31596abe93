import Karr.FrameInjection
import Karr.Frontend.LogStream

/-!
# The detail of an error

The relay escapes the message of its last frame like a log line. The viewer
unescapes the lines, but not the message it shows when the stream has failed.
-/

set_option autoImplicit false

namespace Karr.Sse

open JavaScript Blocks Frontend

/-! ## Messages that escaping leaves alone -/

/-- No character of the message is escaped. -/
def Plain (message : String) : Prop := ∀ u ∈ js message, u ≠ backslash ∧ u ≠ cr ∧ u ≠ lf

instance (message : String) : Decidable (Plain message) :=
  inferInstanceAs (Decidable (∀ u ∈ js message, _))

theorem escapeUnit_eq_iff (u : UInt16) :
    escapeUnit u = [u] ↔ u ≠ backslash ∧ u ≠ cr ∧ u ≠ lf := by
  constructor
  · intro h
    refine ⟨?_, ?_, ?_⟩ <;> rintro rfl <;> exact absurd h (by decide)
  · rintro ⟨hb, hr, hn⟩
    rw [escapeUnit, if_neg hb, if_neg hr, if_neg hn]

theorem length_le_escape (s : JsString) : s.length ≤ (s.flatMap escapeUnit).length := by
  induction s with
  | nil => exact Nat.le_refl _
  | cons u s ih =>
    rw [List.flatMap_cons, List.length_append, List.length_cons]
    rcases escapeUnit_cases u with he | ⟨v, he, -⟩
    · rw [he, List.length_singleton]
      omega
    · rw [he, List.length_cons, List.length_singleton]
      omega

theorem escape_eq_self_iff (s : JsString) :
    s.flatMap escapeUnit = s ↔ ∀ u ∈ s, u ≠ backslash ∧ u ≠ cr ∧ u ≠ lf := by
  induction s with
  | nil => exact iff_of_true rfl (List.forall_mem_nil _)
  | cons u s ih =>
    rw [List.flatMap_cons, List.forall_mem_cons, ← escapeUnit_eq_iff]
    rcases escapeUnit_cases u with he | ⟨v, he, hu⟩
    · rw [he, List.singleton_append, List.cons_inj_right, ih]
      exact (and_iff_right rfl).symm
    · refine iff_of_false (fun same => ?_) fun h => ?_
      · -- the escaped text is longer
        have hlen := congrArg List.length same
        have := length_le_escape s
        rw [he, List.length_append, List.length_cons] at hlen
        simp only [List.length_cons, List.length_nil] at hlen
        omega
      · rw [he] at h
        cases h.1

theorem escapeLine_eq_iff (message : String) :
    js (escapeLine message) = js message ↔ Plain message := by
  rw [js_escapeLine]
  exact escape_eq_self_iff (js message)

/-! ## What ends the stream of the viewer -/

/-- How an event leaves the loop of the viewer. -/
def leaves (e : SseEvent) : Option Phase :=
  (kindOf e).map fun kind =>
    match kind with
    | .ended => .ended
    | .error => .error (if e.data = [] then js "stream failed" else e.data)

theorem follow_phase (events : List SseEvent) :
    (follow events).2 = (events.findSome? leaves).getD .reconnecting := by
  induction events with
  | nil => rfl
  | cons e events ih =>
    rw [follow, List.findSome?_cons, leaves, kindOf]
    by_cases hend : e.event = js "end"
    · rw [if_pos hend, if_pos hend]
      rfl
    · rw [if_neg hend, if_neg hend]
      by_cases herror : e.event = js "error"
      · rw [if_pos herror, if_pos herror]
        rfl
      · rw [if_neg herror, if_neg herror]
        exact ih

theorem leaves_eq_none {e : SseEvent} (h : kindOf e = none) : leaves e = none := by
  rw [leaves, h]
  rfl

/-- A block of one line that ends the stream is one of these. -/
theorem kind_line {s : JsString} (h : lf ∉ s) {e : SseEvent} {kind : Terminal}
    (he : parseBlock s = some e) (hk : kindOf e = some kind) :
    e = ⟨js kind.event, []⟩ ∧
      (s = js "event:" ++ js kind.event ∨ s = js "event: " ++ js kind.event) := by
  have known {t : JsString} (kind' : Terminal) (hs : s = t)
      (ht : parseBlock t = some ⟨js kind'.event, []⟩) : e = ⟨js kind'.event, []⟩ ∧ kind = kind' := by
    rw [hs, ht] at he
    obtain rfl := Option.some.inj he
    rw [kindOf_event] at hk
    exact ⟨rfl, (Option.some.inj hk).symm⟩
  have loud_e : (parseBlock s).any loud = true := by
    rw [he, Option.any_some, loud, hk]
    exact Bool.or_true _
  rcases (loud_parseBlock_iff h).mp loud_e with rfl | ⟨t, rfl⟩ | hs | hs | hs | hs
  · have hdata : parseBlock (js "data") = some ⟨js "message", []⟩ := by decide
    rw [hdata] at he
    obtain rfl := Option.some.inj he
    cases hk
  · obtain ⟨data, hdata⟩ : ∃ data, parseBlock (js "data:" ++ t) = some ⟨js "message", data⟩ := by
      rw [parseBlock_line h]
      exact ⟨_, rfl⟩
    rw [hdata] at he
    obtain rfl := Option.some.inj he
    cases hk
  · obtain ⟨rfl, rfl⟩ := known .ended hs (by decide)
    exact ⟨rfl, Or.inl hs⟩
  · obtain ⟨rfl, rfl⟩ := known .ended hs (by decide)
    exact ⟨rfl, Or.inr hs⟩
  · obtain ⟨rfl, rfl⟩ := known .error hs (by decide)
    exact ⟨rfl, Or.inl hs⟩
  · obtain ⟨rfl, rfl⟩ := known .error hs (by decide)
    exact ⟨rfl, Or.inr hs⟩

/-- What the viewer shows instead, once a cut has brought it to the start of a block. -/
def Strays (message : String) (s : JsString) : Prop :=
  s = js "event:end" ∨ s = js "event: end" ∨
    js message ≠ js "stream failed" ∧ (s = js "event:error" ∨ s = js "event: error")

/-- How the viewer takes the last frame. -/
def failure (message : String) : Phase := .error (js (escapeLine message))

/-- Frames of the stream, up to the last one, and their events. -/
def EndsWith (message : String) (frames : List Frame) (events : List SseEvent) : Prop :=
  (∀ f ∈ frames, f.kind = none ∨ f = .terminal .error message) →
    events.findSome? leaves = some (failure message) ∨
      events.findSome? leaves = none ∧ ∀ f ∈ frames, f.kind = none

/-- Frames before the last one end nothing. -/
def Silent (frames : List Frame) (events : List SseEvent) : Prop :=
  (∀ f ∈ frames, f.kind = none) → events.findSome? leaves = none

section Laws
variable {message : String}

theorem length_terminal (short : (js (escapeLine message)).length ≤ maxEventChars) :
    (Frame.terminal .error message).block.length + 2 ≤ maxPendingChars := by
  have hlen : (js "event: " ++ js Terminal.error.event).length = 12 := rfl
  have hdata : (js "data: ").length = 6 := rfl
  have hbig : maxEventChars + 21 ≤ maxPendingChars := by decide
  rw [Frame.block, List.length_append, hlen, List.length_cons, List.length_append, hdata]
  omega

theorem smooth_terminal {bad : JsString → Prop}
    (short : (js (escapeLine message)).length ≤ maxEventChars) :
    Smooth bad false [.terminal .error message] :=
  Smooth.cons (length_terminal short) trivial

/-- A log line or a keepalive, whole or cut off, ends nothing. -/
theorem leaves_shown {f : Frame} (h : f.kind = none) : f.shown.toList.findSome? leaves = none := by
  cases f with
  | data line => rfl
  | keepalive => rfl
  | terminal kind payload => cases h

theorem leaves_cut {f : Frame} (h : f.kind = none) {n : Nat}
    (hlong : maxPendingChars < f.block.length + 2) (hn : 20 ≤ n) (hn' : n ≤ maxEventChars) :
    ((parseBlock (f.block.take n)).map SseEvent.mark).toList.findSome? leaves = none := by
  have hbig : maxEventChars + 2 ≤ maxPendingChars := by decide
  obtain ⟨e, he, -, hno⟩ := parseBlock_cut (f := f) (by omega) hn hn'
  have none : [e.mark].filterMap kindOf = [] := by
    have := hno.terminals
    rwa [List.filterMap_cons_none h, List.filterMap_nil, List.sublist_nil] at this
  have quiet := List.filterMap_eq_nil_iff.mp none _ List.mem_cons_self
  rw [he]
  simp [leaves_eq_none quiet]

theorem silent_laws : FrameLaws Silent where
  nil := fun _ => rfl
  append := by
    intro frames frames' events events' h h' all
    rw [List.findSome?_append, h fun f hf => all f (List.mem_append_left _ hf),
      h' fun f hf => all f (List.mem_append_right _ hf)]
    rfl
  shown := fun f all => leaves_shown (all f List.mem_cons_self)
  cut := fun f n hlong hn hn' all => leaves_cut (all f List.mem_cons_self) hlong hn hn'

theorem leaves_terminal (nonempty : message ≠ "")
    (short : (js (escapeLine message)).length ≤ maxEventChars) :
    (Frame.terminal .error message).shown.toList.findSome? leaves = some (failure message) := by
  have hne : js (escapeLine message) ≠ [] := by
    intro h
    have hlen := length_le_escape (js message)
    rw [← js_escapeLine, h, List.length_nil, Nat.le_zero, List.length_eq_zero_iff] at hlen
    exact nonempty (js_eq_nil hlen)
  have event : (Frame.terminal .error message).shown =
      some ⟨js Terminal.error.event, js (escapeLine message)⟩ := by
    rw [Frame.shown, truncate_of_le short]
  rw [event, Option.toList_some, List.findSome?_cons, leaves, kindOf_event]
  simp only [Option.map_some, if_neg hne, failure]

/-- The rest of a line that strays nowhere ends nothing, or shows the message all the same. -/
theorem leaves_rest {s : JsString} (h : lf ∉ s) (quiet : ¬ Strays message s) :
    (parseBlock s).toList.findSome? leaves = some (failure message) ∨
      (parseBlock s).toList.findSome? leaves = none := by
  cases he : parseBlock s with
  | none => exact Or.inr rfl
  | some e =>
    rw [Option.toList_some, List.findSome?_cons, List.findSome?_nil]
    cases hk : kindOf e with
    | none => exact Or.inr (by rw [leaves_eq_none hk])
    | some kind =>
      obtain ⟨rfl, hs⟩ := kind_line h he hk
      cases kind with
      | ended => exact absurd (hs.elim Or.inl fun hs => Or.inr (Or.inl hs)) quiet
      | error =>
        have same : js message = js "stream failed" := by
          by_contra hne
          exact quiet (Or.inr (Or.inr ⟨hne, hs⟩))
        have escaped : js (escapeLine message) = js "stream failed" := by
          rw [js_escapeLine, same]
          decide
        rw [leaves, kindOf_event, failure, escaped]
        exact Or.inl rfl

theorem leaves_restCut {s : JsString} (h : lf ∉ s) (hlong : maxEventChars ≤ s.length) :
    ((parseBlock (s.take maxEventChars)).map SseEvent.mark).toList.findSome? leaves = none := by
  cases he : parseBlock (s.take maxEventChars) with
  | none => rfl
  | some e =>
    rw [Option.map_some, Option.toList_some, List.findSome?_cons, List.findSome?_nil]
    cases hk : kindOf e with
    | none =>
      have quiet : kindOf e.mark = none := hk
      rw [leaves_eq_none quiet]
    | some kind =>
      -- too long for the name of an event
      have hline : lf ∉ s.take maxEventChars := fun hm => h (List.mem_of_mem_take hm)
      have hlen : (s.take maxEventChars).length = maxEventChars := List.length_take_of_le hlong
      have hname : (js "event: " ++ js kind.event).length < maxEventChars ∧
          (js "event:" ++ js kind.event).length < maxEventChars := by cases kind <;> decide
      obtain ⟨-, hs | hs⟩ := kind_line hline he hk
      · rw [hs] at hlen
        omega
      · rw [hs] at hlen
        omega

theorem endsWith_laws (nonempty : message ≠ "")
    (short : (js (escapeLine message)).length ≤ maxEventChars) :
    CutLaws (Strays message) (EndsWith message) where
  nil := fun _ => Or.inr ⟨rfl, List.forall_mem_nil _⟩
  append := by
    intro frames frames' events events' h h' all
    have left := h fun f hf => all f (List.mem_append_left _ hf)
    have right := h' fun f hf => all f (List.mem_append_right _ hf)
    rw [List.findSome?_append]
    rcases left with left | ⟨left, none⟩
    · exact Or.inl (by rw [left]; rfl)
    · rw [left, Option.none_or]
      refine right.imp_right fun right => ⟨right.1, fun f hf => ?_⟩
      exact (List.mem_append.mp hf).elim (none f) (right.2 f)
  shown := by
    intro f all
    rcases all f List.mem_cons_self with h | rfl
    · exact Or.inr ⟨leaves_shown h, by simpa using h⟩
    · exact Or.inl (leaves_terminal nonempty short)
  cut := by
    intro f n hlong hn hn' all
    rcases all f List.mem_cons_self with h | rfl
    · exact Or.inr ⟨leaves_cut h hlong hn hn', by simpa using h⟩
    · have := length_terminal short
      omega
  rest := fun s h quiet _ =>
    (leaves_rest h quiet).imp_right fun none => ⟨none, List.forall_mem_nil _⟩
  restCut := fun s h _ hlong _ => Or.inr ⟨leaves_restCut h hlong, List.forall_mem_nil _⟩

end Laws

/-! ## The detail -/

/-- However the stream is cut, the viewer shows the message as its detail. -/
def ShowsDetail (before : List Frame) (message : String) : Prop :=
  ∀ chunks : List JsString,
    chunks.flatten = js (streamText (before ++ [.terminal .error message])) →
      (follow (readEvents chunks)).2 = .error (js message)

section Detail
variable {before : List Frame} {message : String}

/-- Where no cut brings up the text of another end, the detail is the escaped message. -/
theorem follow_smooth (before : List Frame) (between : ∀ f ∈ before, f.kind = none)
    (nonempty : message ≠ "") (short : (js (escapeLine message)).length ≤ maxEventChars)
    (smooth : Smooth (Strays message) false (before ++ [.terminal .error message]))
    {chunks : List JsString}
    (text : chunks.flatten = js (streamText (before ++ [.terminal .error message]))) :
    (follow (readEvents chunks)).2 = failure message := by
  have all : ∀ f ∈ before ++ [Frame.terminal .error message],
      f.kind = none ∨ f = .terminal .error message := by
    intro f hf
    rcases List.mem_append.mp hf with hf | hf
    · exact Or.inl (between f hf)
    · exact Or.inr (List.mem_singleton.mp hf)
  rw [follow_phase]
  rcases readEvents_of_smooth (endsWith_laws nonempty short) smooth text all with shown | ⟨-, none⟩
  · rw [shown]
    rfl
  · cases none _ (List.mem_append_right _ (List.mem_singleton_self _))

theorem leaves_strays {s : JsString} (h : Strays message s) :
    ∃ phase, (parseBlock s).toList.findSome? leaves = some phase ∧ phase ≠ .error (js message) := by
  rcases h with rfl | rfl | ⟨hne, rfl | rfl⟩
  · exact ⟨.ended, by decide, Phase.noConfusion⟩
  · exact ⟨.ended, by decide, Phase.noConfusion⟩
  · exact ⟨.error (js "stream failed"), by decide, fun h => hne (Phase.error.inj h).symm⟩
  · exact ⟨.error (js "stream failed"), by decide, fun h => hne (Phase.error.inj h).symm⟩

/-- The frames a bad cut has passed come before the last one. -/
theorem BadCut.passed {bad : JsString → Prop} {ok : List Frame → List SseEvent → Prop}
    {chunks : List JsString}
    (b : BadCut bad ok false (before ++ [.terminal .error message]) chunks)
    (between : ∀ f ∈ before, f.kind = none)
    (short : (js (escapeLine message)).length ≤ maxEventChars) :
    ∀ f ∈ b.before ++ [b.cut], f.kind = none := by
  have split : (b.before ++ [b.cut]) <+: before ++ [.terminal .error message] :=
    ⟨b.after, by rw [List.append_assoc]; exact b.split.symm⟩
  rcases List.prefix_concat_iff.mp split with same | inside
  · -- the last frame is too short to be cut
    have cut : b.cut = .terminal .error message := by
      have := congrArg List.getLast? same
      simpa using this
    have long := b.long
    have := length_terminal short
    rw [cut] at long
    omega
  · exact fun f hf => between f (inside.subset hf)

end Detail

/-- The detail is the message however the stream is cut, exactly if escaping leaves the message
alone and no log line holds, at a place past the cap, the text of another end. -/
theorem showsDetail_iff {before : List Frame} {message : String}
    (between : ∀ f ∈ before, f.kind = none) (nonempty : message ≠ "")
    (short : (js (escapeLine message)).length ≤ maxEventChars) :
    ShowsDetail before message ↔ Plain message ∧
      Smooth (Strays message) false (before ++ [.terminal .error message]) := by
  constructor
  · intro shows
    have smooth : Smooth (Strays message) false (before ++ [.terminal .error message]) := by
      by_contra hbad
      obtain ⟨chunks, hflat, ⟨b⟩⟩ := exists_badCut silent_laws hbad
      obtain ⟨phase, hphase, hne⟩ := leaves_strays b.text
      have read : readEvents chunks = _ := b.read
      have silent := b.shown (b.passed between short)
      have detail := shows chunks (hflat.trans (js_streamText _).symm)
      rw [follow_phase, read, List.findSome?_append, List.findSome?_append, silent, hphase] at detail
      exact hne detail
    have whole : [js (streamText (before ++ [.terminal .error message]))].flatten =
        js (streamText (before ++ [.terminal .error message])) := List.flatten_singleton
    have detail := (shows _ whole).symm.trans
      (follow_smooth before between nonempty short smooth whole)
    exact ⟨(escapeLine_eq_iff message).mp (Phase.error.inj detail).symm, smooth⟩
  · rintro ⟨plain, smooth⟩ chunks text
    rw [follow_smooth before between nonempty short smooth text, failure,
      (escapeLine_eq_iff message).mpr plain]

theorem showsDetail_iff_plain :
    ShowsDetail [.data "booting", .keepalive] "agent unreachable" := by
  have short : (js (escapeLine "agent unreachable")).length ≤ maxEventChars := by decide
  have plain : Plain "agent unreachable" := (escapeLine_eq_iff _).mp (by decide)
  refine (showsDetail_iff (by decide) (by decide) short).mpr ⟨plain, ?_⟩
  exact Smooth.cons (by decide) (Smooth.cons (by decide) (smooth_terminal short))

def ShowsDetailAlways : Prop :=
  ∀ (before : List Frame) (message : String), (∀ f ∈ before, f.kind = none) → message ≠ "" →
    (js (escapeLine message)).length ≤ maxEventChars → ShowsDetail before message

/-- The detail has the escapes of the frame in it. -/
theorem not_showsDetailAlways : ¬ ShowsDetailAlways ∧
    (follow (readEvents [js (streamText [.terminal .error "no file C:\\logs"])])).2 =
      .error (js "no file C:\\\\logs") := by
  have short : (js (escapeLine "no file C:\\logs")).length ≤ maxEventChars := by decide
  have escaped : js (escapeLine "no file C:\\logs") = js "no file C:\\\\logs" := by decide
  have detail : (follow (readEvents [js (streamText [.terminal .error "no file C:\\logs"])])).2 =
      .error (js "no file C:\\\\logs") := by
    rw [← escaped]
    exact follow_smooth [] (List.forall_mem_nil _) (by decide) short
      (smooth_terminal short) List.flatten_singleton
  refine ⟨fun always => ?_, detail⟩
  have shown := always [] _ (List.forall_mem_nil _) (by decide) short _ List.flatten_singleton
  rw [List.nil_append, detail] at shown
  exact absurd (Phase.error.inj shown) (by decide)

end Karr.Sse
