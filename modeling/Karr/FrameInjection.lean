import Mathlib.Data.List.Forall2
import Karr.Cuts

/-!
# What a log line can pass off as a frame

Past the pending cap the reader drops its buffer in the middle of a line and
takes the rest of the line for the start of a block. It shows an event the relay
did not send exactly when the rest, from some place a chunk can end at past the
cap, reads as a field of its own.
-/

set_option autoImplicit false

namespace Karr.Sse

open JavaScript Blocks Frontend

/-! ## Events -/

def isMessage (e : SseEvent) : Bool := decide (e.event = js "message")

def kindOf (e : SseEvent) : Option Terminal :=
  if e.event = js "end" then some .ended
  else if e.event = js "error" then some .error
  else none

/-- An event the viewer acts on. -/
def loud (e : SseEvent) : Bool := isMessage e || (kindOf e).isSome

def ComesFrom (e : SseEvent) (line : String) : Prop :=
  ∃ k, e.data = (js (escapeLine line)).take k ∨
    e.data = (js (escapeLine line)).take k ++ truncatedMarker

/-- The events of a stream are no more than its frames, in order. -/
structure NoInjection (frames : List Frame) (events : List SseEvent) : Prop where
  terminals : List.Sublist (events.filterMap kindOf) (frames.filterMap Frame.kind)
  messages : List.SublistForall₂ ComesFrom (events.filter isMessage) (frames.filterMap Frame.line)

theorem sublistForall₂_append {α β : Type} {R : α → β → Prop} {l₁ l₂ : List α} {m₁ m₂ : List β}
    (h₁ : List.SublistForall₂ R l₁ m₁) (h₂ : List.SublistForall₂ R l₂ m₂) :
    List.SublistForall₂ R (l₁ ++ l₂) (m₁ ++ m₂) := by
  obtain ⟨n₁, hn₁, hs₁⟩ := List.sublistForall₂_iff.mp h₁
  obtain ⟨n₂, hn₂, hs₂⟩ := List.sublistForall₂_iff.mp h₂
  exact List.sublistForall₂_iff.mpr ⟨n₁ ++ n₂, List.rel_append hn₁ hn₂, hs₁.append hs₂⟩

theorem NoInjection.append {frames frames' : List Frame} {events events' : List SseEvent}
    (h : NoInjection frames events) (h' : NoInjection frames' events') :
    NoInjection (frames ++ frames') (events ++ events') := by
  constructor
  · rw [List.filterMap_append, List.filterMap_append]
    exact h.terminals.append h'.terminals
  · rw [List.filter_append, List.filterMap_append]
    exact sublistForall₂_append h.messages h'.messages

theorem kindOf_event (kind : Terminal) (data : JsString) :
    kindOf ⟨js kind.event, data⟩ = some kind := by
  cases kind <;> rfl

theorem isMessage_event (kind : Terminal) (data : JsString) :
    isMessage ⟨js kind.event, data⟩ = false := by
  cases kind <;> rfl

theorem noInjection_quiet {events : List SseEvent} (h : ∀ e ∈ events, loud e = false) :
    NoInjection [] events := by
  have quiet (e : SseEvent) (he : e ∈ events) : isMessage e = false ∧ kindOf e = none := by
    simpa [loud] using h e he
  constructor
  · rw [List.filterMap_eq_nil_iff.mpr fun e he => (quiet e he).2]
    exact List.nil_sublist _
  · rw [List.filter_eq_nil_iff.mpr fun e he => by simp [(quiet e he).1]]
    exact .nil

theorem noInjection_line {line : String} {e : SseEvent} (he : e.event = js "message")
    (data : ComesFrom e line) : NoInjection [.data line] [e] := by
  obtain ⟨event, data'⟩ := e
  obtain rfl : event = js "message" := he
  exact ⟨List.nil_sublist _, .cons data .nil⟩

theorem noInjection_terminal (kind : Terminal) (payload : String) (data : JsString) :
    NoInjection [.terminal kind payload] [⟨js kind.event, data⟩] := by
  constructor
  · rw [List.filterMap_cons_some (kindOf_event kind data)]
    exact List.Sublist.refl _
  · rw [List.filter_cons_of_neg (by simp [isMessage_event])]
    exact .nil

theorem comesFrom_truncate (line : String) :
    ComesFrom ⟨js "message", truncate (js (escapeLine line))⟩ line := by
  unfold truncate ComesFrom
  split
  · exact ⟨_, Or.inr rfl⟩
  · exact ⟨(js (escapeLine line)).length, Or.inl (by rw [List.take_length])⟩

theorem noInjection_shown (f : Frame) : NoInjection [f] f.shown.toList := by
  cases f with
  | data line => exact noInjection_line rfl (comesFrom_truncate line)
  | keepalive => exact ⟨List.nil_sublist _, .nil⟩
  | terminal kind payload => exact noInjection_terminal kind payload _

/-! ## Text that forges an event -/

/-- What reads as an event of a kind the viewer acts on, when it is a block. -/
def Forges (s : JsString) : Prop :=
  s = js "data" ∨ js "data:" <+: s ∨ s = js "event:end" ∨ s = js "event: end" ∨
    s = js "event:error" ∨ s = js "event: error"

instance (s : JsString) : Decidable (Forges s) := by
  unfold Forges
  infer_instance

theorem loud_iff {e : SseEvent} :
    loud e = true ↔ e.event = js "message" ∨ e.event = js "end" ∨ e.event = js "error" := by
  simp only [loud, isMessage, kindOf, Bool.or_eq_true, decide_eq_true_eq]
  refine or_congr_right ?_
  split
  · simp_all
  · split <;> simp_all

theorem forges_event (s : JsString) (hs : s = js "event:end" ∨ s = js "event: end" ∨
    s = js "event:error" ∨ s = js "event: error") : (parseBlock s).any loud = true := by
  rcases hs with rfl | rfl | rfl | rfl <;> decide

theorem parseField_cases (s : JsString) :
    parseField s = (s, []) ∨ ∃ v, s = (parseField s).1 ++ colon :: v ∧
      (parseField s).2 = if v.head? = some space then v.drop 1 else v := by
  cases hi : indexOf [colon] s with
  | none => exact Or.inl (by rw [parseField, hi])
  | some k =>
    have hfield : parseField s = (s.take k, if (s.drop (k + 1)).head? = some space then
        (s.drop (k + 1)).drop 1 else s.drop (k + 1)) := by rw [parseField, hi]
    refine Or.inr ⟨s.drop (k + 1), ?_, by rw [hfield]⟩
    rw [hfield]
    simpa using indexOf_spec hi

/-- A block of one line is an event the viewer acts on when it has the field `data`, or
the field `event` with the name of a terminal event. -/
theorem loud_line {s : JsString} (h : lf ∉ s) (hne : s ≠ []) (hcolon : s.head? ≠ some colon) :
    (parseBlock s).any loud = true ↔ (parseField s).1 = js "data" ∨
      (parseField s).1 = js "event" ∧
        ((parseField s).2 = js "end" ∨ (parseField s).2 = js "error") := by
  rw [parseBlock_line h, parseLine, if_neg (not_or.mpr ⟨hne, hcolon⟩)]
  generalize parseField s = r
  obtain ⟨field, value⟩ := r
  have hdiff : js "event" ≠ js "data" := by decide
  have hend : js "message" ≠ js "end" ∧ js "message" ≠ js "error" := by decide
  by_cases hevent : field = js "event"
  · simp only [hevent, if_true, hdiff, false_or, true_and]
    by_cases hmessage : value = js "message"
    · simp only [hmessage, if_true, hend.1, hend.2, or_self, Option.any_none, Bool.false_eq_true]
    · simp only [hmessage, if_false, Option.any_some, loud_iff, false_or]
  · by_cases hdata : field = js "data"
    · simp only [hdata, hdiff.symm, if_true, if_false, List.nil_append, List.cons_ne_nil, false_and,
        Option.any_some, loud_iff, true_or]
    · simp only [hevent, hdata, if_false, and_self, if_true, Option.any_none, Bool.false_eq_true,
        false_and, or_self]

/-- A block of one line is an event of one of these kinds exactly when the line is one
of these. -/
theorem loud_parseBlock_iff {s : JsString} (h : lf ∉ s) :
    (parseBlock s).any loud = true ↔ Forges s := by
  constructor
  · intro hloud
    have hline : ¬ (s = [] ∨ s.head? = some colon) := by
      intro hskip
      rw [parseBlock_line h, parseLine, if_pos hskip] at hloud
      simp at hloud
    rw [not_or] at hline
    rcases (loud_line h hline.1 hline.2).mp hloud with hdata | ⟨hevent, hname⟩
    · rcases parseField_cases s with hs | ⟨v, hs, -⟩
      · rw [hs] at hdata
        exact Or.inl hdata
      · rw [hdata] at hs
        exact Or.inr (Or.inl ⟨v, hs.symm⟩)
    · rcases parseField_cases s with hs | ⟨v, hs, hv⟩
      · -- no colon, so no name
        rw [hs] at hname
        have empty : [] ≠ js "end" ∧ [] ≠ js "error" := by decide
        exact absurd hname (not_or.mpr empty)
      · rw [hevent] at hs
        rw [hv] at hname
        refine Or.inr (Or.inr ?_)
        split at hname
        · rename_i hspace
          obtain ⟨w, rfl⟩ : ∃ w, v = space :: w := by
            cases v with
            | nil => cases hspace
            | cons c w => exact ⟨w, by rw [Option.some.inj hspace]⟩
          rcases hname with hname | hname
          · obtain rfl : w = js "end" := hname
            exact Or.inr (Or.inl hs)
          · obtain rfl : w = js "error" := hname
            exact Or.inr (Or.inr (Or.inr hs))
        · rcases hname with rfl | rfl
          · exact Or.inl hs
          · exact Or.inr (Or.inr (Or.inl hs))
  · rintro (rfl | ⟨t, rfl⟩ | hs)
    · decide
    · have hfield : parseField (js "data:" ++ t) =
          (js "data", if t.head? = some space then t.drop 1 else t) := rfl
      have hcolon : (js "data:" ++ t).head? ≠ some colon := by
        change some (100 : UInt16) ≠ some colon
        decide
      rw [loud_line h (List.cons_ne_nil _ _) hcolon, hfield]
      exact Or.inl rfl
    · exact forges_event s hs

/-! ## Streams no cut of which forges an event -/

/-- `stray` says that a chunk may end before the last line feed of the frame before, and
the reader drop everything up to there: that line feed then counts against the cap. -/
def Clean : Bool → List Frame → Prop
  | _, [] => True
  | stray, f :: frames =>
    (∀ j ≤ f.block.length, maxPendingChars < j + stray.toNat → ¬ Forges (f.block.drop j)) ∧
      Clean (decide (maxPendingChars < f.block.length + 1 + stray.toNat)) frames

theorem clean_iff_smooth {frames : List Frame} {stray : Bool} :
    Clean stray frames ↔ Smooth Forges stray frames := by
  induction frames generalizing stray with
  | nil => exact Iff.rfl
  | cons f frames ih => exact and_congr_right fun _ => ih

theorem noInjection_middle {s : JsString} (h : lf ∉ s) (quiet : ¬ Forges s) :
    NoInjection [] (parseBlock s).toList := by
  refine noInjection_quiet fun e he => ?_
  rw [Option.mem_toList] at he
  by_contra hloud
  refine quiet ((loud_parseBlock_iff h).mp ?_)
  rw [Option.mem_def.mp he]
  simpa using hloud

theorem noInjection_middle_cut {s : JsString} (h : lf ∉ s) (quiet : ¬ Forges s)
    (hlong : maxEventChars ≤ s.length) :
    NoInjection [] ((parseBlock (s.take maxEventChars)).map SseEvent.mark).toList := by
  have hline : lf ∉ s.take maxEventChars := fun hm => h (List.mem_of_mem_take hm)
  have hlen : (s.take maxEventChars).length = maxEventChars := List.length_take_of_le hlong
  have short {t : JsString} (ht : t.length < maxEventChars) : s.take maxEventChars ≠ t := by
    rintro rfl
    omega
  have hquiet : ¬ Forges (s.take maxEventChars) := by
    rintro (heq | hdata | heq | heq | heq | heq)
    · exact short (by decide) heq
    · exact quiet (Or.inr (Or.inl (hdata.trans (List.take_prefix _ _))))
    · exact short (by decide) heq
    · exact short (by decide) heq
    · exact short (by decide) heq
    · exact short (by decide) heq
  refine noInjection_quiet fun e he => ?_
  obtain ⟨e', he', rfl⟩ := Option.map_eq_some_iff.mp (Option.mem_toList.mp he)
  by_contra hloud
  refine hquiet ((loud_parseBlock_iff hline).mp ?_)
  rw [he']
  exact eq_true_of_ne_false hloud

/-- A frame cut off past the cap shows its event, truncated. -/
theorem parseBlock_cut {f : Frame} (hlong : maxEventChars ≤ f.block.length) {n : Nat}
    (hn : 20 ≤ n) (hn' : n ≤ maxEventChars) :
    ∃ e, parseBlock (f.block.take n) = some e ∧ loud e.mark = true ∧
      NoInjection [f] [e.mark] := by
  cases f with
  | data line =>
    have hlen : (js "data: ").length = 6 := rfl
    have htake : (Frame.data line).block.take n =
        js "data: " ++ (js (escapeLine line)).take (n - 6) := by
      rw [Frame.block, List.take_append, hlen, List.take_of_length_le (by omega)]
    have hlf : lf ∉ (js (escapeLine line)).take (n - 6) :=
      fun h => lf_not_mem_escaped line (List.mem_of_mem_take h)
    have hshort : truncate ((js (escapeLine line)).take (n - 6)) =
        (js (escapeLine line)).take (n - 6) := by
      refine truncate_of_le ?_
      rw [List.length_take]
      omega
    exact ⟨_, by rw [htake, parseBlock_data hlf, hshort], rfl,
      noInjection_line rfl ⟨n - 6, Or.inr rfl⟩⟩
  | keepalive => exact absurd hlong (by decide)
  | terminal kind payload =>
    have hlen : (js "event: " ++ js kind.event).length ≤ 12 := by cases kind <;> decide
    obtain ⟨k, htake⟩ : ∃ k, (Frame.terminal kind payload).block.take n =
        js "event: " ++ js kind.event ++ lf :: (js "data: " ++ (js (escapeLine payload)).take k) := by
      refine ⟨n - (js "event: " ++ js kind.event).length - 7, ?_⟩
      have hdata : (lf :: js "data: ").length = 7 := rfl
      rw [Frame.block, List.take_append, List.take_of_length_le (by omega), ← List.cons_append,
        List.take_append, hdata, List.take_of_length_le (l := lf :: js "data: ") (by omega),
        List.cons_append]
    have hkind : lf ∉ js kind.event := by cases kind <;> decide
    have hlf : lf ∉ (js (escapeLine payload)).take k :=
      fun h => lf_not_mem_escaped payload (List.mem_of_mem_take h)
    have hloud (data : JsString) : loud ⟨js kind.event, data⟩ = true := by
      simp [loud, kindOf_event]
    refine ⟨⟨js kind.event, truncate ((js (escapeLine payload)).take k)⟩, ?_, hloud _,
      noInjection_terminal kind payload _⟩
    rw [htake, parseBlock_event hkind hlf]

theorem noInjection_laws : CutLaws Forges NoInjection where
  nil := noInjection_quiet (List.forall_mem_nil _)
  append := NoInjection.append
  shown := noInjection_shown
  cut := by
    intro f n hlong hn hn'
    have hbig : maxEventChars + 2 ≤ maxPendingChars := by decide
    obtain ⟨e, he, -, hno⟩ := parseBlock_cut (f := f) (by omega) hn hn'
    rw [he]
    exact hno
  rest := fun _ => noInjection_middle
  restCut := fun _ => noInjection_middle_cut

/-! ## A cut that forges an event -/

/-- A frame that shows an event. -/
def Frame.acts (f : Frame) : Bool := f.line.isSome || f.kind.isSome

theorem countP_loud_le (events : List SseEvent) :
    events.countP loud ≤ (events.filter isMessage).length + (events.filterMap kindOf).length := by
  induction events with
  | nil => rfl
  | cons e events ih =>
    rw [List.countP_cons, List.filter_cons, List.filterMap_cons]
    cases hm : isMessage e <;> cases hk : kindOf e <;>
      simp only [loud, hm, hk, Option.isSome, Bool.or_self, Bool.or_true, Bool.true_or, if_true,
        Bool.false_eq_true, if_false, List.length_cons] <;>
      omega

theorem countP_acts (frames : List Frame) :
    frames.countP Frame.acts =
      (frames.filterMap Frame.line).length + (frames.filterMap Frame.kind).length := by
  induction frames with
  | nil => rfl
  | cons f frames ih =>
    rw [List.countP_cons, ih, List.filterMap_cons, List.filterMap_cons]
    cases f <;> simp only [Frame.acts, Frame.line, Frame.kind, Option.isSome, List.length_cons,
      Bool.or_self, Bool.or_true, Bool.or_false, if_true, Bool.false_eq_true, if_false] <;>
      omega

theorem NoInjection.countP_le {frames : List Frame} {events : List SseEvent}
    (h : NoInjection frames events) : events.countP loud ≤ frames.countP Frame.acts := by
  obtain ⟨lines, hlines, hsub⟩ := List.sublistForall₂_iff.mp h.messages
  have hmessages : (events.filter isMessage).length ≤ (frames.filterMap Frame.line).length :=
    hlines.length_eq ▸ hsub.length_le
  have hkinds := h.terminals.length_le
  have hevents := countP_loud_le events
  rw [countP_acts]
  omega

theorem countP_shown (f : Frame) : f.shown.toList.countP loud = [f].countP Frame.acts := by
  cases f with
  | data line => rfl
  | keepalive => rfl
  | terminal kind payload => cases kind <;> rfl

theorem countP_frames (frames : List Frame) :
    ((frames.map Frame.block).filterMap parseBlock).countP loud = frames.countP Frame.acts := by
  induction frames with
  | nil => rfl
  | cons f frames ih =>
    have hevents : ((f :: frames).map Frame.block).filterMap parseBlock =
        f.shown.toList ++ (frames.map Frame.block).filterMap parseBlock := by
      rw [List.map_cons, List.filterMap_cons, parseBlock_block]
      cases f.shown <;> rfl
    rw [hevents, List.countP_append, ih, countP_shown, ← List.countP_append]
    rfl

/-- Whole or cut off, a frame shows one event if it acts. -/
theorem countP_laws : FrameLaws fun frames events =>
    events.countP loud = frames.countP Frame.acts where
  nil := rfl
  append := by
    intro frames frames' events events' h h'
    rw [List.countP_append, List.countP_append, h, h']
  shown := countP_shown
  cut := by
    intro f n hlong hn hn'
    have hbig : maxEventChars + 2 ≤ maxPendingChars := by decide
    obtain ⟨e, he, hloud, -⟩ := parseBlock_cut (f := f) (by omega) hn hn'
    rw [he]
    cases f with
    | data line => exact List.countP_cons_of_pos hloud
    | keepalive => exact absurd hlong (by decide)
    | terminal kind payload => exact List.countP_cons_of_pos hloud

theorem exists_forged {frames : List Frame} {stray : Bool} (h : ¬ Clean stray frames) :
    ∃ chunks : List JsString,
      chunks.flatten = stream blankLine (frames.map Frame.block) ∧
      frames.countP Frame.acts < (readFrom (lead stray) chunks).countP loud := by
  rw [clean_iff_smooth] at h
  obtain ⟨chunks, hflat, ⟨b⟩⟩ := exists_badCut countP_laws h
  refine ⟨chunks, hflat, ?_⟩
  obtain ⟨e, he, hloud⟩ := (Option.any_eq_true _ _).mp ((loud_parseBlock_iff b.line).mpr b.text)
  have hframes : frames.countP Frame.acts =
      (b.before ++ [b.cut]).countP Frame.acts + b.after.countP Frame.acts := by
    rw [← List.countP_append, List.append_assoc]
    exact congrArg _ b.split
  rw [b.read, he, hframes, ← b.shown, List.countP_append, Option.toList_some, List.singleton_append,
    List.countP_cons_of_pos hloud, countP_frames]
  omega

/-- A stream is read as the relay meant it, however it is cut, exactly when no line holds
the text of an event at a place past the cap. -/
theorem noInjection_iff (frames : List Frame) :
    (∀ chunks : List JsString, chunks.flatten = js (streamText frames) →
      NoInjection frames (readEvents chunks)) ↔ Clean false frames := by
  constructor
  · intro h
    by_contra hclean
    obtain ⟨chunks, hflat, hmore⟩ := exists_forged hclean
    rw [← js_streamText] at hflat
    exact absurd (h chunks hflat).countP_le (Nat.not_le.mpr hmore)
  · intro hclean chunks hflat
    exact readEvents_of_smooth noInjection_laws (clean_iff_smooth.mp hclean) hflat

def NoInjectionAlways : Prop :=
  ∀ (frames : List Frame) (chunks : List JsString), chunks.flatten = js (streamText frames) →
    NoInjection frames (readEvents chunks)

/-- A megabyte, and the text of a terminal event. -/
def forgingLine : String :=
  String.ofList (List.replicate maxPendingChars 'x') ++ "event: end"

theorem js_forgingLine : js (escapeLine forgingLine) =
    List.replicate maxPendingChars 120 ++ js "event: end" := by
  have hend : (js "event: end").flatMap escapeUnit = js "event: end" := by decide
  rw [js_escapeLine, forgingLine, js_append, js_replicate, List.flatMap_append, escape_replicate,
    hend]

theorem not_clean_forgingLine {f : Frame} {before : JsString} (hbefore : before ≠ [])
    (hblock : f.block = before ++ js (escapeLine forgingLine)) : ¬ Clean false [f] := by
  intro h
  have hpos := List.length_pos_iff.mpr hbefore
  have hlen : (before ++ List.replicate maxPendingChars 120).length =
      before.length + maxPendingChars := by
    rw [List.length_append, List.length_replicate]
  rw [js_forgingLine, ← List.append_assoc] at hblock
  refine h.1 (before.length + maxPendingChars) ?_ ?_ ?_
  · rw [hblock, List.length_append, hlen]
    exact Nat.le_add_right _ _
  · simp only [Bool.toNat_false]
    omega
  · rw [hblock, List.drop_left' hlen]
    decide

/-- The line ends the stream of the viewer. -/
theorem not_noInjectionAlways : ¬ NoInjectionAlways := by
  intro always
  have hclean : ¬ Clean false [.data forgingLine] :=
    not_clean_forgingLine (List.cons_ne_nil _ _) rfl
  obtain ⟨chunks, hflat, hmore⟩ := exists_forged hclean
  rw [← js_streamText] at hflat
  exact absurd (always _ chunks hflat).countP_le (Nat.not_le.mpr hmore)

end Karr.Sse
