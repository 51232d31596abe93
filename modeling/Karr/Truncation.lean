import Karr.Frontend.LogStream
import Karr.RoundTrip

/-!
# Oversized lines

An event longer than the cap is cut before it is unescaped. A cut between the
two units of an escape leaves the backslash: of an escaped backslash that is the
line's own character, of an escaped line end it is not.
-/

set_option autoImplicit false

namespace Karr.Sse

open JavaScript Frontend

/-- What the viewer appends for a line whose frame is read as a whole. -/
def logged (line : String) : JsString := unescapeLine (truncate (js (escapeLine line)))

/-- The line itself, or a beginning of it with the marker. -/
def Faithful (line : String) (shown : JsString) : Prop :=
  shown = js line ∨ ∃ p, p <+: js line ∧ shown = p ++ truncatedMarker

/-- The cut falls inside the escape of a line end. -/
def CutsLineEnd (line : String) : Prop :=
  ∃ a u b, js line = a ++ u :: b ∧ (u = cr ∨ u = lf) ∧
    (a.flatMap escapeUnit).length + 1 = maxEventChars

/-- However its frame stands in a stream of frames within the pending cap, and however
that is cut, the viewer appends the line or a marked beginning of it. -/
def Legible (line : String) : Prop :=
  ∀ (before after : List Frame) (chunks : List JsString), (∀ f ∈ before, f.kind = none) →
    (∀ f ∈ before ++ .data line :: after, f.block.length < maxPendingChars) →
    chunks.flatten = js (streamText (before ++ .data line :: after)) →
    ∃ shown, (follow (readEvents chunks)).1[(before.filterMap Frame.line).length]? = some shown ∧
      Faithful line shown

/-! ## What is appended -/

theorem follow_shown {before : List Frame} (quiet : ∀ f ∈ before, f.kind = none)
    (events : List SseEvent) :
    (follow (before.filterMap Frame.shown ++ events)).1 =
      (before.filterMap Frame.line).map logged ++ (follow events).1 := by
  induction before with
  | nil => rfl
  | cons f before ih =>
    have hrest := ih fun g hg => quiet g (List.mem_cons_of_mem _ hg)
    cases f with
    | data line =>
      have hshown : (Frame.data line).shown = some ⟨js "message", truncate (js (escapeLine line))⟩ :=
        rfl
      have hline : (Frame.data line).line = some line := rfl
      rw [List.filterMap_cons_some hshown, List.filterMap_cons_some hline, List.cons_append,
        follow_message, hrest]
      rfl
    | keepalive => exact hrest
    | terminal kind payload => cases quiet (.terminal kind payload) List.mem_cons_self

theorem follow_line {line : String} {before after : List Frame} {chunks : List JsString}
    (quiet : ∀ f ∈ before, f.kind = none)
    (fits : ∀ f ∈ before ++ .data line :: after, f.block.length < maxPendingChars)
    (text : chunks.flatten = js (streamText (before ++ .data line :: after))) :
    (follow (readEvents chunks)).1[(before.filterMap Frame.line).length]? = some (logged line) := by
  have hshown : (Frame.data line).shown = some ⟨js "message", truncate (js (escapeLine line))⟩ :=
    rfl
  rw [readEvents_of_fits fits text, List.filterMap_append, follow_shown quiet,
    List.filterMap_cons_some hshown, follow_message]
  simp [logged]

/-- Where in its stream the frame stands does not matter. -/
theorem legible_of_logged {line : String} (fits : (Frame.data line).block.length < maxPendingChars) :
    Legible line ↔ Faithful line (logged line) := by
  constructor
  · intro h
    have quiet : ∀ f ∈ ([] : List Frame), f.kind = none := List.forall_mem_nil _
    have hfits : ∀ f ∈ [] ++ Frame.data line :: [], f.block.length < maxPendingChars := by
      simpa using fits
    have text : [js (streamText ([] ++ .data line :: []))].flatten =
        js (streamText ([] ++ .data line :: [])) := List.flatten_singleton
    obtain ⟨shown, hshown, hline⟩ := h [] [] _ quiet hfits text
    have hlogged := follow_line quiet hfits text
    rw [hshown] at hlogged
    rwa [← Option.some.inj hlogged]
  · intro h before after chunks quiet hfits text
    exact ⟨logged line, follow_line quiet hfits text, h⟩

/-! ## Where the cut falls -/

theorem unescapeLine_flatMap (s t : JsString) :
    unescapeLine (s.flatMap escapeUnit ++ t) = s ++ unescapeLine t := by
  induction s with
  | nil => rfl
  | cons u s ih =>
    rw [List.flatMap_cons, List.append_assoc, unescapeLine_escapeUnit, ih]
    rfl

theorem unescapeLine_marker : unescapeLine truncatedMarker = truncatedMarker := by decide

theorem unescapeLine_backslash_marker :
    unescapeLine (backslash :: truncatedMarker) = backslash :: truncatedMarker := by decide

/-- A cut is between two escapes or between the two units of one. -/
theorem take_escaped (s : JsString) {n : Nat} (hn : n ≤ (s.flatMap escapeUnit).length) :
    (∃ a b, s = a ++ b ∧ (s.flatMap escapeUnit).take n = a.flatMap escapeUnit) ∨
      ∃ a u b, s = a ++ u :: b ∧ (u = backslash ∨ u = cr ∨ u = lf) ∧
        (a.flatMap escapeUnit).length + 1 = n ∧
        (s.flatMap escapeUnit).take n = a.flatMap escapeUnit ++ [backslash] := by
  induction s generalizing n with
  | nil => exact Or.inl ⟨[], [], rfl, by simp⟩
  | cons u s ih =>
    rw [List.flatMap_cons, List.length_append] at hn
    rw [List.flatMap_cons]
    by_cases hlt : n < (escapeUnit u).length
    · rcases escapeUnit_cases u with hu | ⟨v, hu, hkind⟩ <;> rw [hu] at hlt ⊢
      · obtain rfl : n = 0 := by simpa using hlt
        exact Or.inl ⟨[], u :: s, rfl, rfl⟩
      · obtain rfl | rfl : n = 0 ∨ n = 1 := by
          simp only [List.length_cons, List.length_nil] at hlt
          omega
        · exact Or.inl ⟨[], u :: s, rfl, rfl⟩
        · exact Or.inr ⟨[], u, s, rfl, hkind, rfl, rfl⟩
    · have hlen : (escapeUnit u ++ s.flatMap escapeUnit).take n =
          escapeUnit u ++ (s.flatMap escapeUnit).take (n - (escapeUnit u).length) := by
        rw [List.take_append, List.take_of_length_le (Nat.le_of_not_lt hlt)]
      rcases ih (n := n - (escapeUnit u).length) (by omega) with
        ⟨a, b, rfl, htake⟩ | ⟨a, v, b, rfl, hkind, hsum, htake⟩
      · refine Or.inl ⟨u :: a, b, rfl, ?_⟩
        rw [hlen, htake, List.flatMap_cons]
      · refine Or.inr ⟨u :: a, v, b, rfl, hkind, ?_, ?_⟩
        · rw [List.flatMap_cons, List.length_append]
          omega
        · rw [hlen, htake, List.flatMap_cons, List.append_assoc]

/-! ## Faithful lines -/

theorem logged_of_cutsLineEnd {line : String} {a b : JsString} {u : UInt16}
    (hline : js line = a ++ u :: b) (hu : escapeUnit u ≠ [u])
    (hlen : (a.flatMap escapeUnit).length + 1 = maxEventChars) :
    logged line = a ++ backslash :: truncatedMarker := by
  obtain ⟨v, hv, -⟩ := (escapeUnit_cases u).resolve_left hu
  have hescaped : js (escapeLine line) =
      (a.flatMap escapeUnit ++ [backslash]) ++ v :: b.flatMap escapeUnit := by
    rw [js_escapeLine, hline, List.flatMap_append, List.flatMap_cons, hv]
    simp
  have hcut : (a.flatMap escapeUnit ++ [backslash]).length = maxEventChars := by simpa using hlen
  have hlong : maxEventChars < (js (escapeLine line)).length := by
    rw [hescaped, List.length_append, hcut, List.length_cons]
    omega
  rw [logged, truncate, if_pos hlong, hescaped, List.take_left' hcut, List.append_assoc,
    unescapeLine_flatMap, List.singleton_append, unescapeLine_backslash_marker]

theorem not_faithful_of_cutsLineEnd {line : String} (h : CutsLineEnd line) :
    ¬ Faithful line (logged line) := by
  obtain ⟨a, u, b, hline, hu, hlen⟩ := h
  have hne : u ≠ backslash := by rcases hu with rfl | rfl <;> decide
  have hescape : escapeUnit u ≠ [u] := by rcases hu with rfl | rfl <;> decide
  rw [logged_of_cutsLineEnd hline hescape hlen]
  rintro (hsame | ⟨p, hp, hmarked⟩)
  · rw [hline] at hsame
    exact hne (List.cons.inj (List.append_cancel_left hsame)).1.symm
  · -- the beginning would be as long as what stands before the marker
    have hshift : a ++ backslash :: truncatedMarker = (a ++ [backslash]) ++ truncatedMarker := by
      simp
    rw [hshift] at hmarked
    obtain rfl := List.append_cancel_right hmarked
    rw [hline] at hp
    have := (List.prefix_append_right_inj a).mp hp
    exact hne (List.cons_prefix_cons.mp this).1.symm

theorem faithful_logged {line : String} (h : ¬ CutsLineEnd line) : Faithful line (logged line) := by
  by_cases hlong : maxEventChars < (js (escapeLine line)).length
  · rw [js_escapeLine] at hlong
    rw [logged, truncate, js_escapeLine, if_pos hlong]
    rcases take_escaped (js line) (Nat.le_of_lt hlong) with
      ⟨a, b, hline, htake⟩ | ⟨a, u, b, hline, hkind, hsum, htake⟩
    · rw [htake, unescapeLine_flatMap, unescapeLine_marker]
      exact Or.inr ⟨a, hline ▸ List.prefix_append a b, rfl⟩
    · rcases hkind with rfl | hend
      · rw [htake, List.append_assoc, unescapeLine_flatMap, List.singleton_append,
          unescapeLine_backslash_marker]
        refine Or.inr ⟨a ++ [backslash], ?_, by simp⟩
        rw [hline]
        exact ⟨b, by simp⟩
      · exact absurd ⟨a, u, b, hline, hend, hsum⟩ h
  · rw [logged, truncate_of_le (Nat.le_of_not_lt hlong), unescapeLine_escapeLine]
    exact Or.inl rfl

/-- A line is shown as itself or as a marked beginning of itself exactly where the cut
does not fall inside the escape of a line end. -/
theorem legible_iff {line : String} (fits : (Frame.data line).block.length < maxPendingChars) :
    Legible line ↔ ¬ CutsLineEnd line := by
  rw [legible_of_logged fits]
  exact ⟨fun h hcut => not_faithful_of_cutsLineEnd hcut h, faithful_logged⟩

theorem legible_iff_short : Legible "a\\\n" := by
  have fits : (Frame.data "a\\\n").block.length < maxPendingChars := by decide
  refine (legible_iff fits).mpr ?_
  rintro ⟨a, u, b, split, -, cut⟩
  have inside : (a.flatMap escapeUnit).length ≤ ((js "a\\\n").flatMap escapeUnit).length := by
    rw [split, List.flatMap_append, List.length_append]
    exact Nat.le_add_right _ _
  have short : ((js "a\\\n").flatMap escapeUnit).length = 5 := by decide
  rw [short] at inside
  have few : maxEventChars ≤ 5 + 1 := cut ▸ Nat.add_le_add_right inside 1
  exact absurd few (by decide)

def LegibleAlways : Prop :=
  ∀ line, (Frame.data line).block.length < maxPendingChars → Legible line

/-- The last unit before the cut is the backslash of an escaped line feed. -/
def cutLine : String := String.ofList (List.replicate (maxEventChars - 1) 'x') ++ "\n"

theorem js_cutLine : js cutLine = List.replicate (maxEventChars - 1) 120 ++ [lf] := by
  rw [cutLine, js_append, js_replicate]
  rfl

theorem not_legibleAlways : ¬ LegibleAlways := by
  intro always
  have fits : (Frame.data cutLine).block.length < maxPendingChars := by
    have hdata : (js "data: ").length = 6 := rfl
    have hlf : ([lf].flatMap escapeUnit).length = 2 := by decide
    rw [Frame.block, js_escapeLine, js_cutLine, List.flatMap_append, escape_replicate,
      List.length_append,
      List.length_append, List.length_replicate, hdata, hlf]
    decide
  refine (legible_iff fits).mp (always cutLine fits) ⟨_, lf, [], js_cutLine, Or.inr rfl, ?_⟩
  rw [escape_replicate, List.length_replicate]
  decide

end Karr.Sse
