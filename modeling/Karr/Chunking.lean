import Karr.Frames

/-!
# Chunks do not matter

What the reader has done after a prefix of the text is a function of the prefix:
it normalises all but a trailing carriage return, yields the finished blocks and
keeps the unfinished one. One chunk takes this state to that of the longer
prefix, so two ways of cutting a text end alike.
-/

set_option autoImplicit false

namespace Karr.Frontend

open JavaScript Blocks Sse

/-! ## Normalising -/

theorem replaceCr_cons_ne {c : UInt16} (h : c ≠ cr) (s : JsString) :
    replaceCr (c :: s) = c :: replaceCr s := by
  cases s with
  | nil => simp [replaceCr, h]
  | cons d s => rw [replaceCr, if_neg h]

theorem replaceCr_cr {s : JsString} (h : s.head? ≠ some lf) :
    replaceCr (cr :: s) = lf :: replaceCr s := by
  cases s with
  | nil => rfl
  | cons d s =>
    have hd : d ≠ lf := fun hd => h (hd ▸ rfl)
    rw [replaceCr, if_pos rfl, if_neg hd]

/-- A text may be normalised in two parts where no pair is cut. -/
theorem replaceCr_append {s t : JsString} (h : s.getLast? ≠ some cr ∨ t.head? ≠ some lf) :
    replaceCr (s ++ t) = replaceCr s ++ replaceCr t := by
  fun_induction replaceCr s with
  | case1 => rfl
  | case2 c =>
    by_cases hc : c = cr
    · subst hc
      have ht : t.head? ≠ some lf := h.resolve_left (by simp)
      rw [if_pos rfl, List.singleton_append, replaceCr_cr ht]
      rfl
    · rw [if_neg hc, List.singleton_append, replaceCr_cons_ne hc]
      rfl
  | case3 s ih =>
    have hs : s.getLast? ≠ some cr ∨ t.head? ≠ some lf := by
      refine h.imp_left fun hlast hs => hlast ?_
      simp [List.getLast?_cons, hs]
    rw [List.cons_append, List.cons_append, replaceCr, if_pos rfl, if_pos rfl, ih hs]
    rfl
  | case4 d s hd ih =>
    rw [List.cons_append, List.cons_append, replaceCr, if_pos rfl, if_neg hd, ← List.cons_append,
      ih (h.imp_left (by simp [List.getLast?_cons_cons]))]
    rfl
  | case5 c d s hc ih =>
    rw [List.cons_append, replaceCr_cons_ne hc, ih (h.imp_left (by simp [List.getLast?_cons_cons]))]
    rfl

theorem cr_not_mem_replaceCr (s : JsString) : cr ∉ replaceCr s := by
  have hlf : cr ≠ lf := by decide
  fun_induction replaceCr s with
  | case1 => exact List.not_mem_nil
  | case2 c =>
    rw [List.mem_singleton]
    split
    · exact hlf
    · rename_i hc
      exact Ne.symm hc
  | case3 s ih => exact fun h => (List.mem_cons.mp h).elim hlf ih
  | case4 d s hd ih => exact fun h => (List.mem_cons.mp h).elim hlf ih
  | case5 c d s hc ih => exact fun h => (List.mem_cons.mp h).elim (Ne.symm hc) ih

theorem normalise_of_cr (s : JsString) : normalise (s ++ [cr]) = (replaceCr s, [cr]) := by
  simp [normalise]

theorem normalise_of_no_last {s : JsString} (h : s.getLast? ≠ some cr) :
    normalise s = (replaceCr s, []) := by
  simp [normalise, h]

/-- What is ready is the text less the carriage return that is held back. -/
theorem normalise_spec (s : JsString) : ∃ t, s = t ++ (normalise s).2 ∧
    (normalise s).1 = replaceCr t ∧
    ((t.getLast? ≠ some cr ∧ (normalise s).2 = []) ∨ (normalise s).2 = [cr]) := by
  by_cases h : s.getLast? = some cr
  · obtain ⟨t, rfl⟩ := List.getLast?_eq_some_iff.mp h
    rw [normalise_of_cr]
    exact ⟨t, rfl, rfl, Or.inr rfl⟩
  · rw [normalise_of_no_last h]
    exact ⟨s, (List.append_nil s).symm, rfl, Or.inl ⟨h, rfl⟩⟩

theorem normalise_append {s t : JsString} (h : s.getLast? ≠ some cr ∨ t.head? = some cr) :
    normalise (s ++ t) = (replaceCr s ++ (normalise t).1, (normalise t).2) := by
  have hcr : cr ≠ lf := by decide
  by_cases ht : t.getLast? = some cr
  · obtain ⟨u, rfl⟩ := List.getLast?_eq_some_iff.mp ht
    have hu : s.getLast? ≠ some cr ∨ u.head? ≠ some lf := by
      refine h.imp_right fun h => ?_
      cases u with
      | nil => simp
      | cons c u =>
        rw [List.cons_append, List.head?_cons] at h
        rw [List.head?_cons, h]
        exact fun h => hcr (Option.some.inj h)
    rw [← List.append_assoc, normalise_of_cr, normalise_of_cr, replaceCr_append hu]
  · have hlast : (s ++ t).getLast? ≠ some cr := by
      rw [List.getLast?_append]
      cases t with
      | nil => exact h.resolve_right (by simp)
      | cons c t =>
        rw [List.getLast?_cons] at ht ⊢
        exact ht
    have hhead : s.getLast? ≠ some cr ∨ t.head? ≠ some lf :=
      h.imp_right fun h => by rw [h]; exact fun h => hcr (Option.some.inj h)
    rw [normalise_of_no_last hlast, normalise_of_no_last ht, replaceCr_append hhead]

/-! ## The state after a prefix -/

def readyBlocks (s : JsString) : List JsString × JsString :=
  blocks blankLine blankLine_ne_nil (normalise s).1

def eventsAfter (s : JsString) : List SseEvent := (readyBlocks s).1.filterMap parseBlock
def bufferAfter (s : JsString) : JsString := (readyBlocks s).2 ++ (normalise s).2

theorem cr_not_mem_rest (s : JsString) : cr ∉ (readyBlocks s).2 := by
  obtain ⟨t, -, ht, -⟩ := normalise_spec s
  have hspec := (blocks_spec blankLine_ne_nil (normalise s).1).1
  intro h
  have : cr ∈ (normalise s).1 := hspec ▸ List.mem_append_right _ h
  rw [ht] at this
  exact cr_not_mem_replaceCr t this

/-- The buffer and the next chunk are normalised as the text is that the buffer is left of. -/
theorem normalise_buffer (s value : JsString) : ∃ more,
    normalise (s ++ value) = ((normalise s).1 ++ more, (normalise (s ++ value)).2) ∧
    normalise (bufferAfter s ++ value) =
      ((readyBlocks s).2 ++ more, (normalise (s ++ value)).2) := by
  obtain ⟨t, hs, hready, hheld⟩ := normalise_spec s
  have hrest : (readyBlocks s).2.getLast? ≠ some cr :=
    fun h => cr_not_mem_rest s (List.mem_of_getLast? h)
  have hcut : t.getLast? ≠ some cr ∨ ((normalise s).2 ++ value).head? = some cr := by
    rcases hheld with ⟨hlast, -⟩ | hheld
    · exact Or.inl hlast
    · exact Or.inr (by simp [hheld])
  have hwhole := normalise_append hcut
  rw [← List.append_assoc, ← hs, ← hready] at hwhole
  refine ⟨(normalise ((normalise s).2 ++ value)).1, by rw [hwhole], ?_⟩
  rw [bufferAfter, List.append_assoc, normalise_append (Or.inl hrest),
    replaceCr_of_no_cr (cr_not_mem_rest s), hwhole]

/-- The unfinished block after a text, all of it normalised. -/
def pending (s : JsString) : JsString := (blocks blankLine blankLine_ne_nil (replaceCr s)).2

/-- No prefix leaves more than the cap after its last finished block. -/
def Fits (text : JsString) : Prop := ∀ p, p <+: text → (pending p).length ≤ maxPendingChars

theorem Fits.rest {text : JsString} (h : Fits text) {s : JsString} (hs : s <+: text) :
    (readyBlocks s).2.length ≤ maxPendingChars := by
  obtain ⟨t, ht, hready, -⟩ := normalise_spec s
  have : readyBlocks s = blocks blankLine blankLine_ne_nil (replaceCr t) := by
    rw [readyBlocks, hready]
  rw [this]
  refine h t (List.IsPrefix.trans ?_ hs)
  exact ⟨(normalise s).2, ht.symm⟩

/-- One chunk takes the state after a prefix to the state after the longer one. -/
theorem readChunk_after {s value : JsString}
    (fits : (readyBlocks (s ++ value)).2.length ≤ maxPendingChars) :
    ∃ events, readChunk (bufferAfter s) value = (events, bufferAfter (s ++ value)) ∧
      eventsAfter (s ++ value) = eventsAfter s ++ events := by
  obtain ⟨more, hwhole, hbuffer⟩ := normalise_buffer s value
  have hready : (normalise (s ++ value)).1 = (normalise s).1 ++ more := by rw [hwhole]
  have hsplit : readyBlocks (s ++ value) =
      ((readyBlocks s).1 ++ (blocks blankLine blankLine_ne_nil ((readyBlocks s).2 ++ more)).1,
        (blocks blankLine blankLine_ne_nil ((readyBlocks s).2 ++ more)).2) := by
    rw [readyBlocks, hready, blocks_append]
    rfl
  have hrest := congrArg Prod.snd hsplit
  have hcap : ¬ maxPendingChars <
      (blocks blankLine blankLine_ne_nil ((readyBlocks s).2 ++ more)).2.length := by
    rw [← hrest]
    exact Nat.not_lt.mpr fits
  refine ⟨(blocks blankLine blankLine_ne_nil ((readyBlocks s).2 ++ more)).1.filterMap parseBlock,
    ?_, ?_⟩
  · simp only [readChunk, hbuffer]
    rw [bufferAfter, hrest]
    exact if_neg hcap
  · rw [eventsAfter, hsplit, List.filterMap_append]
    rfl

/-- The events of a whole text, the one of the unterminated tail included. -/
def eventsOf (text : JsString) : List SseEvent :=
  eventsAfter text ++ (parseBlock (readyBlocks text).2).toList

theorem readFrom_after {s : JsString} {chunks : List JsString} (fits : Fits (s ++ chunks.flatten)) :
    eventsAfter s ++ readFrom (bufferAfter s) chunks = eventsOf (s ++ chunks.flatten) := by
  induction chunks generalizing s with
  | nil =>
    obtain ⟨more, hwhole, hbuffer⟩ := normalise_buffer s []
    rw [List.append_nil] at hwhole hbuffer
    have hmore : more = [] := by
      have := congrArg Prod.fst hwhole
      simpa using this
    rw [hmore, List.append_nil] at hbuffer
    rw [readFrom, hbuffer, List.flatten_nil, List.append_nil]
    rfl
  | cons value chunks ih =>
    rw [List.flatten_cons, ← List.append_assoc] at fits ⊢
    obtain ⟨events, hread, hafter⟩ := readChunk_after (fits.rest (List.prefix_append _ _))
    rw [readFrom, hread, ← ih fits, hafter, List.append_assoc]

/-- Whatever the cuts, the events are those of the text. -/
theorem readEvents_of_text {text : JsString} (fits : Fits text) {chunks : List JsString}
    (hchunks : chunks.flatten = text) : readEvents chunks = eventsOf text := by
  subst hchunks
  have hnone : readyBlocks [] = ([], []) := blocks_of_none blankLine_ne_nil rfl
  have hafter : eventsAfter [] = [] := by
    rw [eventsAfter, hnone]
    rfl
  have hbuffer : bufferAfter [] = [] := by
    rw [bufferAfter, hnone]
    rfl
  have hread : eventsAfter [] ++ readFrom (bufferAfter []) chunks =
      eventsOf ([] ++ chunks.flatten) := readFrom_after fits
  rwa [hafter, hbuffer] at hread

theorem eventsOf_of_no_cr {text : JsString} (h : cr ∉ text) :
    eventsOf text =
      (blocks blankLine blankLine_ne_nil text).1.filterMap parseBlock ++
        (parseBlock (blocks blankLine blankLine_ne_nil text).2).toList := by
  rw [eventsOf, eventsAfter, readyBlocks, normalise_of_no_cr h]

/-- Two ways of cutting a text that fits the cap yield the same events. -/
theorem chunks_irrelevant {text : JsString} (fits : Fits text) {chunks chunks' : List JsString}
    (hchunks : chunks.flatten = text) (hchunks' : chunks'.flatten = text) :
    readEvents chunks = readEvents chunks' := by
  rw [readEvents_of_text fits hchunks, readEvents_of_text fits hchunks']

theorem length_replaceCr_le (s : JsString) : (replaceCr s).length ≤ s.length := by
  fun_induction replaceCr s with
  | case1 => exact Nat.le_refl _
  | case2 c => exact Nat.le_refl _
  | case3 s ih => exact Nat.le_succ_of_le (Nat.succ_le_succ ih)
  | case4 d s hd ih => exact Nat.succ_le_succ ih
  | case5 c d s hc ih => exact Nat.succ_le_succ ih

theorem fits_of_length {text : JsString} (h : text.length ≤ maxPendingChars) : Fits text := by
  intro p hp
  have hspec := congrArg List.length (blocks_spec blankLine_ne_nil (replaceCr p)).1
  rw [List.length_append] at hspec
  calc (pending p).length ≤ (replaceCr p).length := by rw [hspec]; exact Nat.le_add_left _ _
    _ ≤ p.length := length_replaceCr_le p
    _ ≤ text.length := hp.length_le
    _ ≤ maxPendingChars := h

/-- A pair cut in two, a blank line cut in two and an unterminated tail: two events. -/
theorem chunks_irrelevant_crlf :
    readEvents [js "data: one\r", js "\n\r", [], js "\ndata: two\r"] =
        readEvents [js "data: one\r\n\r\ndata: two\r"] ∧
      readEvents [js "data: one\r\n\r\ndata: two\r"] =
        [⟨js "message", js "one"⟩, ⟨js "message", js "two"⟩] := by
  have fits : Fits (js "data: one\r\n\r\ndata: two\r") := fits_of_length (by decide)
  refine ⟨chunks_irrelevant fits (by decide) (by decide), ?_⟩
  have ready : (normalise (js "data: one\r\n\r\ndata: two\r")).1 =
      js "data: one" ++ Sse.blankLine ++ js "data: two" := by decide
  have first : IsBlock Sse.blankLine (js "data: one") := by
    rw [IsBlock]
    decide
  have split : readyBlocks (js "data: one\r\n\r\ndata: two\r") =
      ([js "data: one"], js "data: two") := by
    rw [readyBlocks, ready, first.blocks, blocks_of_none _ (by decide)]
  rw [readEvents_of_text fits List.flatten_singleton, eventsOf, eventsAfter, split]
  decide

end Karr.Frontend
