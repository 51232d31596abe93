import Karr.Frames

/-!
# Streams cut at arbitrary places

Past the pending cap the reader drops its buffer in the middle of a line and
takes the rest of the line for the start of a block. What is shown for a stream of
frames, however it is cut, is what is shown for its frames, read whole or cut off,
as long as no rest of a line past the cap is one of the texts to look out for.
-/

set_option autoImplicit false

namespace Karr.Sse

open JavaScript Blocks Frontend

variable {bad : JsString → Prop} {ok : List Frame → List SseEvent → Prop}

/-- `stray` says that a chunk may end before the last line feed of the frame before, and
the reader drop everything up to there: that line feed then counts against the cap. -/
def Smooth (bad : JsString → Prop) : Bool → List Frame → Prop
  | _, [] => True
  | stray, f :: frames =>
    (∀ j ≤ f.block.length, maxPendingChars < j + stray.toNat → ¬ bad (f.block.drop j)) ∧
      Smooth bad (decide (maxPendingChars < f.block.length + 1 + stray.toNat)) frames

/-- A relation between frames and the events they are shown as, whole or cut off. -/
structure FrameLaws (ok : List Frame → List SseEvent → Prop) : Prop where
  nil : ok [] []
  append : ∀ {frames frames' events events'}, ok frames events → ok frames' events' →
    ok (frames ++ frames') (events ++ events')
  shown : ∀ f, ok [f] f.shown.toList
  cut : ∀ f n, maxPendingChars < f.block.length + 2 → 20 ≤ n → n ≤ maxEventChars →
    ok [f] ((parseBlock (f.block.take n)).map SseEvent.mark).toList

/-- The rest of a line that is no bad text is shown as nothing. -/
structure CutLaws (bad : JsString → Prop) (ok : List Frame → List SseEvent → Prop) : Prop
    extends FrameLaws ok where
  rest : ∀ s, lf ∉ s → ¬ bad s → ok [] (parseBlock s).toList
  restCut : ∀ s, lf ∉ s → ¬ bad s → maxEventChars ≤ s.length →
    ok [] ((parseBlock (s.take maxEventChars)).map SseEvent.mark).toList

theorem Smooth.mono {frames : List Frame} {stray : Bool} (h : Smooth bad true frames) :
    Smooth bad stray frames := by
  induction frames generalizing stray with
  | nil => trivial
  | cons f frames ih =>
    refine ⟨fun j hj hcap => h.1 j hj ?_, ?_⟩
    · have := stray.toNat_le
      simp only [Bool.toNat_true]
      omega
    · by_cases hcap : maxPendingChars < f.block.length + 1 + true.toNat
      · have := h.2
        rw [decide_eq_true hcap] at this
        exact ih this
      · have hcap' : ¬ maxPendingChars < f.block.length + 1 + stray.toNat := by
          have := stray.toNat_le
          simp only [Bool.toNat_true] at hcap
          omega
        have := h.2
        rw [decide_eq_false hcap] at this
        rw [decide_eq_false hcap']
        exact this

/-- A frame within the cap. -/
theorem Smooth.cons {f : Frame} {frames : List Frame} (short : f.block.length + 2 ≤ maxPendingChars)
    (smooth : Smooth bad false frames) : Smooth bad false (f :: frames) := by
  refine ⟨fun j hj hcap => ?_, ?_⟩
  · simp only [Bool.toNat_false] at hcap
    omega
  · rw [decide_eq_false (by simp only [Bool.toNat_false]; omega)]
    exact smooth

theorem Smooth.tail {f : Frame} {frames : List Frame} {stray : Bool}
    (h : Smooth bad stray (f :: frames)) : Smooth bad false frames := by
  have := h.2
  generalize decide (maxPendingChars < f.block.length + 1 + stray.toNat) = stray' at this
  cases stray' with
  | false => exact this
  | true => exact this.mono

/-- The text that is still to be split, with the buffer, and the frames whose events
are still to come: from the start of a frame, from a stray line feed before one, or
from the middle of a line. -/
inductive Owes (bad : JsString → Prop) : JsString → List Frame → Prop where
  | start {frames : List Frame} (smooth : Smooth bad false frames) :
      Owes bad (stream blankLine (frames.map Frame.block)) frames
  | stray {frames : List Frame} (smooth : Smooth bad true frames) :
      Owes bad (lf :: stream blankLine (frames.map Frame.block)) frames
  | middle {s : JsString} {frames : List Frame} (line : lf ∉ s)
      (quiet : ∀ j ≤ s.length, ¬ bad (s.drop j)) (smooth : Smooth bad true frames) :
      Owes bad (s ++ blankLine ++ stream blankLine (frames.map Frame.block)) frames

/-! ## Places in a frame -/

theorem block_head (f : Frame) : ∃ c s, f.block = c :: s ∧ c ≠ lf := by
  cases f with
  | data line => exact ⟨100, js "ata: " ++ js (escapeLine line), rfl, by decide⟩
  | keepalive => exact ⟨58, js " keepalive", rfl, by decide⟩
  | terminal kind payload =>
    exact ⟨101, js "vent: " ++ js kind.event ++ lf :: (js "data: " ++ js (escapeLine payload)), rfl,
      by decide⟩

theorem isBlock_lf (f : Frame) : IsBlock blankLine (lf :: f.block) := by
  have h := f.isBlock
  obtain ⟨c, s, hs, hc⟩ := block_head f
  rw [hs] at h ⊢
  rw [IsBlock] at h ⊢
  rw [List.cons_append, List.cons_append, indexOf_blank_lf hc, ← List.cons_append, h]
  rfl

theorem lf_not_mem_drop (f : Frame) {j : Nat} (hj : 20 ≤ j) : lf ∉ f.block.drop j := by
  cases f with
  | data line => exact fun h => lf_not_mem_data line (List.mem_of_mem_drop h)
  | keepalive =>
    have hlf : lf ∉ js ": keepalive" := by decide
    exact fun h => hlf (List.mem_of_mem_drop h)
  | terminal kind payload =>
    have hlen : (js "event: " ++ js kind.event).length ≤ 12 := by cases kind <;> decide
    rw [Frame.block, List.drop_append, List.drop_of_length_le (by omega), List.nil_append]
    obtain ⟨k, hk⟩ : ∃ k, j - (js "event: " ++ js kind.event).length = k + 1 :=
      ⟨j - (js "event: " ++ js kind.event).length - 1, by omega⟩
    rw [hk, List.drop_succ_cons]
    exact fun h => lf_not_mem_data payload (List.mem_of_mem_drop h)

theorem append_cases {α : Type} {x u b s : List α} {c : α} (heq : x ++ u = b ++ c :: s)
    (hlen : x.length < b.length + 2) :
    (∃ y, x ++ y = b ∧ u = y ++ c :: s) ∨ x = b ++ [c] ∧ u = s := by
  rcases List.append_eq_append_iff.mp heq with ⟨y, rfl, rfl⟩ | ⟨y, rfl, hy⟩
  · exact Or.inl ⟨y, rfl, rfl⟩
  · rw [List.length_append] at hlen
    match y, hy with
    | [], hy => exact Or.inl ⟨[], by simp, hy.symm⟩
    | [d], hy =>
      cases hy
      exact Or.inr ⟨rfl, rfl⟩
    | d :: e :: y, hy =>
      simp only [List.length_cons] at hlen
      omega

theorem take_of_append {α : Type} {x u b s : List α} (heq : x ++ u = b ++ s) {n : Nat}
    (hx : n ≤ x.length) (hb : n ≤ b.length) : x.take n = b.take n := by
  have := congrArg (List.take n) heq
  rwa [List.take_append_of_le_length hx, List.take_append_of_le_length hb] at this

/-- A stray line feed before a frame. -/
def lead (stray : Bool) : JsString := if stray then [lf] else []

theorem length_lead (stray : Bool) : (lead stray).length = stray.toNat := by
  cases stray <;> rfl

theorem parseBlock_lead (stray : Bool) (s : JsString) :
    parseBlock (lead stray ++ s) = parseBlock s := by
  cases stray with
  | false => rfl
  | true => exact parseBlock_lf s

theorem isBlock_lead (stray : Bool) (f : Frame) : IsBlock blankLine (lead stray ++ f.block) := by
  cases stray with
  | false => exact f.isBlock
  | true => exact isBlock_lf f

theorem cr_not_mem_lead (stray : Bool) : cr ∉ lead stray := by
  cases stray <;> decide

/-! ## However a smooth stream is cut -/

/-- What comes first is a block: that of a frame, or the rest of a line. -/
theorem owes_block (laws : CutLaws bad ok) {b q : JsString} {frames : List Frame}
    (hb : IsBlock blankLine b) (h : Owes bad (b ++ blankLine ++ q) frames) :
    ∃ done rest, frames = done ++ rest ∧ Owes bad q rest ∧ ok done (parseBlock b).toList := by
  generalize hp : b ++ blankLine ++ q = p at h
  cases h with
  | start smooth =>
    cases frames with
    | nil =>
      have := congrArg List.length hp
      simp [blankLine] at this
    | cons f frames =>
      rw [List.map_cons, stream_cons] at hp
      obtain ⟨rfl, rfl⟩ := hb.unique f.isBlock hp
      exact ⟨[f], frames, rfl, .start smooth.tail, parseBlock_block f ▸ laws.shown f⟩
  | stray smooth =>
    cases frames with
    | nil =>
      have := congrArg List.length hp
      simp only [blankLine, List.map_nil, stream_nil, List.length_append, List.length_cons,
        List.length_nil] at this
      omega
    | cons f frames =>
      rw [List.map_cons, stream_cons, ← List.cons_append, ← List.cons_append] at hp
      obtain ⟨rfl, rfl⟩ := hb.unique (isBlock_lf f) hp
      refine ⟨[f], frames, rfl, .start smooth.tail, ?_⟩
      rw [parseBlock_lf, parseBlock_block]
      exact laws.shown f
  | middle line quiet smooth =>
    obtain ⟨rfl, rfl⟩ := hb.unique (isBlock_line line) hp
    exact ⟨[], frames, rfl, .start smooth.mono, laws.rest _ line (quiet 0 (Nat.zero_le _))⟩

theorem owes_stream (laws : CutLaws bad ok) {bs : List JsString}
    (hbs : ∀ b ∈ bs, IsBlock blankLine b) {q : JsString} {frames : List Frame}
    (h : Owes bad (stream blankLine bs ++ q) frames) :
    ∃ done rest, frames = done ++ rest ∧ Owes bad q rest ∧ ok done (bs.filterMap parseBlock) := by
  induction bs generalizing frames with
  | nil => exact ⟨[], frames, rfl, h, laws.nil⟩
  | cons b bs ih =>
    rw [stream_cons, List.append_assoc] at h
    obtain ⟨done, rest, rfl, hq, hdone⟩ := owes_block laws (hbs b List.mem_cons_self) h
    obtain ⟨done', rest', rfl, hq', hdone'⟩ := ih (fun c hc => hbs c (List.mem_cons_of_mem _ hc)) hq
    refine ⟨done ++ done', rest', by rw [List.append_assoc], hq', ?_⟩
    have hevents : (b :: bs).filterMap parseBlock =
        (parseBlock b).toList ++ bs.filterMap parseBlock := by
      rw [List.filterMap_cons]
      cases parseBlock b <;> rfl
    rw [hevents]
    exact laws.append hdone hdone'

/-- No rest of a frame from a place past the cap is bad. -/
theorem owes_rest {f : Frame} {frames : List Frame} {stray : Bool}
    (h : Smooth bad stray (f :: frames)) {x u : JsString} (hlen : x.length < f.block.length + 2)
    (hcap : maxPendingChars < x.length + stray.toNat)
    (hu : x ++ u = f.block ++ lf :: lf :: stream blankLine (frames.map Frame.block)) :
    Owes bad u frames := by
  have hstray := stray.toNat_le
  have hbig : 20 < maxPendingChars := by decide
  have hsmooth : Smooth bad true frames := by
    have := h.2
    rwa [decide_eq_true (by omega)] at this
  rcases append_cases hu hlen with ⟨y, hy, rfl⟩ | ⟨-, rfl⟩
  · have hdrop (j : Nat) : y.drop j = f.block.drop (x.length + j) := by
      rw [← hy, List.drop_append]
      simp
    have hline : lf ∉ y := by
      have := lf_not_mem_drop f (j := x.length) (by omega)
      rwa [← hy, List.drop_left] at this
    have := Owes.middle hline (fun j hj => ?_) hsmooth
    · rwa [List.append_assoc] at this
    · rw [hdrop]
      refine h.1 _ ?_ (by omega)
      rw [← hy, List.length_append]
      omega
  · exact .stray hsmooth

/-- A buffer past the cap is dropped: a frame is cut off, or the rest of one. -/
theorem owes_cap (laws : CutLaws bad ok) {x u : JsString} {frames : List Frame}
    (h : Owes bad (x ++ u) frames) (hx : indexOf blankLine x = none)
    (hcap : maxPendingChars < x.length) :
    ∃ done rest, frames = done ++ rest ∧ Owes bad u rest ∧
      ok done ((parseBlock (x.take maxEventChars)).map SseEvent.mark).toList := by
  have hbig : 21 < maxEventChars ∧ maxEventChars < maxPendingChars := by decide
  generalize hp : x ++ u = p at h
  cases h with
  | start smooth =>
    cases frames with
    | nil =>
      have := congrArg List.length hp
      simp only [List.map_nil, stream_nil, List.length_append, List.length_nil] at this
      omega
    | cons f frames =>
      rw [List.map_cons, stream_cons] at hp
      have hlen : x.length < f.block.length + 2 := f.isBlock.lt_of_none hx hp
      rw [List.append_assoc] at hp
      refine ⟨[f], frames, rfl, owes_rest smooth hlen (by simpa using hcap) hp, ?_⟩
      rw [take_of_append hp (by omega) (by omega)]
      exact laws.cut f maxEventChars (by omega) (by omega) (Nat.le_refl _)
  | stray smooth =>
    cases x with
    | nil => simp at hcap
    | cons c x =>
      cases frames with
      | nil =>
        have := congrArg List.length hp
        simp only [List.map_nil, stream_nil, List.length_append, List.length_cons,
          List.length_nil] at this hcap
        omega
      | cons f frames =>
        rw [List.map_cons, stream_cons] at hp
        have hlen : (c :: x).length < (lf :: f.block).length + 2 :=
          (isBlock_lf f).lt_of_none hx (by simpa using hp)
        rw [List.cons_append, List.append_assoc] at hp
        obtain ⟨rfl, htail⟩ := List.cons.inj hp
        simp only [List.length_cons] at hlen hcap
        refine ⟨[f], frames, rfl, owes_rest smooth (by omega) hcap htail, ?_⟩
        obtain ⟨n, hn⟩ : ∃ n, maxEventChars = n + 1 := ⟨_, rfl⟩
        rw [hn, List.take_succ_cons, parseBlock_lf, take_of_append htail (by omega) (by omega)]
        exact laws.cut f n (by omega) (by omega) (by omega)
  | @middle s frames line quiet smooth =>
    have hlen : x.length < s.length + 2 := (isBlock_line line).lt_of_none hx hp
    rw [List.append_assoc] at hp
    have htake := take_of_append hp (n := maxEventChars) (by omega) (by omega)
    refine ⟨[], frames, rfl, ?_, ?_⟩
    · rcases append_cases hp hlen with ⟨y, hy, rfl⟩ | ⟨-, rfl⟩
      · have hdrop (j : Nat) : y.drop j = s.drop (x.length + j) := by
          rw [← hy, List.drop_append]
          simp
        have := Owes.middle (s := y) (fun h => line (hy ▸ List.mem_append_right _ h))
          (fun j hj => ?_) smooth
        · rwa [List.append_assoc] at this
        · rw [hdrop]
          refine quiet _ ?_
          rw [← hy, List.length_append]
          omega
      · exact .stray smooth
    · rw [htake]
      exact laws.restCut s line (quiet 0 (Nat.zero_le _)) (by omega)

theorem readFrom_owes (laws : CutLaws bad ok) {buffer : JsString} {chunks : List JsString}
    {frames : List Frame} (hcr : cr ∉ buffer ++ chunks.flatten)
    (unfinished : indexOf blankLine buffer = none)
    (h : Owes bad (buffer ++ chunks.flatten) frames) : ok frames (readFrom buffer chunks) := by
  induction chunks generalizing buffer frames with
  | nil =>
    rw [List.flatten_nil, List.append_nil] at hcr h
    rw [readFrom, normalise_of_no_cr hcr]
    cases h with
    | start smooth =>
      cases frames with
      | nil => exact laws.nil
      | cons f frames =>
        rw [List.map_cons, stream_cons, f.isBlock.indexOf] at unfinished
        cases unfinished
    | stray smooth =>
      cases frames with
      | nil => exact laws.nil
      | cons f frames =>
        rw [List.map_cons, stream_cons, ← List.cons_append, ← List.cons_append,
          (isBlock_lf f).indexOf] at unfinished
        cases unfinished
    | middle line =>
      rw [(isBlock_line line).indexOf] at unfinished
      cases unfinished
  | cons value chunks ih =>
    rw [List.flatten_cons, ← List.append_assoc] at hcr h
    have hread : cr ∉ buffer ++ value := fun h => hcr (List.mem_append_left _ h)
    have hrest : cr ∉ chunks.flatten := fun h => hcr (List.mem_append_right _ h)
    obtain ⟨hspec, hblocks⟩ := blocks_spec blankLine_ne_nil (buffer ++ value)
    have hunfinished := indexOf_rest blankLine_ne_nil (buffer ++ value)
    rw [readFrom, readChunk_of_no_cr hread]
    generalize blocks blankLine blankLine_ne_nil (buffer ++ value) = r at *
    rw [hspec, List.append_assoc] at h hcr
    obtain ⟨done, rest, rfl, hq, hdone⟩ := owes_stream laws hblocks h
    by_cases hcap : maxPendingChars < r.2.length
    · simp only [if_pos hcap]
      obtain ⟨cut, rest, rfl, hq, hcut⟩ := owes_cap laws hq hunfinished hcap
      rw [← List.append_assoc]
      exact laws.append (laws.append hdone hcut) (ih hrest rfl hq)
    · simp only [if_neg hcap]
      exact laws.append hdone (ih (fun h => hcr (List.mem_append_right _ h)) hunfinished hq)

/-- A smooth stream is shown as its frames are, however it is cut. -/
theorem readEvents_of_smooth (laws : CutLaws bad ok) {frames : List Frame}
    (smooth : Smooth bad false frames) {chunks : List JsString}
    (text : chunks.flatten = js (streamText frames)) : ok frames (readEvents chunks) := by
  rw [js_streamText] at text
  have owes : Owes bad ([] ++ chunks.flatten) frames := text ▸ Owes.start smooth
  exact readFrom_owes laws (text ▸ cr_not_mem_stream frames) rfl owes

/-! ## A cut that brings up a bad text -/

/-- A frame is cut off in its text or behind its first line feed. -/
theorem readChunk_cut {f : Frame} {stray : Bool} {x : JsString} (hx : x <+: f.block ++ [lf])
    (hcap : maxPendingChars < x.length + stray.toNat) :
    readChunk (lead stray) x =
      (((parseBlock (f.block.take (maxEventChars - stray.toNat))).map SseEvent.mark).toList, []) := by
  have hbig : 21 < maxEventChars ∧ maxEventChars + 1 < maxPendingChars := by decide
  have hstray := stray.toNat_le
  have hlen := hx.length_le
  rw [List.length_append, List.length_singleton] at hlen
  have hcr : cr ∉ lead stray ++ x := by
    rw [List.mem_append, not_or]
    refine ⟨cr_not_mem_lead stray, fun h => ?_⟩
    rcases List.mem_append.mp (hx.subset h) with h | h
    · exact cr_not_mem_block f h
    · revert h
      decide
  have hunfinished : indexOf blankLine (lead stray ++ x) = none := by
    refine (isBlock_lead stray f).unfinished (s := lead stray ++ x) ?_ ?_
    · rw [List.append_assoc, List.prefix_append_right_inj]
      exact hx.trans ⟨[lf], by rw [List.append_assoc]; rfl⟩
    · rw [List.length_append, List.length_append]
      have : blankLine.length = 2 := rfl
      omega
  obtain ⟨u, hu⟩ := hx
  have htake : (lead stray ++ x).take maxEventChars =
      lead stray ++ f.block.take (maxEventChars - stray.toNat) := by
    rw [List.take_append, length_lead, take_of_append hu (by omega) (by omega),
      List.take_of_length_le (by rw [length_lead]; omega)]
  have hover : maxPendingChars < (lead stray ++ x).length := by
    rw [List.length_append, length_lead]
    omega
  rw [readChunk_of_no_cr hcr, blocks_of_none blankLine_ne_nil hunfinished]
  simp only [if_pos hover, htake, parseBlock_lead]
  rfl

theorem readChunk_stream {buffer value : JsString} {bs : List JsString}
    (hbs : ∀ b ∈ bs, IsBlock blankLine b) (hcr : cr ∉ stream blankLine bs)
    (heq : buffer ++ value = stream blankLine bs) :
    readChunk buffer value = (bs.filterMap parseBlock, []) := by
  have hblocks := blocks_stream blankLine_ne_nil hbs []
  rw [List.append_nil, blocks_of_none blankLine_ne_nil (s := []) rfl, List.append_nil] at hblocks
  rw [readChunk_of_no_cr (heq ▸ hcr), heq, hblocks]
  rfl

theorem readFrom_cons (buffer value : JsString) (chunks : List JsString) :
    readFrom buffer (value :: chunks) =
      (readChunk buffer value).1 ++ readFrom (readChunk buffer value).2 chunks :=
  rfl

theorem readFrom_nil : readFrom [] [] = [] := by decide

theorem readChunk_lf : readChunk [] [lf] = ([], [lf]) := by
  rw [readChunk_of_no_cr (by decide), List.nil_append, blocks_of_none blankLine_ne_nil (by decide)]
  decide

/-- From the middle of a line the rest of the stream is read block by block. -/
theorem readChunk_middle (f : Frame) (frames : List Frame) {j : Nat} (hj : 20 ≤ j) :
    readChunk [] (stream blankLine (f.block.drop j :: frames.map Frame.block)) =
      ((f.block.drop j :: frames.map Frame.block).filterMap parseBlock, []) := by
  have hblocks : ∀ b ∈ f.block.drop j :: frames.map Frame.block, IsBlock blankLine b :=
    List.forall_mem_cons.mpr
      ⟨isBlock_line (lf_not_mem_drop f hj), by simpa using fun f _ => f.isBlock⟩
  have hcr : cr ∉ stream blankLine (f.block.drop j :: frames.map Frame.block) := by
    intro hm
    rw [stream_cons, List.mem_append, List.mem_append] at hm
    rcases hm with (hm | hm) | hm
    · exact cr_not_mem_block f (List.mem_of_mem_drop hm)
    · revert hm
      decide
    · exact cr_not_mem_stream frames hm
  exact readChunk_stream hblocks hcr rfl

/-- A whole frame in one chunk, behind the line feed that may be left of the one before. -/
theorem readChunk_frame (stray : Bool) (f : Frame) :
    readChunk (lead stray) (f.block ++ blankLine) = (f.shown.toList, []) := by
  have hblocks : ∀ b ∈ [lead stray ++ f.block], IsBlock blankLine b := by
    simpa using isBlock_lead stray f
  have hcr : cr ∉ stream blankLine [lead stray ++ f.block] := by
    have hblank : cr ∉ blankLine := by decide
    simpa [cr_not_mem_lead, cr_not_mem_block] using hblank
  rw [readChunk_stream hblocks hcr (by simp), List.filterMap_cons, parseBlock_lead,
    parseBlock_block]
  cases f.shown <;> rfl

/-- The frames up to one of which a rest past the cap is bad; a way to cut the stream there,
and what is shown: those frames, the rest as a block, and the frames after it. -/
structure BadCut (bad : JsString → Prop) (ok : List Frame → List SseEvent → Prop)
    (stray : Bool) (frames : List Frame) (chunks : List JsString) where
  before : List Frame
  cut : Frame
  after : List Frame
  place : Nat
  events : List SseEvent
  split : frames = before ++ cut :: after
  long : maxPendingChars < cut.block.length + 2
  line : lf ∉ cut.block.drop place
  text : bad (cut.block.drop place)
  shown : ok (before ++ [cut]) events
  read : readFrom (lead stray) chunks = events ++ ((parseBlock (cut.block.drop place)).toList ++
    (after.map Frame.block).filterMap parseBlock)

theorem exists_badCut (laws : FrameLaws ok) {frames : List Frame} {stray : Bool}
    (h : ¬ Smooth bad stray frames) :
    ∃ chunks : List JsString, chunks.flatten = stream blankLine (frames.map Frame.block) ∧
      Nonempty (BadCut bad ok stray frames chunks) := by
  have hbig : 21 < maxEventChars ∧ maxEventChars < maxPendingChars := by decide
  induction frames generalizing stray with
  | nil => exact absurd trivial h
  | cons f frames ih =>
    have hstray := stray.toNat_le
    have cut (hlong : maxPendingChars < f.block.length + 2) :
        ok [f] ((parseBlock (f.block.take (maxEventChars - stray.toNat))).map SseEvent.mark).toList :=
      laws.cut f _ hlong (by omega) (by omega)
    rcases not_and_or.mp h with hbad | hrest
    · -- a chunk that ends where the bad text starts
      obtain ⟨j, hj⟩ := not_forall.mp hbad
      obtain ⟨hlen, hj⟩ := Classical.not_imp.mp hj
      obtain ⟨hcap, hj⟩ := Classical.not_imp.mp hj
      rw [Classical.not_not] at hj
      have htake : (f.block.take j).length = j := List.length_take_of_le hlen
      have hprefix : f.block.take j <+: f.block ++ [lf] :=
        (List.take_prefix j f.block).trans (List.prefix_append _ _)
      refine ⟨[f.block.take j, stream blankLine (f.block.drop j :: frames.map Frame.block)], ?_, ⟨{
        before := []
        cut := f
        after := frames
        place := j
        events := _
        split := rfl
        long := by omega
        line := lf_not_mem_drop f (by omega)
        text := hj
        shown := cut (by omega)
        read := ?_ }⟩⟩
      · simp [← List.append_assoc]
      · rw [readFrom_cons, readChunk_cut hprefix (htake.symm ▸ hcap), readFrom_cons,
          readChunk_middle f frames (by omega), readFrom_nil, List.append_nil, List.filterMap_cons]
        cases parseBlock (f.block.drop j) <;> rfl
    · by_cases hcap : maxPendingChars < f.block.length + 1 + stray.toNat
      · -- a chunk that leaves the last line feed of this frame
        rw [decide_eq_true hcap] at hrest
        obtain ⟨chunks, hflat, ⟨b⟩⟩ := ih hrest
        have hlen : maxPendingChars < (f.block ++ [lf]).length + stray.toNat := by
          rw [List.length_append]
          exact hcap
        have shown := laws.append (cut (by omega)) b.shown
        refine ⟨(f.block ++ [lf]) :: [lf] :: chunks, ?_, ⟨{ b with
          before := f :: b.before
          events := _
          split := congrArg (f :: ·) b.split
          shown := shown
          read := ?_ }⟩⟩
        · rw [List.flatten_cons, List.flatten_cons, hflat, List.map_cons, stream_cons]
          simp [blankLine]
        · have hlead : readFrom [lf] chunks = _ := b.read
          rw [readFrom_cons, readChunk_cut (List.prefix_refl _) hlen, readFrom_cons, readChunk_lf,
            hlead, List.nil_append, List.append_assoc]
      · rw [decide_eq_false hcap] at hrest
        obtain ⟨chunks, hflat, ⟨b⟩⟩ := ih hrest
        have shown := laws.append (laws.shown f) b.shown
        refine ⟨(f.block ++ blankLine) :: chunks, ?_, ⟨{ b with
          before := f :: b.before
          events := _
          split := congrArg (f :: ·) b.split
          shown := shown
          read := ?_ }⟩⟩
        · rw [List.flatten_cons, hflat, List.map_cons, stream_cons]
        · have hlead : readFrom [] chunks = _ := b.read
          rw [readFrom_cons, readChunk_frame, hlead, List.append_assoc]

end Karr.Sse
