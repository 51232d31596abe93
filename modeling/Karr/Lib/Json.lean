import Karr.JavaScript
import Karr.Python

/-!
# JSON texts

What `json.dumps` writes and what `JSON.parse` reads. The writer works on the
characters of a text, the reader on the UTF-16 units the platform hands it.
-/

set_option autoImplicit false

namespace Json

open JavaScript

/-- A value whose texts are of `σ`; a number stays the text it is written as. -/
inductive Value (σ : Type) where
  | null
  | bool (b : Bool)
  | number (lexeme : σ)
  | string (s : σ)
  | array (elements : List (Value σ))
  | object (members : List (σ × Value σ))

/-! ## Numbers -/

inductive NumberState where
  | start
  | minus
  | zero
  | digits
  | point
  | fraction
  | exponent
  | sign
  | power
  deriving DecidableEq, Repr

def isDigit (u : UInt16) : Bool := 48 ≤ u && u ≤ 57

def NumberState.next (u : UInt16) : NumberState → Option NumberState
  | .start => if u = 45 then some .minus else if u = 48 then some .zero
      else if isDigit u then some .digits else none
  | .minus => if u = 48 then some .zero else if isDigit u then some .digits else none
  | .zero => if u = 46 then some .point else if u = 101 ∨ u = 69 then some .exponent else none
  | .digits => if isDigit u then some .digits else if u = 46 then some .point
      else if u = 101 ∨ u = 69 then some .exponent else none
  | .point => if isDigit u then some .fraction else none
  | .fraction => if isDigit u then some .fraction
      else if u = 101 ∨ u = 69 then some .exponent else none
  | .exponent => if u = 43 ∨ u = 45 then some .sign else if isDigit u then some .power else none
  | .sign => if isDigit u then some .power else none
  | .power => if isDigit u then some .power else none

def NumberState.accepts : NumberState → Bool
  | .zero | .digits | .fraction | .power => true
  | _ => false

/-- The number at the front, and what follows. -/
def scan : NumberState → JsString → Option (JsString × JsString)
  | state, [] => if state.accepts then some ([], []) else none
  | state, u :: s =>
    match state.next u with
    | some state => (scan state s).map fun r => (u :: r.1, r.2)
    | none => if state.accepts then some ([], u :: s) else none

def IsNumber (lexeme : String) : Prop := scan .start (js lexeme) = some (js lexeme, [])

/-- What can follow a value inside a text. -/
def Ends (rest : JsString) : Prop :=
  ∀ u s, rest = u :: s → ∀ state : NumberState, state.next u = none

theorem scan_append {rest : JsString} (ends : Ends rest) {state : NumberState} {s : JsString}
    (h : scan state s = some (s, [])) : scan state (s ++ rest) = some (s, rest) := by
  induction s generalizing state with
  | nil =>
    have accepts : state.accepts = true := by
      rw [scan] at h
      split at h
      · assumption
      · cases h
    cases rest with
    | nil => exact h
    | cons u rest => rw [List.nil_append, scan, ends u rest rfl state, if_pos accepts]
  | cons u s ih =>
    rw [List.cons_append, scan]
    rw [scan] at h
    cases hn : state.next u with
    | none =>
      rw [hn] at h
      dsimp only at h
      split at h <;> cases h
    | some next =>
      rw [hn] at h
      dsimp only at h ⊢
      obtain ⟨⟨n, r⟩, hr, heq⟩ := Option.map_eq_some_iff.mp h
      cases heq
      rw [ih hr]
      rfl

/-! ## Texts -/

def quote : UInt16 := 34

/-- The letters of the short escapes. -/
def unescape (e : UInt16) : Option UInt16 :=
  if e = quote ∨ e = backslash ∨ e = 47 then some e
  else if e = 98 then some 8
  else if e = 102 then some 12
  else if e = 110 then some 10
  else if e = 114 then some 13
  else if e = 116 then some 9
  else none

def hexVal (u : UInt16) : Option Nat :=
  if 48 ≤ u ∧ u ≤ 57 then some (u.toNat - 48)
  else if 97 ≤ u ∧ u ≤ 102 then some (u.toNat - 87)
  else if 65 ≤ u ∧ u ≤ 70 then some (u.toNat - 55)
  else none

def hex4 (a b c d : UInt16) : Option UInt16 := do
  let a ← hexVal a
  let b ← hexVal b
  let c ← hexVal c
  let d ← hexVal d
  return (a * 4096 + b * 256 + c * 16 + d).toUInt16

/-- The text behind a quote, and what follows the quote that ends it. -/
def unquote : JsString → Option (JsString × JsString)
  | [] => none
  | u :: s =>
    if u = quote then some ([], s)
    else if u = backslash then
      match s with
      | [] => none
      | e :: s =>
        if e = 117 then
          match s with
          | a :: b :: c :: d :: s =>
            (hex4 a b c d).bind fun u => (unquote s).map fun r => (u :: r.1, r.2)
          | _ => none
        else (unescape e).bind fun u => (unquote s).map fun r => (u :: r.1, r.2)
    else if u < 32 then none
    else (unquote s).map fun r => (u :: r.1, r.2)

theorem unquote_quote (s : JsString) : unquote (quote :: s) = some ([], s) := by
  rw [unquote.eq_def]
  exact if_pos rfl

theorem unquote_plain {u : UInt16} (hq : u ≠ quote) (hb : u ≠ backslash) (hc : ¬ u < 32)
    (s : JsString) : unquote (u :: s) = (unquote s).map fun r => (u :: r.1, r.2) := by
  conv => lhs; rw [unquote.eq_def]
  exact (if_neg hq).trans ((if_neg hb).trans (if_neg hc))

theorem unquote_short {e u : UInt16} (hu : e ≠ 117) (h : unescape e = some u) (s : JsString) :
    unquote (backslash :: e :: s) = (unquote s).map fun r => (u :: r.1, r.2) := by
  have apart : backslash ≠ quote := by decide
  conv => lhs; rw [unquote.eq_def]
  dsimp only
  rw [if_neg apart, if_pos rfl, if_neg hu, h]
  rfl

theorem unquote_hex {a b c d u : UInt16} (h : hex4 a b c d = some u) (s : JsString) :
    unquote (backslash :: 117 :: a :: b :: c :: d :: s) =
      (unquote s).map fun r => (u :: r.1, r.2) := by
  have apart : backslash ≠ quote := by decide
  conv => lhs; rw [unquote.eq_def]
  dsimp only
  rw [if_neg apart, if_pos rfl, if_pos rfl, h]
  rfl

/-! ## The reader -/

def isWs (u : UInt16) : Bool := u == 32 || u == 10 || u == 13 || u == 9

def skipWs (s : JsString) : JsString := s.dropWhile isWs

def literal (text : String) (v : Value JsString) (s : JsString) :
    Option (Value JsString × JsString) :=
  if js text <+: s then some (v, s.drop (js text).length) else none

mutual

/-- The value at the front, and what follows. -/
def parseValue : Nat → JsString → Option (Value JsString × JsString)
  | 0, _ => none
  | fuel + 1, s =>
    match skipWs s with
    | [] => none
    | u :: s =>
      if u = quote then (unquote s).map fun r => (.string r.1, r.2)
      else if u = 91 then
        match skipWs s with
        | 93 :: s => some (.array [], s)
        | s => (parseElements fuel s).map fun r => (.array r.1, r.2)
      else if u = 123 then
        match skipWs s with
        | 125 :: s => some (.object [], s)
        | s => (parseMembers fuel s).map fun r => (.object r.1, r.2)
      else if u = 110 then literal "null" .null (u :: s)
      else if u = 116 then literal "true" (.bool true) (u :: s)
      else if u = 102 then literal "false" (.bool false) (u :: s)
      else (scan .start (u :: s)).map fun r => (.number r.1, r.2)

def parseElements : Nat → JsString → Option (List (Value JsString) × JsString)
  | 0, _ => none
  | fuel + 1, s =>
    (parseValue fuel s).bind fun v =>
      match skipWs v.2 with
      | 44 :: s => (parseElements fuel s).map fun r => (v.1 :: r.1, r.2)
      | 93 :: s => some ([v.1], s)
      | _ => none

def parseMembers : Nat → JsString → Option (List (JsString × Value JsString) × JsString)
  | 0, _ => none
  | fuel + 1, s =>
    match skipWs s with
    | 34 :: s =>
      (unquote s).bind fun k =>
        match skipWs k.2 with
        | 58 :: s =>
          (parseValue fuel s).bind fun v =>
            match skipWs v.2 with
            | 44 :: s => (parseMembers fuel s).map fun r => ((k.1, v.1) :: r.1, r.2)
            | 125 :: s => some ([(k.1, v.1)], s)
            | _ => none
        | _ => none
    | _ => none

end

/-- `JSON.parse`, `none` for its `SyntaxError`; every second call takes a unit off the text. -/
def parse (s : JsString) : Option (Value JsString) :=
  match parseValue (2 * s.length + 2) s with
  | some (v, rest) => if skipWs rest = [] then some v else none
  | none => none

/-- A member of the object a text stands for: a later one of the same name replaces it. -/
def Value.get {σ : Type} [DecidableEq σ] (v : Value σ) (key : σ) : Option (Value σ) :=
  match v with
  | .object members => (Python.dictGet Prod.fst members key).map Prod.snd
  | _ => none

/-! ## The writer -/

/-- The keywords of `json.dumps` that change a text. -/
structure Style where
  ensureAscii : Bool
  /-- With a blank behind each comma and colon. -/
  spaced : Bool

def hexDigits (n : Nat) : List Char :=
  [Nat.digitChar (n / 4096 % 16), Nat.digitChar (n / 256 % 16), Nat.digitChar (n / 16 % 16),
    Nat.digitChar (n % 16)]

def escapeUnit (u : UInt16) : List Char := '\\' :: 'u' :: hexDigits u.toNat

def escapeChar (ensureAscii : Bool) (c : Char) : List Char :=
  if c = '"' then ['\\', '"']
  else if c = '\\' then ['\\', '\\']
  else if c = '\n' then ['\\', 'n']
  else if c = '\r' then ['\\', 'r']
  else if c = '\t' then ['\\', 't']
  else if c.toNat = 12 then ['\\', 'f']
  else if c.toNat = 8 then ['\\', 'b']
  else if c.toNat < 32 ∨ ensureAscii = true ∧ 126 < c.toNat then (utf16 c).flatMap escapeUnit
  else [c]

def dumpsString (style : Style) (s : String) : List Char :=
  '"' :: s.toList.flatMap (escapeChar style.ensureAscii) ++ ['"']

def Style.separator (style : Style) (c : Char) : List Char :=
  if style.spaced then [c, ' '] else [c]

mutual

def dumps (style : Style) : Value String → List Char
  | .null => "null".toList
  | .bool true => "true".toList
  | .bool false => "false".toList
  | .number lexeme => lexeme.toList
  | .string s => dumpsString style s
  | .array [] => ['[', ']']
  | .array (v :: vs) => '[' :: dumps style v ++ dumpsElements style vs
  | .object [] => ['{', '}']
  | .object ((k, v) :: ms) =>
    '{' :: dumpsString style k ++ style.separator ':' ++ dumps style v ++ dumpsMembers style ms

/-- What stands behind the first element. -/
def dumpsElements (style : Style) : List (Value String) → List Char
  | [] => [']']
  | v :: vs => style.separator ',' ++ dumps style v ++ dumpsElements style vs

def dumpsMembers (style : Style) : List (String × Value String) → List Char
  | [] => ['}']
  | (k, v) :: ms =>
    style.separator ',' ++ dumpsString style k ++ style.separator ':' ++ dumps style v ++
      dumpsMembers style ms

end

/-! ## What is read of what is written -/

/-- The texts of a value as the platform has them. -/
def Value.map {σ τ : Type} (f : σ → τ) : Value σ → Value τ
  | .null => .null
  | .bool b => .bool b
  | .number lexeme => .number (f lexeme)
  | .string s => .string (f s)
  | .array elements => .array (mapElements f elements)
  | .object members => .object (mapMembers f members)
where
  mapElements (f : σ → τ) : List (Value σ) → List (Value τ)
    | [] => []
    | v :: vs => v.map f :: mapElements f vs
  mapMembers (f : σ → τ) : List (σ × Value σ) → List (τ × Value τ)
    | [] => []
    | (k, v) :: ms => (f k, v.map f) :: mapMembers f ms

/-- The numbers of a value are written as numbers. -/
def Value.Lawful : Value String → Prop
  | .number lexeme => IsNumber lexeme
  | .array elements => lawfulElements elements
  | .object members => lawfulMembers members
  | _ => True
where
  lawfulElements : List (Value String) → Prop
    | [] => True
    | v :: vs => v.Lawful ∧ lawfulElements vs
  lawfulMembers : List (String × Value String) → Prop
    | [] => True
    | (_, v) :: ms => v.Lawful ∧ lawfulMembers ms

def units (cs : List Char) : JsString := cs.flatMap utf16

theorem units_cons (c : Char) (cs : List Char) : units (c :: cs) = utf16 c ++ units cs := rfl

theorem units_append (cs ds : List Char) : units (cs ++ ds) = units cs ++ units ds :=
  List.flatMap_append

/-- Behind an opening quote or an escape, some units of the text stand for `us`. -/
def Reads (text us : JsString) : Prop :=
  ∀ t, unquote (text ++ t) = (unquote t).map fun r => (us ++ r.1, r.2)

theorem reads_nil : Reads [] [] := fun t => by
  rw [List.nil_append]
  cases unquote t <;> rfl

theorem Reads.append {a b us vs : JsString} (ha : Reads a us) (hb : Reads b vs) :
    Reads (a ++ b) (us ++ vs) := by
  intro t
  rw [List.append_assoc, ha, hb, Option.map_map]
  congr 1
  funext r
  simp

theorem reads_plain {u : UInt16} (hq : u ≠ quote) (hb : u ≠ backslash) (hc : ¬ u < 32) :
    Reads [u] [u] := by
  exact fun t => unquote_plain hq hb hc t

theorem reads_short {e u : UInt16} (hu : e ≠ 117) (h : unescape e = some u) :
    Reads [backslash, e] [u] := by
  exact fun t => unquote_short hu h t

theorem hexVal_digitChar {d : Nat} (h : d < 16) :
    ∃ u, utf16 (Nat.digitChar d) = [u] ∧ hexVal u = some d := by
  have all : ∀ d < 16, utf16 (Nat.digitChar d) = [(Nat.digitChar d).toNat.toUInt16] ∧
      hexVal (Nat.digitChar d).toNat.toUInt16 = some d := by decide
  exact ⟨_, (all d h).1, (all d h).2⟩

theorem reads_escapeUnit (u : UInt16) : Reads (units (escapeUnit u)) [u] := by
  intro t
  obtain ⟨a, ha, va⟩ := hexVal_digitChar (Nat.mod_lt (u.toNat / 4096) (by decide : 0 < 16))
  obtain ⟨b, hb, vb⟩ := hexVal_digitChar (Nat.mod_lt (u.toNat / 256) (by decide : 0 < 16))
  obtain ⟨c, hc, vc⟩ := hexVal_digitChar (Nat.mod_lt (u.toNat / 16) (by decide : 0 < 16))
  obtain ⟨d, hd, vd⟩ := hexVal_digitChar (Nat.mod_lt u.toNat (by decide : 0 < 16))
  have text : units (escapeUnit u) = [backslash, 117, a, b, c, d] := by
    rw [escapeUnit, hexDigits]
    simp only [units_cons, ha, hb, hc, hd]
    rfl
  have value : hex4 a b c d = some u := by
    rw [hex4, va, vb, vc, vd]
    have := u.toNat_lt
    refine congrArg some (UInt16.toNat_inj.mp ?_)
    simp only [Nat.toUInt16_eq, UInt16.toNat_ofNat']
    omega
  rw [text]
  exact unquote_hex value t

theorem reads_escapeUnits (us : JsString) : Reads (units (us.flatMap escapeUnit)) us := by
  induction us with
  | nil => exact reads_nil
  | cons u us ih =>
    rw [List.flatMap_cons, units_append]
    exact (reads_escapeUnit u).append ih

theorem reads_units {us : JsString}
    (h : ∀ u ∈ us, u ≠ quote ∧ u ≠ backslash ∧ ¬ u < 32) : Reads us us := by
  induction us with
  | nil => exact reads_nil
  | cons u us ih =>
    obtain ⟨hq, hb, hc⟩ := h u List.mem_cons_self
    exact (reads_plain hq hb hc).append (ih fun v hv => h v (List.mem_cons_of_mem _ hv))

/-- A character is read back whether it is escaped or not. -/
theorem reads_escapeChar (ensureAscii : Bool) (c : Char) :
    Reads (units (escapeChar ensureAscii c)) (utf16 c) := by
  have short (e : Char) {u v : UInt16} (hc : utf16 c = [v]) (he : utf16 e = [u]) (hu : u ≠ 117)
      (h : unescape u = some v) : Reads (units ['\\', e]) (utf16 c) := by
    have text : units ['\\', e] = [backslash, u] := by
      rw [units_cons, units_cons, he]
      rfl
    rw [text, hc]
    exact reads_short hu h
  have ofNat {n : Nat} (h : c.toNat = n) (hn : n < 0x10000) : utf16 c = [n.toUInt16] := by
    rw [utf16, if_pos (h ▸ hn), h]
  unfold escapeChar
  split
  · rename_i h
    exact short '"' (by rw [h]; rfl) rfl (by decide) rfl
  split
  · rename_i h
    exact short '\\' (by rw [h]; rfl) rfl (by decide) rfl
  split
  · rename_i h
    exact short 'n' (by rw [h]; rfl) rfl (by decide) rfl
  split
  · rename_i h
    exact short 'r' (by rw [h]; rfl) rfl (by decide) rfl
  split
  · rename_i h
    exact short 't' (by rw [h]; rfl) rfl (by decide) rfl
  split
  · rename_i h
    exact short 'f' (ofNat h (by decide)) rfl (by decide) rfl
  split
  · rename_i h
    exact short 'b' (ofNat h (by decide)) rfl (by decide) rfl
  split
  · exact reads_escapeUnits (utf16 c)
  · rename_i noQuote noSlash _ _ _ _ _ plain
    rw [units_cons, show units [] = [] from rfl, List.append_nil]
    refine reads_units fun u hu => ?_
    have ascii (h : u.toNat < 128) : c.toNat = u.toNat := (utf16_of_ascii h hu).2
    refine ⟨fun eq => noQuote ?_, fun eq => noSlash ?_, fun low => plain (Or.inl ?_)⟩
    · exact Char.toNat_inj.mp ((ascii (by rw [eq]; decide)).trans (by rw [eq]; rfl))
    · exact Char.toNat_inj.mp ((ascii (by rw [eq]; decide)).trans (by rw [eq]; rfl))
    · have low : u.toNat < 32 := UInt16.lt_iff_toNat_lt.mp low
      rw [ascii (Nat.lt_trans low (by decide))]
      exact low

theorem unquote_dumpsString (style : Style) (s : String) (t : JsString) :
    ∃ text, units (dumpsString style s) = quote :: text ∧
      unquote (text ++ t) = some (js s, t) := by
  have reads : ∀ cs : List Char,
      Reads (units (cs.flatMap (escapeChar style.ensureAscii))) (units cs) := by
    intro cs
    induction cs with
    | nil => exact reads_nil
    | cons c cs ih =>
      rw [List.flatMap_cons, units_append]
      exact (reads_escapeChar style.ensureAscii c).append ih
  refine ⟨units (s.toList.flatMap (escapeChar style.ensureAscii)) ++ [quote], ?_, ?_⟩
  · rw [dumpsString, List.cons_append, units_cons, units_append]
    rfl
  · rw [List.append_assoc, reads s.toList]
    rw [List.singleton_append, unquote_quote, Option.map_some, List.append_nil]
    rfl

/-! ### White space and what follows a value -/

theorem skipWs_cons {u : UInt16} (h : isWs u = false) (s : JsString) :
    skipWs (u :: s) = u :: s := by
  rw [skipWs, List.dropWhile_cons_of_neg (by simp [h])]

def Style.blank (style : Style) : JsString := if style.spaced then [32] else []

theorem skipWs_blank (style : Style) (s : JsString) : skipWs (style.blank ++ s) = skipWs s := by
  unfold Style.blank
  split
  · rw [skipWs, List.singleton_append, List.dropWhile_cons_of_pos (by decide)]
    rfl
  · rfl

theorem units_separator (style : Style) (c : Char) :
    units (style.separator c) = utf16 c ++ style.blank := by
  unfold Style.separator Style.blank
  split
  · rfl
  · rw [units_cons]
    rfl

theorem parseValue_blank (style : Style) (fuel : Nat) (s : JsString) :
    parseValue fuel (style.blank ++ s) = parseValue fuel s := by
  cases fuel with
  | zero => rfl
  | succ fuel => rw [parseValue, parseValue, skipWs_blank]

theorem parseElements_blank (style : Style) (fuel : Nat) (s : JsString) :
    parseElements fuel (style.blank ++ s) = parseElements fuel s := by
  cases fuel with
  | zero => rfl
  | succ fuel => rw [parseElements, parseElements, parseValue_blank]

theorem parseMembers_blank (style : Style) (fuel : Nat) (s : JsString) :
    parseMembers fuel (style.blank ++ s) = parseMembers fuel s := by
  cases fuel with
  | zero => rfl
  | succ fuel => rw [parseMembers, parseMembers, skipWs_blank]

theorem ends_cons {u : UInt16} (h : u = 44 ∨ u = 93 ∨ u = 125) (s : JsString) :
    Ends (u :: s) := by
  intro u' s' eq state
  obtain ⟨rfl, -⟩ := List.cons.inj eq
  rcases h with rfl | rfl | rfl <;> cases state <;> rfl

theorem ends_nil : Ends [] := fun _ _ h => nomatch h

/-! ### The first unit of a value -/

theorem number_head {lexeme : String} (h : IsNumber lexeme) :
    ∃ u s, js lexeme = u :: s ∧ (u = 45 ∨ isDigit u = true) := by
  unfold IsNumber at h
  cases hs : js lexeme with
  | nil =>
    rw [hs] at h
    cases h
  | cons u s =>
    refine ⟨u, s, rfl, ?_⟩
    by_contra none
    obtain ⟨minus, digit⟩ := not_or.mp none
    have zero : u ≠ 48 := by
      rintro rfl
      exact digit (by decide)
    have stuck : NumberState.start.next u = Option.none := by
      rw [NumberState.next, if_neg minus, if_neg zero, if_neg digit]
    rw [hs, scan, stuck] at h
    cases h

/-- Neither white space nor the end of a list. -/
theorem dumps_head (style : Style) {v : Value String} (lawful : v.Lawful) :
    ∃ u s, units (dumps style v) = u :: s ∧ isWs u = false ∧ u ≠ 93 := by
  cases v with
  | null => exact ⟨110, _, rfl, by decide, by decide⟩
  | bool b => cases b <;> exact ⟨_, _, rfl, by decide, by decide⟩
  | number lexeme =>
    obtain ⟨u, s, hs, head⟩ := number_head lawful
    refine ⟨u, s, by rw [dumps]; exact hs, ?_⟩
    rcases head with rfl | digit
    · decide
    · have range : 48 ≤ u ∧ u ≤ 57 := by simpa [isDigit] using digit
      have low := UInt16.le_iff_toNat_le.mp range.1
      have high := UInt16.le_iff_toNat_le.mp range.2
      have other (n : UInt16) (h : n.toNat < 48 ∨ 57 < n.toNat) : u ≠ n := by
        rintro rfl
        have : (48 : UInt16).toNat = 48 := rfl
        have : (57 : UInt16).toNat = 57 := rfl
        omega
      refine ⟨?_, other 93 (by decide)⟩
      simp [isWs, other 32 (by decide), other 10 (by decide), other 13 (by decide),
        other 9 (by decide)]
  | string s => exact ⟨quote, _, rfl, by decide, by decide⟩
  | array elements => cases elements <;> exact ⟨91, _, rfl, by decide, by decide⟩
  | object members =>
    cases members with
    | nil => exact ⟨123, _, rfl, by decide, by decide⟩
    | cons m ms => exact ⟨123, _, rfl, by decide, by decide⟩

/-! ### The round trip -/

theorem literal_append (text : String) (v : Value JsString) (rest : JsString) :
    literal text v (js text ++ rest) = some (v, rest) := by
  rw [literal, if_pos (List.prefix_append _ _), List.drop_left]

def ReadsBack (style : Style) (v : Value String) : Prop :=
  ∀ fuel rest, 2 * (units (dumps style v)).length < fuel → Ends rest →
    parseValue fuel (units (dumps style v) ++ rest) = some (v.map js, rest)

/-- The elements behind the bracket. -/
def dumpsBody (style : Style) : List (Value String) → List Char
  | [] => []
  | v :: vs => dumps style v ++ dumpsElements style vs

def ElementsBack (style : Style) (vs : List (Value String)) : Prop :=
  ∀ fuel rest, 2 * (units (dumpsBody style vs)).length + 1 < fuel →
    parseElements fuel (units (dumpsBody style vs) ++ rest) =
      some (Value.map.mapElements js vs, rest)

def dumpsMember (style : Style) (k : String) (v : Value String) : List Char :=
  dumpsString style k ++ style.separator ':' ++ dumps style v

def dumpsMemberBody (style : Style) : List (String × Value String) → List Char
  | [] => []
  | (k, v) :: ms => dumpsMember style k v ++ dumpsMembers style ms

def MembersBack (style : Style) (ms : List (String × Value String)) : Prop :=
  ∀ fuel rest, 2 * (units (dumpsMemberBody style ms)).length + 1 < fuel →
    parseMembers fuel (units (dumpsMemberBody style ms) ++ rest) =
      some (Value.map.mapMembers js ms, rest)

/-- No other value begins as a number does. -/
theorem number_back {style : Style} {lexeme : String} (h : IsNumber lexeme) :
    ReadsBack style (.number lexeme) := by
  intro fuel rest hf ends
  obtain ⟨fuel, rfl⟩ : ∃ n, fuel = n + 1 := ⟨fuel - 1, by omega⟩
  have text : units (dumps style (.number lexeme)) = js lexeme := by rw [dumps]; rfl
  obtain ⟨u, s, hs, head⟩ := number_head h
  have low : u.toNat < 58 := by
    rcases head with rfl | digit
    · decide
    · have range : 48 ≤ u ∧ u ≤ 57 := by simpa [isDigit] using digit
      exact Nat.lt_succ_of_le (UInt16.le_iff_toNat_le.mp range.2)
  have other (n : UInt16) (hn : 57 < n.toNat) : u ≠ n := by
    rintro rfl
    omega
  have unquoted : u ≠ quote := by
    rcases head with rfl | digit
    · decide
    · rintro rfl
      cases digit
  obtain ⟨u', s', hs', ws, -⟩ := dumps_head style (v := .number lexeme) h
  rw [text, hs] at hs'
  obtain ⟨rfl, -⟩ := List.cons.inj hs'
  rw [text, hs, List.cons_append, parseValue, skipWs_cons ws]
  dsimp only
  rw [if_neg unquoted, if_neg (other 91 (by decide)), if_neg (other 123 (by decide)),
    if_neg (other 110 (by decide)), if_neg (other 116 (by decide)),
    if_neg (other 102 (by decide)), ← List.cons_append, ← hs, scan_append ends h]
  rfl

section Elements
variable {style : Style} {v w : Value String} {vs : List (Value String)}

theorem elements_last (hv : ReadsBack style v) : ElementsBack style [v] := by
  intro fuel rest hf
  obtain ⟨fuel, rfl⟩ : ∃ n, fuel = n + 1 := ⟨fuel - 1, by omega⟩
  have text : units (dumpsBody style [v]) = units (dumps style v) ++ [93] := units_append _ _
  rw [text, List.length_append, List.length_singleton] at hf
  rw [text, List.append_assoc, List.singleton_append, parseElements,
    hv fuel _ (by omega) (ends_cons (by decide) rest), Option.bind_some,
    skipWs_cons (by decide)]
  rfl

theorem elements_next (hv : ReadsBack style v) (hvs : ElementsBack style (w :: vs)) :
    ElementsBack style (v :: w :: vs) := by
  intro fuel rest hf
  obtain ⟨fuel, rfl⟩ : ∃ n, fuel = n + 1 := ⟨fuel - 1, by omega⟩
  have text : units (dumpsBody style (v :: w :: vs)) =
      units (dumps style v) ++ (44 :: (style.blank ++ units (dumpsBody style (w :: vs)))) := by
    rw [dumpsBody, dumpsElements, List.append_assoc, units_append, units_append, units_separator]
    rfl
  rw [text, List.length_append, List.length_cons, List.length_append] at hf
  rw [text, List.append_assoc, List.cons_append, List.append_assoc, parseElements,
    hv fuel _ (by omega) (ends_cons (by decide) _), Option.bind_some, skipWs_cons (by decide)]
  change (parseElements fuel (style.blank ++ _)).map _ = _
  rw [parseElements_blank, hvs fuel rest (by omega)]
  rfl

theorem array_back (lawful : v.Lawful) (hvs : ElementsBack style (v :: vs)) :
    ReadsBack style (.array (v :: vs)) := by
  intro fuel rest hf _
  obtain ⟨fuel, rfl⟩ : ∃ n, fuel = n + 1 := ⟨fuel - 1, by omega⟩
  have text : units (dumps style (.array (v :: vs))) =
      91 :: units (dumpsBody style (v :: vs)) := rfl
  obtain ⟨u, s, hs, ws, other⟩ := dumps_head style lawful
  have first : units (dumpsBody style (v :: vs)) ++ rest =
      u :: (s ++ (units (dumpsElements style vs) ++ rest)) := by
    rw [dumpsBody, units_append, hs, List.append_assoc, List.cons_append]
  have body := hvs fuel rest (by rw [text, List.length_cons] at hf; omega)
  rw [first] at body
  rw [text, List.cons_append, first, parseValue, skipWs_cons (by decide)]
  dsimp only
  rw [if_neg (by decide), if_pos rfl, skipWs_cons ws]
  split
  · rename_i h
    exact absurd (List.cons.inj h).1 other
  · rw [body]
    rfl

end Elements

section Members
variable {style : Style} {k l : String} {v w : Value String} {ms : List (String × Value String)}

/-- The name and the value of a member, with what stands behind them. -/
theorem parseMembers_member (hv : ReadsBack style v) {fuel : Nat} {tail : JsString}
    (hf : 2 * (units (dumps style v)).length < fuel) (ends : Ends tail) :
    parseMembers (fuel + 1) (units (dumpsMember style k v) ++ tail) =
      match skipWs tail with
      | 44 :: s => (parseMembers fuel s).map fun r => ((js k, v.map js) :: r.1, r.2)
      | 125 :: s => some ([(js k, v.map js)], s)
      | _ => none := by
  have text : units (dumpsMember style k v) = units (dumpsString style k) ++
      (58 :: (style.blank ++ units (dumps style v))) := by
    rw [dumpsMember, List.append_assoc, units_append, units_append, units_separator]
    rfl
  obtain ⟨name, hname, hread⟩ := unquote_dumpsString style k
    (58 :: (style.blank ++ units (dumps style v)) ++ tail)
  rw [text, hname, List.append_assoc, List.cons_append, parseMembers, skipWs_cons (by decide)]
  change (unquote (name ++ _)).bind _ = _
  rw [hread, Option.bind_some, List.cons_append, skipWs_cons (by decide)]
  change (parseValue fuel (style.blank ++ _ ++ tail)).bind _ = _
  rw [List.append_assoc, parseValue_blank, hv fuel tail hf ends]
  rfl

theorem members_last (hv : ReadsBack style v) : MembersBack style [(k, v)] := by
  intro fuel rest hf
  obtain ⟨fuel, rfl⟩ : ∃ n, fuel = n + 1 := ⟨fuel - 1, by omega⟩
  have text : units (dumpsMemberBody style [(k, v)]) =
      units (dumpsMember style k v) ++ [125] := units_append _ _
  have long : (units (dumps style v)).length ≤ (units (dumpsMember style k v)).length := by
    rw [dumpsMember, units_append, List.length_append]
    omega
  rw [text, List.length_append, List.length_singleton] at hf
  rw [text, List.append_assoc, List.singleton_append,
    parseMembers_member hv (by omega) (ends_cons (by decide) rest), skipWs_cons (by decide)]
  rfl

theorem members_next (hv : ReadsBack style v) (hms : MembersBack style ((l, w) :: ms)) :
    MembersBack style ((k, v) :: (l, w) :: ms) := by
  intro fuel rest hf
  obtain ⟨fuel, rfl⟩ : ∃ n, fuel = n + 1 := ⟨fuel - 1, by omega⟩
  have text : units (dumpsMemberBody style ((k, v) :: (l, w) :: ms)) =
      units (dumpsMember style k v) ++
        (44 :: (style.blank ++ units (dumpsMemberBody style ((l, w) :: ms)))) := by
    simp only [dumpsMemberBody, dumpsMembers, dumpsMember, units_append, units_separator,
      List.append_assoc]
    rfl
  have long : (units (dumps style v)).length ≤ (units (dumpsMember style k v)).length := by
    rw [dumpsMember, units_append, List.length_append]
    omega
  rw [text, List.length_append, List.length_cons, List.length_append] at hf
  rw [text, List.append_assoc, List.cons_append, List.append_assoc,
    parseMembers_member hv (by omega) (ends_cons (by decide) _), skipWs_cons (by decide)]
  change (parseMembers fuel (style.blank ++ _)).map _ = _
  rw [parseMembers_blank, hms fuel rest (by omega)]
  rfl

theorem object_back (hms : MembersBack style ((k, v) :: ms)) :
    ReadsBack style (.object ((k, v) :: ms)) := by
  intro fuel rest hf _
  obtain ⟨fuel, rfl⟩ : ∃ n, fuel = n + 1 := ⟨fuel - 1, by omega⟩
  have text : units (dumps style (.object ((k, v) :: ms))) =
      123 :: units (dumpsMemberBody style ((k, v) :: ms)) := by
    rw [dumps, dumpsMemberBody, dumpsMember]
    rfl
  obtain ⟨name, hname, -⟩ := unquote_dumpsString style k []
  have first : ∃ s, units (dumpsMemberBody style ((k, v) :: ms)) ++ rest = quote :: s := by
    rw [dumpsMemberBody, dumpsMember]
    simp only [units_append, hname, List.cons_append]
    exact ⟨_, rfl⟩
  obtain ⟨s, first⟩ := first
  have body := hms fuel rest (by rw [text, List.length_cons] at hf; omega)
  rw [first] at body
  rw [text, List.cons_append, first, parseValue, skipWs_cons (by decide)]
  dsimp only
  rw [if_neg (by decide), if_neg (by decide), if_pos rfl, skipWs_cons (by decide)]
  change (parseMembers fuel (quote :: s)).map _ = _
  rw [body]
  rfl

end Members

/-! Induction on the value, its elements and its members. -/

mutual

theorem reads_back (style : Style) : ∀ v : Value String, v.Lawful → ReadsBack style v
  | .null, _ => fun fuel rest hf _ => by
    obtain ⟨fuel, rfl⟩ : ∃ n, fuel = n + 1 := ⟨fuel - 1, by omega⟩
    exact literal_append "null" .null rest
  | .bool true, _ => fun fuel rest hf _ => by
    obtain ⟨fuel, rfl⟩ : ∃ n, fuel = n + 1 := ⟨fuel - 1, by omega⟩
    exact literal_append "true" (.bool true) rest
  | .bool false, _ => fun fuel rest hf _ => by
    obtain ⟨fuel, rfl⟩ : ∃ n, fuel = n + 1 := ⟨fuel - 1, by omega⟩
    exact literal_append "false" (.bool false) rest
  | .number _, lawful => number_back lawful
  | .string s, _ => fun fuel rest hf _ => by
    obtain ⟨fuel, rfl⟩ : ∃ n, fuel = n + 1 := ⟨fuel - 1, by omega⟩
    obtain ⟨text, htext, hread⟩ := unquote_dumpsString style s rest
    rw [dumps, htext, List.cons_append, parseValue, skipWs_cons (by decide)]
    dsimp only
    rw [if_pos rfl, hread]
    rfl
  | .array [], _ => fun fuel rest hf _ => by
    obtain ⟨fuel, rfl⟩ : ∃ n, fuel = n + 1 := ⟨fuel - 1, by omega⟩
    rfl
  | .array (v :: vs), lawful =>
    array_back lawful.1 (elements_back style (v :: vs) (List.cons_ne_nil _ _) lawful)
  | .object [], _ => fun fuel rest hf _ => by
    obtain ⟨fuel, rfl⟩ : ∃ n, fuel = n + 1 := ⟨fuel - 1, by omega⟩
    rfl
  | .object ((k, v) :: ms), lawful =>
    object_back (members_back style ((k, v) :: ms) (List.cons_ne_nil _ _) lawful)

theorem elements_back (style : Style) : ∀ vs : List (Value String), vs ≠ [] →
    Value.Lawful.lawfulElements vs → ElementsBack style vs
  | [], nonempty, _ => absurd rfl nonempty
  | [v], _, lawful => elements_last (reads_back style v lawful.1)
  | v :: w :: vs, _, lawful =>
    elements_next (reads_back style v lawful.1)
      (elements_back style (w :: vs) (List.cons_ne_nil _ _) lawful.2)

theorem members_back (style : Style) : ∀ ms : List (String × Value String), ms ≠ [] →
    Value.Lawful.lawfulMembers ms → MembersBack style ms
  | [], nonempty, _ => absurd rfl nonempty
  | [(_, v)], _, lawful => members_last (reads_back style v lawful.1)
  | (_, v) :: (l, w) :: ms, _, lawful =>
    members_next (reads_back style v lawful.1)
      (members_back style ((l, w) :: ms) (List.cons_ne_nil _ _) lawful.2)

end

/-- What is written is read back. -/
theorem parse_dumps (style : Style) {v : Value String} (lawful : v.Lawful) :
    parse (js (String.ofList (dumps style v))) = some (v.map js) := by
  have text : js (String.ofList (dumps style v)) = units (dumps style v) := by
    rw [js, String.toList_ofList]
    rfl
  have read := reads_back style v lawful (2 * (units (dumps style v)).length + 2) [] (by omega)
    ends_nil
  rw [List.append_nil] at read
  rw [text, parse, read]
  rfl

/-! ### The members of an object -/

theorem mapElements_eq {σ τ : Type} (f : σ → τ) (vs : List (Value σ)) :
    Value.map.mapElements f vs = vs.map (Value.map f) := by
  induction vs with
  | nil => rfl
  | cons v vs ih => rw [Value.map.mapElements, ih, List.map_cons]

theorem mapMembers_eq {σ τ : Type} (f : σ → τ) (ms : List (σ × Value σ)) :
    Value.map.mapMembers f ms = ms.map fun m => (f m.1, m.2.map f) := by
  induction ms with
  | nil => rfl
  | cons m ms ih => rw [Value.map.mapMembers, ih, List.map_cons]

theorem lawfulMembers_iff (ms : List (String × Value String)) :
    Value.Lawful.lawfulMembers ms ↔ ∀ m ∈ ms, m.2.Lawful := by
  induction ms with
  | nil => simp [Value.Lawful.lawfulMembers]
  | cons m ms ih => rw [Value.Lawful.lawfulMembers, ih, List.forall_mem_cons]

theorem lawfulElements_iff (vs : List (Value String)) :
    Value.Lawful.lawfulElements vs ↔ ∀ v ∈ vs, v.Lawful := by
  induction vs with
  | nil => simp [Value.Lawful.lawfulElements]
  | cons v vs ih => rw [Value.Lawful.lawfulElements, ih, List.forall_mem_cons]

section Get
variable {σ : Type} [DecidableEq σ]

theorem get_of_mem {ms : List (σ × Value σ)} (distinct : (ms.map Prod.fst).Nodup)
    {m : σ × Value σ} (h : m ∈ ms) : (Value.object ms).get m.1 = some m.2 := by
  rw [Value.get, Python.dictGet_of_mem distinct h]
  rfl

theorem get_of_not_mem {ms : List (σ × Value σ)} {key : σ} (h : ∀ m ∈ ms, m.1 ≠ key) :
    (Value.object ms).get key = none := by
  rw [Value.get]
  cases found : Python.dictGet Prod.fst ms key with
  | none => rfl
  | some m =>
    obtain ⟨hm, hk⟩ := Python.mem_of_dictGet found
    exact absurd hk (h m hm)

end Get

/-- Where texts stay apart, a member is found under its own name only. -/
theorem map_get {σ τ : Type} [DecidableEq σ] [DecidableEq τ] {f : σ → τ}
    (inj : Function.Injective f) (v : Value σ) (key : σ) :
    (v.map f).get (f key) = (v.get key).map (Value.map f) := by
  cases v with
  | object ms =>
    have same : ((fun m : τ × Value τ => decide (m.1 = f key)) ∘
        fun m : σ × Value σ => (f m.1, m.2.map f)) = fun m => decide (m.1 = key) := by
      funext m
      exact decide_eq_decide.mpr inj.eq_iff
    rw [Value.map, mapMembers_eq, Value.get, Value.get, Python.dictGet, Python.dictGet,
      ← List.map_reverse, List.find?_map, same, Option.map_map, Option.map_map]
    rfl
  | _ => rfl

mutual

theorem map_inj {σ τ : Type} {f : σ → τ} (inj : Function.Injective f) : ∀ v w : Value σ,
    v.map f = w.map f → v = w
  | .null, w, h => by cases w <;> simp [Value.map] at h ⊢
  | .bool b, w, h => by cases w <;> simp_all [Value.map]
  | .number s, w, h => by
    cases w with
    | number t =>
      simp only [Value.map, Value.number.injEq] at h
      rw [inj h]
    | _ => simp [Value.map] at h
  | .string s, w, h => by
    cases w with
    | string t =>
      simp only [Value.map, Value.string.injEq] at h
      rw [inj h]
    | _ => simp [Value.map] at h
  | .array vs, w, h => by
    cases w with
    | array ws =>
      simp only [Value.map, Value.array.injEq] at h
      rw [mapElements_inj inj vs ws h]
    | _ => simp [Value.map] at h
  | .object ms, w, h => by
    cases w with
    | object ns =>
      simp only [Value.map, Value.object.injEq] at h
      rw [mapMembers_inj inj ms ns h]
    | _ => simp [Value.map] at h

theorem mapElements_inj {σ τ : Type} {f : σ → τ} (inj : Function.Injective f) :
    ∀ vs ws : List (Value σ),
    Value.map.mapElements f vs = Value.map.mapElements f ws → vs = ws
  | [], ws, h => by cases ws <;> simp [Value.map.mapElements] at h ⊢
  | v :: vs, ws, h => by
    cases ws with
    | nil => simp [Value.map.mapElements] at h
    | cons w ws =>
      simp only [Value.map.mapElements, List.cons.injEq] at h
      rw [map_inj inj v w h.1, mapElements_inj inj vs ws h.2]

theorem mapMembers_inj {σ τ : Type} {f : σ → τ} (inj : Function.Injective f) :
    ∀ ms ns : List (σ × Value σ),
    Value.map.mapMembers f ms = Value.map.mapMembers f ns → ms = ns
  | [], ns, h => by cases ns <;> simp [Value.map.mapMembers] at h ⊢
  | (k, v) :: ms, ns, h => by
    cases ns with
    | nil => simp [Value.map.mapMembers] at h
    | cons n ns =>
      obtain ⟨l, w⟩ := n
      simp only [Value.map.mapMembers, List.cons.injEq, Prod.mk.injEq] at h
      rw [inj h.1.1, map_inj inj v w h.1.2, mapMembers_inj inj ms ns h.2]

end

end Json
