import Mathlib.Data.List.DropRight
import Mathlib.Data.List.Nodup

/-!
# Python built-ins

`str` methods, number formatting and `dict` construction as the language
documents them.
-/

set_option autoImplicit false

namespace Python

/-- The characters `str.strip` removes: Unicode white space as CPython has it. -/
def isSpace (c : Char) : Bool :=
  let n := c.toNat
  (0x09 ≤ n && n ≤ 0x0d) || (0x1c ≤ n && n ≤ 0x20) || n == 0x85 || n == 0xa0 || n == 0x1680 ||
    (0x2000 ≤ n && n ≤ 0x200a) || n == 0x2028 || n == 0x2029 || n == 0x202f || n == 0x205f ||
    n == 0x3000

def stripChars (s : List Char) : List Char :=
  ((s.dropWhile isSpace).reverse.dropWhile isSpace).reverse

def strip (s : String) : String := String.ofList (stripChars s.toList)

theorem dropWhile_of_head? {α : Type} {p : α → Bool} {s : List α}
    (h : ∀ c, s.head? = some c → p c = false) : s.dropWhile p = s := by
  cases s with
  | nil => rfl
  | cons c s => rw [List.dropWhile_cons_of_neg (by simp [h c rfl])]

theorem head?_of_dropWhile {α : Type} {p : α → Bool} {s : List α} {c : α}
    (h : (s.dropWhile p).head? = some c) : p c = false := by
  have first := List.head?_dropWhile_not p s
  rwa [h] at first

theorem rdropWhile_last {α : Type} {p : α → Bool} {s : List α} {c : α}
    (h : (s.rdropWhile p).getLast? = some c) : p c = false := by
  rw [List.rdropWhile, List.getLast?_reverse] at h
  exact head?_of_dropWhile h

section Strip
variable {s t : List Char} {c : Char}

theorem stripChars_eq_rdropWhile (s : List Char) :
    stripChars s = (s.dropWhile isSpace).rdropWhile isSpace := rfl

theorem stripChars_last (h : (stripChars s).getLast? = some c) : isSpace c = false :=
  rdropWhile_last h

theorem stripChars_head (h : (stripChars s).head? = some c) : isSpace c = false := by
  obtain ⟨back, hback⟩ := List.rdropWhile_prefix isSpace (s.dropWhile isSpace)
  have first : (s.dropWhile isSpace).head? = some c := by
    rw [← hback, List.head?_append, ← stripChars_eq_rdropWhile, h]
    rfl
  exact head?_of_dropWhile first

theorem stripChars_eq_self (head : ∀ c, s.head? = some c → isSpace c = false)
    (last : ∀ c, s.getLast? = some c → isSpace c = false) : stripChars s = s := by
  rw [stripChars, dropWhile_of_head? head, dropWhile_of_head? (by simpa using last),
    List.reverse_reverse]

theorem stripChars_append (s : List Char) :
    ∃ lead back, s = lead ++ stripChars s ++ back ∧ (∀ x ∈ lead, isSpace x = true) ∧
      ∀ x ∈ back, isSpace x = true := by
  refine ⟨s.takeWhile isSpace, (s.dropWhile isSpace).rtakeWhile isSpace, ?_,
    fun x hx => List.mem_takeWhile_imp hx, fun x hx => List.mem_rtakeWhile_imp hx⟩
  rw [stripChars_eq_rdropWhile, List.append_assoc, List.rdropWhile_append_rtakeWhile,
    List.takeWhile_append_dropWhile]

theorem stripChars_append_spaces (h : ∀ x ∈ t, isSpace x = true) :
    stripChars (s ++ t) = stripChars s := by
  unfold stripChars
  rw [List.dropWhile_append]
  split
  · rename_i none
    rw [List.isEmpty_iff.mp none, List.dropWhile_eq_nil_iff.mpr h]
  · rw [List.reverse_append, List.dropWhile_append_of_pos (by simpa using h)]

/-- Only the start is stripped of a text that does not end in white space. -/
theorem stripChars_of_last (last : ∀ c, s.getLast? = some c → isSpace c = false) :
    stripChars s = s.dropWhile isSpace := by
  rw [stripChars, dropWhile_of_head?, List.reverse_reverse]
  intro c hc
  rw [List.head?_reverse] at hc
  obtain ⟨rest, hrest⟩ := s.dropWhile_suffix (p := isSpace)
  refine last c ?_
  rw [← hrest, List.getLast?_append, hc]
  rfl

end Strip

/-- `str.replace` of one character. -/
def replaceChar (s : String) (old : Char) (new : String) : String :=
  String.ofList (s.toList.flatMap fun c => if c = old then new.toList else [c])

/-! ### `int` of bytes -/

/-- White space around a number: space, and tab to carriage return. -/
def isSpaceByte (b : UInt8) : Bool := b == 32 || (9 ≤ b && b ≤ 13)

def isDigitByte (b : UInt8) : Bool := 48 ≤ b && b ≤ 57

/-- `sys.int_info.default_max_str_digits` -/
def maxStrDigits : Nat := 4300

/-- The digits at the front and what follows; between two digits one underscore may stand. -/
def scanDigits (afterUnderscore : Bool) (digits : List Nat) :
    List UInt8 → Option (List Nat × List UInt8)
  | [] => if afterUnderscore then none else some (digits, [])
  | b :: bs =>
    if b = 95 then if afterUnderscore then none else scanDigits true digits bs
    else if isDigitByte b then scanDigits false (digits ++ [b.toNat - 48]) bs
    else if afterUnderscore then none
    else some (digits, b :: bs)

/-- `int(s)`, `none` for its `ValueError`. -/
def intOfBytes (s : List UInt8) : Option Int := do
  let s := s.dropWhile isSpaceByte
  let (negative, s) := match s with
    | 43 :: s => (false, s)
    | 45 :: s => (true, s)
    | s => (false, s)
  if s.head? = some 95 then none
  let (digits, rest) ← scanDigits false [] s
  if digits = [] ∨ maxStrDigits < digits.length then none
  if rest.dropWhile isSpaceByte ≠ [] then none
  let n : Int := digits.foldl (fun n d => 10 * n + d) 0
  return if negative then -n else n

theorem scanDigits_nines (n : Nat) (digits : List Nat) :
    scanDigits false digits (List.replicate n 57) = some (digits ++ List.replicate n 9, []) := by
  induction n generalizing digits with
  | zero => simp [scanDigits]
  | succ n ih =>
    have next : scanDigits false digits (57 :: List.replicate n 57) =
        scanDigits false (digits ++ [9]) (List.replicate n 57) := rfl
    rw [List.replicate_succ, next, ih, List.append_assoc]
    rfl

/-- An integer all right, but with too many digits for `int`. -/
theorem intOfBytes_nines {n : Nat} (h : maxStrDigits < n) :
    intOfBytes (List.replicate n 57) = none := by
  obtain ⟨k, rfl⟩ : ∃ k, n = k + 1 := ⟨n - 1, by omega⟩
  have start : (List.replicate (k + 1) (57 : UInt8)).dropWhile isSpaceByte =
      List.replicate (k + 1) 57 := rfl
  have scanned := scanDigits_nines (k + 1) []
  simp only [intOfBytes, start]
  rw [List.replicate_succ] at scanned ⊢
  simp [scanned, h]

/-- `bytes.lower`: ASCII letters only. -/
def lowerBytes (s : List UInt8) : List UInt8 :=
  s.map fun b => if 65 ≤ b && b ≤ 90 then b + 32 else b

/-- The bytes of an ASCII text. -/
def ascii (s : String) : List UInt8 := s.toList.map fun c => c.toNat.toUInt8

/-- `f"{x:.0f}"` of a number that is not negative: the nearest integer, the even one of two. -/
def formatFixed (x : Rat) : String :=
  let rest := x - x.floor
  toString (if rest < 1 / 2 ∨ rest = 1 / 2 ∧ x.floor % 2 = 0 then x.floor else x.floor + 1)

/-- `{key(v): v for v in vs}.get(k)`: a later value replaces an earlier one. -/
def dictGet {α κ : Type} [DecidableEq κ] (key : α → κ) (vs : List α) (k : κ) : Option α :=
  vs.reverse.find? fun v => decide (key v = k)

variable {α κ : Type} [DecidableEq κ] {key : α → κ} {vs : List α} {k : κ} {v : α}

theorem mem_of_dictGet (h : dictGet key vs k = some v) : v ∈ vs ∧ key v = k := by
  have hk := List.find?_some h
  exact ⟨List.mem_reverse.mp (List.mem_of_find?_eq_some h), by simpa using hk⟩

theorem not_mem_of_dictGet (h : dictGet key vs k = none) (hv : v ∈ vs) : key v ≠ k := by
  have := List.find?_eq_none.mp h v (List.mem_reverse.mpr hv)
  simpa using this

theorem dictGet_of_mem (distinct : (vs.map key).Nodup) (hv : v ∈ vs) :
    dictGet key vs (key v) = some v := by
  cases h : dictGet key vs (key v) with
  | none => exact absurd rfl (not_mem_of_dictGet h hv)
  | some u =>
    obtain ⟨hu, hk⟩ := mem_of_dictGet h
    rw [List.inj_on_of_nodup_map distinct hu hv hk]

end Python
