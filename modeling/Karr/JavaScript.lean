import Mathlib.Data.List.Basic

/-!
# JavaScript strings

A string is its UTF-16 code units, which is what `length`, `slice` and `indexOf`
count.
-/

set_option autoImplicit false

namespace JavaScript

abbrev JsString := List UInt16

def lf : UInt16 := 10
def cr : UInt16 := 13
def space : UInt16 := 32
def colon : UInt16 := 58
def backslash : UInt16 := 92

def utf16 (c : Char) : JsString :=
  if c.toNat < 0x10000 then [c.toNat.toUInt16]
  else
    [(0xd800 + (c.toNat - 0x10000) / 0x400).toUInt16,
      (0xdc00 + (c.toNat - 0x10000) % 0x400).toUInt16]

/-- What a `TextDecoder` makes of the UTF-8 of a text. -/
def js (s : String) : JsString := s.toList.flatMap utf16

theorem js_append (s t : String) : js (s ++ t) = js s ++ js t := by
  simp [js]

theorem utf16_ne_nil (c : Char) : utf16 c ≠ [] := by
  unfold utf16
  split <;> exact List.cons_ne_nil _ _

theorem js_eq_nil {s : String} (h : js s = []) : s = "" := by
  cases hs : s.toList with
  | nil => exact String.toList_eq_nil_iff.mp hs
  | cons c cs =>
    have none := List.flatMap_eq_nil_iff.mp h c (hs ▸ List.mem_cons_self)
    exact absurd none (utf16_ne_nil c)

theorem utf16_of_ascii {c : Char} {u : UInt16} (hu : u.toNat < 128) (h : u ∈ utf16 c) :
    utf16 c = [u] ∧ c.toNat = u.toNat := by
  have hc : c.toNat < 0x110000 := by
    rcases c.valid with h | h
    · exact Nat.lt_trans h (by decide)
    · exact h.2
  unfold utf16 at h ⊢
  split at h
  · rename_i hlt
    rw [List.mem_singleton] at h
    rw [if_pos hlt, h]
    exact ⟨rfl, by simp [Nat.mod_eq_of_lt hlt]⟩
  · -- both surrogates are past the ASCII range
    simp only [List.mem_cons, List.not_mem_nil, or_false] at h
    rcases h with rfl | rfl
    · simp only [UInt16.toNat_ofNat', Nat.toUInt16_eq] at hu
      omega
    · simp only [UInt16.toNat_ofNat', Nat.toUInt16_eq] at hu
      omega

/-- The first unit tells how many a character has. -/
theorem utf16_append_inj {c d : Char} {s t : JsString} (h : utf16 c ++ s = utf16 d ++ t) :
    c = d ∧ s = t := by
  have valid (c : Char) : c.toNat < 0xd800 ∨ 0xdfff < c.toNat ∧ c.toNat < 0x110000 := c.valid
  have hc := valid c
  have hd := valid d
  unfold utf16 at h
  split at h <;> split at h
  all_goals
    simp only [List.cons_append, List.nil_append, List.cons.injEq] at h
    simp only [← UInt16.toNat_inj, Nat.toUInt16_eq, UInt16.toNat_ofNat'] at h
  · refine ⟨Char.toNat_inj.mp (by omega), h.2⟩
  · omega
  · omega
  · refine ⟨Char.toNat_inj.mp (by omega), h.2.2⟩

theorem js_inj {s t : String} (h : js s = js t) : s = t := by
  have lists : ∀ cs ds : List Char, cs.flatMap utf16 = ds.flatMap utf16 → cs = ds := by
    intro cs
    induction cs with
    | nil =>
      intro ds h
      cases ds with
      | nil => rfl
      | cons d ds => exact absurd (List.append_eq_nil_iff.mp h.symm).1 (utf16_ne_nil d)
    | cons c cs ih =>
      intro ds h
      cases ds with
      | nil => exact absurd (List.append_eq_nil_iff.mp h).1 (utf16_ne_nil c)
      | cons d ds =>
        obtain ⟨rfl, rest⟩ := utf16_append_inj h
        rw [ih ds rest]
  exact String.toList_inj.mp (lists _ _ h)

end JavaScript
