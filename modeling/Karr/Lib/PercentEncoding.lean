import Mathlib.Data.Nat.Notation

/-!
# Percent encoding

The UTF-8 of a text, with all bytes escaped but those of some characters. What
is decoded is the text again.
-/

set_option autoImplicit false

namespace PercentEncoding

/-- A digit of either case. -/
def hexValue (c : Char) : Option Nat :=
  if '0' ≤ c ∧ c ≤ '9' then some (c.toNat - 48)
  else if 'A' ≤ c ∧ c ≤ 'F' then some (c.toNat - 55)
  else if 'a' ≤ c ∧ c ≤ 'f' then some (c.toNat - 87)
  else none

def hexDigit (n : Nat) : Char := (Nat.digitChar n).toUpper

def encodeByte (b : UInt8) : List Char := ['%', hexDigit (b.toNat / 16), hexDigit (b.toNat % 16)]

def encodeChar (keep : Char → Bool) (c : Char) : List Char :=
  if keep c then [c] else (String.utf8EncodeChar c).flatMap encodeByte

def encode (keep : Char → Bool) (s : List Char) : List Char := s.flatMap (encodeChar keep)

/-- A per cent sign without two digits behind it stays. -/
def decode : List Char → List UInt8
  | [] => []
  | '%' :: a :: b :: s =>
    match hexValue a, hexValue b with
    | some x, some y => UInt8.ofNat (16 * x + y) :: decode s
    | _, _ => String.utf8EncodeChar '%' ++ decode (a :: b :: s)
  | c :: s => String.utf8EncodeChar c ++ decode s

/-- The text a decoded one is in UTF-8. -/
def decodeText (s : List Char) : Option (List Char) :=
  (String.fromUTF8? (decode s).toByteArray).map String.toList

theorem decode_cons {c : Char} (h : c ≠ '%') (s : List Char) :
    decode (c :: s) = String.utf8EncodeChar c ++ decode s := by
  rw [decode]
  exact fun _ _ _ percent _ => h percent

theorem hexValue_hexDigit {n : Nat} (h : n < 16) : hexValue (hexDigit n) = some n := by
  have digits : ∀ n : Fin 16, hexValue (hexDigit n) = some n.val := by decide
  exact digits ⟨n, h⟩

theorem decode_encodeByte (b : UInt8) (s : List Char) :
    decode (encodeByte b ++ s) = b :: decode s := by
  have low : b.toNat % 16 < 16 := Nat.mod_lt _ (by decide)
  have high : b.toNat / 16 < 16 := Nat.div_lt_of_lt_mul b.toNat_lt
  have value : UInt8.ofNat (16 * (b.toNat / 16) + b.toNat % 16) = b := by
    rw [Nat.div_add_mod, UInt8.ofNat_toNat]
  simp only [encodeByte, List.cons_append, List.nil_append, decode, hexValue_hexDigit high,
    hexValue_hexDigit low, value]

theorem decode_encodeBytes (bytes : List UInt8) (s : List Char) :
    decode (bytes.flatMap encodeByte ++ s) = bytes ++ decode s := by
  induction bytes with
  | nil => rfl
  | cons b bytes ih =>
    rw [List.flatMap_cons, List.append_assoc, decode_encodeByte, ih, List.cons_append]

variable {keep : Char → Bool}

theorem decode_encode (percent : keep '%' = false) (s t : List Char) :
    decode (encode keep s ++ t) = s.flatMap String.utf8EncodeChar ++ decode t := by
  induction s with
  | nil => rfl
  | cons c s ih =>
    have one (u : List Char) :
        decode (encodeChar keep c ++ u) = String.utf8EncodeChar c ++ decode u := by
      unfold encodeChar
      split
      · rename_i kept
        have plain : c ≠ '%' := fun same => by
          rw [same, percent] at kept
          cases kept
        exact decode_cons plain u
      · exact decode_encodeBytes _ u
    rw [encode, List.flatMap_cons, List.append_assoc, one, ← encode, ih, List.flatMap_cons,
      List.append_assoc]

/-- Of characters that are kept, nothing is escaped. -/
theorem encode_kept {s : List Char} (kept : ∀ c ∈ s, keep c = true) : encode keep s = s := by
  induction s with
  | nil => rfl
  | cons c s ih =>
    have here := kept c List.mem_cons_self
    rw [encode, List.flatMap_cons, ← encode, ih fun d hd => kept d (List.mem_cons_of_mem _ hd),
      encodeChar, if_pos here]
    rfl

theorem encode_append (s t : List Char) : encode keep (s ++ t) = encode keep s ++ encode keep t :=
  List.flatMap_append

/-- Only the characters of the text count. -/
theorem encode_congr {keep' : Char → Bool} {s : List Char} (same : ∀ c ∈ s, keep c = keep' c) :
    encode keep s = encode keep' s := by
  induction s with
  | nil => rfl
  | cons c s ih =>
    rw [encode, encode, List.flatMap_cons, List.flatMap_cons, ← encode, ← encode,
      ih fun d hd => same d (List.mem_cons_of_mem _ hd), encodeChar, encodeChar,
      same c List.mem_cons_self]

theorem hexDigit_isAlphanum {n : Nat} (h : n < 16) : (hexDigit n).isAlphanum = true := by
  have digits : ∀ n : Fin 16, (hexDigit n).isAlphanum = true := by decide
  exact digits ⟨n, h⟩

/-- What an encoded text is made of. -/
theorem mem_encode {s : List Char} {d : Char} (h : d ∈ encode keep s) :
    d ∈ s ∧ keep d = true ∨ d = '%' ∨ d.isAlphanum = true := by
  obtain ⟨c, hc, hd⟩ := List.mem_flatMap.mp h
  unfold encodeChar at hd
  split at hd
  · rename_i kept
    obtain rfl := List.mem_singleton.mp hd
    exact Or.inl ⟨hc, kept⟩
  · obtain ⟨b, -, hb⟩ := List.mem_flatMap.mp hd
    have low : b.toNat % 16 < 16 := Nat.mod_lt _ (by decide)
    have high : b.toNat / 16 < 16 := Nat.div_lt_of_lt_mul b.toNat_lt
    rcases List.mem_cons.mp hb with rfl | hb
    · exact Or.inr (Or.inl rfl)
    · refine Or.inr (Or.inr ?_)
      rcases List.mem_cons.mp hb with rfl | hb
      · exact hexDigit_isAlphanum high
      · rw [List.mem_singleton.mp hb]
        exact hexDigit_isAlphanum low

theorem decodeText_encode (percent : keep '%' = false) (s : List Char) :
    decodeText (encode keep s) = some s := by
  have bytes : (decode (encode keep s)).toByteArray = s.utf8Encode := by
    have h := decode_encode percent s []
    rw [List.append_nil] at h
    rw [h, decode, List.append_nil]
    rfl
  rw [decodeText, bytes, String.fromUTF8?, dif_pos ByteArray.isValidUTF8_utf8Encode,
    Option.map_some]
  exact congrArg some String.toList_ofList

end PercentEncoding
