import Mathlib.Data.Option.Basic

/-!
# The cipher of the agents' tokens

`TokenCipher`: what is at rest is a Fernet token, or empty where there is none.
-/

set_option autoImplicit false

namespace Karr

/-- Fernet, of another package; the number stands for the time and the random bytes that go into
a ciphertext, and `none` for `InvalidToken`. -/
structure Fernet (Key : Type) where
  encrypt : Key → Nat → ByteArray → String
  decrypt : Key → String → Option ByteArray

/-- A ciphertext is authenticated: only the key it was made with opens it. That is an
idealisation, for the keys in use: by the letter two keys with the same signing half open each
other's ciphertexts. -/
structure Fernet.Sound {Key : Type} (f : Fernet Key) : Prop where
  decrypt_encrypt : ∀ (key : Key) (random : Nat) (plaintext : ByteArray),
    f.decrypt key (f.encrypt key random plaintext) = some plaintext
  authentic : ∀ (key other : Key) (random : Nat) (plaintext : ByteArray), other ≠ key →
    f.decrypt other (f.encrypt key random plaintext) = none
  encrypt_ne : ∀ (key : Key) (random : Nat) (plaintext : ByteArray),
    f.encrypt key random plaintext ≠ ""

namespace TokenCipher
variable {Key : Type} (f : Fernet Key) (key : Key)

def encrypt (random : Nat) (plaintext : String) : String :=
  if plaintext = "" then "" else f.encrypt key random plaintext.toUTF8

/-- `none` is the `ValueError`, also where `decode` raises it. -/
def decrypt (ciphertext : String) : Option String :=
  if ciphertext = "" then some "" else (f.decrypt key ciphertext).bind String.fromUTF8?

variable {f} {key}

theorem fromUTF8_toUTF8 (s : String) : String.fromUTF8? s.toUTF8 = some s :=
  dif_pos s.isValidUTF8

theorem encrypt_eq_empty (h : f.Sound) {random : Nat} {plaintext : String} :
    encrypt f key random plaintext = "" ↔ plaintext = "" := by
  unfold encrypt
  split
  · rename_i empty
    exact ⟨fun _ => empty, fun _ => rfl⟩
  · rename_i told
    exact ⟨fun none => absurd none (h.encrypt_ne _ _ _), fun empty => absurd empty told⟩

theorem decrypt_encrypt (h : f.Sound) (random : Nat) (plaintext : String) :
    decrypt f key (encrypt f key random plaintext) = some plaintext := by
  by_cases empty : plaintext = ""
  · subst empty
    rfl
  · rw [decrypt, if_neg fun none => empty ((encrypt_eq_empty h).mp none), encrypt, if_neg empty,
      h.decrypt_encrypt, Option.bind_some, fromUTF8_toUTF8]

/-- With another key an empty token is all that can be read. -/
theorem decrypt_other (h : f.Sound) {other : Key} (ne : other ≠ key) (random : Nat)
    (plaintext : String) :
    decrypt f other (encrypt f key random plaintext) = if plaintext = "" then some "" else none := by
  split
  · rename_i empty
    rw [(encrypt_eq_empty h).mpr empty]
    rfl
  · rename_i told
    rw [decrypt, if_neg fun none => told ((encrypt_eq_empty h).mp none), encrypt, if_neg told,
      h.authentic _ _ _ _ ne, Option.bind_none]

theorem decrypt_eq_some (h : f.Sound) {other : Key} {random : Nat} {plaintext text : String}
    (opened : decrypt f other (encrypt f key random plaintext) = some text) : text = plaintext := by
  by_cases same : other = key
  · subst same
    rw [decrypt_encrypt h] at opened
    exact (Option.some.inj opened).symm
  · rw [decrypt_other h same] at opened
    split at opened
    · rename_i empty
      exact (Option.some.inj opened).symm.trans empty.symm
    · cases opened

theorem decrypt_isSome (h : f.Sound) {other : Key} {random : Nat} {plaintext : String} :
    (decrypt f other (encrypt f key random plaintext)).isSome ↔ plaintext = "" ∨ other = key := by
  by_cases same : other = key
  · subst same
    rw [decrypt_encrypt h]
    exact ⟨fun _ => Or.inr rfl, fun _ => rfl⟩
  · rw [decrypt_other h same]
    split
    · rename_i empty
      exact ⟨fun _ => Or.inl empty, fun _ => rfl⟩
    · rename_i told
      exact ⟨Bool.noConfusion, fun or => (or.elim told same).elim⟩

end TokenCipher

end Karr
