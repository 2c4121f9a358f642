import Mathlib

/-!
# Ideal authenticated encryption

Encryption under a key, a nonce and associated data is a function of the
plaintext.  In the ideal scheme nobody forges: decryption succeeds on what has been
encrypted under the same key, nonce and associated data, and on nothing else.  So
decryption looks into the record of all encryptions made so far.
-/

namespace Batter.Aead

/-- An encryption function, injective in the plaintext. -/
class Scheme (Key Nonce Data Text : Type) where
  encrypt : Key → Nonce → Data → Text → Text
  encrypt_injective : ∀ key nonce aad, Function.Injective (encrypt key nonce aad)

/-- One encryption that has been made. -/
structure Encryption (Key Nonce Data Text : Type) where
  key : Key
  nonce : Nonce
  aad : Data
  plaintext : Text
  deriving DecidableEq

variable {Key Nonce Data Text : Type} [Scheme Key Nonce Data Text]

/-- What the encryption gave. -/
def Encryption.ciphertext (encryption : Encryption Key Nonce Data Text) : Text :=
  Scheme.encrypt encryption.key encryption.nonce encryption.aad encryption.plaintext

variable [DecidableEq Key] [DecidableEq Nonce] [DecidableEq Data] [DecidableEq Text]

/-- Whether an encryption answers a decryption. -/
def Encryption.answers (key : Key) (nonce : Nonce) (aad : Data) (ciphertext : Text)
    (encryption : Encryption Key Nonce Data Text) : Bool :=
  encryption.key = key && encryption.nonce = nonce && encryption.aad = aad &&
    encryption.ciphertext = ciphertext

/-- Decryption by the record of encryptions. -/
def decrypt (record : List (Encryption Key Nonce Data Text)) (key : Key) (nonce : Nonce)
    (aad : Data) (ciphertext : Text) : Option Text :=
  (record.find? (Encryption.answers key nonce aad ciphertext)).map Encryption.plaintext

variable {record : List (Encryption Key Nonce Data Text)} {key : Key} {nonce : Nonce} {aad : Data}
variable {ciphertext plaintext : Text}

theorem Encryption.answers_iff {enc : Encryption Key Nonce Data Text} :
    enc.answers key nonce aad ciphertext = true ↔
      ∃ plaintext, enc = ⟨key, nonce, aad, plaintext⟩ ∧
        Scheme.encrypt key nonce aad plaintext = ciphertext := by
  obtain ⟨key', nonce', aad', plaintext'⟩ := enc
  simp only [answers, Bool.and_eq_true, decide_eq_true_eq, mk.injEq]
  constructor
  · rintro ⟨⟨⟨rfl, rfl⟩, rfl⟩, hct⟩
    exact ⟨plaintext', ⟨rfl, rfl, rfl, rfl⟩, hct⟩
  · rintro ⟨_, ⟨rfl, rfl, rfl, rfl⟩, hct⟩
    exact ⟨⟨⟨rfl, rfl⟩, rfl⟩, hct⟩

/-- Decryption succeeds exactly on what was encrypted under the same key, nonce and data. -/
theorem decrypt_eq_some_iff : decrypt record key nonce aad ciphertext = some plaintext ↔
      ⟨key, nonce, aad, plaintext⟩ ∈ record ∧
        Scheme.encrypt key nonce aad plaintext = ciphertext := by
  constructor
  · intro h
    obtain ⟨enc, hfind, rfl⟩ := Option.map_eq_some_iff.mp h
    obtain ⟨plaintext, rfl, hct⟩ := Encryption.answers_iff.mp (List.find?_some hfind)
    exact ⟨List.mem_of_find?_eq_some hfind, hct⟩
  · rintro ⟨hmem, hct⟩
    cases hfind : record.find? (Encryption.answers key nonce aad ciphertext) with
    | none =>
      have hnone := List.find?_eq_none.mp hfind _ hmem
      exact absurd (Encryption.answers_iff.mpr ⟨plaintext, rfl, hct⟩) hnone
    | some enc =>
      obtain ⟨other, rfl, hother⟩ := Encryption.answers_iff.mp (List.find?_some hfind)
      rw [decrypt, hfind, Option.map_some, Option.some.injEq]
      exact Scheme.encrypt_injective key nonce aad (hother.trans hct.symm)

end Batter.Aead
