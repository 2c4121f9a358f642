import Batter.Library.Aead
import Batter.AtRest.Context

/-!
# Sealing, opening and rewrapping

A record is sealed under a fresh data key, and the data key is wrapped under a key
derived from a master key of the keyring.  The header names the payload nonce and
the wrapper; rewrapping replaces the wrapper by one of the current master key.

AES-256-GCM is the ideal scheme of the library, so every operation is given the
record of the encryptions made so far, and those that encrypt extend it.  HKDF is
some function.  Random values are given to the operations; an absent one is a
failure of the random source.
-/

namespace Batter.AtRest

open RustStd Bytes List

section Keys

/-- A key of 32 bytes. -/
abbrev SecretKey := List.Vector UInt8 secretKeyBytes

/-- A nonce of 12 bytes. -/
abbrev Nonce := List.Vector UInt8 nonceBytes

def wrappedDataKeyBytes : ℕ := secretKeyBytes + tagBytes

/-- The check of `KeyId::new`. -/
def isKeyId (value : String) : Bool :=
  !(asBytes value).isEmpty && (asBytes value).length ≤ maxKeyIdBytes &&
    (asBytes value).all fun byte => isAsciiLowercase byte || isAsciiUppercase byte ||
      isAsciiDigit byte || isLabelPunctuation byte

/-- A validated identifier of a master key. -/
structure KeyId where
  value : String
  valid : isKeyId value = true
  deriving DecidableEq

theorem KeyId.length_le (keyId : KeyId) : (asBytes keyId.value).length ≤ maxKeyIdBytes := by
  have h := keyId.valid
  simp only [isKeyId, Bool.and_eq_true, decide_eq_true_eq] at h
  exact h.1.2

/-- Master keys with different identifiers, among them the current one, as `Keyring::new`
checks. -/
structure Keyring where
  currentId : KeyId
  keys : List (KeyId × SecretKey)
  distinct : (keys.map Prod.fst).Nodup
  current : currentId ∈ keys.map Prod.fst

variable (keyring : Keyring)

def Keyring.key (keyId : KeyId) : Except Error SecretKey :=
  require .keyUnavailable ((keyring.keys.find? fun entry => entry.1 = keyId).map Prod.snd)

def Keyring.currentKey : Except Error SecretKey :=
  keyring.key keyring.currentId

/-- The keyring has a key with an identifier. -/
def Keyring.Holds (keyId : KeyId) : Prop :=
  keyId ∈ keyring.keys.map Prod.fst

/-- The keys of the keyring are those that the identifiers denote. -/
def Keyring.Agrees (secret : KeyId → SecretKey) (keyring : Keyring) : Prop :=
  ∀ entry ∈ keyring.keys, entry.2 = secret entry.1

/-- A keyring has exactly the keys it holds. -/
theorem Keyring.key_eq_ok
    {secret : KeyId → SecretKey} {keyring : Keyring} {keyId : KeyId} {master : SecretKey}
    (h : keyring.Agrees secret) :
    keyring.key keyId = .ok master ↔ keyring.Holds keyId ∧ master = secret keyId := by
  rw [Keyring.key, require_eq_ok, Option.map_eq_some_iff]
  constructor
  · rintro ⟨entry, hfind, rfl⟩
    have hmem := mem_of_find?_eq_some hfind
    have hid : entry.1 = keyId := by simpa using find?_some hfind
    exact ⟨hid ▸ mem_map_of_mem hmem, hid ▸ h entry hmem⟩
  · rintro ⟨hholds, rfl⟩
    obtain ⟨entry, hmem, hid⟩ := mem_map.mp hholds
    cases hfind : keyring.keys.find? fun entry => entry.1 = keyId with
    | none =>
      have hnone := find?_eq_none.mp hfind entry hmem
      exact absurd (decide_eq_true hid) hnone
    | some found =>
      have hfound : found.1 = keyId := by simpa using find?_some hfind
      exact ⟨found, rfl, hfound ▸ h found (mem_of_find?_eq_some hfind)⟩

end Keys

/-- Content metadata: the format and the payload nonce. -/
structure ContentDescriptor where
  formatVersion : UInt8
  payloadNonce : Nonce
  supported : formatVersion = AtRest.formatVersion
  deriving DecidableEq

def ContentDescriptor.new (payloadNonce : Nonce) : ContentDescriptor :=
  ⟨AtRest.formatVersion, payloadNonce, rfl⟩

/-- The payload nonce determines the descriptor. -/
theorem ContentDescriptor.eq_of_payloadNonce {descriptor descriptor' : ContentDescriptor}
    (h : descriptor.payloadNonce = descriptor'.payloadNonce) : descriptor = descriptor' := by
  obtain ⟨ver, nonce, rfl⟩ := descriptor
  obtain ⟨ver', nonce', rfl⟩ := descriptor'
  cases h
  rfl

/-- An encrypted data key with the identifier of its master key. -/
structure WrappedKey where
  keyId : KeyId
  nonce : Nonce
  encryptedDataKey : List.Vector UInt8 wrappedDataKeyBytes
  deriving DecidableEq

/-- A header: immutable content metadata and a replaceable wrapper. -/
structure Envelope where
  descriptor : ContentDescriptor
  wrappedKey : WrappedKey
  deriving DecidableEq

def Envelope.withWrappedKey (envelope : Envelope) (wrappedKey : WrappedKey) : Envelope :=
  { envelope with wrappedKey }

/-- A header and a bounded body with its tag. -/
structure SealedPayload where
  envelope : Envelope
  ciphertext : List UInt8
  bounded : tagBytes ≤ ciphertext.length ∧ ciphertext.length ≤ maxBodyBytes
  deriving DecidableEq

def SealedPayload.fromParts (envelope : Envelope) (ciphertext : List UInt8) :
    Except Error SealedPayload :=
  if h : tagBytes ≤ ciphertext.length ∧ ciphertext.length ≤ maxBodyBytes then
    .ok ⟨envelope, ciphertext, h⟩
  else .error .malformedEncoding

section AssociatedData

def aadMagic : List UInt8 := asBytes "ATRA"
def hkdfMagic : List UInt8 := asBytes "ATRK"
def hkdfSalt : List UInt8 := asBytes "at-rest:envelope:v1:wrapping-key:salt"
def payloadRole : UInt8 := 1
def wrappingRole : UInt8 := 2
def hkdfWrappingRole : UInt8 := 3

def payloadAad (context : Context) (descriptor : ContentDescriptor) : List UInt8 :=
  aadMagic ++ [payloadRole, descriptor.formatVersion] ++ frame16 context.encoded

def wrappingAad (context : Context) (descriptor : ContentDescriptor) (keyId : KeyId) : List UInt8 :=
  aadMagic ++ [wrappingRole, descriptor.formatVersion] ++ frame16 (asBytes keyId.value) ++
    frame16 descriptor.payloadNonce.toList ++ frame16 context.encoded

/-- The `info` of `derive_wrapping_key`. -/
def wrappingInfo (context : Context) : List UInt8 :=
  hkdfMagic ++ [AtRest.formatVersion, hkdfWrappingRole] ++ frame16 context.namespaceBytes ++
    frame16 context.purposeBytes

variable {context context' : Context} {descriptor descriptor' : ContentDescriptor}
variable {keyId keyId' : KeyId}

/-- The two roles never share associated data. -/
theorem payloadAad_ne_wrappingAad :
    payloadAad context descriptor ≠ wrappingAad context' descriptor' keyId := by
  intro h
  simp [payloadAad, wrappingAad, payloadRole, wrappingRole] at h

/-- Wrapping data determines the key, the payload nonce and the context. -/
theorem wrappingAad_inj (hbound : context.encoded.length ≤ maxContextBytes)
    (hbound' : context'.encoded.length ≤ maxContextBytes)
    (h : wrappingAad context descriptor keyId = wrappingAad context' descriptor' keyId') :
    keyId = keyId' ∧ descriptor = descriptor' ∧ context.encoded = context'.encoded := by
  have hkey : ∀ keyId : KeyId, (asBytes keyId.value).length < 256 ^ 2 :=
    fun keyId => keyId.length_le.trans_lt (by decide)
  have hnonce : ∀ nonce : Nonce, nonce.toList.length < 256 ^ 2 := by
    intro nonce
    rw [List.Vector.toList_length]
    decide
  simp only [wrappingAad, append_assoc] at h
  obtain ⟨_, h⟩ := append_inj h rfl
  obtain ⟨_, h⟩ := append_inj h rfl
  obtain ⟨hid, h⟩ := frame16_inj (hkey keyId) (hkey keyId') h
  obtain ⟨hpayload, h⟩ := frame16_inj (hnonce _) (hnonce _) h
  rw [← append_nil (frame16 context.encoded), ← append_nil (frame16 context'.encoded)] at h
  obtain ⟨hctx, _⟩ := frame16_inj (hbound.trans_lt (by decide)) (hbound'.trans_lt (by decide)) h
  refine ⟨?_, ContentDescriptor.eq_of_payloadNonce (List.Vector.toList_injective hpayload), hctx⟩
  obtain ⟨value, _⟩ := keyId
  obtain ⟨value', _⟩ := keyId'
  cases asBytes_injective hid
  rfl

end AssociatedData

/-- AES-256-GCM: an ideal scheme that appends a tag. -/
class Aes256Gcm extends Aead.Scheme SecretKey Nonce (List UInt8) (List UInt8) where
  length_encrypt : ∀ key nonce aad plaintext,
    (encrypt key nonce aad plaintext).length = plaintext.length + tagBytes

/-- HKDF with SHA-256, from a salt, a key and an `info`. -/
class Hkdf where
  expand : List UInt8 → SecretKey → List UInt8 → SecretKey

/-- The encryptions made so far. -/
abbrev Record := List (Aead.Encryption SecretKey Nonce (List UInt8) (List UInt8))

/-- The random values of one call. -/
structure Random where
  dataKey : Option SecretKey
  payloadNonce : Option Nonce
  wrappingNonce : Option Nonce
  deriving DecidableEq

variable [Aes256Gcm] [Hkdf]

section

variable (masterKey : SecretKey) (context : Context)

def deriveWrappingKey : SecretKey :=
  Hkdf.expand hkdfSalt masterKey (wrappingInfo context)

variable (descriptor : ContentDescriptor)

/-- The encryption of a body. -/
def payloadEncryption (dataKey : SecretKey)
    (plaintext : List UInt8) : Aead.Encryption SecretKey Nonce (List UInt8) (List UInt8) :=
  ⟨dataKey, descriptor.payloadNonce, payloadAad context descriptor, plaintext⟩

/-- The encryption of a data key. -/
def wrappingEncryption (keyId : KeyId) (wrappingNonce : Nonce)
    (dataKey : SecretKey) : Aead.Encryption SecretKey Nonce (List UInt8) (List UInt8) :=
  ⟨deriveWrappingKey masterKey context, wrappingNonce, wrappingAad context descriptor keyId,
    dataKey.toList⟩

theorem length_wrappingEncryption (keyId : KeyId) (wrappingNonce : Nonce) (dataKey : SecretKey) :
    (wrappingEncryption masterKey context descriptor keyId wrappingNonce
      dataKey).ciphertext.length = wrappedDataKeyBytes := by
  rw [Aead.Encryption.ciphertext, Aes256Gcm.length_encrypt]
  exact congrArg (· + tagBytes) (List.Vector.toList_length dataKey)

/-- The wrapper that an encryption of a data key gives. -/
def wrapperOf (keyId : KeyId) (wrappingNonce : Nonce) (dataKey : SecretKey) : WrappedKey :=
  ⟨keyId, wrappingNonce, ⟨_, length_wrappingEncryption masterKey context descriptor keyId
    wrappingNonce dataKey⟩⟩

end

def wrapDataKey (record : Record) (context : Context) (descriptor : ContentDescriptor)
    (keyId : KeyId) (masterKey : SecretKey) (wrappingNonce : Nonce) (dataKey : SecretKey) :
    WrappedKey × Record :=
  (wrapperOf masterKey context descriptor keyId wrappingNonce dataKey,
    wrappingEncryption masterKey context descriptor keyId wrappingNonce dataKey :: record)

variable (keyring : Keyring) (record : Record)

variable (context : Context)

def Keyring.unwrapDataKey (envelope : Envelope) : Except Error SecretKey := do
  let wrappedKey := envelope.wrappedKey
  let masterKey ← keyring.key wrappedKey.keyId
  let wrappingKey := deriveWrappingKey masterKey context
  let aad := wrappingAad context envelope.descriptor wrappedKey.keyId
  let bytes ← require .authenticationFailed
    (Aead.decrypt record wrappingKey wrappedKey.nonce aad wrappedKey.encryptedDataKey.toList)
  -- A wrapper of 48 bytes holds a key of 32 bytes.
  if h : bytes.length = secretKeyBytes then .ok ⟨bytes, h⟩ else .error .authenticationFailed

def Keyring.sealWithRandom
    (plaintext : List UInt8) (random : Random) : Except Error (SealedPayload × Record) := do
  rejectIf (maxPlaintextBytes < plaintext.length) .plaintextTooLarge
  let dataKey ← require .randomnessUnavailable random.dataKey
  let payloadNonce ← require .randomnessUnavailable random.payloadNonce
  let wrappingNonce ← require .randomnessUnavailable random.wrappingNonce
  let descriptor := .new payloadNonce
  let encryption := payloadEncryption context descriptor dataKey plaintext
  let masterKey ← keyring.currentKey
  let (wrappedKey, record) := wrapDataKey (encryption :: record) context descriptor
    keyring.currentId masterKey wrappingNonce dataKey
  let payload ← SealedPayload.fromParts ⟨descriptor, wrappedKey⟩ encryption.ciphertext
  return (payload, record)

def Keyring.open (payload : SealedPayload) : Except Error (List UInt8) := do
  let envelope := payload.envelope
  let dataKey ← keyring.unwrapDataKey record context envelope
  let aad := payloadAad context envelope.descriptor
  rejectIf (payload.ciphertext.length < tagBytes) .authenticationFailed
  require .authenticationFailed
    (Aead.decrypt record dataKey envelope.descriptor.payloadNonce aad payload.ciphertext)

def Keyring.rewrapWithRandom
    (envelope : Envelope) (random : Random) : Except Error (WrappedKey × Record) := do
  let dataKey ← keyring.unwrapDataKey record context envelope
  if envelope.wrappedKey.keyId = keyring.currentId then
    return (envelope.wrappedKey, record)
  else
    let wrappingNonce ← require .randomnessUnavailable random.wrappingNonce
    let masterKey ← keyring.currentKey
    return wrapDataKey record context envelope.descriptor keyring.currentId masterKey
      wrappingNonce dataKey

/-- `rewrap_envelope_with_random`. -/
def Keyring.rewrapEnvelope
    (envelope : Envelope) (random : Random) : Except Error (Envelope × Record) := do
  let (wrappedKey, record) ← keyring.rewrapWithRandom record context envelope random
  return (envelope.withWrappedKey wrappedKey, record)

end Batter.AtRest
