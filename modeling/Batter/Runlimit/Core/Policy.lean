import Batter.Library.Bytes
import Batter.Library.RustStd

/-!
# Runlimit: validated policies and their fingerprints

The numbers of a policy are validated once, when it is constructed: a
`Capacity` lies between one and `maxLimit`, a `QuotaPeriod` between one
millisecond and `maxWindowMillis`, and a `GcraPolicy` refills completely within
`maxWindowMillis`.  The structures below carry these facts as fields; their
values are those that the source's `new` functions return.

A policy's fingerprint is the SHA-256 digest of a framed encoding of its
identity and its configuration.  The digest function belongs to another crate
and is a parameter (`Sha256`); the encodings are the source's own.
`FixedWindowPolicy.fingerprintInput_inj` and
`GcraPolicy.fingerprintInput_inj` say that an encoding determines the whole
configuration, so that two policies share a fingerprint only when they agree
or the digests collide.  The quota mode is deliberately not part of it.
-/

namespace Batter.Runlimit

open RustStd Bytes List

/-- A 32-byte array, read as a big-endian number: the order of the numbers is
the lexicographic order of the arrays. -/
abbrev Bytes32 := BitVec 256

/-- The byte of the array at a position. -/
def Bytes32.byte (bytes : Bytes32) (position : Nat) : UInt8 :=
  .ofNat (bytes.toNat / 256 ^ (31 - position) % 256)

/-- The `sha2` crate's digest of a byte string. -/
class Sha256 where
  finalize : List UInt8 → Bytes32

/-- A digest function known on some byte strings only. -/
@[reducible] def Sha256.ofTable (table : List (List UInt8 × Bytes32)) : Sha256 where
  finalize input := (table.lookup input).getD 0

/-- Largest quota or immediate capacity, `i64::MAX`. -/
def maxLimit : Nat := 2 ^ 63 - 1

/-- Largest whole-millisecond policy duration. -/
def maxWindowMillis : Nat := 2 ^ 53 / 1000

/-- A validated quota or immediate capacity. -/
structure Capacity where
  get : Nat
  pos : 0 < get
  le_maxLimit : get ≤ maxLimit
deriving DecidableEq

/-- A validated replenishment period. -/
structure QuotaPeriod where
  millis : Nat
  pos : 0 < millis
  le_maxWindow : millis ≤ maxWindowMillis
deriving DecidableEq

theorem maxWindowMillis_le_u64Max : maxWindowMillis ≤ u64Max := by
  decide

/-- Whether quota exhaustion is enforced or reported in shadow mode. -/
inductive QuotaMode where
  | enforce
  | shadow
deriving DecidableEq

/-- Maximum encoded length of a policy or scope identifier. -/
def maxIdentifierLength : Nat := 128

/-- An invalid policy or scope identifier. -/
inductive IdentifierError where
  | empty
  | tooLong (actual maximum : Nat)
  | invalidCharacter (index : Nat) (character : Char)
deriving DecidableEq

/-- The accepted token alphabet. -/
def isIdentifierCharacter (c : Char) : Bool :=
  c.isAlphanum || c == '-' || c == '.' || c == '_' || c == ':' || c == '/'

/-- The loop of `validate` over the characters and their byte indexes. -/
def validateCharacters : Nat → List Char → Except IdentifierError Unit
  | _, [] => .ok ()
  | index, c :: rest =>
    if isIdentifierCharacter c then
      validateCharacters (index + c.utf8Size) rest
    else
      .error (.invalidCharacter index c)

/-- `validate`: identifiers are short tokens of a fixed ASCII alphabet. -/
def validate (value : String) : Except IdentifierError Unit :=
  if value.isEmpty then
    .error .empty
  else if value.utf8ByteSize > maxIdentifierLength then
    .error (.tooLong value.utf8ByteSize maxIdentifierLength)
  else
    validateCharacters 0 value.toList

/-- A validated identifier: the common shape of `PolicyId` and `ScopeId`. -/
structure Identifier where
  asStr : String
  valid : validate asStr = .ok ()
deriving DecidableEq

/-- The application-defined identifier of a policy. -/
abbrev PolicyId := Identifier

/-- The application-defined scope of a policy. -/
abbrev ScopeId := Identifier

theorem isToken_of_isIdentifierCharacter {c : Char} (h : isIdentifierCharacter c = true) :
    IsToken c := by
  have htoken : c.isAlphanum = true ∨ c = '-' ∨ c = '.' ∨ c = '_' ∨ c = ':' ∨ c = '/' := by
    simpa [isIdentifierCharacter, or_assoc] using h
  rcases htoken with halpha | rfl | rfl | rfl | rfl | rfl
  · simp only [Char.isAlphanum, Char.isAlpha, Char.isUpper, Char.isLower, Char.isDigit,
      Bool.or_eq_true, Bool.and_eq_true, decide_eq_true_eq, ge_iff_le,
      UInt32.le_iff_toNat_le] at halpha
    unfold IsToken Char.toNat
    simp at halpha ⊢
    omega
  all_goals exact ⟨by decide, by decide⟩

theorem isToken_of_validateCharacters {index : Nat} {chars : List Char}
    (h : validateCharacters index chars = .ok ()) : ∀ c ∈ chars, IsToken c := by
  induction chars generalizing index with
  | nil =>
    simp
  | cons c rest ih =>
    unfold validateCharacters at h
    split_ifs at h with hc
    intro d hd
    rcases mem_cons.mp hd with rfl | hd
    · exact isToken_of_isIdentifierCharacter hc
    · exact ih h d hd

theorem Identifier.isToken (id : Identifier) : ∀ c ∈ id.asStr.toList, IsToken c := by
  have h := id.valid
  unfold validate at h
  split_ifs at h
  exact isToken_of_validateCharacters h

theorem Identifier.ext {a b : Identifier} (h : a.asStr = b.asStr) : a = b := by
  cases a
  cases b
  simpa using h

/-- The framed identity that starts every fingerprint input. -/
def framedIdentity (id : PolicyId) (scope : ScopeId) (tail : List UInt8) : List UInt8 :=
  asBytes id.asStr ++ 0 :: (asBytes scope.asStr ++ 0 :: tail)

theorem framedIdentity_inj {id id' : PolicyId} {scope scope' : ScopeId} {tail tail' : List UInt8}
    (h : framedIdentity id scope tail = framedIdentity id' scope' tail') :
    id = id' ∧ scope = scope' ∧ tail = tail' := by
  obtain ⟨hid, hrest⟩ := framed_inj
    (zero_not_mem_asBytes id.isToken) (zero_not_mem_asBytes id'.isToken) h
  obtain ⟨hscope, htail⟩ := framed_inj
    (zero_not_mem_asBytes scope.isToken) (zero_not_mem_asBytes scope'.isToken) hrest
  exact ⟨Identifier.ext (asBytes_inj id.isToken id'.isToken hid),
    Identifier.ext (asBytes_inj scope.isToken scope'.isToken hscope), htail⟩

theorem Capacity.lt_wire (c : Capacity) : c.get < 256 ^ 8 :=
  lt_of_le_of_lt c.le_maxLimit (by decide)

theorem QuotaPeriod.lt_wire (p : QuotaPeriod) : p.millis < 256 ^ 8 :=
  lt_of_le_of_lt p.le_maxWindow (by decide)

@[ext] theorem Capacity.ext
    {a b : Capacity}
    (h : a.get = b.get) :
    a = b := by
  cases a
  cases b
  simpa using h

@[ext] theorem QuotaPeriod.ext
    {a b : QuotaPeriod}
    (h : a.millis = b.millis) :
    a = b := by
  cases a
  cases b
  simpa using h

/-- An anchored fixed-window policy. -/
structure FixedWindowPolicy where
  id : PolicyId
  scope : ScopeId
  limit : Capacity
  window : QuotaPeriod
  quotaMode : QuotaMode
deriving DecidableEq

def FixedWindowPolicy.withQuotaMode (policy : FixedWindowPolicy) (mode : QuotaMode) :
    FixedWindowPolicy :=
  { policy with quotaMode := mode }

/-- The domain string of fixed-window fingerprints. -/
def fixedWindowFingerprintDomain : List UInt8 :=
  asBytes "runlimit/fixed-window-policy/v1\x00"

/-- The bytes hashed by `fingerprint`:
`domain || id || NUL || scope || NUL || limit_u64_be || window_ms_u64_be`. -/
def FixedWindowPolicy.fingerprintInput (policy : FixedWindowPolicy) : List UInt8 :=
  fixedWindowFingerprintDomain ++
    framedIdentity policy.id policy.scope
      (toBeBytes 8 policy.limit.get ++ toBeBytes 8 policy.window.millis)

/-- An encoding determines the policy up to its quota mode. -/
theorem FixedWindowPolicy.fingerprintInput_inj {p q : FixedWindowPolicy}
    (h : p.fingerprintInput = q.fingerprintInput) :
    p.id = q.id ∧ p.scope = q.scope ∧ p.limit = q.limit ∧ p.window = q.window := by
  obtain ⟨hid, hscope, htail⟩ := framedIdentity_inj (append_cancel_left h)
  obtain ⟨hlimit, hwindow⟩ := append_inj htail (by simp)
  exact ⟨hid, hscope, Capacity.ext (toBeBytes_inj p.limit.lt_wire q.limit.lt_wire hlimit),
    QuotaPeriod.ext (toBeBytes_inj p.window.lt_wire q.window.lt_wire hwindow)⟩

/-- A generic-cell-rate-algorithm policy: `quota` units are replenished
uniformly during `period`, up to `burstCapacity`. -/
structure GcraPolicy where
  id : PolicyId
  scope : ScopeId
  quota : Capacity
  period : QuotaPeriod
  burstCapacity : Capacity
  quotaMode : QuotaMode
  refill_le : (burstCapacity.get * period.millis) ⌈/⌉ quota.get ≤ maxWindowMillis

def GcraPolicy.withQuotaMode (policy : GcraPolicy) (mode : QuotaMode) : GcraPolicy :=
  { policy with quotaMode := mode }

/-- The domain string of GCRA fingerprints. -/
def gcraFingerprintDomain : List UInt8 :=
  asBytes "runlimit/gcra-policy/v1\x00"

/-- The bytes hashed by `gcra_fingerprint`: `domain || id || NUL || scope || NUL
|| quota_u64_be || period_ms_u64_be || burst_capacity_u64_be`. -/
def GcraPolicy.fingerprintInput (policy : GcraPolicy) : List UInt8 :=
  gcraFingerprintDomain ++
    framedIdentity policy.id policy.scope
      (toBeBytes 8 policy.quota.get ++
        (toBeBytes 8 policy.period.millis ++ toBeBytes 8 policy.burstCapacity.get))

/-- An encoding determines the policy up to its quota mode. -/
theorem GcraPolicy.fingerprintInput_inj {p q : GcraPolicy}
    (h : p.fingerprintInput = q.fingerprintInput) :
    p.id = q.id ∧ p.scope = q.scope ∧ p.quota = q.quota ∧ p.period = q.period ∧
      p.burstCapacity = q.burstCapacity := by
  obtain ⟨hid, hscope, htail⟩ := framedIdentity_inj (append_cancel_left h)
  obtain ⟨hquota, hrest⟩ := append_inj htail (by simp)
  obtain ⟨hperiod, hburst⟩ := append_inj hrest (by simp)
  exact ⟨hid, hscope, Capacity.ext (toBeBytes_inj p.quota.lt_wire q.quota.lt_wire hquota),
    QuotaPeriod.ext (toBeBytes_inj p.period.lt_wire q.period.lt_wire hperiod),
    Capacity.ext
      (toBeBytes_inj p.burstCapacity.lt_wire q.burstCapacity.lt_wire hburst)⟩

/-- Backend-independent policy metadata.  The numbers a check needs are the
capacity, the fingerprint and the quota mode. -/
class RateLimitPolicy (P : Type) where
  capacity : P → Capacity
  fingerprint : P → Bytes32
  quotaMode : P → QuotaMode

instance [Sha256] : RateLimitPolicy FixedWindowPolicy where
  capacity policy := policy.limit
  fingerprint policy := Sha256.finalize policy.fingerprintInput
  quotaMode policy := policy.quotaMode

instance [Sha256] : RateLimitPolicy GcraPolicy where
  capacity policy := policy.burstCapacity
  fingerprint policy := Sha256.finalize policy.fingerprintInput
  quotaMode policy := policy.quotaMode

/-- No two members of a family of encodings share a digest. -/
def CollisionFree [Sha256] {P : Type} (input : P → List UInt8) (policies : P → Prop) : Prop :=
  ∀ p q, policies p → policies q →
    Sha256.finalize (input p) = Sha256.finalize (input q) → input p = input q

/-- One login in each second for each subject. -/
def loginPolicy : FixedWindowPolicy where
  id := ⟨"login", by decide⟩
  scope := ⟨"tenant", by decide⟩
  limit := ⟨1, by decide, by decide⟩
  window := ⟨1000, by decide, by decide⟩
  quotaMode := .enforce

end Batter.Runlimit
