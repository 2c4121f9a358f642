import Batter.Runlimit.Core.Policy

/-!
# Runlimit: attempt policies, fingerprints and subject keys

An attempt policy is identified, like a quota policy, by the digest of a framed
encoding.  The three encodings start with different domains, so an encoding tells
the kind of its policy and all of its numbers.

A subject key is a keyed digest of a policy's identity and a subject.  The keys of
quotas and attempts share one domain, and the marker `attempt/v1` of an attempt is
itself a policy identifier, so the two layouts can coincide.
`subject_keys_are_domain_separated` says for which two derivations they do.
-/

namespace Batter.Runlimit

open RustStd Bytes List

/-- Exponential backoff with exactly one attempt in flight; the two inequalities
are what `AttemptPolicy::new` checks. -/
structure AttemptPolicy where
  id : PolicyId
  scope : ScopeId
  initialDelay : QuotaPeriod
  maximumDelay : QuotaPeriod
  quietPeriod : QuotaPeriod
  lease : QuotaPeriod
  initial_le : initialDelay.millis ≤ maximumDelay.millis
  maximum_le : maximumDelay.millis ≤ quietPeriod.millis

/-- The domain string of attempt fingerprints. -/
def attemptFingerprintDomain : List UInt8 :=
  asBytes "runlimit/attempt-policy/v1\x00"

/-- The bytes hashed for an attempt policy:
`domain || id || NUL || scope || NUL || initial || maximum || quiet || lease`. -/
def AttemptPolicy.fingerprintInput (policy : AttemptPolicy) : List UInt8 :=
  attemptFingerprintDomain ++
    framedIdentity policy.id policy.scope
      (toBeBytes 8 policy.initialDelay.millis ++ (toBeBytes 8 policy.maximumDelay.millis ++
        (toBeBytes 8 policy.quietPeriod.millis ++ toBeBytes 8 policy.lease.millis)))

/-- An encoding determines the policy. -/
theorem AttemptPolicy.fingerprintInput_inj {p q : AttemptPolicy}
    (h : p.fingerprintInput = q.fingerprintInput) : p = q := by
  obtain ⟨hid, hscope, htail⟩ := framedIdentity_inj (append_cancel_left h)
  obtain ⟨hinit, htail⟩ := append_inj htail (by simp)
  obtain ⟨hmax, htail⟩ := append_inj htail (by simp)
  obtain ⟨hquiet, hlease⟩ := append_inj htail (by simp)
  have hperiod : ∀ {a b : QuotaPeriod}, toBeBytes 8 a.millis = toBeBytes 8 b.millis → a = b :=
    fun {a b} hbytes => QuotaPeriod.ext (toBeBytes_inj a.lt_wire b.lt_wire hbytes)
  cases p
  cases q
  simp only [AttemptPolicy.mk.injEq]
  exact ⟨hid, hscope, hperiod hinit, hperiod hmax, hperiod hquiet, hperiod hlease⟩

/-- A policy of any kind. -/
inductive AnyPolicy where
  | fixedWindow (policy : FixedWindowPolicy)
  | gcra (policy : GcraPolicy)
  | attempt (policy : AttemptPolicy)

/-- The kind, the identity and the numbers of a policy. -/
inductive Configuration where
  | fixedWindow (id : PolicyId) (scope : ScopeId) (limit : Capacity) (window : QuotaPeriod)
  | gcra (id : PolicyId) (scope : ScopeId) (quota : Capacity) (period : QuotaPeriod)
      (burstCapacity : Capacity)
  | attempt (policy : AttemptPolicy)

namespace AnyPolicy

def configuration : AnyPolicy → Configuration
  | fixedWindow policy => .fixedWindow policy.id policy.scope policy.limit policy.window
  | gcra policy =>
    .gcra policy.id policy.scope policy.quota policy.period policy.burstCapacity
  | attempt policy => .attempt policy

def fingerprintInput : AnyPolicy → List UInt8
  | fixedWindow policy => policy.fingerprintInput
  | gcra policy => policy.fingerprintInput
  | attempt policy => policy.fingerprintInput

def withQuotaMode (mode : QuotaMode) : AnyPolicy → AnyPolicy
  | fixedWindow policy => fixedWindow (policy.withQuotaMode mode)
  | gcra policy => gcra (policy.withQuotaMode mode)
  | attempt policy => attempt policy

end AnyPolicy

/-- Domains that differ in the first byte of the kind begin different inputs. -/
theorem domain_ne {a b x y : List UInt8} (ha : 9 < a.length) (hb : 9 < b.length)
    (hne : a[9]? ≠ b[9]?) : a ++ x ≠ b ++ y := by
  intro h
  have hbyte := congrArg (·[9]?) h
  rw [getElem?_append_left ha, getElem?_append_left hb] at hbyte
  exact hne hbyte

theorem AnyPolicy.fingerprintInput_inj {p q : AnyPolicy}
    (h : p.fingerprintInput = q.fingerprintInput) : p.configuration = q.configuration := by
  cases p with
  | fixedWindow p =>
    cases q with
    | fixedWindow q =>
      obtain ⟨hid, hscope, hlimit, hwindow⟩ := FixedWindowPolicy.fingerprintInput_inj h
      simp [AnyPolicy.configuration, hid, hscope, hlimit, hwindow]
    | gcra q | attempt q => exact absurd h (domain_ne (by decide) (by decide) (by decide))
  | gcra p =>
    cases q with
    | gcra q =>
      obtain ⟨hid, hscope, hquota, hperiod, hburst⟩ := GcraPolicy.fingerprintInput_inj h
      simp [AnyPolicy.configuration, hid, hscope, hquota, hperiod, hburst]
    | fixedWindow q | attempt q => exact absurd h (domain_ne (by decide) (by decide) (by decide))
  | attempt p =>
    cases q with
    | attempt q => rw [AttemptPolicy.fingerprintInput_inj h]
    | fixedWindow q | gcra q => exact absurd h (domain_ne (by decide) (by decide) (by decide))

/-- Policies of any kinds have the same input exactly when they agree in kind, identity and
numbers, so they share a fingerprint only then, unless digests collide.  The quota mode does not
matter. -/
theorem fingerprints_identify_configurations (p q : AnyPolicy) :
    (p.fingerprintInput = q.fingerprintInput ↔ p.configuration = q.configuration) ∧
    (∀ [Sha256] (policies : AnyPolicy → Prop),
      CollisionFree AnyPolicy.fingerprintInput policies → policies p → policies q →
      (Sha256.finalize p.fingerprintInput = Sha256.finalize q.fingerprintInput ↔
        p.configuration = q.configuration)) ∧
    ∀ mode, (p.withQuotaMode mode).fingerprintInput = p.fingerprintInput := by
  have hinput : p.configuration = q.configuration → p.fingerprintInput = q.fingerprintInput := by
    intro h
    cases p <;> cases q <;>
      simp only [AnyPolicy.configuration, Configuration.fixedWindow.injEq,
        Configuration.gcra.injEq, Configuration.attempt.injEq, reduceCtorEq] at h
    all_goals simp [AnyPolicy.fingerprintInput, FixedWindowPolicy.fingerprintInput,
      GcraPolicy.fingerprintInput, h]
  refine ⟨⟨AnyPolicy.fingerprintInput_inj, hinput⟩, fun policies hcoll hp hq => ?_, ?_⟩
  · exact ⟨fun h => AnyPolicy.fingerprintInput_inj (hcoll p q hp hq h),
      fun h => by rw [hinput h]⟩
  · intro mode
    cases p <;> rfl

/-- The `hmac` crate's digest of a message under a key. -/
class HmacSha256 where
  mac : List UInt8 → List UInt8 → Bytes32

/-- A hasher of subjects under a secret. -/
structure KeyHasher where
  secret : List UInt8

/-- The domain of subject keys. -/
def keyDomain : List UInt8 :=
  asBytes "runlimit/subject-key/v1\x00"

/-- What a subject key is derived from. -/
inductive Derivation where
  | quota (id : PolicyId) (scope : ScopeId) (subject : List UInt8)
  | attempt (id : PolicyId) (scope : ScopeId) (subject : List UInt8)

/-- The message of a derivation. -/
def Derivation.input : Derivation → List UInt8
  | quota id scope subject => keyDomain ++ framedIdentity id scope subject
  | attempt id scope subject =>
    keyDomain ++ (asBytes "attempt/v1\x00" ++ framedIdentity id scope subject)

section Keys

variable [HmacSha256] (hasher : KeyHasher) (id : PolicyId) (scope : ScopeId)

/-- `hash_for`, which reads the identity of a policy. -/
def KeyHasher.hashFor (subject : List UInt8) : Bytes32 :=
  HmacSha256.mac hasher.secret (keyDomain ++ framedIdentity id scope subject)

def KeyHasher.hashAttemptFor (subject : List UInt8) : Bytes32 :=
  HmacSha256.mac hasher.secret
    (keyDomain ++ (asBytes "attempt/v1\x00" ++ framedIdentity id scope subject))

def Derivation.key : Derivation → Bytes32
  | quota id scope subject => hasher.hashFor id scope subject
  | attempt id scope subject => hasher.hashAttemptFor id scope subject

theorem Derivation.key_eq (a : Derivation) :
    a.key hasher = HmacSha256.mac hasher.secret a.input := by
  cases a <;> rfl

end Keys

theorem attemptMarker_eq (rest : List UInt8) :
    asBytes "attempt/v1\x00" ++ rest = asBytes "attempt/v1" ++ 0 :: rest := by
  rw [show asBytes "attempt/v1\x00" = asBytes "attempt/v1" ++ [0] by decide,
    append_assoc, singleton_append]

/-- The marker of attempts is a policy identifier. -/
def attemptMarker : PolicyId := ⟨"attempt/v1", by decide⟩

/-- A quota policy is named like the marker, its scope like the attempt policy, and its subject
goes on with the scope and the subject of the attempt. -/
def Derivation.Collides : Derivation → Derivation → Prop
  | quota id scope subject, attempt id' scope' subject'
  | attempt id' scope' subject', quota id scope subject =>
    id = attemptMarker ∧ scope = id' ∧ subject = asBytes scope'.asStr ++ 0 :: subject'
  | _, _ => False

/-- When a quota and an attempt have one message. -/
theorem quota_input_eq_attempt {id id' : PolicyId} {scope scope' : ScopeId}
    {subject subject' : List UInt8} :
    (Derivation.quota id scope subject).input = (Derivation.attempt id' scope' subject').input ↔
      id = attemptMarker ∧ scope = id' ∧ subject = asBytes scope'.asStr ++ 0 :: subject' := by
  rw [Derivation.input, Derivation.input, append_cancel_left_eq, attemptMarker_eq]
  constructor
  · intro h
    obtain ⟨hid, h⟩ := framed_inj (zero_not_mem_asBytes id.isToken)
      (zero_not_mem_asBytes attemptMarker.isToken) h
    obtain ⟨hscope, hsubject⟩ := framed_inj (zero_not_mem_asBytes scope.isToken)
      (zero_not_mem_asBytes id'.isToken) h
    exact ⟨Identifier.ext (asBytes_injective hid), Identifier.ext (asBytes_injective hscope),
      hsubject⟩
  · rintro ⟨rfl, rfl, rfl⟩
    rfl

/-- Messages coincide only where one derivation is meant, or a quota collides with an attempt. -/
theorem Derivation.input_eq_iff {a b : Derivation} :
    a.input = b.input ↔ a = b ∨ a.Collides b := by
  cases a with
  | quota id scope subject =>
    cases b with
    | quota id' scope' subject' =>
      refine ⟨fun h => .inl ?_, fun h => congrArg input (h.resolve_right not_false)⟩
      obtain ⟨rfl, rfl, rfl⟩ := framedIdentity_inj (List.append_cancel_left h)
      rfl
    | attempt id' scope' subject' =>
      rw [quota_input_eq_attempt]
      exact (or_iff_right nofun).symm
  | attempt id scope subject =>
    cases b with
    | quota id' scope' subject' =>
      rw [eq_comm, quota_input_eq_attempt]
      exact (or_iff_right nofun).symm
    | attempt id' scope' subject' =>
      refine ⟨fun h => .inl ?_, fun h => congrArg input (h.resolve_right not_false)⟩
      obtain ⟨rfl, rfl, rfl⟩ :=
        framedIdentity_inj (List.append_cancel_left (List.append_cancel_left h))
      rfl

theorem Derivation.Collides.ne {a b : Derivation} (h : a.Collides b) : a ≠ b := by
  rintro rfl
  cases a <;> exact h

/-- Two derivations with one message are the same derivation, exactly when they are not a quota and
an attempt that collide; so are two derivations with one key, unless digests collide. -/
theorem subject_keys_are_domain_separated (a b : Derivation) :
    ((a.input = b.input → a = b) ↔ ¬ a.Collides b) ∧
    ∀ [HmacSha256] (hasher : KeyHasher),
      (a.key hasher = b.key hasher → a.input = b.input) →
        ((a.key hasher = b.key hasher → a = b) ↔ ¬ a.Collides b) := by
  have hinput : (a.input = b.input → a = b) ↔ ¬ a.Collides b :=
    ⟨fun h hcollides => hcollides.ne (h (Derivation.input_eq_iff.mpr (.inr hcollides))),
      fun h heq => (Derivation.input_eq_iff.mp heq).resolve_right h⟩
  refine ⟨hinput, fun hasher hmac => ?_⟩
  have hkey : a.key hasher = b.key hasher ↔ a.input = b.input :=
    ⟨hmac, fun h => by rw [Derivation.key_eq, Derivation.key_eq, h]⟩
  rw [hkey]
  exact hinput

/-- A login and a login attempt of `alice` have different messages. -/
theorem login_messages_differ :
    (Derivation.quota loginPolicy.id loginPolicy.scope (asBytes "alice")).input ≠
      (Derivation.attempt loginPolicy.id loginPolicy.scope (asBytes "alice")).input := by
  have hlogin : loginPolicy.id ≠ attemptMarker := by decide
  intro h
  have hsame := (subject_keys_are_domain_separated (.quota _ _ _) (.attempt _ _ _)).1.mpr
    (fun hcollides => hlogin hcollides.1) h
  cases hsame

/-- A quota policy named like the marker, whose scope is the identifier of an attempt policy,
derives the keys of attempts: its subject `tenant NUL alice` has the message of the attempt of
`alice`. -/
theorem quota_message_is_an_attempt_message : (Derivation.quota attemptMarker loginPolicy.id
      (asBytes loginPolicy.scope.asStr ++ 0 :: asBytes "alice")).input =
    (Derivation.attempt loginPolicy.id loginPolicy.scope (asBytes "alice")).input := by
  rw [Derivation.input, Derivation.input, attemptMarker_eq]
  rfl

end Batter.Runlimit
