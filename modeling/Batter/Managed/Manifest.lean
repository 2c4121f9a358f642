import Batter.Managed.Identity
import Batter.Runlimit.Core.Policy

/-!
# Managed objects: manifests and their release order

A manifest declares a set of routines and triggers with their sources, the
retirements of objects that must be gone, the policy for `PUBLIC`, a ledger and
a release revision.  `ManagedObjectManifest::new` rejects a set in which an
identity occurs twice, among the declared objects, among the retirements or
between the two, and a set beyond the capacity.  The structure carries these
facts as fields, so that a manifest without them cannot be built.

The digest of a manifest covers the policy, the entries and the retirements, not
the revision.  The digest function is the `sha2` crate's (`Sha256`).
-/

namespace Batter.Managed

open RustStd Bytes List
open Runlimit (Sha256 Bytes32)

/-- Combined bound on declared objects plus retirements in one manifest. -/
def maxManagedObjects : Nat := 10000

def digestBytes (digest : Bytes32) : List UInt8 :=
  toBeBytes 32 digest.toNat

@[simp]
theorem digestBytes_length (digest : Bytes32) : (digestBytes digest).length = 32 :=
  toBeBytes_length 32 digest.toNat

theorem digestBytes_injective : Function.Injective digestBytes := by
  intro a b h
  have hbound : ∀ digest : Bytes32, digest.toNat < 256 ^ 32 := by
    intro digest
    calc digest.toNat < 2 ^ 256 := digest.isLt
      _ = 256 ^ 32 := by norm_num
  exact BitVec.eq_of_toNat_eq (toBeBytes_inj (hbound a) (hbound b) h)

/-- The PostgreSQL object kind a managed entry or retirement names. -/
inductive ManagedObjectKind where
  | function
  | procedure
  | trigger
  | constraintTrigger
deriving DecidableEq

namespace ManagedObjectKind

def asStr : ManagedObjectKind → String
  | function => "function"
  | procedure => "procedure"
  | trigger => "trigger"
  | constraintTrigger => "constraint_trigger"

def isTrigger : ManagedObjectKind → Bool
  | function | procedure => false
  | trigger | constraintTrigger => true

def isRoutine : ManagedObjectKind → Bool
  | function | procedure => true
  | trigger | constraintTrigger => false

end ManagedObjectKind

/-- A positive release order that fits a PostgreSQL bigint. -/
structure ManagedRevision where
  get : Nat
  pos : 0 < get
  le_i64Max : get ≤ i64Max

namespace ManagedRevision

def new (value : Nat) : Option ManagedRevision :=
  if h : 0 < value ∧ value ≤ i64Max then some ⟨value, h.1, h.2⟩ else none

variable {a b : ManagedRevision}

theorem ext (h : a.get = b.get) : a = b := by
  cases a
  cases b
  cases h
  rfl

instance : DecidableEq ManagedRevision := fun a b =>
  decidable_of_iff (a.get = b.get) ⟨ext, congrArg get⟩

instance : LinearOrder ManagedRevision :=
  LinearOrder.lift' ManagedRevision.get (fun _ _ => ext)

theorem new_get (revision : ManagedRevision) : new revision.get = some revision :=
  dif_pos ⟨revision.pos, revision.le_i64Max⟩

theorem new_eq_some {value : Nat} {revision : ManagedRevision} :
    new value = some revision ↔ value = revision.get := by
  constructor
  · intro h
    unfold new at h
    split_ifs at h
    rw [← Option.some.inj h]
  · rintro rfl
    exact new_get revision

end ManagedRevision

/-- One managed routine or trigger and its complete source statement. -/
structure ManagedObject where
  kind : ManagedObjectKind
  structuralIdentity : Identity
  source : String
  kind_eq : kind.isTrigger = structuralIdentity.isTrigger
deriving DecidableEq

namespace ManagedObject

def identity (object : ManagedObject) : String :=
  object.structuralIdentity.render

def checksum [Sha256] (object : ManagedObject) : Bytes32 :=
  Sha256.finalize (asBytes object.source)

end ManagedObject

/-- An object that must not exist. -/
structure Retirement where
  kind : ManagedObjectKind
  structuralIdentity : Identity
  kind_eq : kind.isTrigger = structuralIdentity.isTrigger
deriving DecidableEq

def Retirement.identity (retirement : Retirement) : String :=
  retirement.structuralIdentity.render

/-- What a manifest says about `EXECUTE` for `PUBLIC`. -/
inductive PublicExecute where
  | revoke
  | unmanaged
deriving DecidableEq

/-- A field of the digest behind its length in eight bytes. -/
def digestField (bytes : List UInt8) : List UInt8 :=
  toBeBytes 8 bytes.length ++ bytes

/-- The bytes that `set_digest` hashes. -/
def setDigestInput [Sha256] (publicExecute : PublicExecute) (objects : List ManagedObject)
    (retirements : List Retirement) : List UInt8 :=
  digestField (asBytes "batter.managed-objects.v1") ++
    digestField (asBytes (match publicExecute with
      | .revoke => "public-execute:revoke"
      | .unmanaged => "public-execute:unmanaged")) ++
    toBeBytes 8 objects.length ++
    objects.flatMap (fun object =>
      digestField (asBytes object.kind.asStr) ++ digestField (asBytes object.identity) ++
        digestBytes object.checksum) ++
    toBeBytes 8 retirements.length ++
    retirements.flatMap fun retirement =>
      digestField (asBytes retirement.kind.asStr) ++ digestField (asBytes retirement.identity)

def setDigest [Sha256] (publicExecute : PublicExecute) (objects : List ManagedObject)
    (retirements : List Retirement) : Bytes32 :=
  Sha256.finalize (setDigestInput publicExecute objects retirements)

/-- A validated, bounded set of managed objects, retirements and policy. -/
structure ManagedObjectManifest where
  ledger : QualifiedName
  revision : ManagedRevision
  publicExecute : PublicExecute
  objects : List ManagedObject
  retirements : List Retirement
  declared_nodup : (objects.map ManagedObject.identity).Nodup
  retired_nodup : (retirements.map Retirement.identity).Nodup
  not_declared : ∀ retirement ∈ retirements,
    retirement.identity ∉ objects.map ManagedObject.identity
  capacity : objects.length + retirements.length ≤ maxManagedObjects

namespace ManagedObjectManifest

def digest [Sha256] (manifest : ManagedObjectManifest) : Bytes32 :=
  setDigest manifest.publicExecute manifest.objects manifest.retirements

end ManagedObjectManifest

end Batter.Managed
