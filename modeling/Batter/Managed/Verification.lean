import Batter.Managed.Changes

/-!
# Managed objects: the read-only comparison with a manifest

Verification compares the ledger's rows and the live catalog with a manifest and
reports findings.  It is written apart from apply: `compare_rows` looks at the
rows only, `compare_catalog` at the rows and the live objects, and the policy
for `PUBLIC` is checked last.
-/

namespace Batter.Managed

open RustStd Bytes
open Runlimit (Sha256 Bytes32)

/-- What a finding about managed objects reports. -/
inductive FindingKind where
  | managedObjectSetDigest
  | managedObjectRevisionMismatch
  | missingManagedObject
  | managedObjectChecksumMismatch
  | unexpectedManagedObject
  | managedObjectDrift
  | retiredManagedObjectPresent
  | managedObjectPublicExecute
deriving DecidableEq

/-- One finding: its kind, the object and the subject it is about. -/
structure Finding where
  kind : FindingKind
  object : Option String
  subject : Option String
deriving DecidableEq

def objectFinding (kind : FindingKind) (identity : String) : Finding :=
  ⟨kind, some identity, none⟩

variable [Sha256] (manifest : ManagedObjectManifest) (rows : List LedgerRow)

/-- `recorded.get(identity)`. -/
def recordedRow (identity : String) : Option LedgerRow :=
  rows.find? fun row => row.identity == identity

/-- `declared.contains(identity)`. -/
def ManagedObjectManifest.declares (identity : String) : Bool :=
  (manifest.objects.map ManagedObject.identity).contains identity

/-- Whether the set row records the manifest and the rows' own hashes. -/
def setRecorded : Bool :=
  (recordedRow rows setRow).any fun row =>
    row.kind == setRow && row.sourceChecksum == digestBytes manifest.digest &&
      row.renderedChecksum == digestBytes (renderedSetDigest
        ((rows.filter fun row => manifest.declares row.identity).map fun row =>
          (row.identity, row.renderedChecksum)))

/-- Whether the set row has the manifest's revision and the other rows none. -/
def revisionRecorded : Bool :=
  ((recordedRow rows setRow).any fun row => row.releaseRevision == (manifest.revision.get : Int)) &&
    !rows.any fun row => row.identity != setRow && row.releaseRevision != 0

/-- The finding about one declared object's row. -/
def rowFinding (object : ManagedObject) : List Finding :=
  match recordedRow rows object.identity with
  | none => [objectFinding .missingManagedObject object.identity]
  | some row =>
    if row.kind != object.kind.asStr || row.sourceChecksum != digestBytes object.checksum then
      [objectFinding .managedObjectChecksumMismatch object.identity]
    else []

def compareRows : List Finding :=
  (if setRecorded manifest rows then []
    else [objectFinding .managedObjectSetDigest manifest.ledger.quoted]) ++
  (if revisionRecorded manifest rows then []
    else [objectFinding .managedObjectRevisionMismatch manifest.ledger.quoted]) ++
  manifest.objects.flatMap (rowFinding rows) ++
  (orderedBy id ((rows.map LedgerRow.identity).filter fun identity =>
    identity != setRow && !manifest.declares identity)).map (objectFinding .unexpectedManagedObject)

variable (live : List (String × LiveObject)) (hashes : List (Nat × Bytes32))

/-- The finding about one declared object's definition. -/
def driftFinding (object : ManagedObject) : List Finding :=
  match recordedRow rows object.identity with
  | none => []
  | some row =>
    if (installedHash live hashes object).any fun installed =>
        row.renderedChecksum == digestBytes installed.2 then []
    else [objectFinding .managedObjectDrift object.identity]

/-- The finding about one retirement. -/
def retirementFinding (retirement : Retirement) : List Finding :=
  if (liveGet live retirement.identity).any fun live => live.kind == some retirement.kind then
    [objectFinding .retiredManagedObjectPresent retirement.identity]
  else []

def compareCatalog : List Finding :=
  manifest.objects.flatMap (driftFinding rows live hashes) ++
    manifest.retirements.flatMap (retirementFinding live)

def publicExecuteCandidates : List (Nat × String) :=
  (manifest.objects.filter fun object => object.kind.isRoutine).filterMap fun object =>
    ((liveGet live object.identity).filter fun live => live.kind = some object.kind).map
      fun live => (live.oid, object.identity)

/-- The findings about `PUBLIC`. -/
def publicFindings (catalog : Catalog) : List Finding :=
  match manifest.publicExecute with
  | .unmanaged => []
  | .revoke =>
    let routines := publicExecuteCandidates manifest live
    let holders := publicExecuteHolders catalog (routines.map Prod.fst)
    (orderedBy id ((routines.filter fun entry => holders.contains entry.1).map Prod.snd)).map
      fun identity => ⟨.managedObjectPublicExecute, some identity, some "public"⟩

/-- The comparisons of `inspect`, once the ledger's rows are loaded. -/
def inspect (catalog : Catalog) : Except CatalogError (List Finding) := do
  let live ← resolveLive catalog manifest
  let hashes := renderHashes catalog (liveKinds live)
  pure (compareRows manifest rows ++ compareCatalog manifest rows live hashes ++
    publicFindings manifest live catalog)

end Batter.Managed
