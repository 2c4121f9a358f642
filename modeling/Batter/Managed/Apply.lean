import Batter.Library.Statements
import Batter.Managed.Release

/-!
# Managed objects: apply

Apply runs in one transaction.  A `Session` is that transaction's view: the
relation under the ledger's name, the catalog, and the statements that dropped,
created or revoked something so far.  What PostgreSQL answers to such a
statement is a parameter (`Server`): executing a source writes the object of its
identity, dropping a trigger removes it and possibly other triggers, dropping a
routine removes that routine only, and each of them can fail.

`execute_changes` decides what is pending, takes the locks, drops the retired
objects, decides again when a trigger was retired, drops the triggers that
cannot be replaced in place, and executes the pending sources, routines first.
`record` then replaces the ledger's rows.
-/

namespace Batter.Managed

open RustStd Bytes Statements List
open Runlimit (Sha256 Bytes32)

section Catalog

variable (catalog : Catalog)

/-- The catalog without some objects. -/
def Catalog.remove (gone : Identity → Bool) : Catalog where
  relations := catalog.relations
  objects := catalog.objects.delete fun object => gone object.identity
  oids_nodup := (List.filter_sublist.map CatalogObject.oid).nodup catalog.oids_nodup
  placed object hobj := catalog.placed object (Table.mem_delete.mp hobj).1

/-- An object identifier that is not in use. -/
def Catalog.freshOid : Nat :=
  (catalog.objects.rows.map CatalogObject.oid).foldr max 0 + 1

theorem Catalog.freshOid_not_mem :
    catalog.freshOid ∉ catalog.objects.rows.map CatalogObject.oid := by
  have hle : ∀ (oids : List Nat), ∀ oid ∈ oids, oid ≤ oids.foldr max 0 := by
    intro oids
    induction oids with
    | nil =>
      nofun
    | cons first rest ih =>
      intro oid hoid
      rcases mem_cons.mp hoid with rfl | hoid
      · exact le_max_left _ _
      · exact le_max_of_le_right (ih oid hoid)
  intro hmem
  have hbound := hle _ _ hmem
  simp only [freshOid] at hbound
  omega

variable (identity : Identity)

/-- The object identifier a written object has: an object that is replaced in
place keeps it. -/
def Catalog.oidFor : Nat :=
  ((catalog.objects.get? identity).map CatalogObject.oid).getD catalog.freshOid

/-- Whether an object of an identity can exist: a trigger needs its table. -/
def Catalog.placeable : Identity → Bool
  | .routine _ => true
  | .trigger table _ => (catalog.relations table).isSome

theorem Catalog.oids_nodup_upsert (object : CatalogObject)
    (hoid : object.oid = catalog.oidFor object.identity) :
    ((catalog.objects.upsert object).rows.map CatalogObject.oid).Nodup := by
  unfold Table.upsert
  split_ifs with h
  · have hoids : (catalog.objects.rows.map fun old =>
        if old.identity = object.identity then object else old).map CatalogObject.oid =
        catalog.objects.rows.map CatalogObject.oid := by
      rw [map_map]
      refine map_congr_left fun old hold => ?_
      by_cases hident : old.identity = object.identity
      · have hget : catalog.objects.get? object.identity = some old :=
          Table.get?_eq_some.mpr ⟨hold, hident⟩
        simp [hident, hoid, oidFor, hget]
      · simp [hident]
    exact hoids ▸ catalog.oids_nodup
  · have hfresh : object.oid = catalog.freshOid := by
      have hget : catalog.objects.get? object.identity = none := by
        rw [Table.get?_eq_none]
        intro old hold hident
        exact h (hident ▸ mem_map_of_mem hold)
      rw [hoid, oidFor, hget]
      rfl
    rw [map_append, map_singleton]
    refine nodup_append.mpr ⟨catalog.oids_nodup, nodup_singleton _, ?_⟩
    rintro a ha b hb rfl
    rw [mem_singleton, hfresh] at hb
    exact catalog.freshOid_not_mem (hb ▸ ha)

/-- What executing a source leaves under its identity. -/
structure Written where
  kind : Option ManagedObjectKind
  rendered : Bytes32
  publicExecute : Bool
deriving DecidableEq

/-- The catalog after an object was created or replaced. -/
def Catalog.write (written : Written) : Option Catalog :=
  if h : catalog.placeable identity = true then
    some {
      relations := catalog.relations
      objects := catalog.objects.upsert
        ⟨catalog.oidFor identity, identity, written.kind, written.rendered, written.publicExecute⟩
      oids_nodup := catalog.oids_nodup_upsert _ rfl
      placed := by
        intro object hobj table name hident
        rcases Table.mem_upsert.mp hobj with rfl | ⟨hmem, -⟩
        · simp only at hident
          rw [hident] at h
          exact h
        · exact catalog.placed object hmem table name hident }
  else none

/-- The catalog after `REVOKE EXECUTE … FROM PUBLIC`, which can leave the
privilege in place. -/
def Catalog.setPublicExecute (holds : Bool) : Catalog where
  relations := catalog.relations
  objects := catalog.objects.modify identity (fun object => { object with publicExecute := holds })
    fun _ => rfl
  oids_nodup := by
    have hoids : ((catalog.objects.modify identity
        (fun object => { object with publicExecute := holds })
        fun _ => rfl).rows.map CatalogObject.oid) =
        catalog.objects.rows.map CatalogObject.oid := by
      rw [Table.modify, Table.update, List.map_map]
      refine List.map_congr_left fun object _ => ?_
      simp only [Function.comp_apply]
      split_ifs <;> rfl
    exact hoids ▸ catalog.oids_nodup
  placed := by
    intro object hobj table name hident
    rcases Table.mem_modify.mp hobj with ⟨hmem, -⟩ | ⟨before, hbefore, -, rfl⟩
    · exact catalog.placed object hmem table name hident
    · exact catalog.placed before hbefore table name hident

end Catalog

/-- A statement on a managed object. -/
inductive Statement where
  | drop (kind : ManagedObjectKind) (identity : Identity)
  | create (identity : Identity)
  | revoke (identity : Identity)
deriving DecidableEq

/-- Whether a statement writes the catalog row of an identity. -/
def Statement.writesRow (identity : Identity) : Statement → Bool
  | .drop _ _ => false
  | .create written => written == identity
  | .revoke written => written == identity

/-- The apply transaction's view of the database. -/
structure Session where
  relation : Option Relation
  catalog : Catalog
  executed : List Statement

/-- Rows the transaction wrote carry its `xmin`. -/
def Session.touched (session : Session) (identity : Identity) : Bool :=
  session.executed.any (Statement.writesRow identity)

/-- The relations apply holds, with whether in `ACCESS EXCLUSIVE` mode. -/
abbrev LockSet := List (String × Bool)

def LockSet.holds (locks : LockSet) (relation : String) (exclusive : Bool) : Bool :=
  (locks.find? fun entry => entry.1 == relation).any fun entry => entry.2 || !exclusive

/-- What PostgreSQL answers to the statements of an apply. -/
structure Server where
  execute : Catalog → ManagedObject → Except SqlxFailure Written
  dropTrigger : Catalog → Identity → Except SqlxFailure (List Identity)
  dropRoutine : Catalog → ManagedObjectKind → Identity → Except SqlxFailure Unit
  revoke : Catalog → Identity → Except SqlxFailure Bool
  lockTable : Catalog → QualifiedName → Except SqlxFailure Unit
  takeAll : Catalog → List (QualifiedName × Bool) → Except ManagedApplyError LockSet
  partitionTreeMembers : Catalog → QualifiedName → List String

/-- A computation in the apply transaction. -/
abbrev Applying := EStateM ManagedApplyError Session

def readCatalog {α : Type} (f : Catalog → Except ManagedApplyError α) : Applying α :=
  reads fun session => f session.catalog

/-- A statement on a managed object, which the session lists when it succeeds. -/
def runStatement (statement : Statement) (f : Catalog → Except ManagedApplyError Catalog) :
    Applying Unit :=
  writes fun session => do
    let catalog ← f session.catalog
    pure { session with catalog := catalog, executed := session.executed ++ [statement] }

/-- A failed statement. -/
def asStatement {α : Type} (result : Except SqlxFailure α) : Except ManagedApplyError α :=
  result.mapError .statement

section Drops

def dropsBeforeCreate : ManagedObjectKind → ManagedObjectKind → Bool
  | .function, _ | .procedure, _ | .trigger, .trigger => false
  | .trigger, .constraintTrigger | .constraintTrigger, .constraintTrigger
  | .constraintTrigger, .trigger => true
  | .trigger, .function | .trigger, .procedure
  | .constraintTrigger, .function | .constraintTrigger, .procedure => false

/-- The kind that holds an identity in a resolved map. -/
def liveKind (live : List (String × LiveObject)) (identity : String) : Option ManagedObjectKind :=
  (liveGet live identity).bind LiveObject.kind

/-- The relation a trigger drop is decided on, and the kind of the trigger
holding the name there. -/
structure Holder where
  relation : Nat
  kind : Option ManagedObjectKind
deriving DecidableEq

variable (server : Server)

def lockedTrigger (table : QualifiedName) (name : Identifier) : Applying (Option Holder) :=
  readCatalog fun catalog =>
    match catalog.relations table with
    | none => .ok none
    | some (relation, relkind) => do
      if relkind == "r" || relkind == "p" then
        asStatement (server.lockTable catalog table)
      let current ← (resolveTriggers catalog (fun _ => false) [(table, name)]).mapError
        catalogFailure
      pure (some ⟨relation, current.head?.bind fun entry => entry.2.kind⟩)

/-- The objects that go with a dropped trigger. -/
def droppedWith (identity : Identity) (clones : List Identity) (other : Identity) : Bool :=
  other == identity || (other.isTrigger && clones.contains other)

def dropTrigger (identity : Identity) (rendered : String) (holder : Holder) : Applying Unit :=
  match identity, holder.kind with
  | .trigger table name, some kind => do
    runStatement (.drop kind (.trigger table name)) fun catalog => do
      let clones ← asStatement (server.dropTrigger catalog (.trigger table name))
      pure (catalog.remove (droppedWith (.trigger table name) clones))
    readCatalog fun catalog =>
      rejectIf (!(catalog.relations table).any fun found => found.1 == holder.relation)
        (.identityMismatch rendered)
  | _, _ => pure ()

def dropHolder (object : ManagedObject) (holder : Option ManagedObjectKind) : Applying Unit :=
  match object.structuralIdentity with
  | .routine _ => pure ()
  | .trigger table name =>
    if holder.any (dropsBeforeCreate object.kind) then do
      let current ← lockedTrigger server table name
      match current with
      | some current =>
        if current.kind.any (dropsBeforeCreate object.kind) then
          dropTrigger server object.structuralIdentity object.identity current
        else pure ()
      | none => pure ()
    else pure ()

/-- The body of `retire`'s loop; whether it dropped the object. -/
def retireObject (retirement : Retirement) : Applying Bool :=
  match retirement.structuralIdentity with
  | .trigger table name => do
    let holder ← lockedTrigger server table name
    match holder with
    | some holder =>
      if holder.kind = some retirement.kind then do
        dropTrigger server (.trigger table name) retirement.identity holder
        pure true
      else pure false
    | none => pure false
  | .routine signature => do
    runStatement (.drop retirement.kind (.routine signature)) fun catalog => do
      asStatement (server.dropRoutine catalog retirement.kind (.routine signature))
      pure (catalog.remove fun identity => identity == .routine signature)
    pure true

variable (manifest : ManagedObjectManifest) (live : List (String × LiveObject))

/-- The retirements of one phase that the catalog shows as present. -/
def presentRetirements (triggerPhase : Bool) : List Retirement :=
  manifest.retirements.filter fun retirement =>
    retirement.kind.isTrigger == triggerPhase &&
      liveKind live retirement.identity == some retirement.kind

/-- One phase of `retire`; how many objects it dropped. -/
def retirePhase (triggerPhase : Bool) : Applying Nat :=
  (presentRetirements manifest live triggerPhase).foldlM (fun count retirement => do
    let dropped ← retireObject server retirement
    pure (if dropped then count + 1 else count)) 0

/-- How many retired objects `retire` dropped, by phase. -/
structure Retired where
  triggers : Nat
  routines : Nat
deriving DecidableEq

def retire : Applying Retired := do
  let triggers ← retirePhase server manifest live true
  let routines ← retirePhase server manifest live false
  pure ⟨triggers, routines⟩

/-- One request of `coalesce`. -/
def addRequest (requests : List (QualifiedName × Bool)) (request : QualifiedName × Bool) :
    List (QualifiedName × Bool) :=
  if requests.any fun entry => entry.1 == request.1 then
    requests.map fun entry =>
      if entry.1 == request.1 then (entry.1, entry.2 || request.2) else entry
  else requests ++ [request]

def coalesce (requests : List (QualifiedName × Bool)) : List (QualifiedName × Bool) :=
  requests.foldl addRequest []

/-- Whether a pending trigger must first drop the live object under its name. -/
def dropsHolder (object : ManagedObject) : Bool :=
  (liveKind live object.identity).any (dropsBeforeCreate object.kind)

/-- A lock request for the table of a trigger. -/
def lockRequest (identity : Identity) (exclusive : Bool) : Option (QualifiedName × Bool) :=
  match identity with
  | .trigger table _ => some (table, exclusive)
  | .routine _ => none

def lockTriggerTables (pending : List ManagedObject) : Applying LockSet :=
  let retired := (presentRetirements manifest live true).filterMap fun retirement =>
    lockRequest retirement.structuralIdentity true
  let replaced := (pending.filter fun object => object.kind.isTrigger).filterMap fun object =>
    lockRequest object.structuralIdentity (dropsHolder live object)
  let requests := coalesce (retired ++ replaced)
  if requests.isEmpty then pure [] else readCatalog fun catalog => server.takeAll catalog requests

def requireCovered (locks : LockSet) (pending : List ManagedObject)
    (live : List (String × LiveObject)) : Applying Unit :=
  readCatalog fun catalog =>
    rejectSome (fun object : ManagedObject => .identityMismatch object.identity)
      (pending.find? fun object =>
        match object.structuralIdentity with
        | .routine _ => false
        | .trigger table _ =>
          !(server.partitionTreeMembers catalog table).all fun relation =>
            locks.holds relation (dropsHolder live object))

end Drops

section Changes

variable [Sha256] (server : Server)

/-- The hash an object is installed with, as two catalog maps show it. -/
def installedHash (live : List (String × LiveObject)) (hashes : List (Nat × Bytes32))
    (object : ManagedObject) : Option (Nat × Bytes32) :=
  ((liveGet live object.identity).filter fun live => live.kind = some object.kind).bind fun live =>
    (hashGet hashes live.oid).map fun hash => (live.oid, hash)

/-- Whether a ledger row records an object as it is installed. -/
def recordsInstalled (live : List (String × LiveObject)) (hashes : List (Nat × Bytes32))
    (object : ManagedObject) (row : LedgerRow) : Bool :=
  row.kind == object.kind.asStr && row.sourceChecksum == digestBytes object.checksum &&
    (installedHash live hashes object).any fun installed =>
      row.renderedChecksum == digestBytes installed.2

variable (manifest : ManagedObjectManifest)

def pendingEntries (rows : List LedgerRow)
    (live : List (String × LiveObject)) (hashes : List (Nat × Bytes32)) : List ManagedObject :=
  manifest.objects.filter fun object =>
    !(rows.find? fun row => row.identity == object.identity).any
      (recordsInstalled live hashes object)

/-- The identities under which `create` looks for what a source wrote. -/
def resolveWritten (session : Session) (identity : Identity) :
    Except ManagedApplyError (List (String × LiveObject)) :=
  (match identity with
    | .routine signature =>
      resolveRoutines session.catalog session.touched [(signature.schema, signature.name)]
    | .trigger table name =>
      resolveTriggers session.catalog session.touched [(table, name)]).mapError catalogFailure

def create (object : ManagedObject) : Applying Unit := do
  runStatement (.create object.structuralIdentity) fun catalog => do
    let written ← asStatement (server.execute catalog object)
    require (.statement ⟨"relation does not exist"⟩)
      (catalog.write object.structuralIdentity written)
  reads fun session => do
    let written ← resolveWritten session object.structuralIdentity
    rejectIf (!(liveGet written object.identity).any fun live =>
        live.touched && live.kind == some object.kind)
      (.identityMismatch object.identity)

/-- The live objects of the manifest. -/
def readLive : Applying (List (String × LiveObject)) :=
  readCatalog fun catalog => (resolveLive catalog manifest).mapError catalogFailure

/-- What is live and pending once the retirements are done. -/
def reviewPending (rows : List LedgerRow)
    (hashes : List (Nat × Bytes32)) (locks : LockSet) (retired : Retired)
    (live : List (String × LiveObject)) (pending : List ManagedObject) :
    Applying (List (String × LiveObject) × List ManagedObject) :=
  if 0 < retired.triggers then do
    let live ← readLive manifest
    requireCovered server locks (pendingEntries manifest rows live hashes) live
    pure (live, pendingEntries manifest rows live hashes)
  else pure (live, pending)

def executeChanges (rows : List LedgerRow) : Applying (List ManagedObject × Retired) := do
  let live ← readLive manifest
  let hashes ← readCatalog fun catalog => .ok (renderHashes catalog (liveKinds live))
  let pending := pendingEntries manifest rows live hashes
  let locks ← lockTriggerTables server manifest live pending
  let retired ← retire server manifest live
  let (live, pending) ← reviewPending server manifest rows hashes locks retired live pending
  pending.forM fun object => dropHolder server object (liveKind live object.identity)
  (pending.filter fun object => !object.kind.isTrigger).forM (create server)
  (pending.filter fun object => object.kind.isTrigger).forM (create server)
  pure (pending, retired)

def installedObjects : Applying (List (ManagedObject × Nat × Bytes32)) :=
  readCatalog fun catalog => do
    let live ← (resolveLive catalog manifest).mapError catalogFailure
    let hashes := renderHashes catalog (liveKinds live)
    manifest.objects.mapM fun object => do
      let installed ← require (.identityMismatch object.identity) (installedHash live hashes object)
      pure (object, installed)

/-- One `REVOKE` of `revoke_public_execute`. -/
def revokeFrom (object : ManagedObject) : Applying Unit :=
  match object.structuralIdentity with
  | .routine signature =>
    runStatement (.revoke (.routine signature)) fun catalog => do
      let holds ← asStatement (server.revoke catalog (.routine signature))
      pure (catalog.setPublicExecute (.routine signature) holds)
  | .trigger _ _ => pure ()

section

variable (installed : List (ManagedObject × Nat × Bytes32))

def revokePublicExecute : Applying Unit := do
  let routines := (installed.filter fun entry => entry.1.kind.isRoutine).map fun entry => entry.2.1
  let holders ← readCatalog fun catalog => .ok (publicExecuteHolders catalog routines)
  (installed.filter fun entry => holders.contains entry.2.1).forM fun entry =>
    revokeFrom server entry.1
  readCatalog fun catalog =>
    rejectSome (fun entry => .publicExecuteRetained entry.1.identity)
      (installed.find? fun entry => (publicExecuteHolders catalog routines).contains entry.2.1)

variable (object : ManagedObject)

/-- The row that `record` writes for an executed entry. -/
def objectRow (hash : Bytes32) : LedgerRow where
  identity := object.identity
  kind := object.kind.asStr
  sourceChecksum := digestBytes object.checksum
  renderedChecksum := digestBytes hash
  releaseRevision := 0

/-- The set row that `record` writes. -/
def manifestRow : LedgerRow where
  identity := setRow
  kind := setRow
  sourceChecksum := digestBytes manifest.digest
  renderedChecksum := digestBytes (renderedSetDigest
    (installed.map fun entry => (entry.1.identity, digestBytes entry.2.2)))
  releaseRevision := manifest.revision.get

/-- `rendered[object.identity()]`. -/
def renderedHash : Except ManagedApplyError Bytes32 :=
  require (.panicked ⟨"no entry found for key"⟩)
    ((installed.find? fun entry => entry.1.identity == object.identity).map fun entry => entry.2.2)

/-- The row that `record` writes for a pending entry. -/
def writtenRow : Except ManagedApplyError LedgerRow := do
  let hash ← renderedHash installed object
  pure (objectRow object hash)

end

/-- The ledger's rows after `record`. -/
def recordRows (written : List LedgerRow)
    (rows : Table LedgerRow.identity) : Table LedgerRow.identity :=
  let declared := manifest.objects.map ManagedObject.identity ++ [setRow]
  written.foldl .upsert (rows.delete fun row => !declared.contains row.identity)

def record (pending : List ManagedObject)
    (installed : List (ManagedObject × Nat × Bytes32)) : Applying Unit :=
  writes fun session => do
    let written ← pending.mapM (writtenRow installed)
    pure { session with
      relation := session.relation.map fun relation =>
        { relation with
          rows :=
            recordRows manifest (written ++ [manifestRow manifest installed]) relation.rows } }

/-- Evidence that a committed apply installed one manifest. -/
structure AppliedManagedObjects where
  digest : Bytes32
  revision : ManagedRevision
  createdOrReplaced : Nat
  unchanged : Nat
  retired : Nat
deriving DecidableEq

/-- The part of `apply` that touches the ledger only. -/
def admitLedger : Applying (List LedgerRow) := fun session =>
  match admitRelation manifest session.relation with
  | .ok (relation, rows) => .ok rows { session with relation := some relation }
  | .error error => .error error session

def apply : Applying AppliedManagedObjects := do
  let rows ← admitLedger manifest
  let (pending, retired) ← executeChanges server manifest rows
  let installed ← installedObjects manifest
  if manifest.publicExecute = .revoke then
    revokePublicExecute server installed
  record manifest pending installed
  pure {
    digest := manifest.digest
    revision := manifest.revision
    createdOrReplaced := pending.length
    unchanged := manifest.objects.length - pending.length
    retired := retired.triggers + retired.routines }

/-- The transaction as it begins. -/
def Session.begin (relation : Option Relation) (catalog : Catalog) : Session :=
  ⟨relation, catalog, []⟩

end Changes

end Batter.Managed
