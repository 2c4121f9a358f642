import Batter.Library.Fallible
import Batter.Library.Table
import Batter.Managed.Manifest

/-!
# Managed objects: the ledger relation and the catalog

The ledger is a relation with one row for every installed object and one row
for the whole set, under the identity `manifest`.  `inspectLedgerShape` decides
whether a relation is such a ledger, its predecessor without revisions, or
something else.

The catalog lists the routines and triggers of the database with their kinds
and the hashes of their rendered definitions.  Apply and verification read it
through `resolveLive`, a map from rendered identities to live objects, and
`renderHashes`, a map from object identifiers to hashes.
`liveGet_resolveLive` and `hashGet_renderHashes` say what the two maps answer for the
identities of a manifest.
-/

namespace Batter.Managed

open RustStd Bytes List
open Runlimit (Sha256 Bytes32)

/-- A catalog read that returned too many rows. -/
inductive CatalogError where
  | capacity
deriving DecidableEq

section Ledger

/-- One ledger row as written by apply. -/
structure LedgerRow where
  identity : String
  kind : String
  sourceChecksum : List UInt8
  renderedChecksum : List UInt8
  releaseRevision : Int
deriving DecidableEq

/-- A column of a relation: its name, the schema and name of its type, and
whether it is `NOT NULL`. -/
structure Column where
  name : String
  typeSchema : String
  typeName : String
  notNull : Bool
deriving DecidableEq

/-- The relation under the ledger's name. -/
structure Relation where
  relkind : String
  rowSecurity : Bool
  inherited : Bool
  columns : List Column
  primaryKeys : List (List String)
  rows : Table LedgerRow.identity

/-- The exact ledger contract, or the reason a relation violates it. -/
inductive LedgerShape where
  | exact
  | legacy
  | rowSecurity
  | inherited
  | mismatch
deriving DecidableEq

def ledgerColumns : List (String × String) :=
  [("identity", "text"), ("kind", "text"), ("source_checksum", "bytea"),
    ("rendered_checksum", "bytea"), ("applied_at", "timestamptz"), ("release_revision", "int8")]

/-- A column that is not null and whose type is PostgreSQL's own. -/
def Column.catalogued (column : String × String) : Column :=
  ⟨column.1, "pg_catalog", column.2, true⟩

/-- `create_ledger_sql`. -/
def createLedger : Relation where
  relkind := "r"
  rowSecurity := false
  inherited := false
  columns := ledgerColumns.map Column.catalogued
  primaryKeys := [["identity"]]
  rows := Table.empty

def shapeMatchesColumns (columns : List Column) (primaryKeys : List (List String))
    (expected : List (String × String)) : Bool :=
  columns.length == expected.length &&
    expected.all (fun column => columns.contains (.catalogued column)) &&
    primaryKeys == [["identity"]]

def inspectLedgerShape (relation : Relation) : LedgerShape :=
  if relation.relkind ≠ "r" then .mismatch
  else if relation.rowSecurity then .rowSecurity
  else if relation.inherited then .inherited
  else if shapeMatchesColumns (relation.columns.take 7) (relation.primaryKeys.take 2)
      ledgerColumns then .exact
  else if shapeMatchesColumns (relation.columns.take 7) (relation.primaryKeys.take 2)
      (ledgerColumns.take 5) then .legacy
  else .mismatch

def loadLedgerRows (relation : Relation) : Except CatalogError (List LedgerRow) := do
  rejectIf (decide (maxManagedObjects + 1 < relation.rows.rows.length)) .capacity
  pure relation.rows.rows

/-- `ALTER TABLE … ADD COLUMN release_revision … NOT NULL DEFAULT 0`. -/
def Relation.addReleaseRevision (relation : Relation) : Relation :=
  { relation with
    columns := relation.columns ++ [Column.catalogued ("release_revision", "int8")]
    rows := relation.rows.update (fun _ => true) (fun row => { row with releaseRevision := 0 })
      fun _ => rfl }

theorem inspectLedgerShape_createLedger : inspectLedgerShape createLedger = .exact := by
  decide

variable {relation : Relation}

/-- What is not a rejected relation has the columns of its shape. -/
theorem inspectLedgerShape_eq_legacy (h : inspectLedgerShape relation = .legacy) :
    relation.relkind = "r" ∧ relation.rowSecurity = false ∧ relation.inherited = false ∧
      shapeMatchesColumns (relation.columns.take 7) (relation.primaryKeys.take 2)
        (ledgerColumns.take 5) = true := by
  unfold inspectLedgerShape at h
  split_ifs at h with hkind hsecurity hinherited hexact hlegacy
  exact ⟨not_not.mp hkind, by simpa using hsecurity, by simpa using hinherited, hlegacy⟩

theorem relkind_of_exact (h : inspectLedgerShape relation = .exact) : relation.relkind = "r" := by
  unfold inspectLedgerShape at h
  split_ifs at h with hkind
  exact not_not.mp hkind

/-- The relation's shape is decided by everything but its rows. -/
theorem inspectLedgerShape_rows (relation : Relation) (rows : Table LedgerRow.identity) :
    inspectLedgerShape { relation with rows := rows } = inspectLedgerShape relation :=
  rfl

/-- A legacy ledger with the release column is a ledger. -/
theorem inspectLedgerShape_addReleaseRevision (h : inspectLedgerShape relation = .legacy) :
    inspectLedgerShape relation.addReleaseRevision = .exact := by
  obtain ⟨hkind, hsecurity, hinherited, hshape⟩ := inspectLedgerShape_eq_legacy h
  simp only [shapeMatchesColumns, Bool.and_eq_true, beq_iff_eq, all_eq_true] at hshape
  obtain ⟨⟨hlen, hcols⟩, hkeys⟩ := hshape
  have hfive : relation.columns.length = 5 := by
    rw [length_take] at hlen
    have htake : (ledgerColumns.take 5).length = 5 := rfl
    omega
  have htake : relation.columns.take 7 = relation.columns :=
    take_of_length_le (by omega)
  rw [htake] at hcols
  have hexact : shapeMatchesColumns (relation.addReleaseRevision.columns.take 7)
      (relation.addReleaseRevision.primaryKeys.take 2) ledgerColumns = true := by
    simp only [shapeMatchesColumns, Bool.and_eq_true, beq_iff_eq, all_eq_true,
      Relation.addReleaseRevision]
    rw [take_of_length_le (by simp [hfive])]
    refine ⟨⟨by simp [hfive, ledgerColumns], ?_⟩, hkeys⟩
    intro column hcolumn
    rw [← take_append_drop 5 ledgerColumns, mem_append] at hcolumn
    rw [contains_eq_mem, decide_eq_true_eq, mem_append]
    rcases hcolumn with hcolumn | hcolumn
    · have hmem := hcols column hcolumn
      rw [contains_eq_mem, decide_eq_true_eq] at hmem
      exact .inl hmem
    · rw [show ledgerColumns.drop 5 = [("release_revision", "int8")] from rfl,
        mem_singleton] at hcolumn
      rw [hcolumn]
      exact .inr (mem_singleton_self _)
  unfold inspectLedgerShape
  rw [if_neg (by simp [Relation.addReleaseRevision, hkind]),
    if_neg (by simp [Relation.addReleaseRevision, hsecurity]),
    if_neg (by simp [Relation.addReleaseRevision, hinherited]), if_pos hexact]

end Ledger

section Catalog

/-- A routine or trigger of the database: its object identifier, its kind when
a manifest can declare that kind, the hash of its rendered definition and
whether `PUBLIC` holds `EXECUTE` on it. -/
structure CatalogObject where
  oid : Nat
  identity : Identity
  kind : Option ManagedObjectKind
  rendered : Bytes32
  publicExecute : Bool
deriving DecidableEq

/-- The relations of the database with their object identifiers and kinds, and
its routines and triggers.  A trigger's table is one of the relations.  PostgreSQL
keeps object identifiers distinct within `pg_proc` and within `pg_trigger` only; that no
routine shares one with a trigger is an assumption of the model. -/
structure Catalog where
  relations : QualifiedName → Option (Nat × String)
  objects : Table CatalogObject.identity
  oids_nodup : (objects.rows.map CatalogObject.oid).Nodup
  placed : ∀ object ∈ objects, ∀ table name, object.identity = .trigger table name →
    (relations table).isSome = true

/-- One routine or trigger found in the catalog for a declared identity. -/
structure LiveObject where
  oid : Nat
  kind : Option ManagedObjectKind
  touched : Bool
deriving DecidableEq

/-- Rows one catalog read may return before capacity is exceeded. -/
def maxCatalogRows : Nat := 100000

/-- The entry of a resolved map for a catalog row. -/
def CatalogObject.entry (touched : Identity → Bool) (object : CatalogObject) :
    String × LiveObject :=
  (object.identity.render, ⟨object.oid, object.kind, touched object.identity⟩)

variable (catalog : Catalog) (touched : Identity → Bool)

/-- The rows of a bounded catalog read, keyed by rendered identity. -/
def resolveRows (selected : Identity → Bool) :
    Except CatalogError (List (String × LiveObject)) := do
  let rows := catalog.objects.rows.filter fun object => selected object.identity
  rejectIf (decide (maxCatalogRows < rows.length)) .capacity
  pure (rows.map (CatalogObject.entry touched))

def resolveRoutines
    (names : List (Identifier × Identifier)) : Except CatalogError (List (String × LiveObject)) :=
  resolveRows catalog touched fun
    | .routine signature => names.contains (signature.schema, signature.name)
    | .trigger _ _ => false

def resolveTriggers
    (keys : List (QualifiedName × Identifier)) : Except CatalogError (List (String × LiveObject)) :=
  resolveRows catalog touched fun
    | .routine _ => false
    | .trigger table name => keys.contains (table, name)

/-- The structural identities of a manifest's entries and retirements. -/
def ManagedObjectManifest.identities (manifest : ManagedObjectManifest) : List Identity :=
  manifest.objects.map ManagedObject.structuralIdentity ++
    manifest.retirements.map Retirement.structuralIdentity

/-- The routine names among identities. -/
def routineNames (identities : List Identity) : List (Identifier × Identifier) :=
  identities.filterMap fun
    | .routine signature => some (signature.schema, signature.name)
    | .trigger _ _ => none

/-- The trigger keys among identities. -/
def triggerKeys (identities : List Identity) : List (QualifiedName × Identifier) :=
  identities.filterMap fun
    | .routine _ => none
    | .trigger table name => some (table, name)

def resolveLive (manifest : ManagedObjectManifest) :
    Except CatalogError (List (String × LiveObject)) := do
  let routines ← resolveRoutines catalog (fun _ => false) (routineNames manifest.identities)
  let triggers ← resolveTriggers catalog (fun _ => false) (triggerKeys manifest.identities)
  pure (routines ++ triggers)

/-- `live.get(identity)`. -/
def liveGet (live : List (String × LiveObject)) (identity : String) : Option LiveObject :=
  (live.find? fun entry => entry.1 == identity).map Prod.snd

def liveKinds (live : List (String × LiveObject)) : List (Nat × ManagedObjectKind) :=
  live.filterMap fun entry => entry.2.kind.map fun kind => (entry.2.oid, kind)

def renderHashes (objects : List (Nat × ManagedObjectKind)) : List (Nat × Bytes32) :=
  objects.filterMap fun entry =>
    (catalog.objects.rows.find? fun object => object.oid == entry.1).map fun object =>
      (entry.1, object.rendered)

/-- `hashes.get(&oid)`. -/
def hashGet (hashes : List (Nat × Bytes32)) (oid : Nat) : Option Bytes32 :=
  (hashes.find? fun entry => entry.1 == oid).map Prod.snd

def publicExecuteHolders (oids : List Nat) : List Nat :=
  (catalog.objects.rows.filter fun object =>
    object.publicExecute && oids.contains object.oid).map CatalogObject.oid

/-- The bytes that `rendered_set_digest` hashes. -/
def renderedSetInput (hashes : List (String × List UInt8)) : List UInt8 :=
  let sorted := orderedBy (fun entry => toLex (entry.1, entry.2.map UInt8.toNat)) hashes
  asBytes "batter.managed-objects.rendered.v1" ++ [0] ++ toBeBytes 8 sorted.length ++
    sorted.flatMap fun entry => digestField (asBytes entry.1) ++ digestField entry.2

def renderedSetDigest [Sha256] (hashes : List (String × List UInt8)) : Bytes32 :=
  Sha256.finalize (renderedSetInput hashes)

end Catalog

section Reads

variable {catalog : Catalog} {manifest : ManagedObjectManifest}
  {live : List (String × LiveObject)}

/-- The first element with a property is the only one. -/
theorem find?_of_unique {α : Type} {l : List α} {p : α → Bool} {a : α} (hmem : a ∈ l)
    (hp : p a = true) (huniq : ∀ b ∈ l, p b = true → b = a) : l.find? p = some a := by
  cases hfind : l.find? p with
  | none =>
    exact absurd hp (find?_eq_none.mp hfind a hmem)
  | some b =>
    rw [huniq b (mem_of_find?_eq_some hfind) (find?_some hfind)]

theorem mem_resolveRows {touched selected : Identity → Bool} {rows : List (String × LiveObject)}
    (h : resolveRows catalog touched selected = .ok rows) (entry : String × LiveObject) :
    entry ∈ rows ↔
      ∃ object ∈ catalog.objects, selected object.identity = true ∧
        object.entry touched = entry := by
  simp only [resolveRows, bind_eq_ok, exists_unit, pure_eq_ok] at h
  obtain ⟨-, rfl⟩ := h
  simp only [mem_map, mem_filter, and_assoc, Table.mem_rows]

/-- The identities that `resolve_live` asks the catalog for. -/
def ManagedObjectManifest.requests (manifest : ManagedObjectManifest) : Identity → Bool
  | .routine signature =>
    (routineNames manifest.identities).contains (signature.schema, signature.name)
  | .trigger table name => (triggerKeys manifest.identities).contains (table, name)

variable {identity : Identity}

theorem requests_of_mem (h : identity ∈ manifest.identities) :
    manifest.requests identity = true := by
  cases identity with
  | routine sig | trigger table name =>
    simp only [ManagedObjectManifest.requests, contains_eq_mem, decide_eq_true_eq]
    exact mem_filterMap.mpr ⟨_, h, rfl⟩

section

variable (h : resolveLive catalog manifest = .ok live)
include h

theorem mem_resolveLive (entry : String × LiveObject) : entry ∈ live ↔
      ∃ object ∈ catalog.objects, manifest.requests object.identity = true ∧
        object.entry (fun _ => false) = entry := by
  simp only [resolveLive, bind_eq_ok, pure_eq_ok] at h
  obtain ⟨routines, hroutines, triggers, htriggers, rfl⟩ := h
  rw [mem_append, mem_resolveRows hroutines, mem_resolveRows htriggers]
  constructor
  · rintro (⟨object, hobj, hsel, hentry⟩ | ⟨object, hobj, hsel, hentry⟩)
    · refine ⟨object, hobj, ?_, hentry⟩
      cases hident : object.identity <;> simp_all [ManagedObjectManifest.requests]
    · refine ⟨object, hobj, ?_, hentry⟩
      cases hident : object.identity <;> simp_all [ManagedObjectManifest.requests]
  · rintro ⟨object, hobj, hreq, hentry⟩
    cases hident : object.identity with
    | routine sig =>
      refine .inl ⟨object, hobj, ?_, hentry⟩
      rw [hident] at hreq ⊢
      exact hreq
    | trigger table name =>
      refine .inr ⟨object, hobj, ?_, hentry⟩
      rw [hident] at hreq ⊢
      exact hreq

/-- What the resolved map answers for an identity of the manifest. -/
theorem liveGet_resolveLive (hident : identity ∈ manifest.identities) :
    liveGet live identity.render =
      (catalog.objects.get? identity).map fun object => ⟨object.oid, object.kind, false⟩ := by
  have hkey : ∀ entry ∈ live, (entry.1 == identity.render) = true →
      ∃ object ∈ catalog.objects, object.identity = identity ∧
        object.entry (fun _ => false) = entry := by
    intro entry hentry heq
    obtain ⟨object, hobj, -, rfl⟩ := (mem_resolveLive h entry).mp hentry
    exact ⟨object, hobj, Identity.render_injective (beq_iff_eq.mp heq), rfl⟩
  unfold liveGet
  cases hget : catalog.objects.get? identity with
  | none =>
    rw [find?_eq_none.mpr]
    · rfl
    · intro entry hentry heq
      obtain ⟨object, hobj, hsame, -⟩ := hkey entry hentry heq
      exact Table.get?_eq_none.mp hget object hobj hsame
  | some object =>
    obtain ⟨hobj, rfl⟩ := Table.get?_eq_some.mp hget
    have hfind : live.find? (fun entry => entry.1 == object.identity.render) =
        some (object.entry fun _ => false) := by
      refine find?_of_unique
        ((mem_resolveLive h _).mpr ⟨object, hobj, requests_of_mem hident, rfl⟩)
        (beq_self_eq_true _) ?_
      intro entry hentry heq
      obtain ⟨other, hother, hsame, rfl⟩ := hkey entry hentry heq
      rw [Table.eq_of_key_eq hother hobj hsame]
    rw [hfind]
    rfl

/-- What the rendered hashes answer for a live object of the manifest. -/
theorem hashGet_renderHashes {object : CatalogObject} {kind : ManagedObjectKind}
    (hobj : object ∈ catalog.objects) (hident : object.identity ∈ manifest.identities)
    (hkind : object.kind = some kind) :
    hashGet (renderHashes catalog (liveKinds live)) object.oid = some object.rendered := by
  have hfound : catalog.objects.rows.find? (fun other => other.oid == object.oid) = some object :=
    find?_of_unique hobj (beq_self_eq_true _) fun other hother heq =>
      inj_on_of_nodup_map catalog.oids_nodup hother hobj (beq_iff_eq.mp heq)
  have hkinds : (object.oid, kind) ∈ liveKinds live := by
    refine mem_filterMap.mpr ⟨object.entry fun _ => false,
      (mem_resolveLive h _).mpr ⟨object, hobj, requests_of_mem hident, rfl⟩, ?_⟩
    simp [CatalogObject.entry, hkind]
  have hfind : (renderHashes catalog (liveKinds live)).find? (fun entry => entry.1 == object.oid) =
      some (object.oid, object.rendered) := by
    refine find?_of_unique (mem_filterMap.mpr ⟨(object.oid, kind), hkinds, by simp [hfound]⟩)
      (beq_self_eq_true _) ?_
    intro entry hentry heq
    obtain ⟨req, -, hrendered⟩ := mem_filterMap.mp hentry
    obtain ⟨other, hother, rfl⟩ := Option.map_eq_some_iff.mp hrendered
    rw [beq_iff_eq] at heq
    simp only at heq
    rw [heq] at hother ⊢
    rw [hfound, Option.some.injEq] at hother
    rw [hother]
  rw [hashGet, hfind]
  rfl

end

end Reads

end Batter.Managed
