import Batter.Managed.Catalog

/-!
# Managed objects: a locked ledger authorizes one manifest

Apply first locks the ledger: it creates the ledger when it is absent, adopts a
legacy ledger whose recorded digest is the manifest's, and refuses a relation of
another shape.  `authorize` then compares the requested revision and digest with
the set row.  Everything here reads and writes the ledger only.

`installedRelease` reads off a relation which release it records, and
`InstalledRelease.Permits` says which manifests may follow that release.
`admitRelation_admitted` says that nothing else passes the lock and the authorization.
-/

namespace Batter.Managed

open RustStd Bytes
open Runlimit (Sha256 Bytes32)

/-- A managed release refused before any managed object changes. -/
inductive ManagedReleaseError where
  | downgrade (requested installed : ManagedRevision)
  | revisionConflict (revision : ManagedRevision)
  | legacyBaselineRequired
  | invalidLedger
deriving DecidableEq

/-- A statement that failed, with its message. -/
structure SqlxFailure where
  message : String
deriving DecidableEq

/-- A failed apply.  `panicked` is a failed index into the installed hashes. -/
inductive ManagedApplyError where
  | release (error : ManagedReleaseError)
  | statement (failure : SqlxFailure)
  | ledgerShape
  | capacity
  | identityMismatch (identity : String)
  | publicExecuteRetained (identity : String)
  | panicked (panic : Panic)
deriving DecidableEq

def catalogFailure : CatalogError → ManagedApplyError
  | .capacity => .capacity

/-- Whether apply created the ledger or found it. -/
inductive LedgerOrigin where
  | created
  | existing
deriving DecidableEq

/-- `u64::try_from(row.release_revision).ok().and_then(ManagedRevision::new)`. -/
def LedgerRow.installed (row : LedgerRow) : Option ManagedRevision :=
  if 0 ≤ row.releaseRevision then ManagedRevision.new row.releaseRevision.toNat else none

/-- The check of the set row and of the object rows' revisions. -/
def validRelease (rows : List LedgerRow) (row : LedgerRow) : Bool :=
  !(row.kind != setRow || row.sourceChecksum.length != 32 || row.renderedChecksum.length != 32 ||
    rows.any fun row => row.identity != setRow && row.releaseRevision != 0)

section

variable [Sha256]

variable (manifest : ManagedObjectManifest)

def authorize (rows : List LedgerRow) (origin : LedgerOrigin) : Except ManagedApplyError Unit :=
  if origin = .created ∧ rows.isEmpty then .ok ()
  else do
    let row ← require (.release .invalidLedger) (rows.find? fun row => row.identity == setRow)
    rejectIf (!validRelease rows row) (.release .invalidLedger)
    let installed ← require (.release .invalidLedger) row.installed
    rejectIf (decide (manifest.revision < installed))
      (.release (.downgrade manifest.revision installed))
    rejectIf (decide (manifest.revision = installed) &&
        row.sourceChecksum != digestBytes manifest.digest)
      (.release (.revisionConflict manifest.revision))

def upgradeLegacy (relation : Relation) : Except ManagedApplyError Relation := do
  rejectIf (!(relation.rows.get? setRow).any fun row =>
      row.kind == setRow && row.sourceChecksum == digestBytes manifest.digest)
    (.release .legacyBaselineRequired)
  let altered := relation.addReleaseRevision
  pure { altered with
    rows := altered.rows.modify setRow
      (fun row => { row with releaseRevision := manifest.revision.get }) fun _ => rfl }

/-- The relation that a ledger's name stands for once apply has created it. -/
def openLedger : Option Relation → Except ManagedApplyError (Relation × LedgerOrigin)
  | none => .ok (createLedger, .created)
  | some relation => do
    rejectIf (relation.relkind != "r") .ledgerShape
    pure (relation, .existing)

/-- The ledger of the exact shape that a relation is, or becomes. -/
def adoptLedger (relation : Relation) : Except ManagedApplyError Relation :=
  match inspectLedgerShape relation with
  | .exact => .ok relation
  | .legacy => upgradeLegacy manifest relation
  | .rowSecurity | .inherited | .mismatch => .error .ledgerShape

def lockLedger (relation : Option Relation) :
    Except ManagedApplyError (Relation × List LedgerRow × LedgerOrigin) := do
  let opened ← openLedger relation
  let adopted ← adoptLedger manifest opened.1
  let rows ← (loadLedgerRows adopted).mapError catalogFailure
  pure (adopted, rows, opened.2)

/-- The ledger is locked and authorizes the manifest. -/
def admitRelation (relation : Option Relation) :
    Except ManagedApplyError (Relation × List LedgerRow) := do
  let (relation, rows, origin) ← lockLedger manifest relation
  authorize manifest rows origin
  pure (relation, rows)

end

section Installed

/-- The release that the relation under a ledger's name records. -/
inductive InstalledRelease where
  | absent
  | legacy (checksum : List UInt8)
  | released (revision : ManagedRevision) (checksum : List UInt8)
  | invalid
deriving DecidableEq

/-- The release of a ledger of the exact shape. -/
def exactRelease (rows : Table LedgerRow.identity) : InstalledRelease :=
  match rows.get? setRow with
  | none => .invalid
  | some row =>
    match row.installed with
    | none => .invalid
    | some revision =>
      if validRelease rows.rows row then .released revision row.sourceChecksum else .invalid

/-- The release of a legacy ledger, which has no revision. -/
def legacyRelease (rows : Table LedgerRow.identity) : InstalledRelease :=
  match rows.get? setRow with
  | none => .invalid
  | some row =>
    if row.kind = setRow ∧ row.sourceChecksum.length = 32 ∧ row.renderedChecksum.length = 32 then
      .legacy row.sourceChecksum
    else .invalid

/-- The release that the relation under a ledger's name records. -/
def installedRelease : Option Relation → InstalledRelease
  | none => .absent
  | some relation =>
    match inspectLedgerShape relation with
    | .exact => exactRelease relation.rows
    | .legacy => legacyRelease relation.rows
    | .rowSecurity | .inherited | .mismatch => .invalid

theorem exactRelease_eq_released
    {rows : Table LedgerRow.identity} {row : LedgerRow} {revision : ManagedRevision}
    (hget : rows.get? setRow = some row) (hinst : row.installed = some revision)
    (hvalid : validRelease rows.rows row = true) :
    exactRelease rows = .released revision row.sourceChecksum := by
  simp only [exactRelease, hget, hinst, hvalid, if_true]

variable {rows : List LedgerRow} {manifest : ManagedObjectManifest}

theorem find?_setRow (rows : Table LedgerRow.identity) (ident : String) :
    (rows.rows.find? fun row => row.identity == ident) = rows.get? ident :=
  rfl

theorem validRelease_eq_true {row : LedgerRow} : validRelease rows row = true ↔
      row.kind = setRow ∧ row.sourceChecksum.length = 32 ∧ row.renderedChecksum.length = 32 ∧
        ∀ row ∈ rows, row.identity ≠ setRow → row.releaseRevision = 0 := by
  simp only [validRelease, Bool.not_eq_true', Bool.or_eq_false_iff, bne_eq_false_iff_eq,
    List.any_eq_false, Bool.and_eq_true, bne_iff_ne, ne_eq, not_and, not_not, and_assoc]

theorem exists_valid_of_exactRelease {rows : Table LedgerRow.identity}
    (h : exactRelease rows ≠ .invalid) :
    ∃ row, rows.get? setRow = some row ∧ validRelease rows.rows row = true := by
  unfold exactRelease at h
  split at h
  · exact absurd rfl h
  · rename_i row hget
    split at h
    · exact absurd rfl h
    · split_ifs at h with hvalid
      · exact ⟨row, hget, hvalid⟩
      · exact absurd rfl h

variable [Sha256]

/-- The manifests that may follow an installed release. -/
def InstalledRelease.Permits (manifest : ManagedObjectManifest) : InstalledRelease → Prop
  | .absent => True
  | .legacy checksum => checksum = digestBytes manifest.digest
  | .released revision checksum =>
    revision ≤ manifest.revision ∧
      (revision = manifest.revision → checksum = digestBytes manifest.digest)
  | .invalid => False

/-- What `authorize` requires of a ledger that was there. -/
theorem authorize_existing {rows : Table LedgerRow.identity} {origin : LedgerOrigin}
    (hrows : ¬ (origin = .created ∧ rows.rows.isEmpty)) :
    authorize manifest rows.rows origin = .ok () ↔ (exactRelease rows).Permits manifest := by
  unfold authorize exactRelease
  rw [if_neg hrows, find?_setRow]
  cases hget : rows.get? setRow with
  | none =>
    simp [require, bind, Except.bind, InstalledRelease.Permits]
  | some row =>
    cases hinst : row.installed with
    | none =>
      simp [bind_eq_ok, hinst, InstalledRelease.Permits]
    | some revision =>
      by_cases hvalid : validRelease rows.rows row = true
      · simp only [bind_eq_ok, exists_unit, require_eq_ok, rejectIf_eq_ok, hinst,
          Option.some.injEq, exists_eq_left', hvalid, Bool.not_true, true_and, if_true,
          decide_eq_false_iff_not, not_lt, Bool.and_eq_false_iff, bne_eq_false_iff_eq,
          InstalledRelease.Permits]
        refine and_congr_right fun _ => ?_
        rw [eq_comm (a := manifest.revision), imp_iff_not_or]
      · simp [bind_eq_ok, hinst, hvalid, InstalledRelease.Permits]

theorem upgradeLegacy_eq_ok {rel upgraded : Relation}
    (h : upgradeLegacy manifest rel = .ok upgraded) :
    (∃ row, rel.rows.get? setRow = some row ∧ row.kind = setRow ∧
        row.sourceChecksum = digestBytes manifest.digest ∧
        upgraded.rows.get? setRow =
          some { row with releaseRevision := manifest.revision.get }) ∧
      inspectLedgerShape upgraded = inspectLedgerShape rel.addReleaseRevision := by
  simp only [upgradeLegacy, bind_eq_ok, exists_unit, rejectIf_eq_ok, Bool.not_eq_eq_eq_not,
    Bool.not_false, pure_eq_ok, Option.any_eq_true, Bool.and_eq_true, beq_iff_eq] at h
  obtain ⟨⟨row, hrow, hkind, hchecksum⟩, rfl⟩ := h
  refine ⟨⟨row, hrow, hkind, hchecksum, ?_⟩, rfl⟩
  simp [Relation.addReleaseRevision, Table.get?_modify, Table.get?_update, hrow]

/-- What the lock and the authorization establish. -/
structure Admitted (manifest : ManagedObjectManifest) (relation : Option Relation)
    (adopted : Relation) (rows : List LedgerRow) : Prop where
  permits : (installedRelease relation).Permits manifest
  shape : inspectLedgerShape adopted = .exact
  rows_eq : rows = adopted.rows.rows
  bounded : rows.length ≤ maxManagedObjects + 1
  unrevised : ∀ row ∈ rows, row.identity ≠ setRow → row.releaseRevision = 0

theorem admitRelation_admitted {rel : Option Relation} {adopted : Relation}
    (h : admitRelation manifest rel = .ok (adopted, rows)) :
    Admitted manifest rel adopted rows := by
  simp only [admitRelation, bind_eq_ok, exists_unit, pure_eq_ok, Prod.mk.injEq] at h
  obtain ⟨⟨locked, loaded, origin⟩, hlock, hauthorize, rfl, rfl⟩ := h
  simp only [lockLedger, bind_eq_ok, pure_eq_ok, Prod.mk.injEq, mapError_eq_ok] at hlock
  obtain ⟨⟨opened, openedOrigin⟩, hopen, adopted, hadopt, rows, hload, rfl, rfl, rfl⟩ := hlock
  simp only [loadLedgerRows, bind_eq_ok, exists_unit, rejectIf_eq_ok, decide_eq_false_iff_not,
    pure_eq_ok] at hload
  obtain ⟨hbounded, rfl⟩ := hload
  have hbound : adopted.rows.rows.length ≤ maxManagedObjects + 1 := by omega
  cases rel with
  | none =>
    obtain ⟨rfl, rfl⟩ : createLedger = opened ∧ LedgerOrigin.created = openedOrigin := by
      simpa [openLedger] using hopen
    rw [adoptLedger, inspectLedgerShape_createLedger, Except.ok.injEq] at hadopt
    subst hadopt
    exact ⟨trivial, inspectLedgerShape_createLedger, rfl, hbound,
      fun _ hrow => absurd hrow List.not_mem_nil⟩
  | some rel =>
    simp only [openLedger, bind_eq_ok, exists_unit, rejectIf_eq_ok, pure_eq_ok,
      Prod.mk.injEq] at hopen
    obtain ⟨-, rfl, rfl⟩ := hopen
    rw [authorize_existing (by simp)] at hauthorize
    have hvalid : exactRelease adopted.rows ≠ .invalid := by
      intro hinvalid
      rw [hinvalid] at hauthorize
      exact hauthorize
    obtain ⟨installed, hinstalled, hvalid⟩ := exists_valid_of_exactRelease hvalid
    obtain ⟨-, hsource, hrendered, hunrevised⟩ := validRelease_eq_true.mp hvalid
    unfold adoptLedger at hadopt
    cases hshape : inspectLedgerShape rel with
    | exact =>
      rw [hshape, Except.ok.injEq] at hadopt
      subst hadopt
      refine ⟨?_, hshape, rfl, hbound, hunrevised⟩
      rw [installedRelease, hshape]
      exact hauthorize
    | legacy =>
      rw [hshape] at hadopt
      obtain ⟨⟨row, hrow, hkind, hchecksum, hset⟩, hupgraded⟩ := upgradeLegacy_eq_ok hadopt
      obtain rfl := Option.some.inj (hset.symm.trans hinstalled)
      refine ⟨?_, ?_, rfl, hbound, hunrevised⟩
      · rw [installedRelease, hshape]
        simp only [legacyRelease, hrow]
        rw [if_pos ⟨hkind, hsource, hrendered⟩]
        exact hchecksum
      · rw [hupgraded, inspectLedgerShape_addReleaseRevision hshape]
    | rowSecurity | inherited | mismatch =>
      rw [hshape] at hadopt
      exact absurd hadopt (by simp)

end Installed

end Batter.Managed
