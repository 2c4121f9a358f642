import Batter.Library.Runs
import Batter.Managed.Changes

/-!
# Managed objects: releases never go backwards

A history is a sequence of apply calls with arbitrary manifests and changes of
the catalog by others.  A call's transaction commits or rolls back as a whole,
and an unacknowledged `COMMIT` does either.

`ReleaseStep` is the order that releases of one ledger follow: a release of a
higher revision, or the same release again, and on a legacy ledger first of all
the release it recorded.  `run_commitsTo` says that the commits of every
history are a run of it, whatever the ledger was before, and
`managed_releases_never_go_backwards` what that means for the set row, for any
two commits, and for a call that would leave the order.
-/

namespace Batter.Managed

open RustStd Bytes Statements Runs List
open Runlimit (Sha256 Bytes32)

variable {commits : List ManagedObjectManifest} {checksum : List UInt8}
variable {manifest : ManagedObjectManifest} {revision : ManagedRevision}

section Order

variable [Sha256]

/-- A committed manifest follows an installed release and replaces it. -/
def ReleaseStep (before : InstalledRelease) (manifest : ManagedObjectManifest)
    (after : InstalledRelease) : Prop :=
  before.Permits manifest ∧ after = .released manifest.revision (digestBytes manifest.digest)

/-- One manifest may follow another on the same ledger. -/
def Succeeds (earlier later : ManagedObjectManifest) : Prop :=
  earlier.revision ≤ later.revision ∧
    (earlier.revision = later.revision → earlier.digest = later.digest)

theorem permits_released {earlier later : ManagedObjectManifest} :
    (InstalledRelease.released earlier.revision (digestBytes earlier.digest)).Permits later ↔
      Succeeds earlier later :=
  and_congr_right fun _ => imp_congr_right fun _ =>
    ⟨fun h => digestBytes_injective h, fun h => congrArg digestBytes h⟩

variable {before after : InstalledRelease}

/-- What a revision and a content permit, every later release permits less of. -/
theorem permits_of_run {after : InstalledRelease}
    (h : Run ReleaseStep (.released revision checksum) commits after) :
    ∀ manifest ∈ commits, (InstalledRelease.released revision checksum).Permits manifest := by
  induction commits generalizing revision checksum with
  | nil =>
    nofun
  | cons first rest ih =>
    cases h with
    | cons hstep hrest =>
      obtain ⟨hpermits, rfl⟩ := hstep
      intro manifest hmanifest
      rcases mem_cons.mp hmanifest with rfl | hmanifest
      · exact hpermits
      · have hlater := ih hrest manifest hmanifest
        refine ⟨hpermits.1.trans hlater.1, fun heq => ?_⟩
        have hfirst : revision = first.revision := le_antisymm hpermits.1 (heq ▸ hlater.1)
        exact (hpermits.2 hfirst).trans (hlater.2 (hfirst ▸ heq))

section

variable (h : Run ReleaseStep before commits after)
include h

/-- Any two commits of a run are in order. -/
theorem pairwise_of_run : commits.Pairwise Succeeds := by
  induction commits generalizing before with
  | nil =>
    exact List.Pairwise.nil
  | cons first rest ih =>
    cases h with
    | cons hstep hrest =>
      obtain ⟨-, rfl⟩ := hstep
      refine List.Pairwise.cons (fun later hlater => ?_) (ih hrest)
      exact permits_released.mp (permits_of_run hrest later hlater)

/-- The last commit of a run is the installed release. -/
theorem getLast_of_run {last : ManagedObjectManifest} (hlast : last ∈ commits.getLast?) :
    after = .released last.revision (digestBytes last.digest) := by
  obtain ⟨earlier, rfl⟩ := getLast?_eq_some_iff.mp hlast
  obtain ⟨between, -, hend⟩ := h.split
  cases hend with
  | cons hstep hnil =>
    cases hnil
    exact hstep.2

theorem head_of_run {first : ManagedObjectManifest} (hfirst : first ∈ commits.head?) :
    before.Permits first := by
  cases h with
  | nil => simp at hfirst
  | cons hstep _ =>
    rw [head?_cons, Option.mem_some_iff] at hfirst
    exact hfirst ▸ hstep.1

end

end Order

section Database

/-- The ledgers by name, and the catalog. -/
structure Database where
  ledgers : QualifiedName → Option Relation
  catalog : Catalog

/-- What becomes of a `COMMIT`. -/
inductive CommitOutcome where
  | acknowledged
  | unconfirmedCommitted
  | unconfirmedRolledBack
deriving DecidableEq

/-- One call: its manifest, what the server answers to its statements, what the
application's own statements do to the catalog, and what becomes of the commit. -/
structure Call where
  manifest : ManagedObjectManifest
  server : Server
  application : Catalog → Except SqlxFailure Catalog
  commit : CommitOutcome

/-- A call that returned an error. -/
inductive CallError where
  | apply (error : ManagedApplyError)
  | application (failure : SqlxFailure)
  | commitUnconfirmed
deriving DecidableEq

variable [Sha256]

/-- The outcome of a call: what it returned, whether its transaction committed,
and the statements on managed objects that it ran. -/
structure Report where
  result : Except CallError AppliedManagedObjects
  committed : Bool
  executed : List Statement

/-- The database once a transaction has committed. -/
def Database.commit (db : Database) (ledger : QualifiedName) (relation : Option Relation)
    (catalog : Catalog) : Database where
  ledgers := Function.update db.ledgers ledger relation
  catalog := catalog

/-- `migrate_and_apply`, from the point where the migrations are done. -/
def migrateAndApply (db : Database) (call : Call) : Database × Report :=
  match apply call.server call.manifest
      (.begin (db.ledgers call.manifest.ledger) db.catalog) with
  | .error error session => (db, ⟨.error (.apply error), false, session.executed⟩)
  | .ok applied session =>
    match call.application session.catalog with
    | .error failure => (db, ⟨.error (.application failure), false, session.executed⟩)
    | .ok catalog =>
      match call.commit with
      | .acknowledged =>
        (db.commit call.manifest.ledger session.relation catalog,
          ⟨.ok applied, true, session.executed⟩)
      | .unconfirmedCommitted =>
        (db.commit call.manifest.ledger session.relation catalog,
          ⟨.error .commitUnconfirmed, true, session.executed⟩)
      | .unconfirmedRolledBack =>
        (db, ⟨.error .commitUnconfirmed, false, session.executed⟩)

/-- A call, or a change of the catalog by migrations and other sessions. -/
inductive Event where
  | apply (call : Call)
  | change (catalog : Catalog)

/-- The database after one event. -/
def Database.step (db : Database) : Event → Database
  | .apply call => (migrateAndApply db call).1
  | .change catalog => { db with catalog := catalog }

/-- The database after a history. -/
def Database.after (db : Database) (events : List Event) : Database :=
  events.foldl .step db

/-- The manifest that an event commits to a ledger. -/
def committedBy (ledger : QualifiedName) (db : Database) : Event → Option ManagedObjectManifest
  | .apply call =>
    if call.manifest.ledger = ledger ∧ (migrateAndApply db call).2.committed = true then
      some call.manifest
    else none
  | .change _ => none

/-- The manifests that a history commits to a ledger, in order. -/
def commitsTo (ledger : QualifiedName) : Database → List Event → List ManagedObjectManifest
  | _, [] => []
  | db, event :: rest =>
    (committedBy ledger db event).toList ++ commitsTo ledger (db.step event) rest

variable {ledger : QualifiedName}

/-- A successful apply leaves the set row of its manifest. -/
theorem installedRelease_of_apply {server : Server} {s t : Session}
    {applied : AppliedManagedObjects} (h : apply server manifest s = .ok applied t) :
    (installedRelease s.relation).Permits manifest ∧
      installedRelease t.relation = .released manifest.revision (digestBytes manifest.digest) := by
  obtain ⟨adopted, rows, pending, retired, changed, installed, revoked, stages⟩ := apply_eq_ok h
  obtain ⟨-, written, rows', hledger⟩ := stages.ledger
  refine ⟨stages.admitted.permits, ?_⟩
  have hget : rows'.get? setRow = some (manifestRow manifest installed) :=
    Table.get?_eq_some.mpr ⟨(hledger.mem_rows _).mpr (.inr (.inl rfl)), rfl⟩
  have hvalid : validRelease rows'.rows (manifestRow manifest installed) = true := by
    rw [validRelease_eq_true]
    refine ⟨rfl, digestBytes_length _, digestBytes_length _, ?_⟩
    intro row hrow hne
    rcases (hledger.mem_rows row).mp hrow with hrow | rfl | ⟨hrow, -, -⟩
    · obtain ⟨object, -, hwrites⟩ := mem_of_mapM_ok hledger.writes hrow
      obtain ⟨hash, -, rfl⟩ := writtenRow_eq_ok.mp hwrites
      rfl
    · exact absurd rfl hne
    · rw [← Table.mem_rows, ← stages.admitted.rows_eq] at hrow
      exact stages.admitted.unrevised row hrow hne
  have hinst : (manifestRow manifest installed).installed = some manifest.revision := by
    simp [LedgerRow.installed, manifestRow, ManagedRevision.new_get]
  have hsrc : (manifestRow manifest installed).sourceChecksum = digestBytes manifest.digest := rfl
  rw [hledger.relation, installedRelease, inspectLedgerShape_rows, stages.admitted.shape]
  dsimp only
  rw [exactRelease_eq_released hget hinst hvalid, hsrc]

/-- What a call leaves: the database as it was, or a committed release. -/
theorem migrateAndApply_cases (db : Database) (call : Call) :
    ((migrateAndApply db call).2.committed = false ∧ (migrateAndApply db call).1 = db) ∨
      ((migrateAndApply db call).2.committed = true ∧
        ∃ applied session catalog,
          apply call.server call.manifest
            (.begin (db.ledgers call.manifest.ledger) db.catalog) = .ok applied session ∧
          (migrateAndApply db call).1 =
            db.commit call.manifest.ledger session.relation catalog) := by
  unfold migrateAndApply
  cases happly : apply call.server call.manifest
      (.begin (db.ledgers call.manifest.ledger) db.catalog) with
  | error error session =>
    exact .inl ⟨rfl, rfl⟩
  | ok applied session =>
    cases happlication : call.application session.catalog with
    | error failure =>
      simp only [happlication]
      exact .inl ⟨trivial, trivial⟩
    | ok catalog =>
      simp only [happlication]
      cases call.commit with
      | acknowledged => exact .inr ⟨rfl, applied, session, catalog, rfl, rfl⟩
      | unconfirmedCommitted => exact .inr ⟨rfl, applied, session, catalog, rfl, rfl⟩
      | unconfirmedRolledBack => exact .inl ⟨rfl, rfl⟩

/-- An event that commits to a ledger is a step of the release order. -/
theorem releaseStep_of_committedBy {db : Database} {event : Event}
    (h : committedBy ledger db event = some manifest) :
    ReleaseStep (installedRelease (db.ledgers ledger)) manifest
      (installedRelease ((db.step event).ledgers ledger)) := by
  cases event with
  | change catalog =>
    simp [committedBy] at h
  | apply call =>
    rw [committedBy] at h
    split_ifs at h with hcomm
    obtain ⟨rfl, hcomm⟩ := hcomm
    obtain rfl := Option.some.inj h
    rcases migrateAndApply_cases db call with
      ⟨hnot, -⟩ | ⟨-, applied, session, catalog, happly, hdb⟩
    · rw [hcomm] at hnot
      exact absurd hnot (by simp)
    · obtain ⟨hpermits, hreleased⟩ := installedRelease_of_apply happly
      refine ⟨hpermits, ?_⟩
      have hledger : (db.commit call.manifest.ledger session.relation catalog).ledgers
          call.manifest.ledger = session.relation :=
        Function.update_self _ _ _
      rw [Database.step, hdb, hledger]
      exact hreleased

/-- Every other event leaves the ledger as it is. -/
theorem ledgers_of_not_committedBy {db : Database} {event : Event}
    (h : committedBy ledger db event = none) :
    (db.step event).ledgers ledger = db.ledgers ledger := by
  cases event with
  | change catalog =>
    rfl
  | apply call =>
    rcases migrateAndApply_cases db call with
      ⟨-, hdb⟩ | ⟨hcomm, applied, session, catalog, happly, hdb⟩
    · rw [Database.step, hdb]
    · have hother : call.manifest.ledger ≠ ledger := by
        intro heq
        simp [committedBy, heq, hcomm] at h
      rw [Database.step, hdb]
      exact Function.update_of_ne hother.symm _ _

/-- The commits of a history are a run of the release order. -/
theorem run_commitsTo (ledger : QualifiedName) (db : Database) (events : List Event) :
    Run ReleaseStep (installedRelease (db.ledgers ledger)) (commitsTo ledger db events)
      (installedRelease ((db.after events).ledgers ledger)) := by
  induction events generalizing db with
  | nil =>
    exact .nil _
  | cons event rest ih =>
    rw [commitsTo, Database.after, foldl_cons]
    cases hcomm : committedBy ledger db event with
    | none =>
      rw [← ledgers_of_not_committedBy hcomm]
      exact ih (db.step event)
    | some manifest =>
      exact .cons (releaseStep_of_committedBy hcomm) (ih (db.step event))

end Database

section Refusal

/-- A ledger without a valid set row, or with a revision on an object row. -/
def LedgerInvalid (relation : Option Relation) : Prop :=
  ∃ ledger, relation = some ledger ∧
    ((inspectLedgerShape ledger = .exact ∧
        ((¬ ∃ row ∈ ledger.rows, row.identity = setRow ∧ row.kind = setRow ∧
            row.sourceChecksum.length = 32 ∧ row.renderedChecksum.length = 32 ∧
            0 < row.releaseRevision ∧ row.releaseRevision ≤ i64Max) ∨
          ∃ row ∈ ledger.rows, row.identity ≠ setRow ∧ row.releaseRevision ≠ 0)) ∨
      (inspectLedgerShape ledger = .legacy ∧
        ¬ ∃ row ∈ ledger.rows, row.identity = setRow ∧ row.kind = setRow ∧
          row.sourceChecksum.length = 32 ∧ row.renderedChecksum.length = 32))

theorem installed_eq_some {row : LedgerRow} (h : row.installed = some revision) :
    row.releaseRevision = revision.get := by
  unfold LedgerRow.installed at h
  split_ifs at h with hnonneg
  have hget := ManagedRevision.new_eq_some.mp h
  omega

/-- The set row of a ledger that records a release. -/
theorem setRow_of_released {rows : Table LedgerRow.identity}
    (h : exactRelease rows = .released revision checksum) :
    ∃ row, rows.get? setRow = some row ∧ row.releaseRevision = revision.get ∧
      row.sourceChecksum = checksum ∧ validRelease rows.rows row = true := by
  unfold exactRelease at h
  cases hget : rows.get? setRow with
  | none =>
    simp [hget] at h
  | some row =>
    cases hinst : row.installed with
    | none =>
      simp [hget, hinst] at h
    | some installed =>
      simp only [hget, hinst] at h
      split_ifs at h with hvalid
      obtain ⟨rfl, rfl⟩ := InstalledRelease.released.inj h
      exact ⟨row, rfl, installed_eq_some hinst, rfl, hvalid⟩

theorem exactRelease_cases (rows : Table LedgerRow.identity) :
    exactRelease rows = .invalid ∨ ∃ revision checksum,
      exactRelease rows = .released revision checksum := by
  unfold exactRelease
  split
  · exact .inl rfl
  · split
    · exact .inl rfl
    · split_ifs
      · exact .inr ⟨_, _, rfl⟩
      · exact .inl rfl

theorem installedRelease_of_ledgerInvalid {rel : Option Relation}
    (h : LedgerInvalid rel) : installedRelease rel = .invalid := by
  obtain ⟨ledger, rfl, ⟨hshape, hrows⟩ | ⟨hshape, hrow⟩⟩ := h
  · rw [installedRelease, hshape]
    rcases exactRelease_cases ledger.rows with hinvalid | ⟨revision, checksum, hreleased⟩
    · exact hinvalid
    · obtain ⟨row, hget, hrevision, -, hvalid⟩ := setRow_of_released hreleased
      obtain ⟨hmem, hident⟩ := Table.get?_eq_some.mp hget
      obtain ⟨hkind, hsrc, hrendered, hothers⟩ := validRelease_eq_true.mp hvalid
      rcases hrows with hmissing | ⟨other, hother, hne, hnonzero⟩
      · refine absurd ⟨row, hmem, hident, hkind, hsrc, hrendered, ?_, ?_⟩ hmissing
        · have hpos := revision.pos
          omega
        · have hle := revision.le_i64Max
          omega
      · exact absurd (hothers other hother hne) hnonzero
  · rw [installedRelease, hshape]
    unfold legacyRelease
    cases hget : ledger.rows.get? setRow with
    | none =>
      rfl
    | some row =>
      obtain ⟨hmem, hident⟩ := Table.get?_eq_some.mp hget
      simp only
      split_ifs with hkind
      · exact absurd ⟨row, hmem, hident, hkind⟩ hrow
      · rfl

variable [Sha256]

/-- The call is refused: it returns an error of the apply, it ran no statement
on a managed object, and the database is as it was. -/
def Refused (db : Database) (call : Call) : Prop :=
  (migrateAndApply db call).1 = db ∧ (migrateAndApply db call).2.executed = [] ∧
    ∃ error, (migrateAndApply db call).2.result = .error (.apply error)

/-- A manifest that the installed release does not permit is refused. -/
theorem refused_of_not_permits {db : Database} {call : Call}
    (h : ¬ (installedRelease (db.ledgers call.manifest.ledger)).Permits call.manifest) :
    Refused db call := by
  have herror : ∃ error, apply call.server call.manifest
      (.begin (db.ledgers call.manifest.ledger) db.catalog) =
      .error error (.begin (db.ledgers call.manifest.ledger) db.catalog) := by
    cases hlocked : admitRelation call.manifest (db.ledgers call.manifest.ledger) with
    | ok result =>
      exact absurd (admitRelation_admitted hlocked).permits h
    | error error =>
      refine ⟨error, bind_of_error ?_ _⟩
      simp only [admitLedger, Session.begin, hlocked]
  obtain ⟨error, herror⟩ := herror
  unfold Refused migrateAndApply
  rw [herror]
  exact ⟨rfl, rfl, error, rfl⟩

end Refusal

section Main

variable [Sha256]

/-- A manifest that would leave the order of a ledger's releases: it goes back
behind a commit or the release recorded at the start, it reuses a revision for
other content, or it changes the content of a legacy ledger. -/
def BreaksOrder (start : InstalledRelease) (commits : List ManagedObjectManifest)
    (manifest : ManagedObjectManifest) : Prop :=
  (∃ earlier ∈ commits, manifest.revision < earlier.revision ∨
      (manifest.revision = earlier.revision ∧ manifest.digest ≠ earlier.digest)) ∨
    (∃ revision checksum, start = .released revision checksum ∧
      (manifest.revision < revision ∨
        (manifest.revision = revision ∧ digestBytes manifest.digest ≠ checksum))) ∨
    (commits = [] ∧ ∃ checksum, start = .legacy checksum ∧
      digestBytes manifest.digest ≠ checksum)

theorem not_permits_of_breaksOrder {start after : InstalledRelease}
    (hrun : Run ReleaseStep start commits after) (hbreaks : BreaksOrder start commits manifest) :
    ¬ after.Permits manifest := by
  intro hpermits
  have hextended : Run ReleaseStep start (commits ++ [manifest])
      (.released manifest.revision (digestBytes manifest.digest)) :=
    hrun.append (Run.cons ⟨hpermits, rfl⟩ (Run.nil _))
  rcases hbreaks with ⟨earlier, hearlier, hbreak⟩ | ⟨revision, checksum, rfl, hbreak⟩ |
    ⟨rfl, checksum, rfl, hbreak⟩
  · have hsucceeds := (pairwise_append.mp (pairwise_of_run hextended)).2.2 earlier hearlier
      manifest (mem_singleton_self _)
    rcases hbreak with hlower | ⟨hequal, hdigest⟩
    · exact absurd hsucceeds.1 (not_le.mpr hlower)
    · exact hdigest (hsucceeds.2 hequal.symm).symm
  · have hstart := permits_of_run hextended manifest
      (mem_append_right _ (mem_singleton_self _))
    rcases hbreak with hlower | ⟨hequal, hdigest⟩
    · exact absurd hstart.1 (not_le.mpr hlower)
    · exact hdigest (hstart.2 hequal.symm).symm
  · have hstart : (InstalledRelease.legacy checksum).Permits manifest := head_of_run hextended rfl
    exact hbreak hstart.symm

/-- Every history of a ledger's releases goes forward, and a call that would
leave the order, or finds an invalid ledger, is refused without an effect. -/
theorem managed_releases_never_go_backwards
    (ledger : QualifiedName) (db : Database) (events : List Event) :
    (commitsTo ledger db events).Pairwise (fun earlier later =>
      earlier.revision ≤ later.revision ∧
        (earlier.revision = later.revision → earlier.digest = later.digest)) ∧
    (∀ last ∈ (commitsTo ledger db events).getLast?,
      ∃ relation row, (db.after events).ledgers ledger = some relation ∧
        relation.rows.get? setRow = some row ∧ row.releaseRevision = last.revision.get ∧
        row.sourceChecksum = digestBytes last.digest) ∧
    (∀ revision checksum, installedRelease (db.ledgers ledger) = .released revision checksum →
      ∀ manifest ∈ commitsTo ledger db events, revision ≤ manifest.revision ∧
        (revision = manifest.revision → checksum = digestBytes manifest.digest)) ∧
    (∀ relation row, db.ledgers ledger = some relation → inspectLedgerShape relation = .legacy →
      relation.rows.get? setRow = some row →
      ∀ first ∈ (commitsTo ledger db events).head?, row.sourceChecksum = digestBytes first.digest) ∧
    (∀ call : Call, call.manifest.ledger = ledger →
      BreaksOrder (installedRelease (db.ledgers ledger)) (commitsTo ledger db events)
          call.manifest ∨
        LedgerInvalid ((db.after events).ledgers ledger) →
      Refused (db.after events) call) := by
  have hrun := run_commitsTo ledger db events
  refine ⟨pairwise_of_run hrun, ?_, ?_, ?_, ?_⟩
  · intro last hlast
    have hafter := getLast_of_run hrun hlast
    cases hrel : (db.after events).ledgers ledger with
    | none =>
      rw [hrel] at hafter
      exact absurd hafter (by simp [installedRelease])
    | some relation =>
      rw [hrel, installedRelease] at hafter
      cases hshape : inspectLedgerShape relation with
      | exact =>
        rw [hshape] at hafter
        obtain ⟨row, hget, hrevision, hsrc, -⟩ := setRow_of_released hafter
        exact ⟨relation, row, rfl, hget, hrevision, hsrc⟩
      | legacy =>
        rw [hshape] at hafter
        simp only [legacyRelease] at hafter
        split at hafter
        · exact absurd hafter (by simp)
        · split_ifs at hafter
      | rowSecurity | inherited | mismatch =>
        rw [hshape] at hafter
        exact absurd hafter (by simp)
  · intro revision checksum hstart
    rw [hstart] at hrun
    exact permits_of_run hrun
  · intro relation row hrel hshape hget first hfirst
    have hpermits := head_of_run hrun hfirst
    rw [hrel, installedRelease, hshape] at hpermits
    simp only [legacyRelease, hget] at hpermits
    split_ifs at hpermits with hkind
    · exact hpermits
    · exact hpermits.elim
  · rintro call rfl (hbreaks | hinvalid)
    · exact refused_of_not_permits (not_permits_of_breaksOrder hrun hbreaks)
    · refine refused_of_not_permits ?_
      rw [installedRelease_of_ledgerInvalid hinvalid]
      exact id

end Main

end Batter.Managed
