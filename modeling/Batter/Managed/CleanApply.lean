import Batter.Managed.Installed

/-!
# Managed objects: what an apply installs stays installed

`Installs` is the agreement of a ledger and a catalog with a manifest.
`installs_of_apply` says that every successful apply reaches it, from any
ledger and any catalog.  From there `inspect` has no finding
(`inspect_of_installs`), and another apply of the manifest executes nothing and
leaves the ledger and the catalog as they are (`apply_of_installs`), whatever
the server would answer to a statement.
-/

namespace Batter.Managed

open RustStd Bytes Statements List
open Runlimit (Sha256 Bytes32)

variable {catalog : Catalog} {live : List (String × LiveObject)} {manifest : ManagedObjectManifest}
variable {relation : Relation} {server : Server} {s t : Session}

/-- The routines among installed objects. -/
def installedRoutines (installed : List (ManagedObject × Nat × Bytes32)) : List Nat :=
  (installed.filter fun entry => entry.1.kind.isRoutine).map fun entry => entry.2.1

/-- Resolving depends on the definitions of the objects only. -/
theorem resolves_congr (h : SameDefinitions s t)
    (hresolves : ∃ live, resolveLive s.catalog manifest = .ok live) :
    ∃ live, resolveLive t.catalog manifest = .ok live := by
  have hrows : ∀ (touched selected : Identity → Bool),
      resolveRows t.catalog touched selected = resolveRows s.catalog touched selected := by
    intro touched selected
    have hsel : ∀ catalog : Catalog,
        ((catalog.objects.rows.filter fun object => selected object.identity).map
          CatalogObject.definition) =
        (catalog.objects.rows.map CatalogObject.definition).filter fun defn =>
          selected defn.2.1 := by
      intro catalog
      rw [filter_map]
      rfl
    have hdefinitions :
        ((t.catalog.objects.rows.filter fun object => selected object.identity).map
          CatalogObject.definition) =
        ((s.catalog.objects.rows.filter fun object => selected object.identity).map
          CatalogObject.definition) := by
      rw [hsel, hsel, h.definitions]
    have hentries : ∀ rows : List CatalogObject,
        rows.map (CatalogObject.entry touched) =
          (rows.map CatalogObject.definition).map fun defn =>
            (defn.2.1.render,
              (⟨defn.1, defn.2.2.1, touched defn.2.1⟩ : LiveObject)) := by
      intro rows
      rw [map_map]
      rfl
    have hlen := congrArg List.length hdefinitions
    rw [length_map, length_map] at hlen
    unfold resolveRows
    simp only [hentries, hdefinitions, hlen]
  obtain ⟨live, hlive⟩ := hresolves
  refine ⟨live, ?_⟩
  unfold resolveLive resolveRoutines resolveTriggers at hlive ⊢
  rw [hrows, hrows]
  exact hlive

/-- What is absent depends on the definitions of the objects only. -/
theorem lacks_congr {retire : Retirement} (h : SameDefinitions s t)
    (hlacks : s.catalog.Lacks retire) : t.catalog.Lacks retire := by
  intro found hfound hident
  have hdef : found.definition ∈ s.catalog.objects.rows.map CatalogObject.definition :=
    h.definitions ▸ mem_map_of_mem hfound
  obtain ⟨before, hbefore, hsame⟩ := mem_map.mp hdef
  simp only [CatalogObject.definition, Prod.mk.injEq] at hsame
  rw [← hsame.2.2.1]
  exact hlacks before hbefore (hsame.2.1.trans hident)

/-- A successful revocation leaves no privilege. -/
theorem publicExecuteHolders_of_revoke {installed : List (ManagedObject × Nat × Bytes32)} {u : Unit}
    (h : revokePublicExecute server installed s = .ok u t) :
    publicExecuteHolders t.catalog (installedRoutines installed) = [] := by
  obtain ⟨holders, r, -, h⟩ := bind_eq_ok.mp h
  obtain ⟨_, r', -, h⟩ := bind_eq_ok.mp h
  obtain ⟨hnone, rfl⟩ := readCatalog_eq_ok.mp h
  rw [rejectSome_eq_ok, find?_eq_none] at hnone
  rw [eq_nil_iff_forall_not_mem]
  intro oid hoid
  obtain ⟨object, hobj, rfl⟩ := mem_map.mp hoid
  have hroutine := (mem_filter.mp hobj).2
  rw [Bool.and_eq_true, contains_eq_mem, decide_eq_true_eq] at hroutine
  obtain ⟨entry, hentry, hsame⟩ := mem_map.mp hroutine.2
  refine hnone entry (mem_filter.mp hentry).1 ?_
  rw [contains_eq_mem, decide_eq_true_eq, hsame]
  exact hoid

section Installs

variable [Sha256]

/-- A ledger and a catalog agree with a manifest. -/
structure Installs (manifest : ManagedObjectManifest) (relation : Relation) (catalog : Catalog) :
    Prop where
  shape : inspectLedgerShape relation = .exact
  resolves : ∃ live, resolveLive catalog manifest = .ok live
  live : ∀ object ∈ manifest.objects, (catalog.installation object).isSome = true
  rows : ∀ row, row ∈ relation.rows ↔
    row = manifestRow manifest (catalog.installedList manifest) ∨
      ∃ entry ∈ catalog.installedList manifest, row = objectRow entry.1 entry.2.2
  lacks : ∀ retirement ∈ manifest.retirements, catalog.Lacks retirement
  revoked : manifest.publicExecute = .revoke →
    publicExecuteHolders catalog (installedRoutines (catalog.installedList manifest)) = []

/-- Every successful apply installs its manifest. -/
theorem installs_of_apply {applied : AppliedManagedObjects}
    (h : apply server manifest s = .ok applied t) :
    ∃ relation, t.relation = some relation ∧ Installs manifest relation t.catalog := by
  obtain ⟨adopted, rows, pending, retired, changed, installed, revoked, stages⟩ := apply_eq_ok h
  obtain ⟨hcat, written, rows', hledger⟩ := stages.ledger
  obtain ⟨hresolves, hlive, rfl, -⟩ := installedObjects_eq_ok.mp stages.installs
  obtain ⟨hdecl, hunchanged, hlacks⟩ := executeChanges_installed stages.executed
  have hsame : revoked.catalog.installedList manifest = changed.catalog.installedList manifest :=
    installedList_congr stages.same
  refine ⟨_, hledger.relation, ⟨stages.admitted.shape, ?_, ?_, ?_, ?_, ?_⟩⟩
  · rw [hcat]
    exact resolves_congr stages.same hresolves
  · intro object hobj
    rw [hcat, installation_congr stages.same]
    exact hlive object hobj
  · intro row
    rw [hcat, hsame]
    change row ∈ rows' ↔ _
    rw [hledger.mem_rows]
    have hkept : ∀ entry ∈ changed.catalog.installedList manifest, entry.1 ∉ pending →
        objectRow entry.1 entry.2.2 ∈ adopted.rows := by
      intro entry hentry hnot
      obtain ⟨hobj, hinst⟩ := mem_installedList.mp hentry
      obtain ⟨kept, hmem, hident, hkind, hsrc, hrendered⟩ :=
        hunchanged entry.1 hobj hnot entry.2.1 entry.2.2 hinst
      have hzero := stages.admitted.unrevised kept hmem
        (hident ▸ Identity.render_ne_setRow entry.1.structuralIdentity)
      have hrow : kept = objectRow entry.1 entry.2.2 := by
        cases kept
        simp only at hident hkind hsrc hrendered hzero
        rw [hident, hkind, hsrc, hrendered, hzero]
        rfl
      rw [← hrow, ← Table.mem_rows, ← stages.admitted.rows_eq]
      exact hmem
    have hentryOf : ∀ object ∈ manifest.objects,
        ∃ entry ∈ changed.catalog.installedList manifest, entry.1 = object := by
      intro object hobj
      obtain ⟨installed, hinst⟩ := Option.isSome_iff_exists.mp (hlive object hobj)
      exact ⟨(object, installed), mem_installedList.mpr ⟨hobj, hinst⟩, rfl⟩
    constructor
    · rintro (hrow | rfl | ⟨hrow, hident, hnot⟩)
      · obtain ⟨object, hpended, hwrites⟩ := mem_of_mapM_ok hledger.writes hrow
        obtain ⟨hash, hhash, rfl⟩ := writtenRow_eq_ok.mp hwrites
        obtain ⟨entry, hentry, rfl⟩ := hentryOf object (hdecl object hpended)
        rw [renderedHash_installedList hentry, Except.ok.injEq] at hhash
        exact .inr ⟨entry, hentry, by rw [hhash]⟩
      · exact .inl rfl
      · obtain ⟨object, hobj, hsameIdent⟩ := mem_map.mp hident
        obtain ⟨entry, hentry, rfl⟩ := hentryOf object hobj
        have hunpended : entry.1 ∉ pending := fun hpended =>
          hnot (hsameIdent ▸ mem_map_of_mem hpended)
        refine .inr ⟨entry, hentry, ?_⟩
        exact Table.eq_of_key_eq hrow (hkept entry hentry hunpended) hsameIdent.symm
    · rintro (rfl | ⟨entry, hentry, rfl⟩)
      · exact .inr (.inl rfl)
      · obtain ⟨hobj, -⟩ := mem_installedList.mp hentry
        by_cases hpended : entry.1 ∈ pending
        · obtain ⟨row, hrow, hwrites⟩ := exists_of_mapM_ok hledger.writes hpended
          obtain ⟨hash, hhash, rfl⟩ := writtenRow_eq_ok.mp hwrites
          rw [renderedHash_installedList hentry, Except.ok.injEq] at hhash
          exact .inl (hhash ▸ hrow)
        · refine .inr (.inr ⟨hkept entry hentry hpended, mem_map_of_mem hobj, ?_⟩)
          intro hmem
          obtain ⟨other, hother, hsameIdent⟩ := mem_map.mp hmem
          exact hpended (object_ext (hdecl other hother) hobj hsameIdent ▸ hother)
  · intro retire hretirement
    rw [hcat]
    exact lacks_congr stages.same (hlacks retire hretirement)
  · intro hpol
    rw [hcat, hsame]
    exact publicExecuteHolders_of_revoke (stages.revoke hpol)

end Installs

section Inspect

variable [Sha256]

section

variable (h : Installs manifest relation catalog)
include h

theorem get?_setRow_of_installs :
    relation.rows.get? setRow = some (manifestRow manifest (catalog.installedList manifest)) :=
  Table.get?_eq_some.mpr ⟨(h.rows _).mpr (.inl rfl), rfl⟩

theorem get?_identity_of_installs {entry : ManagedObject × Nat × Bytes32}
    (hentry : entry ∈ catalog.installedList manifest) :
    relation.rows.get? entry.1.identity = some (objectRow entry.1 entry.2.2) :=
  Table.get?_eq_some.mpr ⟨(h.rows _).mpr (.inr ⟨entry, hentry, rfl⟩), rfl⟩

theorem exists_entry {object : ManagedObject} (hobj : object ∈ manifest.objects) :
    ∃ installed, catalog.installation object = some installed ∧
      (object, installed) ∈ catalog.installedList manifest := by
  obtain ⟨installed, hinst⟩ := Option.isSome_iff_exists.mp (h.live object hobj)
  exact ⟨installed, hinst, mem_installedList.mpr ⟨hobj, hinst⟩⟩

end

/-- The digest of rendered hashes does not depend on their order. -/
theorem renderedSetDigest_perm {hashes hashes' : List (String × List UInt8)} (hnodup : hashes.Nodup)
    (hperm : hashes.Perm hashes') : renderedSetDigest hashes = renderedSetDigest hashes' := by
  have hcolumn : Function.Injective
      (fun entry : String × List UInt8 => toLex (entry.1, entry.2.map UInt8.toNat)) := by
    intro a b hab
    have hpair := Prod.mk.inj (toLex.injective hab)
    exact Prod.ext hpair.1 (map_injective_iff.mpr
      (fun _ _ => UInt8.toNat_inj.mp) hpair.2)
  have hsorted : orderedBy (fun entry : String × List UInt8 =>
      toLex (entry.1, entry.2.map UInt8.toNat)) hashes =
      orderedBy (fun entry => toLex (entry.1, entry.2.map UInt8.toNat)) hashes' :=
    orderedBy_eq (hnodup.map hcolumn) ((orderedBy_perm _ _).trans hperm.symm)
      (pairwise_orderedBy _ _)
  unfold renderedSetDigest renderedSetInput
  rw [hsorted]

section

variable (h : Installs manifest relation catalog)
include h

/-- The rows of declared identities carry the installed hashes. -/
theorem renderedSetDigest_of_installs :
    renderedSetDigest ((relation.rows.rows.filter fun row => manifest.declares row.identity).map
        fun row => (row.identity, row.renderedChecksum)) =
      renderedSetDigest ((catalog.installedList manifest).map fun entry =>
        (entry.1.identity, digestBytes entry.2.2)) := by
  have hnodup : ((relation.rows.rows.filter fun row => manifest.declares row.identity).map
      fun row => (row.identity, row.renderedChecksum)).Nodup := by
    refine .of_map Prod.fst ?_
    rw [map_map]
    exact (filter_sublist.map LedgerRow.identity).nodup relation.rows.nodup
  have hnodup' : ((catalog.installedList manifest).map fun entry =>
      (entry.1.identity, digestBytes entry.2.2)).Nodup := by
    refine .of_map Prod.fst ?_
    have hfirst : (catalog.installedList manifest).map Prod.fst = manifest.objects.filter
        fun object => (catalog.installation object).isSome := by
      rw [Catalog.installedList, map_filterMap, ← filterMap_eq_filter]
      refine filterMap_congr fun object _ => ?_
      cases hcase : catalog.installation object <;> simp [Option.guard, hcase]
    have hidents : ((catalog.installedList manifest).map fun entry =>
        (entry.1.identity, digestBytes entry.2.2)).map Prod.fst =
        ((catalog.installedList manifest).map Prod.fst).map ManagedObject.identity := by
      rw [map_map, map_map]
      rfl
    rw [hidents, hfirst]
    exact (filter_sublist.map _).nodup manifest.declared_nodup
  refine renderedSetDigest_perm hnodup ((perm_ext_iff_of_nodup hnodup hnodup').mpr ?_)
  intro pair
  simp only [mem_map, mem_filter]
  constructor
  · rintro ⟨row, ⟨hrow, hdecl⟩, rfl⟩
    rcases (h.rows row).mp hrow with rfl | ⟨entry, hentry, rfl⟩
    · rw [ManagedObjectManifest.declares, contains_eq_mem, decide_eq_true_eq] at hdecl
      exact absurd hdecl (setRow_not_mem_identities manifest.objects)
    · exact ⟨entry, hentry, rfl⟩
  · rintro ⟨entry, hentry, rfl⟩
    refine ⟨objectRow entry.1 entry.2.2, ⟨(h.rows _).mpr (.inr ⟨entry, hentry, rfl⟩), ?_⟩, rfl⟩
    rw [ManagedObjectManifest.declares, contains_eq_mem, decide_eq_true_eq]
    exact mem_map_of_mem (mem_installedList.mp hentry).1

theorem unrevised_of_installs :
    ∀ row ∈ relation.rows.rows, row.identity ≠ setRow → row.releaseRevision = 0 := by
  intro row hrow hne
  rcases (h.rows row).mp hrow with rfl | ⟨entry, -, rfl⟩
  · exact absurd rfl hne
  · rfl

/-- The rows of an installed manifest have no finding. -/
theorem compareRows_of_installs : compareRows manifest relation.rows.rows = [] := by
  have hset : recordedRow relation.rows.rows setRow =
      some (manifestRow manifest (catalog.installedList manifest)) :=
    get?_setRow_of_installs h
  have hdigest : setRecorded manifest relation.rows.rows = true := by
    rw [setRecorded, hset, renderedSetDigest_of_installs h, Option.any_some]
    simp only [manifestRow, beq_self_eq_true, Bool.and_self]
  have hrevision : revisionRecorded manifest relation.rows.rows = true := by
    rw [revisionRecorded, hset, Option.any_some, Bool.and_eq_true, Bool.not_eq_true', any_eq_false]
    refine ⟨beq_self_eq_true _, fun row hrow hbad => ?_⟩
    rw [Bool.and_eq_true, bne_iff_ne, bne_iff_ne] at hbad
    exact hbad.2 (unrevised_of_installs h row hrow hbad.1)
  have hobjects : manifest.objects.flatMap (rowFinding relation.rows.rows) = [] := by
    rw [flatMap_eq_nil_iff]
    intro object hobj
    obtain ⟨installed, -, hentry⟩ := exists_entry h hobj
    have hrow : recordedRow relation.rows.rows object.identity =
        some (objectRow object installed.2) :=
      get?_identity_of_installs h hentry
    simp [rowFinding, hrow, objectRow]
  have hunexpected : ((relation.rows.rows.map LedgerRow.identity).filter fun ident =>
      ident != setRow && !manifest.declares ident) = [] := by
    rw [filter_eq_nil_iff]
    intro ident hident hbad
    obtain ⟨row, hrow, rfl⟩ := mem_map.mp hident
    rw [Bool.and_eq_true, bne_iff_ne, Bool.not_eq_true'] at hbad
    rcases (h.rows row).mp hrow with rfl | ⟨entry, hentry, rfl⟩
    · exact hbad.1 rfl
    · have hdecl : manifest.declares (objectRow entry.1 entry.2.2).identity = true := by
        rw [ManagedObjectManifest.declares, contains_eq_mem, decide_eq_true_eq]
        exact mem_map_of_mem (mem_installedList.mp hentry).1
      rw [hdecl] at hbad
      exact absurd hbad.2 (by simp)
  rw [compareRows, hdigest, hrevision, hobjects, hunexpected]
  rfl

end

section

variable (h : Installs manifest relation catalog)
include h

/-- The live catalog of an installed manifest has no finding. -/
theorem compareCatalog_of_installs (hlive : resolveLive catalog manifest = .ok live) :
    compareCatalog manifest relation.rows.rows live (renderHashes catalog (liveKinds live)) =
      [] := by
  rw [compareCatalog, append_eq_nil_iff, flatMap_eq_nil_iff, flatMap_eq_nil_iff]
  constructor
  · intro object hobj
    obtain ⟨installed, hinst, hentry⟩ := exists_entry h hobj
    have hrow : recordedRow relation.rows.rows object.identity =
        some (objectRow object installed.2) :=
      get?_identity_of_installs h hentry
    simp [driftFinding, hrow, installedHash_eq hlive hlive (fun _ h => h) hobj, hinst,
      objectRow]
  · intro retire hretirement
    have hkind := (lacks_iff hlive hretirement).mp (h.lacks retire hretirement)
    rw [retirementFinding, if_neg]
    intro hpresent
    obtain ⟨found, hfound, hsame⟩ := Option.any_eq_true .. |>.mp hpresent
    rw [beq_iff_eq] at hsame
    exact hkind (by rw [liveKind, hfound]; exact hsame)

/-- Under the revoking policy `PUBLIC` holds nothing on an installed routine. -/
theorem publicFindings_of_installs (hlive : resolveLive catalog manifest = .ok live) :
    publicFindings manifest live catalog = [] := by
  unfold publicFindings
  cases hpol : manifest.publicExecute with
  | unmanaged => rfl
  | revoke =>
    have hholders := h.revoked hpol
    have hnone : (publicExecuteCandidates manifest live).filter (fun entry =>
        (publicExecuteHolders catalog
          ((publicExecuteCandidates manifest live).map Prod.fst)).contains entry.1) = [] := by
      rw [filter_eq_nil_iff]
      intro cand hcand hheld
      rw [contains_eq_mem, decide_eq_true_eq] at hheld
      obtain ⟨held, hmem, hoid⟩ := mem_map.mp hheld
      obtain ⟨hheldMem, hheldCond⟩ := mem_filter.mp hmem
      obtain ⟨object, hobj, hfound⟩ := mem_filterMap.mp hcand
      obtain ⟨hdecl, hroutine⟩ := mem_filter.mp hobj
      have hinst : (catalog.installation object).map Prod.fst = some cand.1 := by
        obtain ⟨found, hget, rfl⟩ := Option.map_eq_some_iff.mp hfound
        obtain ⟨hget, hkind⟩ := Option.filter_eq_some_iff.mp hget
        rw [ManagedObject.identity,
          liveGet_resolveLive hlive (mem_identities_of_object hdecl)] at hget
        obtain ⟨row, hrow, rfl⟩ := Option.map_eq_some_iff.mp hget
        simp only [decide_eq_true_eq] at hkind
        simp [Catalog.installation, hrow, Option.filter, hkind]
      obtain ⟨installed, hinst, hcandOid⟩ := Option.map_eq_some_iff.mp hinst
      have hroutineOid : held.oid ∈
          installedRoutines (catalog.installedList manifest) := by
        refine mem_map.mpr ⟨(object, installed), mem_filter.mpr
          ⟨mem_installedList.mpr ⟨hdecl, hinst⟩, hroutine⟩, ?_⟩
        rw [hoid]
        exact hcandOid
      have hholder : held.oid ∈ publicExecuteHolders catalog
          (installedRoutines (catalog.installedList manifest)) := by
        refine mem_map.mpr ⟨held, mem_filter.mpr ⟨hheldMem, ?_⟩, rfl⟩
        rw [Bool.and_eq_true] at hheldCond ⊢
        exact ⟨hheldCond.1, by rw [contains_eq_mem, decide_eq_true_eq]; exact hroutineOid⟩
      rw [hholders] at hholder
      exact not_mem_nil hholder
    simp only [hnone]
    rfl

theorem inspect_of_installs : inspect manifest relation.rows.rows catalog = .ok [] := by
  obtain ⟨live, hlive⟩ := h.resolves
  rw [inspect, RustStd.bind_eq_ok]
  refine ⟨live, hlive, ?_⟩
  dsimp only
  rw [compareRows_of_installs h, compareCatalog_of_installs h hlive,
    publicFindings_of_installs h hlive]
  rfl

end

end Inspect

section Again

variable [Sha256]

/-- The ledger of an installed manifest authorizes it again. -/
theorem admit_of_installs (h : Installs manifest relation catalog) :
    admitRelation manifest (some relation) = .ok (relation, relation.rows.rows) := by
  have hbounded : ¬ maxManagedObjects + 1 < relation.rows.rows.length := by
    have hsub : relation.rows.rows.map LedgerRow.identity ⊆
        setRow :: manifest.objects.map ManagedObject.identity := by
      intro ident hident
      obtain ⟨row, hrow, rfl⟩ := mem_map.mp hident
      rcases (h.rows row).mp hrow with rfl | ⟨entry, hentry, rfl⟩
      · exact mem_cons_self ..
      · exact mem_cons_of_mem _ (mem_map_of_mem (mem_installedList.mp hentry).1)
    have hle := (subperm_of_subset relation.rows.nodup hsub).length_le
    rw [length_map, length_cons, length_map] at hle
    have hcap := manifest.capacity
    omega
  have hlock : lockLedger manifest (some relation) =
      .ok (relation, relation.rows.rows, .existing) := by
    have hopen : openLedger (some relation) = .ok (relation, .existing) :=
      RustStd.bind_eq_ok.mpr
        ⟨(), rejectIf_eq_ok.mpr (by simp [relkind_of_exact h.shape]), rfl⟩
    have hadopt : adoptLedger manifest relation = .ok relation := by
      simp only [adoptLedger, h.shape]
    have hload : (loadLedgerRows relation).mapError catalogFailure = .ok relation.rows.rows :=
      mapError_eq_ok.mpr (RustStd.bind_eq_ok.mpr
        ⟨(), rejectIf_eq_ok.mpr (decide_eq_false hbounded), rfl⟩)
    exact RustStd.bind_eq_ok.mpr ⟨_, hopen, RustStd.bind_eq_ok.mpr ⟨_, hadopt,
      RustStd.bind_eq_ok.mpr ⟨_, hload, rfl⟩⟩⟩
  have hvalid : validRelease relation.rows.rows
      (manifestRow manifest (catalog.installedList manifest)) = true :=
    validRelease_eq_true.mpr ⟨rfl, digestBytes_length _, digestBytes_length _,
      unrevised_of_installs h⟩
  have hinst : (manifestRow manifest (catalog.installedList manifest)).installed =
      some manifest.revision := by
    simp [LedgerRow.installed, manifestRow, ManagedRevision.new_get]
  have hauthorize : authorize manifest relation.rows.rows .existing = .ok () := by
    rw [authorize_existing (by simp),
      exactRelease_eq_released (get?_setRow_of_installs h) hinst hvalid]
    exact ⟨le_refl _, fun _ => rfl⟩
  exact RustStd.bind_eq_ok.mpr ⟨_, hlock, RustStd.bind_eq_ok.mpr ⟨(), hauthorize, rfl⟩⟩

section

variable (h : Installs manifest relation catalog) (hlive : resolveLive catalog manifest = .ok live)
include h hlive

theorem pendingEntries_of_installs :
    pendingEntries manifest relation.rows.rows live (renderHashes catalog (liveKinds live)) =
      [] := by
  rw [eq_nil_iff_forall_not_mem]
  intro object hpend
  have hobj : object ∈ manifest.objects := (mem_filter.mp hpend).1
  refine (not_pending_iff hlive hlive (fun _ h => h) hobj).mpr ?_ hpend
  obtain ⟨installed, hinst, hentry⟩ := exists_entry h hobj
  exact ⟨_, installed.1, installed.2, get?_identity_of_installs h hentry, rfl, rfl, hinst, rfl⟩

theorem presentRetirements_of_installs (triggerPhase : Bool) :
    presentRetirements manifest live triggerPhase = [] := by
  rw [presentRetirements, filter_eq_nil_iff]
  intro retire hretirement hpresent
  rw [Bool.and_eq_true, beq_iff_eq, beq_iff_eq] at hpresent
  exact (lacks_iff hlive hretirement).mp (h.lacks retire hretirement) hpresent.2

end

section

variable (h : Installs manifest relation s.catalog)
include h

/-- Nothing is executed for an installed manifest. -/
theorem executeChanges_of_installs :
    executeChanges server manifest relation.rows.rows s = .ok ([], ⟨0, 0⟩) s := by
  obtain ⟨live, hlive⟩ := h.resolves
  have hread : readLive manifest s = .ok live s := readCatalog_of_ok (mapError_eq_ok.mpr hlive)
  have hlocks : lockTriggerTables server manifest live [] s = .ok [] s := by
    simp only [lockTriggerTables, presentRetirements_of_installs h hlive]
    rfl
  have hretire : retire server manifest live s = .ok ⟨0, 0⟩ s := by
    simp only [retire, retirePhase, presentRetirements_of_installs h hlive]
    rfl
  have hrender : readCatalog (fun catalog => .ok (renderHashes catalog (liveKinds live))) s =
      .ok (renderHashes s.catalog (liveKinds live)) s :=
    readCatalog_of_ok rfl
  rw [executeChanges, bind_of_ok hread, bind_of_ok hrender]
  simp only [pendingEntries_of_installs h hlive]
  rw [bind_of_ok hlocks, bind_of_ok hretire]
  rfl

theorem revokePublicExecute_of_installs (hpol : manifest.publicExecute = .revoke) :
    revokePublicExecute server (s.catalog.installedList manifest) s = .ok () s := by
  have hholders := h.revoked hpol
  have hread : readCatalog (fun catalog => .ok (publicExecuteHolders catalog
      (installedRoutines (s.catalog.installedList manifest)))) s = .ok [] s :=
    readCatalog_of_ok (by rw [hholders])
  have hnothing : (s.catalog.installedList manifest).filter
      (fun entry => ([] : List Nat).contains entry.2.1) = [] := by
    rw [filter_eq_nil_iff]
    exact fun _ _ => by simp
  have hcheck : readCatalog (fun catalog =>
      rejectSome (fun entry : ManagedObject × Nat × Bytes32 =>
          .publicExecuteRetained entry.1.identity)
        ((s.catalog.installedList manifest).find? fun entry =>
          (publicExecuteHolders catalog
            (installedRoutines (s.catalog.installedList manifest))).contains entry.2.1)) s =
      .ok () s := by
    refine readCatalog_of_ok (rejectSome_eq_ok.mpr (find?_eq_none.mpr ?_))
    intro entry _
    rw [hholders]
    simp
  refine (bind_of_ok hread _).trans ?_
  rw [hnothing]
  exact hcheck

/-- Recording an installed manifest changes no row. -/
theorem record_of_installs (hrel : s.relation = some relation) :
    record manifest [] (s.catalog.installedList manifest) s = .ok () s := by
  have hrows : recordRows manifest [manifestRow manifest (s.catalog.installedList manifest)]
      relation.rows = relation.rows := by
    have hkept : relation.rows.delete (fun row =>
        !(manifest.objects.map ManagedObject.identity ++ [setRow]).contains row.identity) =
        relation.rows := by
      apply Table.ext
      refine filter_eq_self.mpr fun row hrow => ?_
      rw [Bool.not_not, contains_eq_mem, decide_eq_true_eq, mem_append, mem_singleton]
      rcases (h.rows row).mp hrow with rfl | ⟨entry, hentry, rfl⟩
      · exact .inr rfl
      · exact .inl (mem_map_of_mem (mem_installedList.mp hentry).1)
    rw [recordRows, foldl_cons, foldl_nil, hkept]
    exact Table.upsert_of_mem ((h.rows _).mpr (.inl rfl))
  rw [record, writes_eq_ok]
  cases s
  simp only at hrel hrows
  subst hrel
  simp only [mapM_nil, pure_bind, nil_append, Option.map_some, hrows]
  rfl

/-- Applying an installed manifest again changes nothing. -/
theorem apply_of_installs (hrel : s.relation = some relation) : apply server manifest s =
      .ok ⟨manifest.digest, manifest.revision, 0, manifest.objects.length, 0⟩ s := by
  have hlocked : admitLedger manifest s = .ok relation.rows.rows s := by
    simp only [admitLedger, hrel, admit_of_installs h]
    rw [← hrel]
  have hinst : installedObjects manifest s = .ok (s.catalog.installedList manifest) s :=
    installedObjects_eq_ok.mpr ⟨h.resolves, h.live, rfl, rfl⟩
  rw [apply, bind_of_ok hlocked, bind_of_ok (executeChanges_of_installs h)]
  dsimp only
  rw [bind_of_ok hinst]
  split_ifs with hpol
  · rw [bind_of_ok (revokePublicExecute_of_installs h hpol), bind_of_ok (record_of_installs h hrel)]
    rfl
  · rw [bind_of_ok (record_of_installs h hrel)]
    rfl

end

end Again

section Main

variable [Sha256]

/-- A committed apply leaves the ledger and the catalog in agreement with its
manifest, verification has no finding on them, and another apply of the manifest
executes nothing and changes nothing. -/
theorem committed_apply_verifies_clean_and_is_idempotent
    {server : Server} {manifest : ManagedObjectManifest} {relation : Option Relation}
    {catalog : Catalog} {applied : AppliedManagedObjects} {t : Session}
    (h : apply server manifest (Session.begin relation catalog) = .ok applied t) :
    ∃ ledger, t.relation = some ledger ∧
      (∀ row, row ∈ ledger.rows ↔
        row = (⟨setRow, setRow, digestBytes manifest.digest, digestBytes (renderedSetDigest
            ((ledger.rows.rows.filter fun row => manifest.declares row.identity).map fun row =>
              (row.identity, row.renderedChecksum))),
          manifest.revision.get⟩ : LedgerRow) ∨
        ∃ object ∈ manifest.objects, ∃ oid hash,
          t.catalog.installation object = some (oid, hash) ∧
          row = ⟨object.identity, object.kind.asStr, digestBytes object.checksum,
            digestBytes hash, 0⟩) ∧
      (∀ object ∈ manifest.objects, (t.catalog.installation object).isSome = true) ∧
      (∀ retirement ∈ manifest.retirements, t.catalog.Lacks retirement) ∧
      compareRows manifest ledger.rows.rows = [] ∧
      (∃ live, resolveLive t.catalog manifest = .ok live ∧
        compareCatalog manifest ledger.rows.rows live
          (renderHashes t.catalog (liveKinds live)) = []) ∧
      inspect manifest ledger.rows.rows t.catalog = .ok [] ∧
      ∀ server' : Server, apply server' manifest (Session.begin t.relation t.catalog) =
        .ok ⟨manifest.digest, manifest.revision, 0, manifest.objects.length, 0⟩
          (Session.begin t.relation t.catalog) := by
  obtain ⟨ledger, hledger, hinstalls⟩ := installs_of_apply h
  refine ⟨ledger, hledger, ?_, hinstalls.live, hinstalls.lacks, compareRows_of_installs hinstalls,
    ?_, inspect_of_installs hinstalls, ?_⟩
  · intro row
    rw [hinstalls.rows, renderedSetDigest_of_installs hinstalls]
    refine or_congr Iff.rfl ⟨?_, ?_⟩
    · rintro ⟨entry, hentry, rfl⟩
      obtain ⟨hobj, hinst⟩ := mem_installedList.mp hentry
      exact ⟨entry.1, hobj, entry.2.1, entry.2.2, hinst, rfl⟩
    · rintro ⟨object, hobj, oid, hash, hinst, rfl⟩
      exact ⟨(object, oid, hash), mem_installedList.mpr ⟨hobj, hinst⟩, rfl⟩
  · obtain ⟨live, hlive⟩ := hinstalls.resolves
    exact ⟨live, hlive, compareCatalog_of_installs hinstalls hlive⟩
  · intro server'
    exact apply_of_installs (s := Session.begin t.relation t.catalog) hinstalls hledger

end Main

def sampleSchema : Identifier := ⟨"app", by decide⟩

def sampleTable : QualifiedName := ⟨sampleSchema, ⟨"records", by decide⟩⟩

def totalFunction : ManagedObject :=
  ⟨.function, .routine ⟨sampleSchema, ⟨"total", by decide⟩, []⟩,
    "CREATE OR REPLACE FUNCTION app.total() RETURNS int LANGUAGE sql RETURN 1", rfl⟩

def countFunction : ManagedObject :=
  ⟨.function, .routine ⟨sampleSchema, ⟨"count", by decide⟩, []⟩,
    "CREATE OR REPLACE FUNCTION app.count() RETURNS int LANGUAGE sql RETURN 2", rfl⟩

def staleTrigger : ManagedObject :=
  ⟨.trigger, .trigger sampleTable ⟨"stale", by decide⟩,
    "CREATE OR REPLACE TRIGGER stale AFTER INSERT ON app.records EXECUTE FUNCTION app.note()", rfl⟩

/-- A release with a function and a trigger. -/
def firstManifest : ManagedObjectManifest where
  ledger := ⟨sampleSchema, ⟨"managed_objects", by decide⟩⟩
  revision := ⟨3, by decide, by decide⟩
  publicExecute := .revoke
  objects := [totalFunction, staleTrigger]
  retirements := []
  declared_nodup := by decide +kernel
  retired_nodup := List.nodup_nil
  not_declared := nofun
  capacity := by decide

/-- The next release keeps the function, adds another one and retires the trigger. -/
def secondManifest : ManagedObjectManifest where
  ledger := firstManifest.ledger
  revision := ⟨4, by decide, by decide⟩
  publicExecute := .revoke
  objects := [totalFunction, countFunction]
  retirements := [⟨.trigger, staleTrigger.structuralIdentity, rfl⟩]
  declared_nodup := by decide +kernel
  retired_nodup := List.nodup_singleton _
  not_declared := by decide +kernel
  capacity := by decide

/-- The digests of the sources, the releases and their rendered objects. -/
@[reducible] def sampleSha256 : Sha256 :=
  let sources : List (List UInt8 × Bytes32) :=
    [(asBytes totalFunction.source,
        0x869a6a76db45e140ad474711313fbe8e1412e53e0edca90a86b51668755b11f0),
      (asBytes countFunction.source,
        0x0694abbbd2c3c840d8cfe7d6b95281c21ff89a51bf678ec406332b8bf939e31f),
      (asBytes staleTrigger.source,
        0x6ea4825420b0b6e32b06110cc8b5f15227533ae64f57190e6dc3b2183678c051)]
  letI : Sha256 := .ofTable sources
  let setInput (manifest : ManagedObjectManifest) :=
    setDigestInput manifest.publicExecute manifest.objects manifest.retirements
  let renderedInput (manifest : ManagedObjectManifest) :=
    renderedSetInput (manifest.objects.map fun object =>
      (object.identity, digestBytes object.checksum))
  .ofTable (sources ++
    [(setInput firstManifest,
        0xcb2518b55b3a8cf7a3cc56e4be0442143c51e40ea2011c2bca57a7cbe65c68fe),
      (setInput secondManifest,
        0x5c469259c71a004acb75930fa396116b213d9abcb88d9e3e23492e0f9f13a128),
      (renderedInput firstManifest,
        0x2f0767e4d32b25c71508bc2ac1e69a49a9d59888927dcda7bc667f70bed69691),
      (renderedInput secondManifest,
        0xf5fee24b7aba0e8264440d6a8cb1623e24e4072579af53f1df99df9ff9fbcd7d)])

/-- A server that executes every statement as it is meant, shows a source as it is written
and grants the execution of a new function to everyone.  No table is partitioned. -/
def obligingServer [Sha256] : Server where
  execute _ object := .ok ⟨some object.kind, object.checksum, object.kind.isRoutine⟩
  dropTrigger _ _ := .ok []
  dropRoutine _ _ _ := .ok ()
  revoke _ _ := .ok false
  lockTable _ _ := .ok ()
  takeAll catalog requests := .ok ((requests.filter fun request =>
    (catalog.relations request.1).isSome).map fun request => (request.1.quoted, request.2))
  partitionTreeMembers catalog table :=
    if (catalog.relations table).isSome then [table.quoted] else []

/-- A catalog with a table and nothing else. -/
def sampleCatalog : Catalog where
  relations table := if table = sampleTable then some (1, "r") else none
  objects := ⟨[], List.nodup_nil⟩
  oids_nodup := List.nodup_nil
  placed := nofun

/-- What an apply of the sample leaves, if it commits. -/
def committed [Sha256] (manifest : ManagedObjectManifest) (session : Session) :
    Option (AppliedManagedObjects × Session) :=
  match apply obligingServer manifest session with
  | .ok applied t => some (applied, t)
  | .error _ _ => none

theorem committed_eq_some [Sha256] {manifest : ManagedObjectManifest} {session t : Session}
    {applied : AppliedManagedObjects} (h : committed manifest session = some (applied, t)) :
    apply obligingServer manifest session = .ok applied t := by
  unfold committed at h
  cases hrun : apply obligingServer manifest session with
  | ok applied' t' =>
    rw [hrun] at h
    cases h
    rfl
  | error error t' => simp [hrun] at h

/-- The second release keeps one object, adds one and retires one, and then has nothing left
to do. -/
theorem sample_apply_verifies_clean : letI := sampleSha256
    ∃ first s applied t,
      apply obligingServer firstManifest (Session.begin none sampleCatalog) = .ok first s ∧
      apply obligingServer secondManifest (Session.begin s.relation s.catalog) = .ok applied t ∧
      (applied.createdOrReplaced, applied.unchanged, applied.retired) = (1, 1, 1) ∧
      ∃ ledger, t.relation = some ledger ∧
        inspect secondManifest ledger.rows.rows t.catalog = .ok [] := by
  let _ := sampleSha256
  have hcounts : ((committed firstManifest (Session.begin none sampleCatalog)).bind fun first =>
      (committed secondManifest (Session.begin first.2.relation first.2.catalog)).map fun second =>
        (second.1.createdOrReplaced, second.1.unchanged, second.1.retired)) = some (1, 1, 1) := by
    decide +kernel
  obtain ⟨⟨first, s⟩, hfirst, hsecond⟩ := Option.bind_eq_some_iff.mp hcounts
  obtain ⟨⟨applied, t⟩, hsecond, hcols⟩ := Option.map_eq_some_iff.mp hsecond
  obtain ⟨ledger, hledger, -, -, -, -, -, hinspect, -⟩ :=
    committed_apply_verifies_clean_and_is_idempotent (committed_eq_some hsecond)
  exact ⟨first, s, applied, t, committed_eq_some hfirst, committed_eq_some hsecond, hcols,
    ledger, hledger, hinspect⟩

end Batter.Managed
