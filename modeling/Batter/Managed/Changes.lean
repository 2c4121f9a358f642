import Batter.Managed.Apply

/-!
# Managed objects: what the statements of an apply change

`Touches` is what every part of an apply does to the session between the
authorization and the record: the ledger stays, and every object that is in the
catalog afterwards was there before or has one of the given identities.  Drops
touch no identity in this sense, a source touches its own (`moves_create`), and
so `execute_changes` touches the pending ones (`moves_executeChanges`).
-/

namespace Batter.Managed

open RustStd Bytes Statements List
open Runlimit (Sha256 Bytes32)

variable {catalog : Catalog} {row : LedgerRow} {installed : List (ManagedObject × Nat × Bytes32)}
variable {rows : List LedgerRow} {pending : List ManagedObject} {retired : Retired} {s t : Session}
variable {stmt : Statement} {α : Type} {u : Unit} {a : α} {f : Catalog → Except ManagedApplyError α}

theorem readCatalog_eq_ok : readCatalog f s = .ok a t ↔ f s.catalog = .ok a ∧ s = t :=
  reads_eq_ok

theorem readCatalog_of_ok (h : f s.catalog = .ok a) : readCatalog f s = .ok a s :=
  reads_of_ok h

theorem runStatement_eq_ok {f : Catalog → Except ManagedApplyError Catalog} :
    runStatement stmt f s = .ok u t ↔
      ∃ catalog, f s.catalog = .ok catalog ∧
        { s with catalog := catalog, executed := s.executed ++ [stmt] } = t := by
  rw [runStatement, writes_eq_ok, RustStd.bind_eq_ok]
  simp only [Batter.pure_eq_ok]

theorem mem_remove {gone : Identity → Bool} {object : CatalogObject} :
    object ∈ (catalog.remove gone).objects ↔
      object ∈ catalog.objects ∧ gone object.identity = false :=
  Table.mem_delete

/-- What `write` leaves in the catalog. -/
theorem write_eq_some {catalog' : Catalog} {ident : Identity} {written : Written}
    (h : catalog.write ident written = some catalog') :
    ∃ object : CatalogObject, object.identity = ident ∧ object.kind = written.kind ∧
      catalog'.objects = catalog.objects.upsert object := by
  unfold Catalog.write at h
  split_ifs at h
  rw [Option.some.injEq] at h
  subst h
  exact ⟨⟨_, ident, written.kind, _, _⟩, rfl, rfl, rfl⟩

section Touches

/-- The ledger stays, and objects of other identities are the ones before. -/
def Touches (written : Identity → Prop) (s t : Session) : Prop :=
  t.relation = s.relation ∧
    ∀ object ∈ t.catalog.objects, object ∈ s.catalog.objects ∨ written object.identity

variable {written : Identity → Prop}

theorem Touches.refl (s : Session) : Touches written s s :=
  ⟨rfl, fun _ h => .inl h⟩

theorem Touches.trans {u : Session} (h : Touches written s t) (h' : Touches written t u) :
    Touches written s u := by
  refine ⟨h'.1.trans h.1, fun object hobj => ?_⟩
  rcases h'.2 object hobj with hobj | hwritten
  · exact h.2 object hobj
  · exact .inr hwritten

theorem moves_readCatalog (f : Catalog → Except ManagedApplyError α) :
    Moves (Touches written) (readCatalog f) :=
  .reads .refl _

/-- A statement that only removes objects touches nothing. -/
theorem moves_runStatement_remove {gone : α → Identity → Bool} :
    Moves (Touches written) (runStatement stmt fun catalog => do
      let a ← f catalog
      pure (catalog.remove (gone a))) := by
  intro s u t h
  obtain ⟨catalog, hcat, rfl⟩ := runStatement_eq_ok.mp h
  obtain ⟨a, -, hremoved⟩ := RustStd.bind_eq_ok.mp hcat
  rw [Batter.pure_eq_ok] at hremoved
  subst hremoved
  exact ⟨rfl, fun object hobj => .inl (mem_remove.mp hobj).1⟩

variable (server : Server)

theorem moves_lockedTrigger (table : QualifiedName) (name : Identifier) :
    Moves (Touches written) (lockedTrigger server table name) :=
  moves_readCatalog _

theorem moves_dropTrigger (ident : Identity) (rendered : String) (holder : Holder) :
    Moves (Touches written) (dropTrigger server ident rendered holder) := by
  unfold dropTrigger
  split
  · exact .bind .trans moves_runStatement_remove fun _ => moves_readCatalog _
  · exact .pure .refl ()

theorem moves_dropHolder (object : ManagedObject) (holder : Option ManagedObjectKind) :
    Moves (Touches written) (dropHolder server object holder) := by
  unfold dropHolder
  split
  · exact .pure .refl ()
  · split_ifs
    · refine .bind .trans (moves_lockedTrigger server _ _) fun current => ?_
      cases current with
      | none => exact .pure .refl ()
      | some current =>
        dsimp only
        split_ifs
        · exact moves_dropTrigger server _ _ _
        · exact .pure .refl ()
    · exact .pure .refl ()

theorem moves_retireObject (retire : Retirement) :
    Moves (Touches written) (retireObject server retire) := by
  unfold retireObject
  split
  · refine .bind .trans (moves_lockedTrigger server _ _) fun holder => ?_
    cases holder with
    | none => exact .pure .refl _
    | some holder =>
      dsimp only
      split_ifs
      · exact .bind .trans (moves_dropTrigger server _ _ _)
          fun _ => .pure .refl _
      · exact .pure .refl _
  · exact .bind .trans moves_runStatement_remove fun _ => .pure .refl _

section

variable (manifest : ManagedObjectManifest) (live : List (String × LiveObject))

theorem moves_retirePhase (triggerPhase : Bool) :
    Moves (Touches written) (retirePhase server manifest live triggerPhase) :=
  .foldlM .refl .trans
    (fun _ retire _ => .bind .trans (moves_retireObject server retire)
      fun _ => .pure .refl _) 0

theorem moves_retire : Moves (Touches written) (retire server manifest live) :=
  .bind .trans (moves_retirePhase server manifest live true) fun _ =>
    .bind .trans (moves_retirePhase server manifest live false) fun _ =>
      .pure .refl _

end

/-- A source touches its own identity. -/
theorem moves_create (object : ManagedObject) (hobj : written object.structuralIdentity) :
    Moves (Touches written) (create server object) := by
  refine .bind .trans ?_ fun _ => .reads .refl _
  intro s u t h
  obtain ⟨catalog, hcat, rfl⟩ := runStatement_eq_ok.mp h
  obtain ⟨source, -, hwrite⟩ := RustStd.bind_eq_ok.mp hcat
  obtain ⟨row, hrow, -, hobjects⟩ := write_eq_some (require_eq_ok.mp hwrite)
  refine ⟨rfl, fun other hother => ?_⟩
  change other ∈ catalog.objects at hother
  rw [hobjects] at hother
  rcases Table.mem_upsert.mp hother with rfl | ⟨hmem, -⟩
  · exact .inr (hrow ▸ hobj)
  · exact .inl hmem

variable [Sha256]

/-- What `execute_changes` does, from the state in which the pending entries
are final. -/
theorem executeChanges_eq_ok {manifest : ManagedObjectManifest}
    (h : executeChanges server manifest rows s = .ok (pending, retired) t) :
    ∃ live first r, resolveLive s.catalog manifest = .ok first ∧
      retire server manifest first s = .ok retired r ∧
      (live = first ∧ retired.triggers = 0 ∨ resolveLive r.catalog manifest = .ok live) ∧
      pending = pendingEntries manifest rows live (renderHashes s.catalog (liveKinds first)) ∧
      Touches (fun ident => ∃ object ∈ pending, object.structuralIdentity = ident) r t := by
  obtain ⟨first, s₁, hread, h⟩ := bind_eq_ok.mp h
  obtain ⟨hfirst, rfl⟩ := readCatalog_eq_ok.mp hread
  obtain ⟨hashes, s₁, hrender, h⟩ := bind_eq_ok.mp h
  obtain ⟨hhashes, rfl⟩ := readCatalog_eq_ok.mp hrender
  rw [Except.ok.injEq] at hhashes
  obtain ⟨locks, s₁, hlocks, h⟩ := bind_eq_ok.mp h
  obtain rfl : s = s₁ := by
    unfold lockTriggerTables at hlocks
    split_ifs at hlocks
    · exact (Statements.pure_eq_ok.mp hlocks).2
    · exact (readCatalog_eq_ok.mp hlocks).2
  obtain ⟨dropped, r, hretire, h⟩ := bind_eq_ok.mp h
  obtain ⟨⟨live, final⟩, r₁, hreview, h⟩ := bind_eq_ok.mp h
  obtain ⟨_, s₁, hdrops, h⟩ := bind_eq_ok.mp h
  obtain ⟨_, s₂, hroutines, h⟩ := bind_eq_ok.mp h
  obtain ⟨_, s₃, htriggers, h⟩ := bind_eq_ok.mp h
  obtain ⟨hres, rfl⟩ := Statements.pure_eq_ok.mp h
  obtain ⟨rfl, rfl⟩ := Prod.mk.inj hres
  have hreviewed : r = r₁ ∧ (live = first ∧ dropped.triggers = 0 ∨
      resolveLive r.catalog manifest = .ok live) ∧
      final = pendingEntries manifest rows live hashes := by
    unfold reviewPending at hreview
    split_ifs at hreview with hcount
    · obtain ⟨again, r₂, hreread, hreview⟩ := bind_eq_ok.mp hreview
      obtain ⟨hagain, rfl⟩ := readCatalog_eq_ok.mp hreread
      obtain ⟨_, r₂, hcovered, hreview⟩ := bind_eq_ok.mp hreview
      obtain ⟨-, rfl⟩ := readCatalog_eq_ok.mp hcovered
      obtain ⟨hpair, rfl⟩ := Statements.pure_eq_ok.mp hreview
      obtain ⟨rfl, rfl⟩ := Prod.mk.inj hpair
      exact ⟨rfl, .inr (mapError_eq_ok.mp hagain), rfl⟩
    · obtain ⟨hpair, rfl⟩ := Statements.pure_eq_ok.mp hreview
      obtain ⟨rfl, rfl⟩ := Prod.mk.inj hpair
      exact ⟨rfl, .inl ⟨rfl, Nat.eq_zero_of_not_pos hcount⟩, rfl⟩
  obtain ⟨rfl, hlive, hfinal⟩ := hreviewed
  refine ⟨live, first, r, mapError_eq_ok.mp hfirst, hretire, hlive, hhashes ▸ hfinal, ?_⟩
  have hcreates : ∀ p : ManagedObject → Bool,
      Moves (Touches fun ident => ∃ object ∈ final, object.structuralIdentity = ident)
        ((final.filter p).forM (create server)) := fun p =>
    .forM .refl .trans fun object hobj =>
      moves_create server object ⟨object, (mem_filter.mp hobj).1, rfl⟩
  have hdropped : Touches (fun ident => ∃ object ∈ final, object.structuralIdentity = ident)
      r s₁ :=
    Moves.forM Touches.refl Touches.trans
      (fun object _ => moves_dropHolder server object _) r _ s₁ hdrops
  exact (hdropped.trans (hcreates _ s₁ _ s₂ hroutines)).trans (hcreates _ s₂ _ _ htriggers)

end Touches

/-- What is rendered of an object, and so everything but its privileges. -/
def CatalogObject.definition (object : CatalogObject) :
    Nat × Identity × Option ManagedObjectKind × Bytes32 :=
  (object.oid, object.identity, object.kind, object.rendered)

/-- The ledger stays, and every object keeps its definition. -/
structure SameDefinitions (s t : Session) : Prop where
  relation : t.relation = s.relation
  relations : t.catalog.relations = s.catalog.relations
  definitions : t.catalog.objects.rows.map CatalogObject.definition =
    s.catalog.objects.rows.map CatalogObject.definition

theorem SameDefinitions.refl (s : Session) : SameDefinitions s s :=
  ⟨rfl, rfl, rfl⟩

theorem SameDefinitions.trans {u : Session} (h : SameDefinitions s t) (h' : SameDefinitions t u) :
    SameDefinitions s u :=
  ⟨h'.relation.trans h.relation, h'.relations.trans h.relations, h'.definitions.trans h.definitions⟩

theorem definitions_setPublicExecute (catalog : Catalog) (ident : Identity) (holds : Bool) :
    (catalog.setPublicExecute ident holds).objects.rows.map CatalogObject.definition =
      catalog.objects.rows.map CatalogObject.definition := by
  simp only [Catalog.setPublicExecute, Table.modify, Table.update, map_map]
  refine map_congr_left fun object _ => ?_
  simp only [Function.comp_apply]
  split_ifs <;> rfl

theorem moves_revokePublicExecute
    (server : Server) (installed : List (ManagedObject × Nat × Bytes32)) :
    Moves SameDefinitions (revokePublicExecute server installed) := by
  refine Moves.bind SameDefinitions.trans (Moves.reads SameDefinitions.refl _) fun holders => ?_
  refine Moves.bind SameDefinitions.trans ?_ fun _ => Moves.reads SameDefinitions.refl _
  refine Moves.forM SameDefinitions.refl SameDefinitions.trans fun entry _ => ?_
  unfold revokeFrom
  split
  · intro s u t h
    obtain ⟨catalog, hcat, rfl⟩ := runStatement_eq_ok.mp h
    obtain ⟨holds, -, hset⟩ := RustStd.bind_eq_ok.mp hcat
    rw [Batter.pure_eq_ok] at hset
    subst hset
    exact ⟨rfl, rfl, definitions_setPublicExecute s.catalog _ holds⟩
  · exact Moves.pure SameDefinitions.refl ()

section Record

variable [Sha256] {manifest : ManagedObjectManifest}

theorem record_eq_ok (h : record manifest pending installed s = .ok u t) :
    ∃ written, pending.mapM (writtenRow installed) = .ok written ∧
      t = { s with
        relation := s.relation.map fun relation =>
          { relation with
            rows := recordRows manifest (written ++ [manifestRow manifest installed])
              relation.rows } } := by
  obtain ⟨written, hwritten, hrest⟩ := RustStd.bind_eq_ok.mp (writes_eq_ok.mp h)
  rw [Batter.pure_eq_ok] at hrest
  exact ⟨written, hwritten, hrest.symm⟩

theorem writtenRow_eq_ok {object : ManagedObject} : writtenRow installed object = .ok row ↔
      ∃ hash, renderedHash installed object = .ok hash ∧ objectRow object hash = row := by
  rw [writtenRow, RustStd.bind_eq_ok]
  simp only [Batter.pure_eq_ok]

variable {written : List LedgerRow}

/-- The rows that `record` writes have the identities of the pending entries. -/
theorem map_identity_written (h : pending.mapM (writtenRow installed) = .ok written) :
    written.map LedgerRow.identity = pending.map ManagedObject.identity := by
  refine map_of_mapM_ok h fun object row hrow => ?_
  obtain ⟨hash, -, rfl⟩ := writtenRow_eq_ok.mp hrow
  rfl

omit [Sha256] in
theorem setRow_not_mem_identities (objects : List ManagedObject) :
    setRow ∉ objects.map ManagedObject.identity := by
  intro hmem
  obtain ⟨object, -, hident⟩ := mem_map.mp hmem
  exact Identity.render_ne_setRow _ hident

/-- The ledger's rows after `record`. -/
theorem mem_recordRows {rows : Table LedgerRow.identity}
    (hwritten : written.map LedgerRow.identity = pending.map ManagedObject.identity)
    (hpend : (pending.map ManagedObject.identity).Nodup) :
    row ∈ recordRows manifest (written ++ [manifestRow manifest installed]) rows ↔
      row ∈ written ∨ row = manifestRow manifest installed ∨
        (row ∈ rows ∧ row.identity ∈ manifest.objects.map ManagedObject.identity ∧
          row.identity ∉ pending.map ManagedObject.identity) := by
  have hset : (manifestRow manifest installed).identity = setRow := rfl
  have hkeys : (written ++ [manifestRow manifest installed]).map LedgerRow.identity =
      pending.map ManagedObject.identity ++ [setRow] := by
    rw [map_append, hwritten, map_singleton, hset]
  have hnodup : (pending.map ManagedObject.identity ++ [setRow]).Nodup := by
    refine nodup_append.mpr ⟨hpend, nodup_singleton _, ?_⟩
    rintro a ha b hb rfl
    rw [mem_singleton] at hb
    exact setRow_not_mem_identities pending (hb ▸ ha)
  rw [recordRows, Table.mem_foldl_upsert (hkeys ▸ hnodup), hkeys, Table.mem_delete]
  simp only [mem_append, mem_singleton, Bool.not_eq_eq_eq_not, Bool.not_false,
    contains_eq_mem, decide_eq_true_eq]
  constructor
  · rintro ((hrow | hrow) | ⟨⟨hrow, hdecl⟩, hother⟩)
    · exact .inl hrow
    · exact .inr (.inl hrow)
    · refine .inr (.inr ⟨hrow, ?_, fun h => hother (.inl h)⟩)
      exact hdecl.resolve_right fun h => hother (.inr h)
  · rintro (hrow | hrow | ⟨hrow, hdecl, hother⟩)
    · exact .inl (.inl hrow)
    · exact .inl (.inr hrow)
    · refine .inr ⟨⟨hrow, .inl hdecl⟩, ?_⟩
      rintro (h | h)
      · exact hother h
      · exact setRow_not_mem_identities manifest.objects (h ▸ hdecl)

end Record

section Apply

variable [Sha256] {server : Server} {manifest : ManagedObjectManifest}
  {applied : AppliedManagedObjects}

/-- The stages of a successful apply. -/
structure Stages (server : Server) (manifest : ManagedObjectManifest) (s t : Session)
    (adopted : Relation) (rows : List LedgerRow) (pending : List ManagedObject)
    (retired : Retired) (changed : Session) (installed : List (ManagedObject × Nat × Bytes32))
    (revoked : Session) : Prop where
  admitted : Admitted manifest s.relation adopted rows
  executed : executeChanges server manifest rows { s with relation := some adopted } =
    .ok (pending, retired) changed
  installs : installedObjects manifest changed = .ok installed changed
  same : SameDefinitions changed revoked
  revoke : manifest.publicExecute = .revoke →
    revokePublicExecute server installed changed = .ok () revoked
  recorded : record manifest pending installed revoked = .ok () t

theorem apply_eq_ok (h : apply server manifest s = .ok applied t) :
    ∃ adopted rows pending retired changed installed revoked,
      Stages server manifest s t adopted rows pending retired changed installed revoked := by
  obtain ⟨rows, s₁, hlocked, h⟩ := bind_eq_ok.mp h
  obtain ⟨adopted, hadmitted, rfl⟩ : ∃ adopted,
      admitRelation manifest s.relation = .ok (adopted, rows) ∧
        { s with relation := some adopted } = s₁ := by
    unfold admitLedger at hlocked
    cases hcases : admitRelation manifest s.relation with
    | error error =>
      simp [hcases] at hlocked
    | ok result =>
      obtain ⟨adopted, rows'⟩ := result
      simp only [hcases, EStateM.Result.ok.injEq] at hlocked
      exact ⟨adopted, by rw [hlocked.1], hlocked.2⟩
  obtain ⟨⟨pending, retired⟩, changed, hexecuted, h⟩ := bind_eq_ok.mp h
  obtain ⟨installed, s₂, hinstalls, h⟩ := bind_eq_ok.mp h
  obtain rfl : changed = s₂ := (readCatalog_eq_ok.mp hinstalls).2
  refine ⟨adopted, rows, pending, retired, changed, installed, ?_⟩
  have hadmitted := admitRelation_admitted hadmitted
  split_ifs at h with hpol
  · obtain ⟨_, revoked, hrevoked, h⟩ := bind_eq_ok.mp h
    obtain ⟨_, s₃, hrecord, h⟩ := bind_eq_ok.mp h
    obtain ⟨-, rfl⟩ := Statements.pure_eq_ok.mp h
    exact ⟨revoked, hadmitted, hexecuted, hinstalls,
      moves_revokePublicExecute server installed _ _ _ hrevoked, fun _ => hrevoked, hrecord⟩
  · obtain ⟨_, s₃, hrecord, h⟩ := bind_eq_ok.mp h
    obtain ⟨-, rfl⟩ := Statements.pure_eq_ok.mp h
    exact ⟨changed, hadmitted, hexecuted, hinstalls, SameDefinitions.refl _,
      fun hrevoke => absurd hrevoke hpol, hrecord⟩

/-- The ledger after a successful apply. -/
structure RecordedLedger (manifest : ManagedObjectManifest) (adopted : Relation)
    (pending : List ManagedObject) (installed : List (ManagedObject × Nat × Bytes32))
    (t : Session) (written : List LedgerRow) (rows : Table LedgerRow.identity) : Prop where
  writes : pending.mapM (writtenRow installed) = .ok written
  relation : t.relation = some { adopted with rows := rows }
  mem_rows : ∀ row, row ∈ rows ↔
    row ∈ written ∨ row = manifestRow manifest installed ∨
      (row ∈ adopted.rows ∧ row.identity ∈ manifest.objects.map ManagedObject.identity ∧
        row.identity ∉ pending.map ManagedObject.identity)

theorem Stages.ledger {adopted : Relation} {changed revoked : Session}
    (stages : Stages server manifest s t adopted rows pending retired changed installed revoked) :
    t.catalog = revoked.catalog ∧
      ∃ written rows', RecordedLedger manifest adopted pending installed t written rows' := by
  obtain ⟨live, first, r, -, hretire, -, hpend, htouches⟩ :=
    executeChanges_eq_ok server stages.executed
  have hrel : revoked.relation = some adopted := by
    rw [stages.same.relation, htouches.1]
    have hmoves : Moves (Touches fun _ => True) (retire server manifest first) :=
      moves_retire server manifest first
    exact (hmoves _ _ r hretire).1
  obtain ⟨written, hwritten, rfl⟩ := record_eq_ok stages.recorded
  have hnodup : (pending.map ManagedObject.identity).Nodup := by
    rw [hpend]
    exact (filter_sublist.map _).nodup manifest.declared_nodup
  refine ⟨rfl, written, recordRows manifest (written ++ [manifestRow manifest installed])
    adopted.rows, hwritten, ?_, fun row => mem_recordRows (map_identity_written hwritten) hnodup⟩
  rw [hrel]
  rfl

end Apply

end Batter.Managed
