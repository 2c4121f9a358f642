import Batter.Managed.Verification

/-!
# Managed objects: a committed apply verifies clean and is idempotent

`Catalog.installation` is the object identifier and the hash under which the
catalog holds an object of its declared kind.  Both apply and verification see
exactly this of the catalog (`installedHash_eq`).

After a successful apply the ledger and the catalog agree with the manifest
(`Installed`): one row for every declared object with its current hash, a set
row with the digest of those hashes, and no retired object.  Verification has
no finding on an installed manifest, and a second apply changes nothing.
-/

namespace Batter.Managed

open RustStd Bytes Statements List Table Option
open Runlimit (Sha256 Bytes32)

variable {written : Identity → Prop} {first live : List (String × LiveObject)}
variable {object : ManagedObject} {manifest : ManagedObjectManifest} {retired : Retired}
variable {retirement : Retirement} {server : Server} {s t : Session} {α : Type}

section Installation

/-- The object identifier and hash of an object that is live with its kind. -/
def Catalog.installation (catalog : Catalog) (object : ManagedObject) : Option (Nat × Bytes32) :=
  ((catalog.objects.get? object.structuralIdentity).filter fun found =>
    found.kind = some object.kind).map fun found => (found.oid, found.rendered)

/-- The retired object is not live with its retired kind. -/
def Catalog.Lacks (catalog : Catalog) (retirement : Retirement) : Prop :=
  ∀ found ∈ catalog.objects, found.identity = retirement.structuralIdentity →
    found.kind ≠ some retirement.kind

variable {catalog : Catalog}

theorem installation_eq_some {oid : Nat} {hash : Bytes32} :
    catalog.installation object = some (oid, hash) ↔
      ∃ found ∈ catalog.objects, found.identity = object.structuralIdentity ∧
        found.kind = some object.kind ∧ found.oid = oid ∧ found.rendered = hash := by
  unfold Catalog.installation
  simp only [map_eq_some_iff, filter_eq_some_iff, decide_eq_true_eq,
    get?_eq_some, Prod.mk.injEq]
  constructor
  · rintro ⟨found, ⟨⟨hmem, hident⟩, hkind⟩, hoid, hhash⟩
    exact ⟨found, hmem, hident, hkind, hoid, hhash⟩
  · rintro ⟨found, hmem, hident, hkind, hoid, hhash⟩
    exact ⟨found, ⟨⟨hmem, hident⟩, hkind⟩, hoid, hhash⟩

/-- An installation depends on the definitions of the objects only. -/
theorem installation_congr (h : SameDefinitions s t) (object : ManagedObject) :
    t.catalog.installation object = s.catalog.installation object := by
  have hdef : ∀ catalog : Catalog, catalog.installation object =
      (((catalog.objects.rows.map CatalogObject.definition).find? fun defn =>
        decide (defn.2.1 = object.structuralIdentity)).filter fun defn =>
          defn.2.2.1 = some object.kind).map fun defn =>
            (defn.1, defn.2.2.2) := by
    intro catalog
    rw [find?_map, Option.filter_map, Option.map_map]
    rfl
  rw [hdef, hdef, h.definitions]

theorem mem_identities_of_object (h : object ∈ manifest.objects) :
    object.structuralIdentity ∈ manifest.identities :=
  mem_append_left _ (mem_map_of_mem h)

theorem mem_identities_of_retirement (h : retirement ∈ manifest.retirements) :
    retirement.structuralIdentity ∈ manifest.identities :=
  mem_append_right _ (mem_map_of_mem h)

/-- What the two catalog maps show of a declared object is its installation.
The hashes may be from an earlier catalog that had the same objects. -/
theorem installedHash_eq {before catalog : Catalog}
    (hfirst : resolveLive before manifest = .ok first)
    (hlive : resolveLive catalog manifest = .ok live)
    (hsub : ∀ object ∈ catalog.objects,
      object ∈ before.objects) (hobj : object ∈ manifest.objects) :
    installedHash live (renderHashes before (liveKinds first)) object =
      catalog.installation object := by
  have hident := mem_identities_of_object hobj
  unfold installedHash Catalog.installation ManagedObject.identity
  rw [liveGet_resolveLive hlive hident]
  cases hget : catalog.objects.get? object.structuralIdentity with
  | none =>
    rfl
  | some found =>
    obtain ⟨hmem, hfound⟩ := get?_eq_some.mp hget
    by_cases hkind : found.kind = some object.kind
    · have hhash := hashGet_renderHashes hfirst (hsub found hmem) (hfound ▸ hident) hkind
      simp [Option.filter, hkind, hhash]
    · simp [Option.filter, hkind]

/-- The live map shows a retirement as present exactly when it is. -/
theorem lacks_iff (hlive : resolveLive catalog manifest = .ok live)
    (hretirement : retirement ∈ manifest.retirements) :
    catalog.Lacks retirement ↔ liveKind live retirement.identity ≠ some retirement.kind := by
  unfold liveKind Retirement.identity
  rw [liveGet_resolveLive hlive (mem_identities_of_retirement hretirement)]
  cases hget : catalog.objects.get? retirement.structuralIdentity with
  | none =>
    simp only [map_none, bind_none, ne_eq, reduceCtorEq, not_false_iff, iff_true]
    intro found hfound hident
    exact absurd hident (get?_eq_none.mp hget found hfound)
  | some found =>
    obtain ⟨hmem, hident⟩ := get?_eq_some.mp hget
    simp only [map_some, bind_some]
    constructor
    · intro hlacks
      exact hlacks found hmem hident
    · intro hkind other hother hsame
      rwa [eq_of_key_eq hother hmem (hsame.trans hident.symm)]

theorem Catalog.Lacks.of_touches (h : s.catalog.Lacks retirement) (htouches : Touches written s t)
    (hnot : ¬ written retirement.structuralIdentity) : t.catalog.Lacks retirement := by
  intro found hfound hident
  rcases htouches.2 found hfound with hfound | hwritten
  · exact h found hfound hident
  · exact absurd (hident ▸ hwritten) hnot

end Installation

section Retire

variable {catalog : Catalog} {name : Identifier} {table : QualifiedName}

/-- One trigger key selects the trigger of that key. -/
theorem head?_resolveTriggers {touched : Identity → Bool} {rows : List (String × LiveObject)}
    (h : resolveTriggers catalog touched [(table, name)] = .ok rows) :
    (rows.head?.bind fun entry => entry.2.kind) =
      (catalog.objects.get? (.trigger table name)).bind CatalogObject.kind := by
  have hsel : ∀ entry, entry ∈ rows ↔ ∃ object ∈ catalog.objects,
      object.identity = .trigger table name ∧ object.entry touched = entry := by
    intro entry
    rw [mem_resolveRows h]
    refine exists_congr fun object => and_congr_right fun _ => and_congr_left fun _ => ?_
    cases object.identity <;> simp
  cases hget : catalog.objects.get? (.trigger table name) with
  | none =>
    have hempty : rows = [] := by
      rw [eq_nil_iff_forall_not_mem]
      intro entry hentry
      obtain ⟨object, hobj, hident, -⟩ := (hsel entry).mp hentry
      exact get?_eq_none.mp hget object hobj hident
    rw [hempty]
    rfl
  | some found =>
    obtain ⟨hfound, hident⟩ := get?_eq_some.mp hget
    have hall : ∀ entry ∈ rows, entry = found.entry touched := by
      intro entry hentry
      obtain ⟨object, hobj, hobjIdent, rfl⟩ := (hsel entry).mp hentry
      rw [eq_of_key_eq hobj hfound (hobjIdent.trans hident.symm)]
    cases rows with
    | nil =>
      exact absurd ((hsel _).mpr ⟨found, hfound, hident, rfl⟩) not_mem_nil
    | cons entry rest =>
      rw [head?_cons, hall entry (mem_cons_self ..)]
      rfl

/-- The trigger read under the lock is the one in the catalog. -/
theorem lockedTrigger_eq_ok {holder : Option Holder}
    (h : lockedTrigger server table name s = .ok holder t) :
    s = t ∧ ((holder = none ∧ s.catalog.relations table = none) ∨
      ∃ rel, holder =
        some ⟨rel, (s.catalog.objects.get? (.trigger table name)).bind CatalogObject.kind⟩) := by
  obtain ⟨hread, rfl⟩ := readCatalog_eq_ok.mp h
  refine ⟨rfl, ?_⟩
  cases hrel : s.catalog.relations table with
  | none =>
    simp only [hrel, Except.ok.injEq] at hread
    exact .inl ⟨hread.symm, rfl⟩
  | some found =>
    simp only [hrel] at hread
    refine .inr ⟨found.1, ?_⟩
    have hrest : ∃ current, resolveTriggers s.catalog (fun _ => false) [(table, name)] =
        .ok current ∧ some ⟨found.1, current.head?.bind fun entry => entry.2.kind⟩ = holder := by
      split_ifs at hread
      · obtain ⟨_, -, hread⟩ := RustStd.bind_eq_ok.mp hread
        obtain ⟨current, hcur, hread⟩ := RustStd.bind_eq_ok.mp hread
        exact ⟨current, mapError_eq_ok.mp hcur, Batter.pure_eq_ok.mp hread⟩
      · obtain ⟨current, hcur, hread⟩ := RustStd.bind_eq_ok.mp hread
        exact ⟨current, mapError_eq_ok.mp hcur, Batter.pure_eq_ok.mp hread⟩
    obtain ⟨current, hcur, rfl⟩ := hrest
    rw [head?_resolveTriggers hcur]

/-- A trigger that is not there with its kind is not live. -/
theorem lacks_of_get?
    (h : (catalog.objects.get? retirement.structuralIdentity).bind CatalogObject.kind ≠
      some retirement.kind) :
    catalog.Lacks retirement := by
  intro found hfound hident hkind
  apply h
  rw [get?_eq_some.mpr ⟨hfound, hident⟩]
  exact hkind

/-- A removed object is not live. -/
theorem lacks_of_removed {gone : Identity → Bool} (h : gone retirement.structuralIdentity = true) :
    (catalog.remove gone).Lacks retirement := by
  intro found hfound hident
  have hkept := (mem_remove.mp hfound).2
  rw [hident, h] at hkept
  exact absurd hkept (by simp)

theorem dropTrigger_lacks {rendered : String} {holder : Holder} {u : Unit}
    (hident : retirement.structuralIdentity = .trigger table name)
    (hkind : holder.kind = some retirement.kind)
    (h : dropTrigger server (.trigger table name) rendered holder s = .ok u t) :
    t.catalog.Lacks retirement := by
  unfold dropTrigger at h
  rw [hkind] at h
  obtain ⟨_, r, hdrop, hreached⟩ := bind_eq_ok.mp h
  obtain ⟨-, rfl⟩ := readCatalog_eq_ok.mp hreached
  obtain ⟨catalog, hcat, rfl⟩ := runStatement_eq_ok.mp hdrop
  obtain ⟨clones, -, hremoved⟩ := RustStd.bind_eq_ok.mp hcat
  rw [Batter.pure_eq_ok] at hremoved
  subst hremoved
  exact lacks_of_removed (by simp [droppedWith, hident])

/-- A retirement that was worked on is not live. -/
theorem retireObject_lacks {dropped : Bool} (h : retireObject server retirement s = .ok dropped t) :
    t.catalog.Lacks retirement := by
  cases hident : retirement.structuralIdentity with
  | trigger table name =>
    simp only [retireObject, hident] at h
    obtain ⟨holder, r, hholder, h⟩ := bind_eq_ok.mp h
    obtain ⟨rfl, ⟨rfl, hrel⟩ | ⟨rel, rfl⟩⟩ := lockedTrigger_eq_ok hholder
    · obtain ⟨-, rfl⟩ := Statements.pure_eq_ok.mp h
      intro found hfound hsame
      have hplaced := s.catalog.placed found hfound table name (hsame.trans hident)
      rw [hrel] at hplaced
      exact absurd hplaced (by simp)
    · simp only at h
      split_ifs at h with hkind
      · obtain ⟨_, r, hdrop, h⟩ := bind_eq_ok.mp h
        obtain ⟨-, rfl⟩ := Statements.pure_eq_ok.mp h
        exact dropTrigger_lacks hident hkind hdrop
      · obtain ⟨-, rfl⟩ := Statements.pure_eq_ok.mp h
        exact lacks_of_get? (hident ▸ hkind)
  | routine sig =>
    simp only [retireObject, hident] at h
    obtain ⟨_, r, hdrop, h⟩ := bind_eq_ok.mp h
    obtain ⟨-, rfl⟩ := Statements.pure_eq_ok.mp h
    obtain ⟨catalog, hcat, rfl⟩ := runStatement_eq_ok.mp hdrop
    obtain ⟨_, -, hremoved⟩ := RustStd.bind_eq_ok.mp hcat
    rw [Batter.pure_eq_ok] at hremoved
    subst hremoved
    exact lacks_of_removed (by simp [hident])

/-- Drops keep what is absent absent. -/
theorem moves_lacks {x : Applying α} (h : Moves (Touches fun _ => False) x)
    (retirement : Retirement) :
    Moves (fun s t : Session => s.catalog.Lacks retirement → t.catalog.Lacks retirement) x :=
  fun s a t hx hlacks => hlacks.of_touches (h s a t hx) id

theorem retirePhase_lacks {triggerPhase : Bool} {count : Nat}
    (h : retirePhase server manifest live triggerPhase s = .ok count t) :
    ∀ retirement ∈ presentRetirements manifest live triggerPhase, t.catalog.Lacks retirement := by
  have hround : ∀ count retirement, Moves (Touches fun _ => False) (do
      let dropped ← retireObject server retirement
      pure (if dropped then count + 1 else count)) := fun count retirement =>
    .bind .trans (moves_retireObject server retirement)
      fun _ => .pure .refl _
  refine foldlM_establishes (P := fun retirement session => session.catalog.Lacks retirement)
    (fun count retirement _ other => moves_lacks (hround count retirement) other) ?_ h
  intro count retirement _ s next t hbody
  obtain ⟨dropped, r, hretire, hrest⟩ := bind_eq_ok.mp hbody
  obtain ⟨-, rfl⟩ := Statements.pure_eq_ok.mp hrest
  exact retireObject_lacks hretire

/-- After `retire` no retired object is live with its retired kind. -/
theorem retire_lacks (hlive : resolveLive s.catalog manifest = .ok live)
    (h : retire server manifest live s = .ok retired t) :
    ∀ retirement ∈ manifest.retirements, t.catalog.Lacks retirement := by
  obtain ⟨triggers, r, htriggers, hrest⟩ := bind_eq_ok.mp h
  obtain ⟨routines, u, hroutines, hrest⟩ := bind_eq_ok.mp hrest
  obtain ⟨-, rfl⟩ := Statements.pure_eq_ok.mp hrest
  have hlast := moves_lacks (moves_retirePhase server manifest live false)
  intro retirement hretirement
  by_cases hpresent : liveKind live retirement.identity = some retirement.kind
  · have hphase : retirement ∈ presentRetirements manifest live retirement.kind.isTrigger :=
      mem_filter.mpr ⟨hretirement, by simp [hpresent]⟩
    cases htrigger : retirement.kind.isTrigger with
    | true =>
      rw [htrigger] at hphase
      exact hlast retirement r _ u hroutines (retirePhase_lacks htriggers retirement hphase)
    | false =>
      rw [htrigger] at hphase
      exact retirePhase_lacks hroutines retirement hphase
  · have hlacks := (lacks_iff hlive hretirement).mpr hpresent
    exact hlast retirement r _ u hroutines
      (moves_lacks (moves_retirePhase server manifest live true) retirement s _ r htriggers hlacks)

end Retire

section Objects

variable {catalog : Catalog}

/-- Every declared object that is live with its kind, as it is installed. -/
def Catalog.installedList (catalog : Catalog) (manifest : ManagedObjectManifest) :
    List (ManagedObject × Nat × Bytes32) :=
  manifest.objects.filterMap fun object => (catalog.installation object).map fun installed =>
    (object, installed)

variable {entry : ManagedObject × Nat × Bytes32}

theorem mem_installedList : entry ∈ catalog.installedList manifest ↔
      entry.1 ∈ manifest.objects ∧ catalog.installation entry.1 = some entry.2 := by
  unfold Catalog.installedList
  simp only [mem_filterMap, map_eq_some_iff]
  constructor
  · rintro ⟨object, hobj, installed, hinst, rfl⟩
    exact ⟨hobj, hinst⟩
  · rintro ⟨hobj, hinst⟩
    exact ⟨entry.1, hobj, entry.2, hinst, rfl⟩

theorem installedList_congr (h : SameDefinitions s t) :
    t.catalog.installedList manifest = s.catalog.installedList manifest := by
  unfold Catalog.installedList
  simp only [installation_congr h]

/-- A loop of required values succeeds when all of them are there. -/
theorem mapM_require {β ε : Type} {error : α → ε} {f : α → Option β} {l : List α}
    {out : List (α × β)} :
    l.mapM (fun a => do
      let b ← require (error a) (f a)
      pure (a, b)) = .ok out ↔
      (∀ a ∈ l, (f a).isSome = true) ∧ out = l.filterMap fun a => (f a).map fun b => (a, b) := by
  induction l generalizing out with
  | nil =>
    rw [mapM_nil, Batter.pure_eq_ok, filterMap_nil]
    exact ⟨fun h => ⟨nofun, h.symm⟩, fun h => h.2.symm⟩
  | cons a rest ih =>
    rw [mapM_cons, RustStd.bind_eq_ok, forall_mem_cons]
    cases hf : f a with
    | none =>
      constructor
      · rintro ⟨_, hfirst, -⟩
        obtain ⟨_, hrequired, -⟩ := RustStd.bind_eq_ok.mp hfirst
        exact absurd (require_eq_ok.mp hrequired) (by simp)
      · rintro ⟨⟨hnone, -⟩, -⟩
        exact absurd hnone (by simp)
    | some b =>
      simp only [require, RustStd.bind_eq_ok, Batter.pure_eq_ok, isSome_some, true_and,
        filterMap_cons, hf, map_some]
      constructor
      · rintro ⟨_, ⟨_, hb, rfl⟩, tail, htail, rfl⟩
        rw [Except.ok.injEq] at hb
        obtain ⟨hall, rfl⟩ := ih.mp htail
        exact ⟨hall, by rw [hb]⟩
      · rintro ⟨hall, rfl⟩
        exact ⟨_, ⟨b, rfl, rfl⟩, _, ih.mpr ⟨hall, rfl⟩, rfl⟩

/-- `installed_objects` returns every declared object as it is installed. -/
theorem installedObjects_eq_ok {installed : List (ManagedObject × Nat × Bytes32)} :
    installedObjects manifest s = .ok installed t ↔
      (∃ live, resolveLive s.catalog manifest = .ok live) ∧
        (∀ object ∈ manifest.objects, (s.catalog.installation object).isSome = true) ∧
        installed = s.catalog.installedList manifest ∧ s = t := by
  rw [installedObjects, readCatalog_eq_ok, RustStd.bind_eq_ok]
  have hloop : ∀ live, resolveLive s.catalog manifest = .ok live →
      (manifest.objects.mapM (fun object => do
        let installed ← require (ManagedApplyError.identityMismatch object.identity)
          (installedHash live (renderHashes s.catalog (liveKinds live)) object)
        pure (object, installed)) = .ok installed ↔
        (∀ object ∈ manifest.objects, (s.catalog.installation object).isSome = true) ∧
          installed = s.catalog.installedList manifest) := by
    intro live hlive
    have hhash : ∀ object ∈ manifest.objects,
        installedHash live (renderHashes s.catalog (liveKinds live)) object =
          s.catalog.installation object :=
      fun object hobj => installedHash_eq hlive hlive (fun _ h => h) hobj
    rw [mapM_require]
    refine and_congr (forall₂_congr fun object hobj => by rw [hhash object hobj]) ?_
    rw [Catalog.installedList]
    refine Eq.congr_right (filterMap_congr fun object hobj => ?_)
    rw [hhash object hobj]
  constructor
  · rintro ⟨⟨live, hlive, hrest⟩, rfl⟩
    have hlive := mapError_eq_ok.mp hlive
    obtain ⟨hall, rfl⟩ := (hloop live hlive).mp hrest
    exact ⟨⟨live, hlive⟩, hall, rfl, rfl⟩
  · rintro ⟨⟨live, hlive⟩, hall, rfl, rfl⟩
    exact ⟨⟨live, mapError_eq_ok.mpr hlive, (hloop live hlive).mpr ⟨hall, rfl⟩⟩, rfl⟩

/-- Declared objects are told apart by their identities. -/
theorem object_ext {other : ManagedObject} (hobj : object ∈ manifest.objects)
    (hother : other ∈ manifest.objects) (h : object.identity = other.identity) : object = other :=
  inj_on_of_nodup_map manifest.declared_nodup hobj hother h

/-- The index into the installed hashes finds the object's own hash. -/
theorem renderedHash_installedList (h : entry ∈ catalog.installedList manifest) :
    renderedHash (catalog.installedList manifest) entry.1 = .ok entry.2.2 := by
  have hfind : (catalog.installedList manifest).find?
      (fun other => other.1.identity == entry.1.identity) = some entry := by
    refine find?_of_unique h (beq_self_eq_true _) fun other hother hsame => ?_
    obtain ⟨hdecl, hinst⟩ := mem_installedList.mp h
    obtain ⟨hdecl', hinst'⟩ := mem_installedList.mp hother
    have heq := object_ext hdecl' hdecl (beq_iff_eq.mp hsame)
    rw [heq, hinst, Option.some.injEq] at hinst'
    exact Prod.ext heq hinst'.symm
  rw [renderedHash, hfind]
  rfl

/-- An object that is not touched has the installation it had. -/
theorem installation_of_touches {r : Session} {installed : Nat × Bytes32} (h : Touches written r t)
    (hnot : ¬ written object.structuralIdentity)
    (hinst : t.catalog.installation object = some installed) :
    r.catalog.installation object = some installed := by
  obtain ⟨found, hfound, hident, hkind, hoid, hhash⟩ := installation_eq_some.mp hinst
  refine installation_eq_some.mpr ⟨found, ?_, hident, hkind, hoid, hhash⟩
  exact (h.2 found hfound).resolve_right (hident ▸ hnot)

end Objects

section Pending

variable [Sha256] {rows : List LedgerRow}

/-- An object whose row records its installation is not pending. -/
theorem not_pending_iff {before catalog : Catalog}
    (hfirst : resolveLive before manifest = .ok first)
    (hlive : resolveLive catalog manifest = .ok live)
    (hsub : ∀ object ∈ catalog.objects,
      object ∈ before.objects) (hobj : object ∈ manifest.objects) :
    object ∉ pendingEntries manifest rows live (renderHashes before (liveKinds first)) ↔
      ∃ row oid hash, (rows.find? fun row => row.identity == object.identity) = some row ∧
        row.kind = object.kind.asStr ∧ row.sourceChecksum = digestBytes object.checksum ∧
        catalog.installation object = some (oid, hash) ∧
        row.renderedChecksum = digestBytes hash := by
  unfold pendingEntries
  rw [mem_filter, not_and]
  simp only [hobj, forall_const, Bool.not_eq_true', Bool.not_eq_false, Option.any_eq_true,
    recordsInstalled, Bool.and_eq_true, beq_iff_eq,
    installedHash_eq hfirst hlive hsub hobj, Prod.exists]
  constructor
  · rintro ⟨row, hrow, ⟨hkind, hsrc⟩, oid, hash, hinst, hrendered⟩
    exact ⟨row, oid, hash, hrow, hkind, hsrc, hinst, hrendered⟩
  · rintro ⟨row, oid, hash, hrow, hkind, hsrc, hinst, hrendered⟩
    exact ⟨row, hrow, ⟨hkind, hsrc⟩, oid, hash, hinst, hrendered⟩

/-- What `execute_changes` leaves to the ledger: an entry that is not pending
is recorded as it is installed, and no retired object is live. -/
theorem executeChanges_installed {pending : List ManagedObject}
    (h : executeChanges server manifest rows s = .ok (pending, retired) t) :
    (∀ object ∈ pending, object ∈ manifest.objects) ∧
      (∀ object ∈ manifest.objects, object ∉ pending →
        ∀ oid hash, t.catalog.installation object = some (oid, hash) →
          ∃ row ∈ rows, row.identity = object.identity ∧ row.kind = object.kind.asStr ∧
            row.sourceChecksum = digestBytes object.checksum ∧
            row.renderedChecksum = digestBytes hash) ∧
      ∀ retirement ∈ manifest.retirements, t.catalog.Lacks retirement := by
  obtain ⟨live, first, r, hfirst, hretire, hlive, hpend, htouches⟩ := executeChanges_eq_ok server h
  have hsub : Touches (fun _ => False) s r := moves_retire server manifest first s _ r hretire
  have hshrinks : ∀ object ∈ r.catalog.objects, object ∈ s.catalog.objects :=
    fun object hobj => (hsub.2 object hobj).resolve_right id
  have hdecl : ∀ object ∈ pending, object ∈ manifest.objects := by
    rw [hpend]
    exact fun object hobj => (mem_filter.mp hobj).1
  have hother : ∀ object ∈ manifest.objects, object ∉ pending →
      ¬ ∃ other ∈ pending, other.structuralIdentity = object.structuralIdentity := by
    rintro object hobj hnot ⟨other, hpended, hsame⟩
    have heq : other = object :=
      object_ext (hdecl other hpended) hobj (congrArg Identity.render hsame)
    exact hnot (heq ▸ hpended)
  refine ⟨hdecl, ?_, ?_⟩
  · intro object hobj hnot oid hash hinst
    have hbefore := installation_of_touches htouches (hother object hobj hnot) hinst
    rcases hlive with ⟨rfl, -⟩ | hlive
    · have hstart := installation_of_touches hsub id hbefore
      rw [hpend] at hnot
      obtain ⟨row, oid', hash', hrow, hkind, hsrc, hstart', hrendered⟩ :=
        (not_pending_iff hfirst hfirst (fun _ h => h) hobj).mp hnot
      rw [hstart, Option.some.injEq, Prod.mk.injEq] at hstart'
      have hident : row.identity = object.identity := by
        simpa using find?_some hrow
      exact ⟨row, mem_of_find?_eq_some hrow, hident, hkind, hsrc, hstart'.2 ▸ hrendered⟩
    · rw [hpend] at hnot
      obtain ⟨row, oid', hash', hrow, hkind, hsrc, hbefore', hrendered⟩ :=
        (not_pending_iff hfirst hlive hshrinks hobj).mp hnot
      rw [hbefore, Option.some.injEq, Prod.mk.injEq] at hbefore'
      have hident : row.identity = object.identity := by
        simpa using find?_some hrow
      exact ⟨row, mem_of_find?_eq_some hrow, hident, hkind, hsrc, hbefore'.2 ▸ hrendered⟩
  · intro retirement hretirement
    refine (retire_lacks hfirst hretire retirement hretirement).of_touches htouches ?_
    rintro ⟨object, hpended, hsame⟩
    exact manifest.not_declared retirement hretirement
      (mem_map.mpr ⟨object, hdecl object hpended, congrArg Identity.render hsame⟩)

end Pending

end Batter.Managed
