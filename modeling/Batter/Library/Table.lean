import Mathlib

/-!
# Tables of rows

A table of a relational database is a list of rows whose primary keys are
distinct.  `insert?` fails on a key that is in use, `update` rewrites the rows
that satisfy a condition and keeps their keys, `delete` drops the rows that
satisfy one.

A row is looked up by its key with `get?`.  Each statement has one lemma about
membership and one about lookup; nothing below the statements is unfolded later.
`orderedBy` lists rows in ascending order of a column.
-/

namespace Batter

open List

/-- Rows with distinct keys. -/
structure Table {R K : Type} (key : R → K) where
  rows : List R
  nodup : (rows.map key).Nodup

namespace Table

section

variable {R K : Type} {key : R → K}

instance : Membership R (Table key) where
  mem table row := row ∈ table.rows

/-- The table without rows. -/
def empty : Table key := ⟨[], List.nodup_nil⟩

/-- `UPDATE … SET f WHERE condition`; the primary key is not assigned. -/
def update (table : Table key) (condition : R → Bool) (f : R → R)
    (hkey : ∀ row, key (f row) = key row) : Table key :=
  ⟨table.rows.map fun row => if condition row then f row else row, by
    have hkeys : (fun row => key (if condition row then f row else row)) = key := by
      funext row
      split_ifs
      · exact hkey row
      · rfl
    rw [List.map_map, Function.comp_def, hkeys]
    exact table.nodup⟩

/-- `DELETE … WHERE condition`. -/
def delete (table : Table key) (condition : R → Bool) : Table key :=
  ⟨table.rows.filter fun row => !condition row,
    (List.filter_sublist.map key).nodup table.nodup⟩

/-- `SELECT … WHERE condition`, in no particular order. -/
def select (table : Table key) (condition : R → Bool) : List R :=
  table.rows.filter condition

variable {row : R} {table table' : Table key} {condition : R → Bool} {f : R → R} {cond : R → Bool}
variable {rel : R → R → Prop} {hkey : ∀ row, key (f row) = key row}

theorem mem_rows : row ∈ table.rows ↔ row ∈ table :=
  Iff.rfl

@[ext]
theorem ext (h : table.rows = table'.rows) : table = table' := by
  cases table
  cases table'
  simp only at h
  subst h
  rfl

@[simp]
theorem mem_select : row ∈ table.select condition ↔ row ∈ table ∧ condition row = true :=
  mem_filter

/-- Rows with the same key are the same row. -/
theorem eq_of_key_eq {row row' : R} (h : row ∈ table) (h' : row' ∈ table)
    (hkey : key row = key row') : row = row' :=
  inj_on_of_nodup_map table.nodup h h' hkey

theorem nodup_rows (table : Table key) : table.rows.Nodup :=
  .of_map key table.nodup

theorem mem_update : row ∈ table.update condition f hkey ↔
      ∃ before ∈ table, (if condition before then f before else before) = row :=
  mem_map

/-- The row that an updated row comes from. -/
theorem mem_update_of_mem (h : row ∈ table) :
    (if condition row then f row else row) ∈ table.update condition f hkey :=
  mem_update.mpr ⟨row, h, rfl⟩

theorem mem_update_of_pos (hrow : row ∈ table)
    (hcond : cond row = true) : f row ∈ table.update cond f hkey :=
  mem_update.mpr ⟨row, hrow, if_pos hcond⟩

theorem mem_update_of_neg (hrow : row ∈ table)
    (hcond : cond row = false) : row ∈ table.update cond f hkey :=
  mem_update.mpr ⟨row, hrow, if_neg (by simp [hcond])⟩

/-- An update that no row meets changes nothing. -/
theorem update_eq_self (h : ∀ row ∈ table, cond row = false) :
    table.update cond f hkey = table := by
  refine ext ((map_congr_left fun row hrow => ?_).trans table.rows.map_id)
  simp [h row hrow]

/-- The rows of one table correspond to those of the other. -/
def Related (rel : R → R → Prop) (table table' : Table key) : Prop :=
  (∀ row ∈ table, ∃ row' ∈ table', rel row row') ∧ ∀ row' ∈ table', ∃ row ∈ table, rel row row'

theorem Related.refl (h : ∀ row, rel row row) (table : Table key) : Related rel table table :=
  ⟨fun row hrow => ⟨row, hrow, h row⟩, fun row hrow => ⟨row, hrow, h row⟩⟩

theorem Related.imp {rel rel' : R → R → Prop}
    (h : Related rel table table') (himp : ∀ row row', rel row row' → rel' row row') :
    Related rel' table table' := by
  refine ⟨fun row hrow => ?_, fun row' hrow' => ?_⟩
  · obtain ⟨row', hrow', hrel⟩ := h.1 row hrow
    exact ⟨row', hrow', himp row row' hrel⟩
  · obtain ⟨row, hrow, hrel⟩ := h.2 row' hrow'
    exact ⟨row, hrow, himp row row' hrel⟩

theorem Related.trans {table table' table'' : Table key}
    (htrans : ∀ a b c, rel a b → rel b c → rel a c) (h : Related rel table table')
    (h' : Related rel table' table'') : Related rel table table'' := by
  constructor
  · intro row hrow
    obtain ⟨row', hrow', hrel⟩ := h.1 row hrow
    obtain ⟨row'', hrow'', hrel'⟩ := h'.1 row' hrow'
    exact ⟨row'', hrow'', htrans _ _ _ hrel hrel'⟩
  · intro row'' hrow''
    obtain ⟨row', hrow', hrel'⟩ := h'.2 row'' hrow''
    obtain ⟨row, hrow, hrel⟩ := h.2 row' hrow'
    exact ⟨row, hrow, htrans _ _ _ hrel hrel'⟩

theorem related_update (hkey : ∀ row, key (f row) = key row)
    (hsame : ∀ row ∈ table, condition row = false → rel row row)
    (hnew : ∀ row ∈ table, condition row = true → rel row (f row)) :
    Related rel table (table.update condition f hkey) := by
  have hrel : ∀ row ∈ table, rel row (if condition row then f row else row) := by
    intro row hrow
    split_ifs with h
    · exact hnew row hrow h
    · exact hsame row hrow (by simpa using h)
  constructor
  · intro row hrow
    exact ⟨_, mem_update_of_mem hrow, hrel row hrow⟩
  · intro row' hrow'
    obtain ⟨row, hrow, rfl⟩ := mem_update.mp hrow'
    exact ⟨row, hrow, hrel row hrow⟩

/-- A condition that one row meets alone selects that row. -/
theorem select_eq_singleton (hrow : row ∈ table) (hcondition : condition row = true)
    (huniq : ∀ row' ∈ table, condition row' = true → row' = row) :
    table.select condition = [row] := by
  refine perm_singleton.mp ?_
  refine (perm_ext_iff_of_nodup (table.nodup_rows.filter _) (nodup_singleton row)).mpr ?_
  intro row'
  rw [mem_singleton, mem_filter]
  constructor
  · rintro ⟨hmem, hcond⟩
    exact huniq row' hmem hcond
  · rintro rfl
    exact ⟨hrow, hcondition⟩

theorem mem_delete : row ∈ table.delete condition ↔ row ∈ table ∧ condition row = false := by
  unfold delete
  rw [← mem_rows, mem_filter, Bool.not_eq_true']
  rfl

end

section Lookup

variable {R K : Type} [DecidableEq K] {key : R → K}

/-- The row with a key, if there is one. -/
def get? (table : Table key) (k : K) : Option R :=
  table.rows.find? fun row => key row = k

/-- `INSERT`, which fails on a key that is in use. -/
def insert? (table : Table key) (row : R) : Option (Table key) :=
  if h : key row ∈ table.rows.map key then none
  else some ⟨table.rows ++ [row], by
    rw [List.map_append, List.map_singleton]
    exact List.nodup_append.mpr ⟨table.nodup, List.nodup_singleton _, by
      intro a ha b hb
      rw [List.mem_singleton] at hb
      subst hb
      exact fun heq => h (heq ▸ ha)⟩⟩

variable {k : K} {row : R} {table table' : Table key} {condition : R → Bool} {f : R → R}
variable {hkey : ∀ row, key (f row) = key row}

theorem get?_eq_some : table.get? k = some row ↔ row ∈ table ∧ key row = k := by
  constructor
  · intro h
    exact ⟨mem_of_find?_eq_some h, by simpa using find?_some h⟩
  · rintro ⟨hmem, rfl⟩
    cases hfind : table.get? (key row) with
    | none =>
      have hnone := find?_eq_none.mp hfind row hmem
      simp at hnone
    | some row' =>
      have hmem' : row' ∈ table := mem_of_find?_eq_some hfind
      have hkey' : key row' = key row := by simpa using find?_some hfind
      rw [eq_of_key_eq hmem' hmem hkey']

theorem get?_of_mem (h : row ∈ table) : table.get? (key row) = some row :=
  get?_eq_some.mpr ⟨h, rfl⟩

theorem get?_eq_none : table.get? k = none ↔ ∀ row ∈ table, key row ≠ k := by
  unfold get?
  rw [find?_eq_none]
  simp [mem_rows]

theorem get?_update : (table.update condition f hkey).get? k =
      (table.get? k).map fun row => if condition row then f row else row := by
  cases hget : table.get? k with
  | none =>
    rw [Option.map_none, get?_eq_none]
    intro row hmem heq
    obtain ⟨before, hbefore, rfl⟩ := mem_update.mp hmem
    refine get?_eq_none.mp hget before hbefore ?_
    rw [← heq]
    split_ifs
    · rw [hkey]
    · rfl
  | some before =>
    obtain ⟨hmem, rfl⟩ := get?_eq_some.mp hget
    refine get?_eq_some.mpr ⟨mem_update_of_mem hmem, ?_⟩
    dsimp only
    split_ifs
    · exact hkey before
    · rfl

theorem rows_insert? (h : table.insert? row = some table') :
    table'.rows = table.rows ++ [row] := by
  unfold insert? at h
  split_ifs at h with hmem
  obtain rfl := Option.some.inj h
  rfl

theorem mem_insert? (h : table.insert? row = some table') :
    ∀ row', row' ∈ table' ↔ row' ∈ table ∨ row' = row := by
  intro row'
  rw [← mem_rows, rows_insert? h, mem_append, mem_singleton]
  rfl

theorem ne_of_insert? (h : table.insert? row = some table') :
    ∀ row' ∈ table, key row' ≠ key row := by
  intro row' hrow' heq
  unfold insert? at h
  split_ifs at h with hmem
  exact hmem (mem_map.mpr ⟨row', hrow', heq⟩)

/-- A key that is not in use can be inserted. -/
theorem exists_insert? (h : table.get? (key row) = none) :
    ∃ table', table.insert? row = some table' := by
  unfold insert?
  rw [dif_neg]
  · exact ⟨_, rfl⟩
  · intro hmem
    obtain ⟨row', hrow', heq⟩ := mem_map.mp hmem
    exact get?_eq_none.mp h row' hrow' heq

/-- An update of the row with one key. -/
def modify (table : Table key) (k : K) (f : R → R) (hkey : ∀ row, key (f row) = key row) :
    Table key :=
  table.update (fun row => key row = k) f hkey

theorem mem_modify : row ∈ table.modify k f hkey ↔
      (row ∈ table ∧ key row ≠ k) ∨ ∃ before ∈ table, key before = k ∧ f before = row := by
  rw [modify, mem_update]
  constructor
  · rintro ⟨before, hbefore, rfl⟩
    by_cases hk : key before = k
    · exact Or.inr ⟨before, hbefore, hk, by simp [hk]⟩
    · simp only [hk, decide_false, Bool.false_eq_true, if_false]
      exact Or.inl ⟨hbefore, hk⟩
  · rintro (⟨hrow, hk⟩ | ⟨before, hbefore, hk, rfl⟩)
    · exact ⟨row, hrow, by simp [hk]⟩
    · exact ⟨before, hbefore, by simp [hk]⟩

theorem mem_modify_self (hkey : ∀ row, key (f row) = key row) (hrow : row ∈ table) :
    f row ∈ table.modify (key row) f hkey :=
  mem_modify.mpr (Or.inr ⟨row, hrow, rfl, rfl⟩)

theorem related_modify {rel : R → R → Prop} (hkey : ∀ row, key (f row) = key row)
    (hrow : row ∈ table) (hsame : ∀ row' ∈ table, rel row' row') (hnew : rel row (f row)) :
    Related rel table (table.modify (key row) f hkey) := by
  refine related_update hkey (fun row' hrow' _ => hsame row' hrow') ?_
  intro row' hrow' hcondition
  rw [eq_of_key_eq hrow' hrow (by simpa using hcondition)]
  exact hnew

theorem get?_modify {k k' : K} :
    (table.modify k f hkey).get? k' = if k' = k then (table.get? k').map f else table.get? k' := by
  rw [modify, get?_update]
  cases hget : table.get? k' with
  | none =>
    simp
  | some row =>
    obtain ⟨_, rfl⟩ := get?_eq_some.mp hget
    by_cases hk : key row = k
    · simp [hk]
    · simp [hk]

/-- A condition that singles out one row updates the row with that key. -/
theorem update_eq_modify (hrow : row ∈ table)
    (hcondition : condition row = true)
    (huniq : ∀ row' ∈ table, condition row' = true → key row' = key row) :
    table.update condition f hkey = table.modify (key row) f hkey := by
  refine ext (map_congr_left fun row' hrow' => ?_)
  by_cases hk : key row' = key row
  · rw [eq_of_key_eq hrow' hrow hk, hcondition]
    simp
  · have hfalse : condition row' = false := by
      cases h : condition row' with
      | false => rfl
      | true => exact absurd (huniq row' hrow' h) hk
    simp [hfalse, hk]

/-- A row that stops to satisfy a predicate lowers its count by one. -/
theorem countP_modify {p : R → Bool} (hrow : row ∈ table)
    (hp : p row = true) (hp' : p (f row) = false) :
    (table.modify (key row) f hkey).rows.countP p + 1 = table.rows.countP p := by
  obtain ⟨before, after, hsplit⟩ := append_of_mem hrow
  have hnodup := table.nodup
  rw [hsplit, map_append, map_cons, nodup_append] at hnodup
  obtain ⟨_, hafter, hdisj⟩ := hnodup
  have hsame : ∀ l : List R, (∀ row' ∈ l, key row' ≠ key row) →
      l.map (fun row' => if decide (key row' = key row) = true then f row' else row') = l := by
    intro l hl
    refine (map_congr_left fun row' hrow' => ?_).trans l.map_id
    simp [hl row' hrow']
  have hbefore' := hsame before fun row' hrow' =>
    hdisj _ (mem_map_of_mem hrow') _ mem_cons_self
  have hafter' := hsame after fun row' hrow' heq =>
    (nodup_cons.mp hafter).1 (heq ▸ mem_map_of_mem hrow')
  have hrows : (table.modify (key row) f hkey).rows = before ++ f row :: after := by
    change table.rows.map _ = _
    rw [hsplit, map_append, map_cons, hbefore', hafter']
    simp
  rw [hrows, hsplit, countP_append, countP_append,
    countP_cons_of_neg (by simp [hp']), countP_cons_of_pos hp]
  omega

/-- `INSERT … ON CONFLICT DO UPDATE` with every column from the new row. -/
def upsert (table : Table key) (row : R) : Table key :=
  if h : key row ∈ table.rows.map key then
    ⟨table.rows.map fun old => if key old = key row then row else old, by
      have hkeys : (key ∘ fun old => if key old = key row then row else old) = key := by
        funext old
        by_cases hold : key old = key row
        · simp [hold]
        · simp [hold]
      rw [List.map_map, hkeys]
      exact table.nodup⟩
  else
    ⟨table.rows ++ [row], by
      rw [List.map_append, List.map_singleton]
      exact List.nodup_append.mpr ⟨table.nodup, List.nodup_singleton _, by
        rintro a ha b hb rfl
        rw [List.mem_singleton] at hb
        exact h (hb ▸ ha)⟩⟩

theorem mem_upsert {row row' : R} :
    row' ∈ table.upsert row ↔ row' = row ∨ (row' ∈ table ∧ key row' ≠ key row) := by
  unfold upsert
  split_ifs with h
  · rw [← mem_rows, mem_map]
    constructor
    · rintro ⟨old, hold, heq⟩
      split_ifs at heq with hkey
      · exact .inl heq.symm
      · exact .inr ⟨heq ▸ hold, heq ▸ hkey⟩
    · rintro (rfl | ⟨hmem, hkey⟩)
      · obtain ⟨old, hold, hkey⟩ := mem_map.mp h
        exact ⟨old, hold, if_pos hkey⟩
      · exact ⟨row', hmem, if_neg hkey⟩
  · rw [← mem_rows, mem_append, mem_singleton, or_comm]
    refine or_congr_right ⟨fun hmem => ⟨hmem, ?_⟩, And.left⟩
    intro hkey
    exact h (hkey ▸ mem_map_of_mem hmem)

/-- A row that is there already changes nothing. -/
theorem upsert_of_mem (h : row ∈ table) : table.upsert row = table := by
  apply ext
  unfold upsert
  rw [dif_pos (mem_map_of_mem h)]
  conv_rhs => rw [← map_id table.rows]
  refine map_congr_left fun old hold => ?_
  split_ifs with hkey
  · exact (eq_of_key_eq hold h hkey).symm
  · rfl

/-- The rows after an `INSERT` of several rows with distinct keys. -/
theorem mem_foldl_upsert {written : List R} (hnodup : (written.map key).Nodup) :
    row ∈ written.foldl upsert table ↔
      row ∈ written ∨ (row ∈ table ∧ key row ∉ written.map key) := by
  induction written generalizing table with
  | nil =>
    simp
  | cons first rest ih =>
    rw [map_cons, nodup_cons] at hnodup
    rw [foldl_cons, ih hnodup.2, mem_upsert, mem_cons, map_cons, mem_cons]
    constructor
    · rintro (hrest | ⟨rfl | ⟨hmem, hne⟩, hfresh⟩)
      · exact .inl (.inr hrest)
      · exact .inl (.inl rfl)
      · exact .inr ⟨hmem, fun h => h.elim hne hfresh⟩
    · rintro ((rfl | hrest) | ⟨hmem, hfresh⟩)
      · exact .inr ⟨.inl rfl, hnodup.1⟩
      · exact .inl hrest
      · exact .inr ⟨.inr ⟨hmem, fun h => hfresh (.inl h)⟩, fun h => hfresh (.inr h)⟩

end Lookup

end Table

section Order

variable {R K : Type} [LinearOrder K] {key : R → K}

/-- `ORDER BY column ASC`. -/
def orderedBy (column : R → K) (rows : List R) : List R :=
  rows.insertionSort fun row row' => column row ≤ column row'

theorem orderedBy_perm (column : R → K) (rows : List R) : (orderedBy column rows).Perm rows :=
  perm_insertionSort _ rows

variable {column : R → K}

@[simp]
theorem mem_orderedBy {rows : List R} {row : R} : row ∈ orderedBy column rows ↔ row ∈ rows :=
  (orderedBy_perm column rows).mem_iff

theorem pairwise_orderedBy (column : R → K) (rows : List R) :
    ((orderedBy column rows).map column).Pairwise (· ≤ ·) := by
  have htotal : Std.Total fun row row' : R => column row ≤ column row' :=
    ⟨fun row row' => le_total (column row) (column row')⟩
  have htrans : IsTrans R fun row row' => column row ≤ column row' :=
    ⟨fun _ _ _ => le_trans⟩
  rw [pairwise_map]
  exact pairwise_insertionSort _ rows

/-- Rows with distinct keys have only one order. -/
theorem orderedBy_eq {rows sorted : List R} (hnodup : (rows.map column).Nodup)
    (hperm : sorted.Perm rows) (hsorted : (sorted.map column).Pairwise (· ≤ ·)) :
    orderedBy column rows = sorted := by
  refine ((orderedBy_perm column rows).trans hperm.symm).eq_of_pairwise ?_
    (pairwise_map.mp (pairwise_orderedBy column rows)) (pairwise_map.mp hsorted)
  intro row row' hrow hrow' hle hge
  exact inj_on_of_nodup_map hnodup (mem_orderedBy.mp hrow) (hperm.mem_iff.mp hrow')
    (le_antisymm hle hge)

/-- Two selections with the same distinct keys have the same keys in order. -/
theorem map_orderedBy_eq {R' : Type} {column' : R' → K} {rows : List R} {rows' : List R'}
    (hnodup : (rows.map column).Nodup) (hnodup' : (rows'.map column').Nodup)
    (hmem : ∀ k, k ∈ rows.map column ↔ k ∈ rows'.map column') :
    (orderedBy column rows).map column = (orderedBy column' rows').map column' := by
  have hperm : ((orderedBy column rows).map column).Perm
      ((orderedBy column' rows').map column') :=
    (((orderedBy_perm column rows).map column).trans
      ((perm_ext_iff_of_nodup hnodup hnodup').mpr hmem)).trans
      ((orderedBy_perm column' rows').map column').symm
  exact hperm.eq_of_pairwise (fun _ _ _ _ => le_antisymm) (pairwise_orderedBy column rows)
    (pairwise_orderedBy column' rows')

/-- Rows that agree in their distinct keys are related in the order of the keys when
they are related in any order. -/
theorem forall₂_orderedBy_iff {R' : Type} {column' : R' → K} {rows : List R} {rows' : List R'}
    {related : R → R' → Prop} (hkey : ∀ row row', related row row' → column row = column' row')
    (hnodup : (rows.map column).Nodup) (hnodup' : (rows'.map column').Nodup) :
    List.Forall₂ related (orderedBy column rows) (orderedBy column' rows') ↔
      ∃ listed listed', listed.Perm rows ∧ listed'.Perm rows' ∧
        List.Forall₂ related listed listed' := by
  constructor
  · exact fun h => ⟨_, _, orderedBy_perm _ _, orderedBy_perm _ _, h⟩
  · rintro ⟨listed, listed', hperm, hperm', h⟩
    obtain ⟨hlen, hrelated⟩ := forall₂_iff_zip.mp h
    have hsorted := pairwise_orderedBy (column ∘ Prod.fst) (listed.zip listed')
    have hpairs := orderedBy_perm (column ∘ Prod.fst) (listed.zip listed')
    set pairs := orderedBy (column ∘ Prod.fst) (listed.zip listed')
    have hmem : ∀ pair ∈ pairs, related pair.1 pair.2 := fun pair hpair =>
      hrelated (hpairs.mem_iff.mp hpair)
    have hkeys : pairs.map (column ∘ Prod.fst) = pairs.map (column' ∘ Prod.snd) :=
      map_congr_left fun pair hpair => hkey _ _ (hmem pair hpair)
    have hfst : (pairs.map Prod.fst).Perm rows :=
      (map_fst_zip hlen.le ▸ hpairs.map Prod.fst).trans hperm
    have hsnd : (pairs.map Prod.snd).Perm rows' :=
      (map_snd_zip hlen.ge ▸ hpairs.map Prod.snd).trans hperm'
    rw [orderedBy_eq hnodup hfst (by rwa [map_map]),
      orderedBy_eq hnodup' hsnd (by rwa [map_map, ← hkeys]), forall₂_map_left_iff,
      forall₂_map_right_iff, forall₂_same]
    exact hmem

end Order

end Batter
