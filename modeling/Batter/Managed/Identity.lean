import Mathlib

/-!
# Managed objects: names and identities

A managed object is a routine, identified by its schema, its name and the exact
types of its arguments, or a trigger, identified by its table and its name.
The ledger, the catalog reads and the findings all use one rendered text for an
identity, in which every name is quoted and a quote inside a name is doubled.

`Identity.render_injective` says that the text determines the identity, so that
a map keyed by rendered identities is a map keyed by identities, and
`Identity.render_ne_setRow` that no identity has the text of the ledger's own
row.
-/

namespace Batter.Managed

open List

def validIdentifier (value : String) : Bool :=
  !(value.isEmpty || decide (63 < value.utf8ByteSize) || value.toList.contains (.ofNat 0))

/-- A validated PostgreSQL identifier. -/
structure Identifier where
  asStr : String
  valid : validIdentifier asStr = true
deriving DecidableEq

/-- The characters of a name between quotes. -/
def doubleQuotes (chars : List Char) : List Char :=
  chars.flatMap fun c => if c = '"' then ['"', '"'] else [c]

def quoteIdentifier (value : String) : String :=
  "\"" ++ String.ofList (doubleQuotes value.toList) ++ "\""

def Identifier.quoted (identifier : Identifier) : String :=
  quoteIdentifier identifier.asStr

/-- A schema-qualified name. -/
structure QualifiedName where
  schema : Identifier
  name : Identifier
deriving DecidableEq

def QualifiedName.quoted (name : QualifiedName) : String :=
  name.schema.quoted ++ "." ++ name.name.quoted

/-- One canonical input type of a routine. -/
structure RoutineType where
  name : QualifiedName
  array : Bool
deriving DecidableEq

def RoutineType.display (type : RoutineType) : String :=
  if type.array then type.name.quoted ++ "[]" else type.name.quoted

/-- A structural routine identity. -/
structure RoutineSignature where
  schema : Identifier
  name : Identifier
  arguments : List RoutineType
deriving DecidableEq

def RoutineSignature.asStr (signature : RoutineSignature) : String :=
  signature.schema.quoted ++ "." ++ signature.name.quoted ++ "(" ++
    String.intercalate ", " (signature.arguments.map RoutineType.display) ++ ")"

/-- Structural identity shared by entries and retirements. -/
inductive Identity where
  | routine (signature : RoutineSignature)
  | trigger (table : QualifiedName) (name : Identifier)
deriving DecidableEq

namespace Identity

def render : Identity → String
  | routine signature => signature.asStr
  | trigger table name => name.quoted ++ " ON " ++ table.quoted

/-- Whether the identity is that of a trigger. -/
def isTrigger : Identity → Bool
  | routine _ => false
  | trigger _ _ => true

end Identity

/-- Ledger identity of the row that records the applied set digest. -/
def setRow : String := "manifest"

/-- What follows a quoted name does not start with another quote. -/
def EndsName (rest : List Char) : Prop :=
  rest.head? ≠ some '"'

attribute [local simp] EndsName

theorem doubleQuotes_append_inj {a b x y : List Char} (hx : EndsName x) (hy : EndsName y)
    (h : doubleQuotes a ++ '"' :: x = doubleQuotes b ++ '"' :: y) : a = b ∧ x = y := by
  induction a generalizing b with
  | nil =>
    cases b with
    | nil =>
      simpa [doubleQuotes] using h
    | cons d b =>
      by_cases hd : d = '"'
      · subst hd
        simp only [doubleQuotes, flatMap_nil, nil_append, flatMap_cons, if_pos,
          cons_append, List.cons.injEq, true_and] at h
        simp [h] at hx
      · simp [doubleQuotes, hd] at h
        exact absurd h.1.symm hd
  | cons c a ih =>
    cases b with
    | nil =>
      by_cases hc : c = '"'
      · subst hc
        simp only [doubleQuotes, flatMap_nil, nil_append, flatMap_cons, if_pos,
          cons_append, List.cons.injEq, true_and] at h
        simp [← h] at hy
      · simp [doubleQuotes, hc] at h
    | cons d b =>
      have hcd : c = d ∧ doubleQuotes a ++ '"' :: x = doubleQuotes b ++ '"' :: y := by
        by_cases hc : c = '"' <;> by_cases hd : d = '"' <;>
          simp_all [doubleQuotes, eq_comm]
      obtain ⟨hab, hxy⟩ := ih hcd.2
      exact ⟨by rw [hcd.1, hab], hxy⟩

theorem toList_quoted (ident : Identifier) :
    ident.quoted.toList = '"' :: (doubleQuotes ident.asStr.toList ++ ['"']) := by
  simp [Identifier.quoted, quoteIdentifier]

variable {x y : List Char}

/-- A quoted name is separated from what follows it. -/
theorem Identifier.quoted_append_inj {a b : Identifier} (hx : EndsName x) (hy : EndsName y)
    (h : a.quoted.toList ++ x = b.quoted.toList ++ y) : a = b ∧ x = y := by
  simp only [toList_quoted, cons_append, append_assoc, nil_append, List.cons.injEq, true_and] at h
  obtain ⟨hab, hxy⟩ := doubleQuotes_append_inj hx hy h
  have hstr : a.asStr = b.asStr := String.toList_injective hab
  cases a
  cases b
  cases hstr
  exact ⟨rfl, hxy⟩

theorem QualifiedName.toList_quoted (name : QualifiedName) :
    name.quoted.toList = name.schema.quoted.toList ++ '.' :: name.name.quoted.toList := by
  simp [QualifiedName.quoted]

theorem QualifiedName.quoted_append_inj {a b : QualifiedName} (hx : EndsName x) (hy : EndsName y)
    (h : a.quoted.toList ++ x = b.quoted.toList ++ y) : a = b ∧ x = y := by
  rw [QualifiedName.toList_quoted, QualifiedName.toList_quoted, append_assoc,
    append_assoc, cons_append, cons_append] at h
  obtain ⟨hschema, hrest⟩ := Identifier.quoted_append_inj (by simp)
    (by simp) h
  obtain ⟨hname, hxy⟩ := Identifier.quoted_append_inj hx hy (List.cons.inj hrest).2
  cases a
  cases b
  simp only at hschema hname
  exact ⟨by rw [hschema, hname], hxy⟩

/-- What follows a type does not continue its name or its brackets. -/
def EndsType (rest : List Char) : Prop :=
  EndsName rest ∧ rest.head? ≠ some '['

theorem RoutineType.toList_display (type : RoutineType) :
    type.display.toList = type.name.quoted.toList ++ if type.array then ['[', ']'] else [] := by
  unfold RoutineType.display
  split_ifs <;> simp

theorem RoutineType.display_append_inj {a b : RoutineType} (hx : EndsType x) (hy : EndsType y)
    (h : a.display.toList ++ x = b.display.toList ++ y) : a = b ∧ x = y := by
  have hends : ∀ (array : Bool) {rest : List Char}, EndsType rest →
      EndsName ((if array then ['[', ']'] else []) ++ rest) := by
    intro array rest hrest
    cases array with
    | false => exact hrest.1
    | true => simp
  rw [RoutineType.toList_display, RoutineType.toList_display, append_assoc, append_assoc] at h
  obtain ⟨hname, hrest⟩ := QualifiedName.quoted_append_inj (hends a.array hx) (hends b.array hy) h
  obtain ⟨harray, hxy⟩ : a.array = b.array ∧ x = y := by
    cases ha : a.array <;> cases hb : b.array <;> simp [ha, hb] at hrest
    · exact ⟨rfl, hrest⟩
    · exact absurd (by simp [hrest]) hx.2
    · exact absurd (by simp [← hrest]) hy.2
    · exact ⟨rfl, hrest⟩
  cases a
  cases b
  simp only at hname harray
  exact ⟨by rw [hname, harray], hxy⟩

theorem RoutineType.head?_display_append (type : RoutineType) (rest : List Char) :
    (type.display.toList ++ rest).head? = some '"' := by
  simp [RoutineType.toList_display, QualifiedName.toList_quoted, Managed.toList_quoted]

/-- The arguments of a signature as they are rendered, with the closing bracket. -/
def renderedArguments : List RoutineType → List Char
  | [] => [')']
  | [type] => type.display.toList ++ [')']
  | type :: next :: rest =>
    type.display.toList ++ ',' :: ' ' :: renderedArguments (next :: rest)

theorem toList_intercalate_arguments (types : List RoutineType) :
    (String.intercalate ", " (types.map RoutineType.display)).toList ++ [')'] =
      renderedArguments types := by
  rw [String.toList_intercalate, map_map]
  fun_induction renderedArguments types with
  | case1 => rfl
  | case2 type => simp
  | case3 type next rest ih =>
    simp only [map_cons, intercalate_cons_cons, append_assoc] at ih ⊢
    rw [ih]
    rfl

theorem renderedArguments_inj {types types' : List RoutineType}
    (h : renderedArguments types = renderedArguments types') : types = types' := by
  have hclosing : EndsType [')'] := by simp [EndsType]
  have hcomma : ∀ rest : List Char, EndsType (',' :: rest) := by simp [EndsType]
  fun_induction renderedArguments types generalizing types' with
  | case1 =>
    fun_cases renderedArguments types' with
    | case1 => rfl
    | case2 type =>
      have hhead := RoutineType.head?_display_append type [')']
      rw [renderedArguments] at h
      rw [← h] at hhead
      simp at hhead
    | case3 type next rest =>
      have hhead := RoutineType.head?_display_append type
        (',' :: ' ' :: renderedArguments (next :: rest))
      rw [renderedArguments] at h
      simp [← h] at hhead
  | case2 type =>
    fun_cases renderedArguments types' with
    | case1 =>
      have hhead := RoutineType.head?_display_append type [')']
      simp [renderedArguments, h] at hhead
    | case2 type' =>
      rw [(RoutineType.display_append_inj hclosing hclosing h).1]
    | case3 type' next rest =>
      exact absurd (RoutineType.display_append_inj hclosing (hcomma _) h).2 (by simp)
  | case3 type next rest ih =>
    fun_cases renderedArguments types' with
    | case1 =>
      have hhead := RoutineType.head?_display_append type
        (',' :: ' ' :: renderedArguments (next :: rest))
      simp [renderedArguments, h] at hhead
    | case2 type' =>
      exact absurd (RoutineType.display_append_inj (hcomma _) hclosing h).2 (by simp)
    | case3 type' next' rest' =>
      obtain ⟨htype, hrest⟩ := RoutineType.display_append_inj (hcomma _) (hcomma _) h
      rw [htype, ih (List.cons.inj (List.cons.inj hrest).2).2]

theorem RoutineSignature.toList_asStr (sig : RoutineSignature) : sig.asStr.toList =
      sig.schema.quoted.toList ++ '.' :: (sig.name.quoted.toList ++
        '(' :: renderedArguments sig.arguments) := by
  rw [← toList_intercalate_arguments]
  simp [RoutineSignature.asStr]

theorem RoutineSignature.asStr_injective {a b : RoutineSignature} (h : a.asStr = b.asStr) :
    a = b := by
  have hlist := congrArg String.toList h
  rw [toList_asStr, toList_asStr] at hlist
  obtain ⟨hschema, hrest⟩ := Identifier.quoted_append_inj (by simp)
    (by simp) hlist
  obtain ⟨hname, htail⟩ := Identifier.quoted_append_inj (by simp)
    (by simp) (List.cons.inj hrest).2
  have harguments := renderedArguments_inj (List.cons.inj htail).2
  cases a
  cases b
  simp only at hschema hname harguments
  rw [hschema, hname, harguments]

namespace Identity

theorem toList_render_trigger (table : QualifiedName) (name : Identifier) :
    (trigger table name).render.toList =
      name.quoted.toList ++ ' ' :: 'O' :: 'N' :: ' ' :: table.quoted.toList := by
  simp [render]

/-- The rendered text determines the identity. -/
theorem render_injective : Function.Injective render := by
  intro a b h
  have hlist := congrArg String.toList h
  have hdot : ∀ rest : List Char, EndsName ('.' :: rest) := by simp
  have hspace : ∀ rest : List Char, EndsName (' ' :: rest) := by simp
  cases a with
  | routine sig =>
    cases b with
    | routine sig' =>
      rw [RoutineSignature.asStr_injective h]
    | trigger table' name' =>
      rw [toList_render_trigger, render, RoutineSignature.toList_asStr] at hlist
      exact absurd (Identifier.quoted_append_inj (hdot _) (hspace _) hlist).2 (by simp)
  | trigger table name =>
    cases b with
    | routine sig' =>
      rw [toList_render_trigger, render, RoutineSignature.toList_asStr] at hlist
      exact absurd (Identifier.quoted_append_inj (hspace _) (hdot _) hlist).2 (by simp)
    | trigger table' name' =>
      rw [toList_render_trigger, toList_render_trigger] at hlist
      obtain ⟨hname, hrest⟩ := Identifier.quoted_append_inj (hspace _) (hspace _) hlist
      simp only [List.cons.injEq, true_and] at hrest
      have htable := QualifiedName.quoted_append_inj (a := table) (b := table') (x := [])
        (y := []) (by simp) (by simp) (by simpa using hrest)
      rw [hname, htable.1]

/-- No identity has the text of the ledger's own row. -/
theorem render_ne_setRow (ident : Identity) : ident.render ≠ setRow := by
  intro h
  have hlist := congrArg String.toList h
  cases ident with
  | routine sig =>
    simp [render, RoutineSignature.toList_asStr, toList_quoted, setRow] at hlist
  | trigger table name =>
    simp [toList_render_trigger, toList_quoted, setRow] at hlist

end Identity

end Batter.Managed
