import Mathlib

/-!
# JSON values

A JSON document as a database stores it: numbers are exact decimals, given by
their value, and an object is the list of its members in the order in which they
are stored, shorter names first.  Equality of documents is decidable.

The second part reads typed values out of a document: members of an object that
must be there, or that may be missing or null, and lists.  Each reader comes with
the lemma that it undoes the writer.
-/

namespace Batter

variable {name : String}

/-- A JSON value. -/
inductive Json
  | null
  | bool (value : Bool)
  | num (value : ℚ)
  | str (value : String)
  | arr (items : List Json)
  | obj (members : List (String × Json))

namespace Json

mutual

/-- Whether two values are the same. -/
def same : Json → Json → Bool
  | .null, .null => true
  | .bool value, .bool value' => value == value'
  | .num value, .num value' => decide (value = value')
  | .str value, .str value' => value == value'
  | .arr items, .arr items' => sameItems items items'
  | .obj members, .obj members' => sameMembers members members'
  | _, _ => false

/-- Whether two lists hold the same values. -/
def sameItems : List Json → List Json → Bool
  | [], [] => true
  | item :: items, item' :: items' => same item item' && sameItems items items'
  | _, _ => false

/-- Whether two objects have the same members. -/
def sameMembers : List (String × Json) → List (String × Json) → Bool
  | [], [] => true
  | (name, value) :: members, (name', value') :: members' =>
    name == name' && (same value value' && sameMembers members members')
  | _, _ => false

end

mutual

theorem eq_of_same : ∀ left right : Json, same left right = true → left = right
  | .null, right, h => by
    cases right <;> simp_all [same]
  | .bool _, right, h => by
    cases right <;> simp_all [same]
  | .num _, right, h => by
    cases right <;> simp_all [same]
  | .str _, right, h => by
    cases right <;> simp_all [same]
  | .arr items, right, h => by
    cases right with
    | arr items' =>
      rw [same] at h
      rw [eq_of_sameItems items items' h]
    | _ => simp [same] at h
  | .obj members, right, h => by
    cases right with
    | obj members' =>
      rw [same] at h
      rw [eq_of_sameMembers members members' h]
    | _ => simp [same] at h

theorem eq_of_sameItems : ∀ left right : List Json, sameItems left right = true → left = right
  | [], right, h => by
    cases right with
    | nil => rfl
    | cons _ _ => simp [sameItems] at h
  | item :: items, right, h => by
    cases right with
    | nil => simp [sameItems] at h
    | cons item' items' =>
      rw [sameItems, Bool.and_eq_true] at h
      rw [eq_of_same item item' h.1, eq_of_sameItems items items' h.2]

theorem eq_of_sameMembers :
    ∀ left right : List (String × Json), sameMembers left right = true → left = right
  | [], right, h => by
    cases right with
    | nil => rfl
    | cons _ _ => simp [sameMembers] at h
  | (name, value) :: members, right, h => by
    cases right with
    | nil => simp [sameMembers] at h
    | cons member' members' =>
      obtain ⟨name', value'⟩ := member'
      rw [sameMembers, Bool.and_eq_true, Bool.and_eq_true, beq_iff_eq] at h
      rw [h.1, eq_of_same value value' h.2.1, eq_of_sameMembers members members' h.2.2]

end

mutual

theorem same_refl : ∀ value : Json, same value value = true
  | .null => by simp [same]
  | .bool _ => by simp [same]
  | .num _ => by simp [same]
  | .str _ => by simp [same]
  | .arr items => by rw [same]; exact sameItems_refl items
  | .obj members => by rw [same]; exact sameMembers_refl members

theorem sameItems_refl : ∀ items : List Json, sameItems items items = true
  | [] => by simp [sameItems]
  | item :: items => by
    rw [sameItems, same_refl item, sameItems_refl items]
    rfl

theorem sameMembers_refl : ∀ members : List (String × Json), sameMembers members members = true
  | [] => by simp [sameMembers]
  | (name, value) :: members => by
    rw [sameMembers, same_refl value, sameMembers_refl members, beq_self_eq_true]
    rfl

end

instance : DecidableEq Json := fun left right =>
  if h : same left right = true then isTrue (eq_of_same left right h)
  else isFalse fun heq => h (heq ▸ same_refl left)

section Readers

variable {α : Type}

/-- The members of an object; a strict reader has to know all their names. -/
def members? (strict : Bool) (known : List String) : Json → Option (List (String × Json))
  | .obj members =>
    if strict && members.any (fun member => member.1 ∉ known) then none else some members
  | _ => none

/-- A member of an object. -/
def member? (name : String) : Json → Option Json
  | .obj members => members.lookup name
  | _ => none

def str? : Json → Option String
  | .str value => some value
  | _ => none

/-- A truth value. -/
def bool? : Json → Option Bool
  | .bool value => some value
  | _ => none

/-- An integer within bounds. -/
def int? (lower upper : ℤ) : Json → Option ℤ
  | .num value =>
    if value.den = 1 ∧ lower ≤ value.num ∧ value.num ≤ upper then some value.num else none
  | _ => none

section

variable (read : Json → Option α)

/-- A list whose items are all read. -/
def items? : Json → Option (List α)
  | .arr items => items.mapM read
  | _ => none

/-- A member that has to be there. -/
def required (name : String) (members : List (String × Json)) : Option α :=
  (members.lookup name).bind read

/-- A member that may be missing or null. -/
def optional (name : String) (members : List (String × Json)) : Option (Option α) :=
  match members.lookup name with
  | none | some .null => some none
  | some value => (read value).map some

/-- A member that has a default. -/
def defaulted (default : α) (name : String) (members : List (String × Json)) : Option α :=
  (members.lookup name).elim (some default) read

end

/-- A value, or null. -/
def ofOption (write : α → Json) (value : Option α) : Json :=
  value.elim .null write

variable {members : List (String × Json)} {read : Json → Option α}

theorem members?_obj {strict : Bool} {known : List String}
    (h : ∀ member ∈ members, member.1 ∈ known) :
    members? strict known (.obj members) = some members := by
  have hnone : (members.any fun member => decide (member.1 ∉ known)) = false := by
    rw [List.any_eq_false]
    intro member hmember
    simp [h member hmember]
  rw [members?, hnone, Bool.and_false]
  rfl

theorem int?_num {lower upper value : ℤ} (hlower : lower ≤ value) (hupper : value ≤ upper) :
    int? lower upper (.num value) = some value := by
  simp [int?, hlower, hupper]

theorem items?_arr (read : Json → Option α) {write : α → Json} {values : List α}
    (h : ∀ value ∈ values, read (write value) = some value) :
    items? read (.arr (values.map write)) = some values := by
  rw [items?]
  induction values with
  | nil => rfl
  | cons value values ih =>
    rw [List.forall_mem_cons] at h
    rw [List.map_cons, List.mapM_cons, h.1, ih h.2]
    rfl

theorem required_of_lookup {value : Json} {a : α} (h : members.lookup name = some value)
    (hread : read value = some a) : required read name members = some a := by
  rw [required, h, Option.bind_some, hread]

/-- A value that was written as itself or as null is read back. -/
theorem optional_of_lookup {write : α → Json} {value : Option α}
    (h : members.lookup name = some (ofOption write value))
    (hread : ∀ a, value = some a → read (write a) = some a) (hnull : ∀ a, write a ≠ .null) :
    optional read name members = some value := by
  rw [optional, h]
  cases value with
  | none => rfl
  | some a =>
    rw [ofOption, Option.elim_some]
    split
    · rename_i heq
      cases heq
    · rename_i heq
      exact absurd (Option.some.inj heq) (hnull a)
    · rename_i heq
      obtain rfl := Option.some.inj heq
      rw [hread a rfl, Option.map_some]

/-- A value that was written only if there is one is read back. -/
theorem optional_of_skipped {read : Json → Option α} (write : α → Json) (value : Option α)
    (h : members.lookup name = value.map write)
    (hread : ∀ a, value = some a → read (write a) = some a) (hnull : ∀ a, write a ≠ .null) :
    optional read name members = some value := by
  cases value with
  | none => rw [optional, h, Option.map_none]
  | some a => exact optional_of_lookup h hread hnull

end Readers

end Json

end Batter
