import Batter.Library.Fallible
import Batter.Library.Utf8

/-!
# Reading one cookie

A request may carry several Cookie fields.  `readFields` walks through the pieces of each
field between semicolons and leaves at the first one that it refuses.  Whether it ends with
a value, and with which, depends only on the collection of these pieces
(`cookie_selection_is_exact`).  A text stands for its bytes: all that the source looks for
in a text are characters of the seven-bit range.
-/

namespace Batter.Axum

open RustStd Bytes List

section Source

inductive CookieHeaderPolicy
  | strict
  | targetOnly
deriving DecidableEq

inductive CookieHeaderError
  | nonUtf8
  | malformedPair
  | duplicateTarget
  | invalidTargetValue

def isOws (byte : UInt8) : Bool :=
  byte = 0x20 || byte = 0x09

def trimOws (value : List UInt8) : List UInt8 :=
  (value.dropWhile isOws).rdropWhile isOws

def splitOnce (separator : UInt8) (value : List UInt8) : Option (List UInt8 × List UInt8) :=
  if separator ∈ value then
    some (value.takeWhile (· ≠ separator), (value.dropWhile (· ≠ separator)).tail)
  else none

def isCookieName (value : List UInt8) : Bool :=
  !value.isEmpty && value.all fun byte =>
    0x21 ≤ byte && byte ≤ 0x7E &&
      byte ∉ [0x28, 0x29, 0x3C, 0x3E, 0x40, 0x2C, 0x3B, 0x3A, 0x5C, 0x22, 0x2F, 0x5B, 0x5D, 0x3F,
        0x3D, 0x7B, 0x7D]

def isCookieValue (value : List UInt8) : Bool :=
  value.all fun byte =>
    byte = 0x21 || (0x23 ≤ byte && byte ≤ 0x2B) || (0x2D ≤ byte && byte ≤ 0x3A) ||
      (0x3C ≤ byte && byte ≤ 0x5B) || (0x5D ≤ byte && byte ≤ 0x7E)

variable (name : List UInt8) (policy : CookieHeaderPolicy)

/-- The body of the inner loop; `found` is the value of the target so far. -/
def readFragment (found : Option (List UInt8)) (fragment : List UInt8) :
    Except CookieHeaderError (Option (List UInt8)) :=
  let fragment := trimOws fragment
  if fragment = [] then .ok found
  else
    match splitOnce 0x3D fragment with
    | none => do
      rejectIf (policy = .strict || trimOws fragment = name) .malformedPair
      return found
    | some (pairName, pairValue) =>
      let pairName := trimOws pairName
      let pairValue := trimOws pairValue
      if pairName = name then do
        rejectIf (!isCookieValue pairValue) .invalidTargetValue
        rejectIf found.isSome .duplicateTarget
        return some pairValue
      else do
        rejectIf (policy = .strict && (!isCookieName pairName || !isCookieValue pairValue))
          .malformedPair
        return found

def readField (found : Option (List UInt8)) (field : List UInt8) :
    Except CookieHeaderError (Option (List UInt8)) := do
  let _ ← require .nonUtf8 (fromUtf8 field)
  (field.splitOn 0x3B).foldlM (readFragment name policy) found

def readFields (fields : List (List UInt8)) : Except CookieHeaderError (Option (List UInt8)) :=
  fields.foldlM (readField name policy) none

end Source

/-- The stripped pieces that are not empty. -/
def stripped (pieces : List (List UInt8)) : List (List UInt8) :=
  (pieces.map trimOws).filter (· ≠ [])

/-- The fragments of all fields. -/
def fragments (fields : List (List UInt8)) : List (List UInt8) :=
  stripped (fields.flatMap (·.splitOn 0x3B))

/-- What stands before the first `=` of a fragment. -/
def pairName (fragment : List UInt8) : List UInt8 :=
  trimOws (fragment.takeWhile (· ≠ 0x3D))

/-- What stands behind it. -/
def pairValue (fragment : List UInt8) : List UInt8 :=
  trimOws (fragment.dropWhile (· ≠ 0x3D)).tail

/-- The fragments that name the cookie. -/
def targets (name : List UInt8) (fragments : List (List UInt8)) : List (List UInt8) :=
  fragments.filter (pairName · = name)

/-- A fragment is refused by neither check of the loop. -/
def Passes (name : List UInt8) (policy : CookieHeaderPolicy) (fragment : List UInt8) : Prop :=
  if pairName fragment = name then 0x3D ∈ fragment ∧ isCookieValue (pairValue fragment) = true
  else policy = .strict → 0x3D ∈ fragment ∧ isCookieName (pairName fragment) = true ∧
    isCookieValue (pairValue fragment) = true

variable {name piece fragment : List UInt8} {policy : CookieHeaderPolicy}
variable {pieces fields : List (List UInt8)} {found result : Option (List UInt8)}

theorem readFragment_eq_ok (h : trimOws piece = fragment) (hne : fragment ≠ []) :
    readFragment name policy found piece = .ok result ↔
      Passes name policy fragment ∧
        if pairName fragment = name then found = none ∧ some (pairValue fragment) = result
        else found = result := by
  unfold readFragment Passes
  simp only [h, hne, if_false]
  by_cases hpair : 0x3D ∈ fragment
  · simp only [splitOnce, hpair, if_true, true_and]
    change (if pairName fragment = name then _ else _) = _ ↔ _
    split_ifs with hname
    · simp only [bind_eq_ok, exists_unit, rejectIf_eq_ok, pure_eq_ok, Bool.not_eq_false',
        Option.isSome_eq_false_iff, Option.isNone_iff_eq_none]
      rfl
    · simp only [bind_eq_ok, exists_unit, rejectIf_eq_ok, pure_eq_ok]
      cases policy <;> simp [pairName, pairValue]
  · have hname : pairName fragment = trimOws fragment := by
      rw [pairName, takeWhile_eq_self_iff.mpr]
      exact fun byte hbyte => decide_eq_true fun heq => hpair (heq ▸ hbyte)
    simp only [splitOnce, hpair, if_false, hname, bind_eq_ok, exists_unit, rejectIf_eq_ok,
      pure_eq_ok]
    split_ifs with heq <;> cases policy <;> simp [heq]

theorem foldlM_readFragment :
    pieces.foldlM (readFragment name policy) found = .ok result ↔
      (∀ fragment ∈ stripped pieces, Passes name policy fragment) ∧
        (found.toList ++ (targets name (stripped pieces)).map pairValue).length ≤ 1 ∧
        (found.toList ++ (targets name (stripped pieces)).map pairValue).head? = result := by
  induction pieces generalizing found with
  | nil => cases found <;> simp [stripped, targets]
  | cons piece rest ih =>
    rw [foldlM_cons, bind_eq_ok]
    simp only [ih]
    by_cases hempty : trimOws piece = []
    · have hsame : stripped (piece :: rest) = stripped rest := by simp [stripped, hempty]
      simp [readFragment, hempty, hsame]
    · have hcons : stripped (piece :: rest) = trimOws piece :: stripped rest := by
        simp [stripped, hempty]
      simp only [readFragment_eq_ok rfl hempty, hcons, forall_mem_cons, and_assoc, exists_and_left]
      refine and_congr_right fun _ => ?_
      by_cases hname : pairName (trimOws piece) = name
      · cases found <;> simp [hname, targets]
      · simp [hname, targets]

theorem foldlM_readField :
    fields.foldlM (readField name policy) found = .ok result ↔
      (∀ field ∈ fields, IsText field) ∧
        (fields.flatMap (·.splitOn 0x3B)).foldlM (readFragment name policy) found = .ok result := by
  induction fields generalizing found with
  | nil => simp
  | cons field rest ih =>
    simp only [foldlM_cons, flatMap_cons, foldlM_append, readField, bind_eq_ok, ih, require_eq_ok,
      fromUtf8_eq_some, forall_mem_cons]
    constructor
    · rintro ⟨mid, ⟨text, htext, hmid⟩, hrest, hend⟩
      exact ⟨⟨⟨text, htext⟩, hrest⟩, mid, hmid, hend⟩
    · rintro ⟨⟨⟨text, htext⟩, hrest⟩, mid, hmid, hend⟩
      exact ⟨mid, ⟨text, htext, hmid⟩, hrest, hend⟩

/-- Reading succeeds with the value of the only target. -/
theorem readFields_eq_ok :
    readFields name policy fields = .ok result ↔
      (∀ field ∈ fields, IsText field) ∧
        (∀ fragment ∈ fragments fields, Passes name policy fragment) ∧
        (targets name (fragments fields)).length ≤ 1 ∧
        (targets name (fragments fields)).head?.map pairValue = result := by
  rw [readFields, foldlM_readField, foldlM_readFragment]
  simp [fragments]

/-- What is read depends only on the collection of the fragments. -/
theorem readFields_congr {fields' : List (List UInt8)}
    (htext : (∀ field ∈ fields, IsText field) ↔ ∀ field ∈ fields', IsText field)
    (hperm : (fragments fields).Perm (fragments fields')) :
    readFields name policy fields = .ok result ↔ readFields name policy fields' = .ok result := by
  have htargets : (targets name (fragments fields)).Perm (targets name (fragments fields')) :=
    hperm.filter _
  rw [readFields_eq_ok, readFields_eq_ok, htext, htargets.length_eq]
  simp only [hperm.mem_iff]
  refine and_congr_right fun _ => and_congr_right fun _ => and_congr_right fun hlen => ?_
  have hsame : targets name (fragments fields) = targets name (fragments fields') := by
    cases htarget : targets name (fragments fields') with
    | nil => exact (htarget ▸ htargets).eq_nil
    | cons target rest =>
      rw [htarget] at hlen htargets
      obtain rfl : rest = [] := length_eq_zero_iff.mp (Nat.le_zero.mp (Nat.le_of_succ_le_succ hlen))
      exact htargets.eq_singleton
  rw [hsame]

theorem fragments_append (left right : List (List UInt8)) :
    fragments (left ++ right) = fragments left ++ fragments right := by
  simp [fragments, stripped]

/-- Which cookie is read is decided by an order-free condition on the fragments, so neither
the layout of the fields nor a second target can hide anything. -/
theorem cookie_selection_is_exact (name : List UInt8) (fields : List (List UInt8)) :
    (∀ result, readFields name .targetOnly fields = .ok result ↔
      (∀ field ∈ fields, IsText field) ∧
        (∀ target ∈ targets name (fragments fields), 0x3D ∈ target) ∧
        (targets name (fragments fields)).length ≤ 1 ∧
        (∀ target ∈ targets name (fragments fields), isCookieValue (pairValue target) = true) ∧
        (targets name (fragments fields)).head?.map pairValue = result) ∧
    (∀ result, readFields name .strict fields = .ok result ↔
      readFields name .targetOnly fields = .ok result ∧
        ∀ fragment ∈ fragments fields, pairName fragment ≠ name → 0x3D ∈ fragment ∧
          isCookieName (pairName fragment) = true ∧ isCookieValue (pairValue fragment) = true) ∧
    (∀ policy result,
      (∀ fields', fields.Perm fields' →
        (readFields name policy fields = .ok result ↔
          readFields name policy fields' = .ok result)) ∧
      ∀ left lead tail right, fields = left ++ (lead ++ 0x3B :: tail) :: right →
        (readFields name policy fields = .ok result ↔
          readFields name policy (left ++ lead :: tail :: right) = .ok result)) ∧
    ∀ policy value left right extra, fields = left ++ right →
      readFields name policy fields = .ok (some value) → targets name (fragments [extra]) ≠ [] →
        ∀ result, readFields name policy (left ++ extra :: right) ≠ .ok result := by
  refine ⟨fun result => ?_, fun result => ?_, fun policy result => ⟨?_, ?_⟩, ?_⟩
  · rw [readFields_eq_ok]
    have hpasses : (∀ fragment ∈ fragments fields, Passes name .targetOnly fragment) ↔
        ∀ target ∈ targets name (fragments fields), 0x3D ∈ target ∧
          isCookieValue (pairValue target) = true := by
      simp only [Passes, targets, mem_filter, decide_eq_true_eq, and_imp, reduceCtorEq,
        IsEmpty.forall_iff, ite_prop_iff_and, implies_true, and_true]
    rw [hpasses, forall₂_and]
    tauto
  · have hpasses : ∀ fragment, Passes name .strict fragment ↔ Passes name .targetOnly fragment ∧
        (pairName fragment ≠ name → 0x3D ∈ fragment ∧ isCookieName (pairName fragment) = true ∧
          isCookieValue (pairValue fragment) = true) := by
      intro fragment
      by_cases hname : pairName fragment = name <;> simp [Passes, hname]
    simp only [readFields_eq_ok, hpasses, forall₂_and]
    tauto
  · intro fields' hperm
    refine readFields_congr (by simp only [hperm.mem_iff]) ?_
    exact ((hperm.flatMap_right _).map _).filter _
  · rintro left lead tail right rfl
    refine readFields_congr ?_ (Perm.of_eq ?_)
    · have hcut : IsText (lead ++ 0x3B :: tail) ↔ IsText lead ∧ IsText tail :=
        ⟨IsText.split (by decide), fun h =>
          h.1.append (IsText.append (isText_singleton (b := 0x3B) (by decide)) h.2)⟩
      simp only [forall_mem_append, forall_mem_cons, hcut, and_assoc]
    · have hcut : (lead ++ 0x3B :: tail).splitOn 0x3B = lead.splitOn 0x3B ++ tail.splitOn 0x3B :=
        splitOnP_append_cons lead tail (by simp)
      simp [fragments, hcut]
  · rintro policy value left right extra rfl hsome hextra result hok
    obtain ⟨-, -, -, hvalue⟩ := readFields_eq_ok.mp hsome
    obtain ⟨-, -, hlen, -⟩ := readFields_eq_ok.mp hok
    have hpos := length_pos_iff.mpr hextra
    have hold : 0 < (targets name (fragments (left ++ right))).length := by
      rw [length_pos_iff]
      intro hnil
      simp [hnil] at hvalue
    rw [append_cons, fragments_append, fragments_append] at hlen
    rw [fragments_append] at hold
    simp only [targets, filter_append, length_append] at hlen hold hpos
    omega

end Batter.Axum
