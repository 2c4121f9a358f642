import Batter.Library.Bytes

/-!
# Bytes that are a text

`fromUtf8` turns bytes into the text they encode, if they encode one.  Every byte of
a character outside the seven-bit range is at least 128, so a text can be cut at any
byte below that: both parts are texts again (`IsText.split`).
-/

namespace Batter.Bytes

open List

def fromUtf8 (bytes : List UInt8) : Option String :=
  String.fromUTF8? bytes.toByteArray

/-- Bytes that encode a text. -/
def IsText (bytes : List UInt8) : Prop :=
  ∃ text, asBytes text = bytes

theorem asBytes_ofList (chars : List Char) :
    asBytes (String.ofList chars) = chars.flatMap String.utf8EncodeChar := by
  rw [asBytes, String.toList_ofList]

theorem toByteArray_asBytes (text : String) : (asBytes text).toByteArray = text.toByteArray := by
  conv_rhs => rw [← String.ofList_toList (s := text), String.toByteArray_ofList]
  rfl

theorem toByteArray_injective : Function.Injective (List.toByteArray) := by
  intro a b h
  have hdata := congrArg ByteArray.data h
  simpa using hdata

theorem fromUtf8_eq_some {bytes : List UInt8} {text : String} :
    fromUtf8 bytes = some text ↔ asBytes text = bytes := by
  constructor
  · intro h
    unfold fromUtf8 String.fromUTF8? at h
    split_ifs at h with hvalid
    cases h
    apply toByteArray_injective
    rw [toByteArray_asBytes]
    rfl
  · rintro rfl
    unfold fromUtf8 String.fromUTF8?
    rw [toByteArray_asBytes, dif_pos text.isValidUTF8]
    rfl

theorem isText_asBytes (text : String) : IsText (asBytes text) :=
  ⟨text, rfl⟩

theorem isText_nil : IsText [] :=
  ⟨"", rfl⟩

theorem IsText.append {a b : List UInt8} (ha : IsText a) (hb : IsText b) : IsText (a ++ b) := by
  obtain ⟨s, rfl⟩ := ha
  obtain ⟨t, rfl⟩ := hb
  exact ⟨s ++ t, by simp [asBytes]⟩

variable {b : UInt8} {a r : List UInt8}

/-- A byte of the seven-bit range is a text. -/
theorem isText_singleton (hb : b < 128) : IsText [b] := by
  have hb' : b.toNat < 128 := by
    simpa [UInt8.lt_iff_toNat_lt] using hb
  have hchar : (Char.ofNat b.toNat).toNat = b.toNat := by
    have hvalid : b.toNat.isValidChar := Or.inl (by omega)
    rw [Char.ofNat, dif_pos hvalid]
    simp [Char.ofNatAux, Char.toNat]
  refine ⟨String.ofList [Char.ofNat b.toNat], ?_⟩
  rw [asBytes_ofList, flatMap_singleton]
  have hval : (Char.ofNat b.toNat).val.toNat = b.toNat := hchar
  unfold String.utf8EncodeChar
  simp only [hval]
  rw [if_pos (by omega)]
  simp

/-- A byte below 128 in the encoding of a character is the whole encoding. -/
theorem utf8EncodeChar_of_lt {c : Char} (hb : b < 128) (h : String.utf8EncodeChar c = a ++ b :: r) :
    a = [] ∧ r = [] := by
  have hb' : b.toNat < 128 := by
    simpa [UInt8.lt_iff_toNat_lt] using hb
  have hmem : b ∈ String.utf8EncodeChar c := by
    rw [h]
    simp
  unfold String.utf8EncodeChar at h hmem
  simp only at h hmem
  split_ifs at h hmem with h1 h2 h3
  · cases a with
    | nil => exact ⟨rfl, (List.cons.inj h).2.symm⟩
    | cons x a => simp at h
  · exfalso
    simp only [mem_cons, not_mem_nil, or_false] at hmem
    rcases hmem with rfl | rfl <;> simp only [UInt8.toNat_ofNat'] at hb' <;> omega
  · exfalso
    simp only [mem_cons, not_mem_nil, or_false] at hmem
    rcases hmem with rfl | rfl | rfl <;> simp only [UInt8.toNat_ofNat'] at hb' <;> omega
  · exfalso
    simp only [mem_cons, not_mem_nil, or_false] at hmem
    rcases hmem with rfl | rfl | rfl | rfl <;> simp only [UInt8.toNat_ofNat'] at hb' <;> omega

/-- A text can be cut at every byte below 128. -/
theorem IsText.split (hb : b < 128) (h : IsText (a ++ b :: r)) : IsText a ∧ IsText r := by
  obtain ⟨text, htext⟩ := h
  rw [asBytes] at htext
  generalize text.toList = chars at htext
  induction chars generalizing a with
  | nil =>
    simp at htext
  | cons c chars ih =>
    rw [flatMap_cons, append_eq_append_iff] at htext
    rcases htext with ⟨rest, rfl, hrest⟩ | ⟨rest, hchar, hrest⟩
    · obtain ⟨hleft, hright⟩ := ih hrest
      refine ⟨IsText.append ⟨String.ofList [c], ?_⟩ hleft, hright⟩
      rw [asBytes_ofList, flatMap_singleton]
    · cases rest with
      | nil =>
        rw [append_nil] at hchar
        rw [nil_append] at hrest
        obtain ⟨-, hright⟩ := ih (a := []) (by rw [← hrest, nil_append])
        exact ⟨⟨String.ofList [c], by rw [asBytes_ofList, flatMap_singleton, hchar]⟩,
          hright⟩
      | cons d rest =>
        rw [cons_append, List.cons.injEq] at hrest
        obtain ⟨rfl, rfl⟩ := hrest
        obtain ⟨rfl, rfl⟩ := utf8EncodeChar_of_lt hb hchar
        exact ⟨isText_nil, String.ofList chars, by rw [asBytes_ofList, nil_append]⟩

end Batter.Bytes
