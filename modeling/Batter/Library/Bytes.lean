import Mathlib

/-!
# Byte strings

Fixed-width big-endian integers, UTF-8 text and zero-terminated framing, with
the facts that make a concatenation of such fields uniquely decodable.

A field without zero bytes ends at the first zero byte, so two framed
concatenations agree exactly when their fields agree (`framed_inj`).  Two
fixed-width integers agree exactly when their numbers agree below the width
(`toBeBytes_inj`).  A field behind its length needs no terminator
(`frame16_inj`).
-/

namespace Batter.Bytes

open List

/-- `to_be_bytes`: the big-endian bytes of a number, `width` of them. -/
def toBeBytes : Nat → Nat → List UInt8
  | 0, _ => []
  | width + 1, n => toBeBytes width (n / 256) ++ [UInt8.ofNat (n % 256)]

@[simp] theorem toBeBytes_length
    (width n : Nat) :
    (toBeBytes width n).length = width := by
  induction width generalizing n with
  | zero =>
    rfl
  | succ width ih =>
    simp [toBeBytes, ih]

theorem toBeBytes_inj {width n m : Nat} (hn : n < 256 ^ width) (hm : m < 256 ^ width)
    (h : toBeBytes width n = toBeBytes width m) : n = m := by
  induction width generalizing n m with
  | zero =>
    simp at hn hm
    omega
  | succ width ih =>
    simp only [toBeBytes] at h
    obtain ⟨hhigh, hlow⟩ := append_inj' h rfl
    have hdiv : n / 256 = m / 256 := by
      apply ih _ _ hhigh
      · exact Nat.div_lt_of_lt_mul (by rw [pow_succ] at hn; omega)
      · exact Nat.div_lt_of_lt_mul (by rw [pow_succ] at hm; omega)
    have hmod : n % 256 = m % 256 := by
      have hlow' := congrArg UInt8.toNat (List.cons.inj hlow).1
      simpa using hlow'
    omega

variable {a b x y : List UInt8}

/-- The first zero byte separates a zero-free field from what follows it. -/
theorem framed_inj (ha : 0 ∉ a) (hb : 0 ∉ b) (h : a ++ 0 :: x = b ++ 0 :: y) : a = b ∧ x = y := by
  induction a generalizing b with
  | nil =>
    cases b with
    | nil =>
      simpa using h
    | cons c b =>
      simp only [nil_append, cons_append, List.cons.injEq] at h
      simp [← h.1] at hb
  | cons c a ih =>
    cases b with
    | nil =>
      simp only [nil_append, cons_append, List.cons.injEq] at h
      simp [h.1] at ha
    | cons d b =>
      simp only [cons_append, List.cons.injEq] at h
      obtain ⟨hab, hxy⟩ := ih (by simp_all) (by simp_all) h.2
      exact ⟨by rw [h.1, hab], hxy⟩

/-- `as_bytes`: the UTF-8 bytes of a text. -/
def asBytes (text : String) : List UInt8 :=
  text.toList.flatMap String.utf8EncodeChar

/-- A character of the seven-bit range, other than the zero character. -/
def IsToken (c : Char) : Prop :=
  c.toNat ≤ 127 ∧ c.toNat ≠ 0

theorem utf8EncodeChar_of_isToken {c : Char} (h : IsToken c) :
    String.utf8EncodeChar c = [UInt8.ofNat c.toNat] := by
  have hle := h.1
  simp [String.utf8EncodeChar, hle]

theorem toUInt8_inj_of_isToken {c d : Char} (hc : IsToken c) (hd : IsToken d)
    (h : UInt8.ofNat c.toNat = UInt8.ofNat d.toNat) : c = d := by
  have hcv := hc.1
  have hdv := hd.1
  have h' := congrArg UInt8.toNat h
  simp only [UInt8.toNat_ofNat'] at h'
  have hnat : c.toNat = d.toNat := by omega
  exact Char.toNat_inj.mp hnat

theorem asBytes_of_isToken {text : String} (h : ∀ c ∈ text.toList, IsToken c) :
    asBytes text = text.toList.map (fun c => UInt8.ofNat c.toNat) := by
  unfold asBytes
  generalize text.toList = chars at h ⊢
  induction chars with
  | nil =>
    rfl
  | cons c chars ih =>
    rw [flatMap_cons, utf8EncodeChar_of_isToken (h c (by simp)),
      ih (fun d hd => h d (mem_cons_of_mem _ hd))]
    rfl

/-- Texts of seven-bit characters are determined by their bytes. -/
theorem asBytes_inj {s t : String} (hs : ∀ c ∈ s.toList, IsToken c) (ht : ∀ c ∈ t.toList, IsToken c)
    (h : asBytes s = asBytes t) : s = t := by
  rw [asBytes_of_isToken hs, asBytes_of_isToken ht] at h
  apply String.toList_injective
  generalize s.toList = xs at hs h ⊢
  generalize t.toList = ys at ht h ⊢
  induction xs generalizing ys with
  | nil =>
    cases ys with
    | nil => rfl
    | cons d ys => simp at h
  | cons c xs ih =>
    cases ys with
    | nil => simp at h
    | cons d ys =>
      simp only [map_cons, List.cons.injEq] at h
      have hcd := toUInt8_inj_of_isToken (hs c (by simp)) (ht d (by simp)) h.1
      have hrest := ih (fun e he => hs e (mem_cons_of_mem _ he)) ys
        (fun e he => ht e (mem_cons_of_mem _ he)) h.2
      rw [hcd, hrest]

/-- The bytes of a text without zero characters contain no zero byte. -/
theorem zero_not_mem_asBytes {text : String} (h : ∀ c ∈ text.toList, IsToken c) :
    0 ∉ asBytes text := by
  rw [asBytes_of_isToken h]
  intro hmem
  obtain ⟨c, hc, hzero⟩ := mem_map.mp hmem
  have hle := (h c hc).1
  have hne := (h c hc).2
  have h' := congrArg UInt8.toNat hzero
  simp only [UInt8.toNat_ofNat', UInt8.toNat_zero] at h'
  omega

/-- Every text is determined by its bytes. -/
theorem asBytes_injective : Function.Injective asBytes := by
  intro s t h
  have hencoded : s.toList.utf8Encode = t.toList.utf8Encode := congrArg List.toByteArray h
  rw [← String.toByteArray_ofList, ← String.toByteArray_ofList, String.toByteArray_inj,
    String.ofList_toList, String.ofList_toList] at hencoded
  exact hencoded

/-- A field behind its length in two bytes. -/
def frame16 (bytes : List UInt8) : List UInt8 :=
  toBeBytes 2 bytes.length ++ bytes

/-- Fields behind their lengths are separated from what follows them. -/
theorem frame16_inj (ha : a.length < 256 ^ 2) (hb : b.length < 256 ^ 2)
    (h : frame16 a ++ x = frame16 b ++ y) : a = b ∧ x = y := by
  rw [frame16, frame16, append_assoc, append_assoc] at h
  obtain ⟨hlen, hrest⟩ := append_inj h (by simp)
  exact append_inj hrest (toBeBytes_inj ha hb hlen)

end Batter.Bytes
