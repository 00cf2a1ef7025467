import Mathlib.Algebra.Group.Nat.Defs
import WireProtocol.LittleEndian
import WireProtocol.Text.Utf8

namespace WireProtocol

namespace LittleEndian

theorem value_lt (bytes : List UInt8) : value bytes < 256 ^ bytes.length := by
  induction bytes with
  | nil => decide
  | cons b bytes ih =>
    have hb := b.toNat_lt
    simp only [value, List.length_cons, Nat.pow_succ]
    omega

theorem value_injective {a b : List UInt8} (hl : a.length = b.length) (h : value a = value b) :
    a = b := by
  rw [← digits_value a, ← digits_value b, hl, h]

@[simp] theorem length_ofUInt32 (x : UInt32) : (ofUInt32 x).length = 4 := length_digits 4 _

@[simp] theorem length_ofUInt64 (x : UInt64) : (ofUInt64 x).length = 8 := length_digits 8 _

@[simp] theorem toUInt32_ofUInt32 (x : UInt32) : toUInt32 (ofUInt32 x) = x := by
  rw [toUInt32, ofUInt32, value_digits]
  exact (congrArg UInt32.ofNat (Nat.mod_eq_of_lt x.toNat_lt)).trans UInt32.ofNat_toNat

@[simp] theorem toUInt64_ofUInt64 (x : UInt64) : toUInt64 (ofUInt64 x) = x := by
  rw [toUInt64, ofUInt64, value_digits]
  exact (congrArg UInt64.ofNat (Nat.mod_eq_of_lt x.toNat_lt)).trans UInt64.ofNat_toNat

theorem ofUInt32_toUInt32 {bytes : List UInt8} (h : bytes.length = 4) :
    ofUInt32 (toUInt32 bytes) = bytes := by
  have hlt : value bytes < 2 ^ 32 := by simpa [h] using value_lt bytes
  rw [ofUInt32, toUInt32, UInt32.toNat_ofNat', Nat.mod_eq_of_lt hlt, ← h, digits_value]

theorem ofUInt64_toUInt64 {bytes : List UInt8} (h : bytes.length = 8) :
    ofUInt64 (toUInt64 bytes) = bytes := by
  have hlt : value bytes < 2 ^ 64 := by simpa [h] using value_lt bytes
  rw [ofUInt64, toUInt64, UInt64.toNat_ofNat', Nat.mod_eq_of_lt hlt, ← h, digits_value]

theorem ofUInt32_injective {x y : UInt32} (h : ofUInt32 x = ofUInt32 y) : x = y := by
  simpa using congrArg toUInt32 h

end LittleEndian

namespace Utf8

@[simp] theorem decode_encode (s : String) : decode (encode s) = .ok s := by
  simp [decode, encode, String.fromUTF8?, String.fromUTF8, s.isValidUTF8]

theorem encode_of_decode {bytes : List UInt8} {s : String} (h : decode bytes = .ok s) :
    encode s = bytes := by
  simp only [decode, String.fromUTF8?] at h
  split at h
  · next t ht =>
    split at ht
    · cases ht
      cases h
      simp [encode, String.fromUTF8]
    · cases ht
  · cases h

@[simp] theorem encode_empty : encode "" = [] := rfl

@[simp] theorem length_encode_append (s t : String) :
    (encode (s ++ t)).length = (encode s).length + (encode t).length := by
  simp [encode]

theorem length_encode_singleton (c : Char) : (encode (String.singleton c)).length = c.utf8Size := by
  simp only [encode, Array.length_toList, ByteArray.size_data, String.size_toByteArray,
    String.utf8ByteSize_singleton]

theorem length_encode_le (s : String) : (encode s).length ≤ 4 * s.length := by
  have h (text : List Char) : (encode (String.ofList text)).length ≤ 4 * text.length := by
    induction text with
    | nil => decide
    | cons c text ih =>
      have hc := c.utf8Size_le_four
      have ht : String.ofList (c :: text) = String.singleton c ++ String.ofList text := by simp
      rw [ht, length_encode_append, length_encode_singleton, List.length_cons]
      omega
  rw [← String.length_toList]
  simpa only [String.ofList_toList] using h s.toList

theorem length_encode_toString_le {n : Nat} (h : n < 2 ^ 64) :
    (encode (toString n)).length ≤ 80 := by
  have hl : n.repr.length ≤ 20 := (Nat.length_repr_le_iff (by decide)).2 (by omega)
  have hb := length_encode_le n.repr
  rw [Nat.toString_eq_repr]
  omega

theorem encode_ofList (text : List Char) :
    encode (String.ofList text) = text.flatMap String.utf8EncodeChar := by
  simp [encode, String.toByteArray_ofList, List.utf8Encode]

theorem toNat_val_lt (c : Char) : c.val.toNat < 0x110000 := by
  have hc := c.valid
  simp only [UInt32.isValidChar, Nat.isValidChar] at hc
  omega

theorem utf8EncodeChar_append_lt {c d : Char} (h : c < d) (x y : List UInt8) :
    String.utf8EncodeChar c ++ x < String.utf8EncodeChar d ++ y := by
  have hcd : c.val.toNat < d.val.toNat := h
  have hd := toNat_val_lt d
  simp only [String.utf8EncodeChar]
  generalize c.val.toNat = u at *
  generalize d.val.toNat = v at *
  -- Of four bytes the first two differ, or the last two do.
  have hq : u / 4096 < v / 4096 ∨ u / 4096 = v / 4096 :=
    Nat.lt_or_eq_of_le (Nat.div_le_div_right (Nat.le_of_lt hcd))
  repeat' split
  all_goals
    simp only [List.cons_append, List.nil_append, List.cons_lt_cons_iff, UInt8.lt_iff_toNat_lt,
      ← UInt8.toNat_inj, UInt8.toNat_ofNat']
    rcases hq with hq | hq
    · omega
    · omega

theorem flatMap_utf8EncodeChar_lt {s t : List Char} (h : s < t) :
    s.flatMap String.utf8EncodeChar < t.flatMap String.utf8EncodeChar := by
  induction s generalizing t with
  | nil =>
    cases t with
    | nil => exact absurd h (List.lt_irrefl _)
    | cons d t =>
      obtain ⟨b, bytes, hd⟩ := List.exists_cons_of_length_pos (l := String.utf8EncodeChar d)
        (by rw [String.length_utf8EncodeChar]; exact d.utf8Size_pos)
      rw [List.flatMap_cons, hd]
      exact List.nil_lt_cons b _
  | cons c s ih =>
    cases t with
    | nil => exact absurd h (List.not_lt_nil _)
    | cons d t =>
      rw [List.flatMap_cons, List.flatMap_cons]
      rcases List.cons_lt_cons_iff.1 h with hcd | ⟨rfl, hst⟩
      · exact utf8EncodeChar_append_lt hcd _ _
      · exact List.append_left_lt (ih hst)

theorem encode_lt_of_lt {s t : String} (h : s < t) : encode s < encode t := by
  have hl : s.toList.flatMap _ < t.toList.flatMap _ := flatMap_utf8EncodeChar_lt h
  rwa [← encode_ofList, ← encode_ofList, String.ofList_toList, String.ofList_toList] at hl

theorem encode_lt_encode {s t : String} : encode s < encode t ↔ s < t := by
  refine ⟨fun h => Decidable.not_not.1 fun hst => ?_, encode_lt_of_lt⟩
  by_cases hts : t < s
  · exact List.lt_asymm h (encode_lt_of_lt hts)
  · obtain rfl := String.le_antisymm (String.not_lt.1 hts) (String.not_lt.1 hst)
    exact List.lt_irrefl _ h

end Utf8

end WireProtocol
