import Mathlib.Data.Nat.Bitwise
import WireProtocol.Checksum
import WireProtocol.Proofs.Bytes

/-! Changes that the check never misses. Each step moves the register one to one, and four bytes in
a row fill a register one to one, so bytes that differ within four places have different checks. -/

namespace WireProtocol.Checksum

theorem and_one_eq_one {r : UInt32} : r &&& 1 = 1 ↔ r.toNat % 2 = 1 := by
  rw [← UInt32.toNat_inj, UInt32.toNat_and, UInt32.toNat_one, Nat.and_one_is_mod]

theorem toNat_shift (r : UInt32) :
    (shift r).toNat = if r.toNat % 2 = 1 then r.toNat / 2 ^^^ 0xEDB88320 else r.toNat / 2 := by
  simp only [shift, and_one_eq_one]
  split <;> simp [polynomial, Nat.shiftRight_eq_div_pow]

theorem shift_injective {a b : UInt32} (h : shift a = shift b) : a = b := by
  have hn := congrArg UInt32.toNat h
  have ha := a.toNat_lt
  have hb := b.toNat_lt
  have hlow : ∀ n < 2 ^ 31, (n ^^^ 0xEDB88320).testBit 31 = true ∧ n.testBit 31 = false := by
    intro n hn
    rw [Nat.testBit_xor, Nat.testBit_lt_two_pow hn]
    decide
  have ta := hlow (a.toNat / 2) (by omega)
  have tb := hlow (b.toNat / 2) (by omega)
  apply UInt32.toNat_inj.1
  rw [toNat_shift, toNat_shift] at hn
  split at hn <;> split at hn
  · rw [Nat.xor_comm, Nat.xor_comm (b.toNat / 2)] at hn
    have hd := Nat.xor_right_injective.eq_iff.1 hn
    omega
  · rw [hn, tb.2] at ta
    exact absurd ta.1 Bool.false_ne_true
  · rw [← hn, ta.2] at tb
    exact absurd tb.1 Bool.false_ne_true
  · omega

theorem shifts_injective {n : Nat} {a b : UInt32} (h : shifts n a = shifts n b) : a = b := by
  induction n generalizing a b with
  | zero => exact h
  | succ n ih => exact shift_injective (ih h)

theorem shifts_shifts (m n : Nat) (r : UInt32) : shifts m (shifts n r) = shifts (n + m) r := by
  induction n generalizing r with
  | zero => rw [Nat.zero_add]; rfl
  | succ n ih =>
    rw [Nat.succ_add]
    exact ih (shift r)

theorem step_injective {b : UInt8} {r s : UInt32} (h : step r b = step s b) : r = s := by
  have hx := shifts_injective h
  simpa using hx

theorem foldl_step_injective {bytes : List UInt8} {r s : UInt32}
    (h : bytes.foldl step r = bytes.foldl step s) : r = s := by
  induction bytes generalizing r s with
  | nil => exact h
  | cons b bytes ih => exact step_injective (ih h)

theorem shift_xor_double (r : UInt32) {n : Nat} (h : 2 * n < 2 ^ 32) :
    shift (r ^^^ UInt32.ofNat (2 * n)) = shift r ^^^ UInt32.ofNat n := by
  have h2 : (UInt32.ofNat (2 * n)).toNat = 2 * n := UInt32.toNat_ofNat_of_lt' h
  have h1 : (UInt32.ofNat n).toNat = n := UInt32.toNat_ofNat_of_lt' (show n < 2 ^ 32 by omega)
  have hm : (r.toNat ^^^ 2 * n) % 2 = r.toNat % 2 := by rw [Nat.xor_mod_two_eq]; omega
  have hd : (r.toNat ^^^ 2 * n) / 2 = r.toNat / 2 ^^^ n := by
    rw [Nat.xor_div_two, Nat.mul_div_cancel_left n (by decide)]
  apply UInt32.toNat_inj.1
  rw [toNat_shift, UInt32.toNat_xor, UInt32.toNat_xor, toNat_shift, h1, h2, hm, hd]
  split
  · rw [Nat.xor_assoc, Nat.xor_comm n, Nat.xor_assoc]
  · rfl

theorem shifts_xor_mul (k : Nat) (r : UInt32) {n : Nat} (h : 2 ^ k * n < 2 ^ 32) :
    shifts k (r ^^^ UInt32.ofNat (2 ^ k * n)) = shifts k r ^^^ UInt32.ofNat n := by
  induction k generalizing r with
  | zero => simp [shifts]
  | succ k ih =>
    rw [Nat.pow_succ', Nat.mul_assoc] at h ⊢
    rw [shifts, shift_xor_double r h, ih _ (by omega), shifts]

theorem xor_mul {b : Nat} (h : b < 2 ^ 8) (n : Nat) : b ^^^ 2 ^ 8 * n = b + 2 ^ 8 * n := by
  apply Nat.eq_of_testBit_eq
  intro i
  rw [Nat.testBit_xor, Nat.testBit_two_pow_mul, Nat.add_comm, Nat.testBit_two_pow_mul_add n h]
  by_cases hi : i < 8
  · simp [hi, Nat.not_le.2 hi]
  · have hp : 2 ^ 8 ≤ 2 ^ i := Nat.pow_le_pow_right (by decide) (by omega)
    simp [hi, Nat.testBit_lt_two_pow (Nat.lt_of_lt_of_le h hp), Nat.not_lt.1 hi]

theorem foldl_step {bytes : List UInt8} (h : bytes.length ≤ 4) (r : UInt32) :
    bytes.foldl step r =
      shifts (8 * bytes.length) (r ^^^ UInt32.ofNat (LittleEndian.value bytes)) := by
  induction bytes generalizing r with
  | nil => simp [LittleEndian.value, shifts]
  | cons b bytes ih =>
    simp only [List.length_cons] at h
    have hv := LittleEndian.value_lt (b :: bytes)
    have hp : 256 ^ (b :: bytes).length ≤ 256 ^ 4 := Nat.pow_le_pow_right (by decide) h
    have hb := b.toNat_lt
    simp only [LittleEndian.value] at hv
    have hx : b.toUInt32 ^^^ UInt32.ofNat (2 ^ 8 * LittleEndian.value bytes) =
        UInt32.ofNat (LittleEndian.value (b :: bytes)) := by
      apply UInt32.toNat_inj.1
      rw [UInt32.toNat_xor, UInt8.toNat_toUInt32,
        UInt32.toNat_ofNat_of_lt' (show _ < 2 ^ 32 by omega),
        UInt32.toNat_ofNat_of_lt' (show _ < 2 ^ 32 by rw [LittleEndian.value]; omega)]
      exact xor_mul (by omega) _
    rw [List.foldl_cons, ih (by omega), step, ← shifts_xor_mul 8 _ (by omega), shifts_shifts,
      UInt32.xor_assoc, hx, List.length_cons, Nat.mul_succ, Nat.add_comm]

theorem crc32_append_inj {left right a b : List UInt8} (hl : a.length = b.length)
    (h4 : a.length ≤ 4) (h : crc32 (left ++ (a ++ right)) = crc32 (left ++ (b ++ right))) :
    a = b := by
  simp only [crc32, List.foldl_append, UInt32.not_inj] at h
  have hr := foldl_step_injective h
  rw [foldl_step h4, foldl_step (hl.symm.trans_le h4), hl] at hr
  have hw : UInt32.ofNat (LittleEndian.value a) = UInt32.ofNat (LittleEndian.value b) := by
    simpa using shifts_injective hr
  have hlt (bytes : List UInt8) (h : bytes.length ≤ 4) : LittleEndian.value bytes < 2 ^ 32 :=
    Nat.lt_of_lt_of_le (LittleEndian.value_lt bytes) (Nat.pow_le_pow_right (by decide) h)
  apply LittleEndian.value_injective hl
  have hn := congrArg UInt32.toNat hw
  rwa [UInt32.toNat_ofNat_of_lt' (hlt a h4),
    UInt32.toNat_ofNat_of_lt' (hlt b (hl.symm.trans_le h4))] at hn

end WireProtocol.Checksum
