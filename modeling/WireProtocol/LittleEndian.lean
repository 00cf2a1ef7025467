
namespace WireProtocol.LittleEndian

def digits : (width : Nat) → Nat → List UInt8
  | 0, _ => []
  | width + 1, n => UInt8.ofNat (n % 256) :: digits width (n / 256)

def value : List UInt8 → Nat
  | [] => 0
  | b :: bytes => b.toNat + 256 * value bytes

@[simp] theorem length_digits (width n : Nat) : (digits width n).length = width := by
  induction width generalizing n with
  | zero => rfl
  | succ width ih => simp [digits, ih]

theorem value_digits (width n : Nat) : value (digits width n) = n % Nat.pow 256 width := by
  induction width generalizing n with
  | zero => simp [digits, value, Nat.mod_one]
  | succ width ih =>
    have h : (UInt8.ofNat (n % 256)).toNat = n % 256 := by simp [UInt8.toNat_ofNat']
    have hp : Nat.pow 256 (width + 1) = 256 * Nat.pow 256 width := Nat.mul_comm ..
    rw [digits, value, h, ih, hp, Nat.mod_mul]

theorem digits_value (bytes : List UInt8) : digits bytes.length (value bytes) = bytes := by
  induction bytes with
  | nil => rfl
  | cons b bytes ih =>
    have hb := b.toNat_lt
    have hq : (b.toNat + 256 * value bytes) / 256 = value bytes := by omega
    have hr : (b.toNat + 256 * value bytes) % 256 = b.toNat := by omega
    simp only [List.length_cons, value, digits, hq, hr, ih]
    simp

def ofUInt32 (x : UInt32) : List UInt8 := digits 4 x.toNat

def ofUInt64 (x : UInt64) : List UInt8 := digits 8 x.toNat

def toUInt32 (bytes : List UInt8) : UInt32 := UInt32.ofNat (value bytes)

def toUInt64 (bytes : List UInt8) : UInt64 := UInt64.ofNat (value bytes)

end WireProtocol.LittleEndian
