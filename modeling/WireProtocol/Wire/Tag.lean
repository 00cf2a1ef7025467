import WireProtocol.Checksum
import WireProtocol.Text.Utf8

namespace WireProtocol.Wire.Tag

def null : Int32 := -1

def lastBuiltIn : Int32 := 15

def isReserved (tag : Int32) : Bool := tag == null || (0 ≤ tag && tag ≤ lastBuiltIn)

theorem isReserved_iff (tag : Int32) : isReserved tag = true ↔ tag = -1 ∨ 0 ≤ tag ∧ tag ≤ 15 := by
  rw [isReserved, Bool.or_eq_true, Bool.and_eq_true, beq_iff_eq]
  exact or_congr Iff.rfl (and_congr decide_eq_true_iff decide_eq_true_iff)

def ofName (name : String) : Int32 := (Checksum.crc32 (Utf8.encode name)).toInt32

end WireProtocol.Wire.Tag
