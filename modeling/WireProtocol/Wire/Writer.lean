import WireProtocol.LittleEndian
import WireProtocol.Wire.Error
import WireProtocol.Wire.Pool

namespace WireProtocol.Wire

structure Writer where
  bytes : List UInt8
  pool : Option Pool

abbrev Write := EStateM Error Writer Unit

namespace Writer

def new (pool : Option Pool := none) : Writer := ⟨[], pool⟩

def isEmpty (w : Writer) : Bool := w.bytes.isEmpty

def clear (w : Writer) : Writer := { w with bytes := [] }

end Writer

def maxLength : Nat := 0x7FFFFFFF

namespace Write

def put (bytes : List UInt8) : Write := modify fun w => { w with bytes := w.bytes ++ bytes }

def u8 (x : UInt8) : Write := put [x]

def u32 (x : UInt32) : Write := put (LittleEndian.ofUInt32 x)

def u64 (x : UInt64) : Write := put (LittleEndian.ofUInt64 x)

def i32 (x : Int32) : Write := u32 x.toUInt32

def i64 (x : Int64) : Write := u64 x.toUInt64

def bool (x : Bool) : Write := u8 (if x then 1 else 0)

def length (n : Nat) : Write :=
  if n ≤ maxLength then u32 (UInt32.ofNat n) else throw (.encode (.lengthTooLarge n))

def bytes? : Option (List UInt8) → Write
  | none => i32 (-1)
  | some bytes => do length bytes.length; put bytes

def text? (s : Option String) : Write := bytes? (s.map Utf8.encode)

def each (one : α → Write) : List α → Write
  | [] => return
  | a :: rest => do one a; each one rest

def withMask (width : Nat) (present : List Bool) (use : Mask → Write) : Write := fun w =>
  let (blank, pool) := Pool.lend w.pool width
  let mask := blank.mark present
  match (do each u32 mask.words; use mask : Write) { w with pool := pool } with
  | .ok a w => .ok a { w with pool := Pool.giveBack w.pool mask }
  | .error e w => .error e { w with pool := Pool.giveBack w.pool mask }

end Write

end WireProtocol.Wire
