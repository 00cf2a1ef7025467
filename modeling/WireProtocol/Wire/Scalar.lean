import WireProtocol.Wire.Reader
import WireProtocol.Wire.Timestamp
import WireProtocol.Wire.Writer

namespace WireProtocol.Wire

structure Single where
  bits : UInt32
  deriving DecidableEq, Repr, Inhabited

structure Double where
  bits : UInt64
  deriving DecidableEq, Repr, Inhabited

def Single.isZero (x : Single) : Bool := x.bits == 0 || x.bits == 0x80000000

def Double.isZero (x : Double) : Bool := x.bits == 0 || x.bits == 0x8000000000000000

structure Vector3 where
  x : Single
  y : Single
  z : Single
  deriving DecidableEq, Repr, Inhabited

def Vector3.isZero (v : Vector3) : Bool := v.x.isZero && v.y.isZero && v.z.isZero

inductive Scalar
  | int32 | int64 | float | double | bool | string | vector3 | dateTime
  deriving DecidableEq, Repr

namespace Scalar

abbrev Value : Scalar → Type
  | int32 => Int32
  | int64 => Int64
  | float => Single
  | double => Double
  | bool => Bool
  | string => String
  | vector3 => Vector3
  | dateTime => Timestamp

def zero : (s : Scalar) → s.Value
  | int32 => (0 : Int32)
  | int64 => (0 : Int64)
  | float => Single.mk 0
  | double => Double.mk 0
  | bool => false
  | string => ""
  | vector3 => Vector3.mk ⟨0⟩ ⟨0⟩ ⟨0⟩
  | dateTime => Timestamp.epoch

def isZero : (s : Scalar) → s.Value → Bool
  | int32, v => (v : Int32) == 0
  | int64, v => (v : Int64) == 0
  | float, v => Single.isZero v
  | double, v => Double.isZero v
  | bool, v => !(v : Bool)
  | string, v => String.isEmpty v
  | vector3, v => Vector3.isZero v
  | dateTime, v => Timestamp.millis v == 0

def write : (s : Scalar) → s.Value → Write
  | int32, v => .i32 v
  | int64, v => .i64 v
  | float, v => .u32 (Single.bits v)
  | double, v => .u64 (Double.bits v)
  | bool, v => .bool v
  | string, v => .text? (some v)
  | vector3, v => do
    Write.u32 (Vector3.x v).bits
    Write.u32 (Vector3.y v).bits
    Write.u32 (Vector3.z v).bits
  | dateTime, v => .i64 (Timestamp.millis v)

def read : (s : Scalar) → Read s.Value
  | int32 => Read.i32
  | int64 => Read.i64
  | float => Single.mk <$> Read.u32
  | double => Double.mk <$> Read.u64
  | bool => Read.bool
  | string => (·.getD "") <$> Read.text?
  | vector3 => return Vector3.mk ⟨← Read.u32⟩ ⟨← Read.u32⟩ ⟨← Read.u32⟩
  | dateTime => Timestamp.mk <$> Read.i64

def writeMany (s : Scalar) (values : List s.Value) : Write := do
  Write.length values.length
  Write.each s.write values

def readMany (s : Scalar) : Read (List s.Value) := do Read.times s.read (← Read.length)

end Scalar

end WireProtocol.Wire
