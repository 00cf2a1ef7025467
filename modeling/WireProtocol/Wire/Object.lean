import WireProtocol.Wire.Message

namespace WireProtocol.Wire

/-- The type of an object. A foreign type is one that no schema describes. -/
inductive ObjectType (ι : Type)
  | scalar (s : Scalar)
  | bytes
  | record (i : ι)
  | foreign (name : String)
  deriving DecidableEq, Repr

inductive Object {ι : Type} (F : Family ι)
  | scalar (s : Scalar) (v : s.Value)
  | bytes (bytes : List UInt8)
  | record (i : ι) (r : Record F i)
  | foreign (name : String) (value : Int32)

variable {ι : Type} {F : Family ι}

def Object.type : Object F → ObjectType ι
  | scalar s _ => .scalar s
  | bytes _ => .bytes
  | record i _ => .record i
  | foreign name _ => .foreign name

def ObjectType.name (F : Family ι) : ObjectType ι → String
  | scalar .int32 => "int32"
  | scalar .int64 => "int64"
  | scalar .float => "float"
  | scalar .double => "double"
  | scalar .bool => "bool"
  | scalar .string => "string"
  | scalar .vector3 => "vector3"
  | scalar .dateTime => "datetime"
  | bytes => "bytes"
  | record i => (F i).name
  | foreign name => name

end WireProtocol.Wire
