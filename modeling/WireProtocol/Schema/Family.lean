import WireProtocol.Schema.Definition
import WireProtocol.Wire.Record

namespace WireProtocol.Schema

def FieldType.scalar? : FieldType → Option Wire.Scalar
  | int32 => some .int32
  | int64 => some .int64
  | float => some .float
  | double => some .double
  | bool => some .bool
  | string => some .string
  | vector3 => some .vector3
  | dateTime => some .dateTime
  | struct | list | map => none

def Field.shape (f : Field) : Wire.Shape String :=
  match f.type.scalar?, f.repeated with
  | some s, false => .single s
  | some s, true => .repeated s
  | none, false => .nested (f.customType.getD "")
  | none, true => .repeatedNested (f.customType.getD "")

/-- The layouts by message name; a name that is not declared has no fields. -/
def Definition.family (d : Definition) : Wire.Family String := fun name =>
  match d.message? name with
  | some m => ⟨d.qualifiedName name, m.typeTag, m.fields.map Field.shape⟩
  | none => ⟨d.qualifiedName name, Wire.Tag.null, []⟩

end WireProtocol.Schema
