import WireProtocol.Error
import WireProtocol.Text.Hex
import WireProtocol.Text.Utf8

namespace WireProtocol.Wire

inductive DecodeFault
  | invalidBool (byte : UInt8)
  | negativeLength (length : Int32)
  | invalidByteLength (length : Int32)
  | invalidText (fault : Utf8.Fault)
  | trailingBytes (count : Nat) (type : String)
  deriving DecidableEq, Repr

def DecodeFault.text : DecodeFault → String
  | invalidBool b => "invalid bool byte 0x" ++ Text.hex 2 b.toNat
  | negativeLength n => s!"negative length {n}"
  | invalidByteLength n => s!"invalid byte length {n}"
  | invalidText fault => "invalid UTF-8 string: " ++ fault.text
  | trailingBytes n type => s!"{n} trailing bytes after {type}"

inductive EncodeFault
  | lengthTooLarge (length : Nat)
  | refused (reason : String)
  deriving DecidableEq, Repr

def EncodeFault.text : EncodeFault → String
  | lengthTooLarge n => s!"length {n} exceeds i32::MAX"
  | refused reason => reason

inductive Actual
  | tag (tag : Int32)
  | otherValue
  | otherObject
  | null
  deriving DecidableEq, Repr

def Actual.text : Actual → String
  | tag t => s!"tag {t}"
  | otherValue => "value of another type"
  | otherObject => "object of another type"
  | null => "null"

inductive Error
  | unexpectedEnd (needed remaining : Nat)
  | decode (fault : DecodeFault)
  | encode (fault : EncodeFault)
  | duplicateTag (tag : Int32) (existing : String)
  | reservedTag (tag : Int32)
  | unknownTag (tag : Int32)
  | unregisteredType (type : String)
  | typeMismatch (expected : String) (actual : Actual)
  | typeTaken (existing : String) (tag : Int32)
  deriving DecidableEq, Repr

namespace Error

def kind : Error → ErrorKind
  | unexpectedEnd .. => .unexpectedEnd
  | decode _ => .decode
  | encode _ => .encode
  | duplicateTag .. => .duplicateTag
  | reservedTag _ => .reservedTag
  | unknownTag _ => .unknownTag
  | unregisteredType _ => .unregisteredType
  | typeMismatch .. => .typeMismatch
  | typeTaken .. => .config

def detail : Error → String
  | unexpectedEnd needed remaining => s!"needed {needed} bytes, {remaining} remaining"
  | decode fault => fault.text
  | encode fault => fault.text
  | duplicateTag tag existing => s!"{tag} already registered for {existing}"
  | reservedTag tag => s!"{tag} is reserved"
  | unknownTag tag => s!"{tag}"
  | unregisteredType type => type
  | typeMismatch expected actual => s!"expected {expected}, got " ++ actual.text
  | typeTaken existing tag => s!"type {existing} already registered under tag {tag}"

def message (e : Error) : String := e.kind.describe e.detail

end Error

end WireProtocol.Wire
