import WireProtocol.Checksum
import WireProtocol.LittleEndian
import WireProtocol.Schema.Definition
import WireProtocol.Text.Hex

/-! Snapshots: definitions frozen into bytes. A header of ten bytes holds a magic word, the version
of the format and the checksum of the body. In the body, numbers have a fixed width and lists and
strings stand after their length. -/

namespace WireProtocol.Schema.Snapshot

inductive BodyFault
  | ended
  | invalidText (fault : Utf8.Fault)
  | invalidBool (byte : UInt8)
  | invalidOption (byte : UInt8)
  | invalidType (index : Nat)
  deriving DecidableEq, Repr

def BodyFault.text : BodyFault → String
  | ended => "io error"
  | invalidText fault => "string is not valid utf8: " ++ fault.text
  | invalidBool b => s!"invalid u8 while decoding bool, expected 0 or 1, found {b}"
  | invalidOption b => s!"tag for enum is not valid, found {b}"
  | invalidType n => s!"invalid value: integer `{n}`, expected variant index 0 <= i < 11"

inductive Fault
  | tooShort (length : Nat)
  | badMagic
  | unsupportedVersion (version : Nat)
  | checksumMismatch (expected actual : UInt32)
  | body (fault : BodyFault)
  deriving DecidableEq, Repr

def Fault.text : Fault → String
  | tooShort n => s!"snapshot too short: {n} bytes"
  | badMagic => "bad magic"
  | unsupportedVersion v => s!"unsupported snapshot version {v}"
  | checksumMismatch expected actual =>
    "checksum mismatch: expected " ++ Text.hex 8 expected.toNat ++ ", got " ++
      Text.hex 8 actual.toNat
  | body fault => "failed to decode definition: " ++ fault.text

def ofNat (n : Nat) : List UInt8 := LittleEndian.digits 8 n

def ofInt32 (n : Int32) : List UInt8 := LittleEndian.ofUInt32 n.toUInt32

def ofBool (b : Bool) : List UInt8 := [if b then 1 else 0]

def ofString (s : String) : List UInt8 :=
  let bytes := Utf8.encode s
  ofNat bytes.length ++ bytes

def ofOption : Option String → List UInt8
  | none => [0]
  | some s => 1 :: ofString s

def ofList (one : α → List UInt8) (as : List α) : List UInt8 := ofNat as.length ++ as.flatMap one

def typeIndex (t : FieldType) : Nat := FieldType.all.idxOf t

def ofField (f : Field) : List UInt8 :=
  ofString f.name ++ LittleEndian.digits 4 (typeIndex f.type) ++ ofInt32 f.id ++
    ofBool f.repeated ++ ofOption f.customType ++ ofNat f.line

def ofMessage (m : Message) : List UInt8 :=
  ofString m.name ++ ofList ofField m.fields ++ ofInt32 m.typeTag ++ ofNat m.line

def ofMethod (m : Method) : List UInt8 :=
  ofString m.name ++ ofString m.request ++ ofString m.response ++ ofNat m.line

def ofService (s : Service) : List UInt8 :=
  ofString s.name ++ ofList ofMethod s.methods ++ ofNat s.line

def ofOptionEntry (e : String × String) : List UInt8 := ofString e.1 ++ ofString e.2

def ofDefinition (d : Definition) : List UInt8 :=
  ofString d.namespaceName ++ ofList ofMessage d.messages ++ ofList ofService d.services ++
    ofList ofOptionEntry d.options.entries

def magic : List UInt8 := [0x50, 0x44, 0x4C, 0x43]

def version : Nat := 1

def headerSize : Nat := 10

def encode (d : Definition) : List UInt8 :=
  let body := ofDefinition d
  magic ++ LittleEndian.digits 2 version ++ LittleEndian.ofUInt32 (Checksum.crc32 body) ++ body

abbrev Take (α : Type) := StateT (List UInt8) (Except BodyFault) α

def take (n : Nat) : Take (List UInt8) := fun bytes =>
  if n ≤ bytes.length then .ok (bytes.take n, bytes.drop n) else .error .ended

def takeNat : Take Nat := return LittleEndian.value (← take 8)

def takeInt32 : Take Int32 := return (LittleEndian.toUInt32 (← take 4)).toInt32

def takeByte : Take UInt8 := return UInt8.ofNat (LittleEndian.value (← take 1))

def takeBool : Take Bool := do
  match ← takeByte with
  | 0 => return false
  | 1 => return true
  | b => throw (.invalidBool b)

def takeString : Take String := do
  match Utf8.decode (← take (← takeNat)) with
  | .ok s => return s
  | .error fault => throw (.invalidText fault)

def takeOption : Take (Option String) := do
  match ← takeByte with
  | 0 => return none
  | 1 => return some (← takeString)
  | b => throw (.invalidOption b)

def takeTimes (one : Take α) : Nat → Take (List α)
  | 0 => return []
  | n + 1 => return (← one) :: (← takeTimes one n)

def takeList (one : Take α) : Take (List α) := do takeTimes one (← takeNat)

def takeType : Take FieldType := do
  let index := LittleEndian.value (← take 4)
  match FieldType.all[index]? with
  | some type => return type
  | none => throw (.invalidType index)

def takeField : Take Field :=
  return ⟨← takeString, ← takeType, ← takeInt32, ← takeBool, ← takeOption, ← takeNat⟩

def takeMessage : Take Message :=
  return ⟨← takeString, ← takeList takeField, ← takeInt32, ← takeNat⟩

def takeMethod : Take Method :=
  return ⟨← takeString, ← takeString, ← takeString, ← takeNat⟩

def takeService : Take Service :=
  return ⟨← takeString, ← takeList takeMethod, ← takeNat⟩

def takeOptionEntry : Take (String × String) := return (← takeString, ← takeString)

def takeDefinition : Take Definition := do
  let namespaceName ← takeString
  let messages ← takeList takeMessage
  let services ← takeList takeService
  let entries ← takeList takeOptionEntry
  let options := entries.foldl (fun o e => o.insert e.1 e.2) Options.empty
  return ⟨namespaceName, messages, services, options⟩

/-- Bytes after the definition are ignored. -/
def decode (bytes : List UInt8) : Except Fault Definition :=
  let version := LittleEndian.value ((bytes.drop 4).take 2)
  let expected := LittleEndian.toUInt32 ((bytes.drop 6).take 4)
  let body := bytes.drop headerSize
  if bytes.length < headerSize then .error (.tooShort bytes.length)
  else if bytes.take 4 ≠ magic then .error .badMagic
  else if version ≠ Snapshot.version then .error (.unsupportedVersion version)
  else if expected ≠ Checksum.crc32 body then
    .error (.checksumMismatch expected (Checksum.crc32 body))
  else
    match takeDefinition body with
    | .ok (d, _) => .ok d
    | .error fault => .error (.body fault)

end WireProtocol.Schema.Snapshot
