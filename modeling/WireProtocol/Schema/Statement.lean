import WireProtocol.Schema.Definition
import WireProtocol.Schema.Diagnostic
import WireProtocol.Text.Blank
import WireProtocol.Text.Identifier

namespace WireProtocol.Schema.Statement

def splitKeyword (text : List Char) : List Char × List Char :=
  match Text.cutAt? Text.isBlank text with
  | some (keyword, rest) => (keyword, Text.trim rest)
  | none => (text, [])

def fieldWords (text : List Char) : List (List Char) :=
  Text.words (text.flatMap fun c => if c = '=' then [' ', '=', ' '] else [c])

def natural? : List Char → Option Nat
  | [] => none
  | digits =>
    if digits.all Char.isDigit then some (digits.foldl (fun n c => 10 * n + (c.toNat - 48)) 0)
    else none

def integer? : List Char → Option Int
  | '-' :: digits => (natural? digits).map fun n => -(n : Int)
  | '+' :: digits => (natural? digits).map fun n => (n : Int)
  | digits => (natural? digits).map fun n => (n : Int)

def fieldId? (text : List Char) : Option Int32 :=
  match integer? text with
  | some n => if -0x80000000 ≤ n ∧ n < 0x80000000 then some (Int32.ofInt n) else none
  | none => none

def typedField (type name : List Char) (id : Int32) (repeated : Bool) (line : Nat) : Field :=
  match FieldType.ofName? (String.ofList type) with
  | some primitive => ⟨String.ofList name, primitive, id, repeated, none, line⟩
  | none => ⟨String.ofList name, .struct, id, repeated, some (String.ofList type), line⟩

def field (text : List Char) (line : Nat) : Except Problem Field :=
  let words := fieldWords text
  let repeated := words.head? == some "repeated".toList
  match if repeated then words.tail else words with
  | [type, name, ['='], id] =>
    if Text.isDottedName type && Text.isIdentifier name then
      match fieldId? id with
      | some id => .ok (typedField type name id repeated line)
      | none => .error (.invalidFieldId (String.ofList id))
    else .error (.invalidField (String.ofList text))
  | _ => .error (.unrecognizedField (String.ofList text))

def method? (text : List Char) (line : Nat) : Option Method := do
  let (keyword, rest) := splitKeyword text
  guard (keyword = "rpc".toList)
  let (name, rest) ← Text.cutAt? (· == '(') rest
  let (request, rest) ← Text.cutAt? (· == ')') rest
  let rest ← Text.stripStart? "returns".toList (Text.trimStart rest)
  let response ← Text.stripEnd? [')'] (← Text.stripStart? ['('] (Text.trim rest))
  let name := Text.trim name
  let request := Text.trim request
  let response := Text.trim response
  guard (Text.isIdentifier name && Text.isDottedName request && Text.isDottedName response)
  return ⟨String.ofList name, String.ofList request, String.ofList response, line⟩

def method (text : List Char) (line : Nat) : Except Problem Method :=
  match method? text line with
  | some m => .ok m
  | none => .error (.unrecognizedMethod (String.ofList text))

def option? (text : List Char) : Option (String × String) := do
  let (key, value) ← Text.cutAt? (· == '=') text
  let key := Text.trim key
  let value ← Text.stripEnd? ['"'] (← Text.stripStart? ['"'] (Text.trim value))
  guard (Text.isDottedName key)
  return (String.ofList key, String.ofList value)

end WireProtocol.Schema.Statement
