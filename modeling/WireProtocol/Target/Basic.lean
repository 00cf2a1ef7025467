import WireProtocol.Files.Path
import WireProtocol.Schema.Definition
import WireProtocol.Target.Code

namespace WireProtocol.Target

open Schema (Definition FieldType)

structure Options where
  outputDir : Files.Path := ⟨"./generated"⟩
  namespaceName : String := ""
  serialization : Bool := true
  clientServer : Bool := true
  factories : Bool := true
  deriving DecidableEq, Repr

structure SourceUnit where
  path : Files.Path
  contents : String
  deriving DecidableEq, Repr

structure Mapping where
  name : String
  scalarType : FieldType → String
  defaultLiteral : FieldType → String
  structRef : String → String
  structElement : String → String
  nullLiteral : String
  repeatedType : String → String
  emptyRepeated : String → String
  namespaceName : String → String
  fieldName : String → String
  methodName : String → String
  membersClashWithType : Bool
  reservedTypeNames : List String

namespace Mapping

def elementType (m : Mapping) (f : Schema.Field) : String :=
  match f.type, f.customType with
  | .struct, some name => if f.repeated then m.structElement name else m.structRef name
  | type, _ => m.scalarType type

def memberType (m : Mapping) (f : Schema.Field) : String :=
  if f.repeated then m.repeatedType (m.elementType f) else m.elementType f

def memberDefault (m : Mapping) (f : Schema.Field) : String :=
  if f.repeated then m.emptyRepeated (m.elementType f)
  else if f.type = .struct then m.nullLiteral
  else m.defaultLiteral f.type

end Mapping

structure Context where
  definition : Definition
  namespaceName : String

namespace Context

def qualifiedName (cx : Context) (m : Schema.Message) : String := cx.definition.qualifiedName m.name

/-- Cuts a text wherever a backslash is followed by the letter n. -/
def headerLines : List Char → List (List Char)
  | [] => [[]]
  | '\\' :: 'n' :: rest => [] :: headerLines rest
  | c :: rest =>
    match headerLines rest with
    | part :: parts => (c :: part) :: parts
    | [] => [[c]]

def banner (cx : Context) (comment : String) : List String :=
  let source :=
    if cx.definition.namespaceName.isEmpty then "schema"
    else "schema `" ++ cx.definition.namespaceName ++ "`"
  let header :=
    match cx.definition.options.get? "header" with
    | some text => (headerLines text.toList).map fun l => comment ++ " " ++ String.ofList l
    | none => []
  (comment ++ " Code generated by pdlkit from " ++ source ++ ". DO NOT EDIT.") :: header

end Context

/-- A language with the texts of its units. Support units are made last, from all the others. -/
structure Language extends Mapping where
  messages : Context → SourceUnit
  serializer : Context → Schema.Message → SourceUnit
  registry : Context → SourceUnit
  client : Context → Schema.Service → SourceUnit
  servers : Context → Schema.Service → List SourceUnit
  support : Context → List SourceUnit → List SourceUnit

def nameParts (name : String) : List String :=
  ((Text.splitAt (· == '.') name.toList).filter (!·.isEmpty)).map String.ofList

def indentUnit : String := "    "

def SourceUnit.ofCode (path : String) (code : Code) : SourceUnit :=
  ⟨⟨path⟩, code.render indentUnit⟩

def SourceUnit.inDirectory (dir file : String) (code : Code) : SourceUnit :=
  ⟨Files.Path.join ⟨dir⟩ ⟨file⟩, code.render indentUnit⟩

end WireProtocol.Target
