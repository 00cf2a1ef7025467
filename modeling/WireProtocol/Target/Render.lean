import WireProtocol.Error
import WireProtocol.Schema.Validation
import WireProtocol.Target.CSharp
import WireProtocol.Target.Cpp
import WireProtocol.Target.Rust

namespace WireProtocol.Target

open Schema (Definition)

def all : List Language := [rust, cSharp, cpp]

def ofName? (name : String) : Option Language :=
  match String.ofList (name.toList.map Char.toLower) with
  | "rust" | "rs" => some rust
  | "csharp" | "cs" | "c#" => some cSharp
  | "cpp" | "c++" | "cxx" => some cpp
  | _ => none

/-- Two declarations that become the same name in the target. -/
inductive Clash
  | reservedType (message : String)
  | ownName (field message : String)
  | fields (first second message member : String)
  | methods (first second service member : String)
  deriving DecidableEq, Repr

def Clash.text : Clash → String
  | reservedType message => s!"message `{message}` shadows a type the generated code uses"
  | ownName field message => s!"field `{field}` of `{message}` maps to the message's own name"
  | fields first second message member =>
    s!"fields `{first}` and `{second}` of `{message}` both map to `{member}`"
  | methods first second service member =>
    s!"methods `{first}` and `{second}` of `{service}` both map to `{member}`"

inductive Refusal
  | invalid (errors : String)
  | clash (target : String) (c : Clash)
  | samePath (path : Files.Path)
  deriving DecidableEq, Repr

def Refusal.kind : Refusal → ErrorKind
  | invalid _ => .schema
  | clash .. | samePath _ => .generation

def Refusal.text : Refusal → String
  | invalid errors => errors
  | clash target c => target ++ ": " ++ c.text
  | samePath path => "two units map to " ++ path.text ++ "; rename one of the colliding declarations"

namespace Mapping

def fieldClash? (m : Mapping) (message : String) (before : List String) :
    List Schema.Field → Option Clash
  | [] => none
  | f :: rest =>
    let member := m.fieldName f.name
    if m.membersClashWithType && member == message then some (.ownName f.name message)
    else
      match before.find? (m.fieldName · == member) with
      | some first => some (.fields first f.name message member)
      | none => fieldClash? m message (f.name :: before) rest

def methodClash? (m : Mapping) (service : String) (before : List String) :
    List Schema.Method → Option Clash
  | [] => none
  | r :: rest =>
    let member := m.methodName r.name
    match before.find? (m.methodName · == member) with
    | some first => some (.methods first r.name service member)
    | none => methodClash? m service (r.name :: before) rest

def messageClash? (m : Mapping) (message : Schema.Message) : Option Clash :=
  if m.reservedTypeNames.contains message.name then some (.reservedType message.name)
  else m.fieldClash? message.name [] message.fields

def clash? (m : Mapping) (d : Definition) : Option Clash :=
  (d.messages.findSome? m.messageClash?).or
    (d.services.findSome? fun s => m.methodClash? s.name [] s.methods)

end Mapping

namespace Language

def context (l : Language) (d : Definition) (o : Options) : Context where
  definition := d
  namespaceName :=
    if o.namespaceName.isEmpty then l.toMapping.namespaceName d.namespaceName else o.namespaceName

def mainUnits (l : Language) (d : Definition) (o : Options) : List SourceUnit :=
  let cx := l.context d o
  [l.messages cx] ++
  (if o.serialization then
    d.messages.map (l.serializer cx) ++ (if o.factories then [l.registry cx] else [])
    else []) ++
  (if o.clientServer then d.services.flatMap fun s => l.client cx s :: l.servers cx s else [])

def units (l : Language) (d : Definition) (o : Options) : List SourceUnit :=
  let main := l.mainUnits d o
  (main ++ l.support (l.context d o) main).mergeSort fun a b => a.path.le b.path

end Language

def repeatedPath? : List SourceUnit → Option Files.Path
  | a :: b :: rest => if a.path.same b.path then some a.path else repeatedPath? (b :: rest)
  | _ => none

def render (l : Language) (d : Definition) (o : Options) : Except Refusal (List SourceUnit) :=
  match Schema.Diagnostic.summary? d.validate with
  | some errors => .error (.invalid errors)
  | none =>
    match l.clash? d with
    | some c => .error (.clash l.name c)
    | none =>
      let units := l.units d o
      match repeatedPath? units with
      | some path => .error (.samePath path)
      | none => .ok units

end WireProtocol.Target
