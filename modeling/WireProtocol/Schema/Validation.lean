import WireProtocol.Schema.Definition
import WireProtocol.Schema.Diagnostic

namespace WireProtocol.Schema

/-- Checks each element against those before it, of which the latest comes first. -/
def checkEach (check : List α → α → List Diagnostic) (before : List α) : List α → List Diagnostic
  | [] => []
  | a :: rest => check before a ++ checkEach check (a :: before) rest

namespace Definition

def checkType (d : Definition) (m : Message) (f : Field) : List Diagnostic :=
  match f.type with
  | .struct =>
    let target := f.customType.getD ""
    if (d.message? target).isSome then [] else [⟨f.line, .unknownMessage m.name f.name target⟩]
  | .list | .map => [⟨f.line, .reservedType f.name⟩]
  | _ => []

def checkField (d : Definition) (m : Message) (before : List Field) (f : Field) :
    List Diagnostic :=
  (if before.any (·.name == f.name) then [⟨f.line, .fieldRedeclared f.name m.name⟩] else []) ++
  (if f.id ≤ 0 then [⟨f.line, .nonPositiveId f.name f.id⟩]
    else
      match before.find? (·.id == f.id) with
      | some other => [⟨f.line, .idReused f.id f.name other.name m.name⟩]
      | none => []) ++
  d.checkType m f

def checkMessage (d : Definition) (before : List Message) (m : Message) : List Diagnostic :=
  (match before.find? (·.name == m.name) with
    | some first => [⟨m.line, .messageRedeclared m.name first.line⟩]
    | none => []) ++
  checkEach (d.checkField m) [] m.fields

def checkTag (before : List Message) (m : Message) : List Diagnostic :=
  if Wire.Tag.isReserved m.typeTag then [⟨m.line, .reservedTag m.name m.typeTag⟩]
  else
    match before.find? (·.typeTag == m.typeTag) with
    | some other =>
      if other.name = m.name then [] else [⟨m.line, .sharedTag other.name m.name m.typeTag⟩]
    | none => []

def checkTags (d : Definition) : List Diagnostic := checkEach checkTag [] d.messages

def checkRole (d : Definition) (s : Service) (m : Method) (role : MethodRole) (type : String) :
    List Diagnostic :=
  if (d.message? type).isSome then [] else [⟨m.line, .undeclaredType role type s.name m.name⟩]

def checkMethod (d : Definition) (s : Service) (before : List Method) (m : Method) :
    List Diagnostic :=
  (if before.any (·.name == m.name) then [⟨m.line, .methodRedeclared m.name s.name⟩] else []) ++
  d.checkRole s m .request m.request ++ d.checkRole s m .response m.response

def checkService (d : Definition) (before : List Service) (s : Service) : List Diagnostic :=
  (if before.any (·.name == s.name) then [⟨s.line, .serviceRedeclared s.name⟩] else []) ++
  (if s.methods.isEmpty then [⟨s.line, .noMethods s.name⟩] else []) ++
  checkEach (d.checkMethod s) [] s.methods

def validate (d : Definition) : List Diagnostic :=
  (if d.namespaceName.isEmpty then [⟨0, .noNamespace⟩] else []) ++
  checkEach d.checkMessage [] d.messages ++ d.checkTags ++ checkEach d.checkService [] d.services

end Definition

end WireProtocol.Schema
