import WireProtocol.Target.Basic
import WireProtocol.Text.NameWords

namespace WireProtocol.Target

namespace Rust

open Code

def keywords : List String :=
  ["as", "async", "await", "box", "break", "const", "continue", "crate", "dyn", "else", "enum",
    "extern", "false", "fn", "for", "if", "impl", "in", "let", "loop", "match", "mod", "move",
    "mut", "pub", "ref", "return", "self", "static", "struct", "super", "trait", "true", "type",
    "unsafe", "use", "where", "while", "yield"]

/-- Keywords become names when they are marked as such. -/
def escape (name : String) : String := if keywords.contains name then "r#" ++ name else name

def moduleName (name : String) : String := escape (Text.snakeCase name)

def fileName (name : String) : String := Text.snakeCase name ++ ".rs"

def scalarType : Schema.FieldType → String
  | .int32 => "i32"
  | .int64 => "i64"
  | .float => "f32"
  | .double => "f64"
  | .bool => "bool"
  | .string => "String"
  | .vector3 => "pdlkit::wire::Vector3"
  | .dateTime => "pdlkit::wire::Timestamp"
  | .struct | .list | .map => "Vec<u8>"

def defaultLiteral : Schema.FieldType → String
  | .int32 | .int64 => "0"
  | .float | .double => "0.0"
  | .bool => "false"
  | .string => "String::new()"
  | .vector3 => "pdlkit::wire::Vector3::ZERO"
  | .dateTime => "pdlkit::wire::Timestamp::EPOCH"
  | .struct | .list | .map => "Vec::new()"

def mapping : Mapping where
  name := "rust"
  scalarType := scalarType
  defaultLiteral := defaultLiteral
  structRef name := "Option<Box<" ++ name ++ ">>"
  structElement name := name
  nullLiteral := "None"
  repeatedType element := "Vec<" ++ element ++ ">"
  emptyRepeated _ := "Vec::new()"
  namespaceName name := String.intercalate "::" ((nameParts name).map moduleName)
  fieldName := moduleName
  methodName := moduleName
  membersClashWithType := false
  reservedTypeNames := ["Box", "Option", "Self", "String", "Vec"]

inductive Carriage
  | value
  | repeated
  | nested (type : String)
  | repeatedNested (type : String)
  deriving DecidableEq, Repr

def carriage (f : Schema.Field) : Carriage :=
  match f.type, f.customType, f.repeated with
  | .struct, some type, false => .nested type
  | .struct, some type, true => .repeatedNested type
  | _, _, false => .value
  | _, _, true => .repeated

def opening (cx : Context) : Code := lines (cx.banner "//") ++ blank

def importTypes : Code := one "use super::super::types::*;" ++ blank

def structCode (cx : Context) (m : Schema.Message) : Code :=
  one ("/// `" ++ cx.qualifiedName m ++ "`") ++
  one "#[derive(Debug, Clone, Default, PartialEq)]" ++
  braced ("pub struct " ++ m.name)
    (each m.fields fun f =>
      one ("pub " ++ mapping.fieldName f.name ++ ": " ++ mapping.memberType f ++ ",")) ++
  blank ++
  braced ("impl " ++ m.name)
    (one "/// Every field at its zero value" ++
      braced "pub fn new() -> Self"
        (if m.fields.isEmpty then one "Self \x7b\x7d"
          else
            braced "Self"
              (each m.fields fun f =>
                one (mapping.fieldName f.name ++ ": " ++ mapping.memberDefault f ++ ","))))

def messages (cx : Context) : SourceUnit :=
  .ofCode "types.rs" (opening cx ++ spaced cx.definition.messages (structCode cx))

def Carriage.suffix? : Carriage → Option String
  | value => none
  | repeated => some "repeated"
  | nested _ => some "nested"
  | repeatedNested _ => some "repeated_nested"

def helpers (m : Schema.Message) : List String :=
  let suffixes := m.fields.filterMap fun f => (carriage f).suffix?
  let used := ["nested", "repeated", "repeated_nested"].filter suffixes.contains
  used.map ("read_" ++ ·) ++ used.map ("write_" ++ ·)

def imports (m : Schema.Message) : Code :=
  let hasValues := m.fields.any fun f => carriage f = .value
  onlyIf (!(helpers m).isEmpty)
    (one ("use pdlkit::wire::message::\x7b" ++ String.intercalate ", " (helpers m) ++ "\x7d;")) ++
  onlyIf hasValues (one "use pdlkit::wire::WireValue as _;") ++
  onlyIf (!(helpers m).isEmpty || hasValues) blank ++
  importTypes

def presence (f : Schema.Field) : String :=
  let member := "self." ++ mapping.fieldName f.name
  match carriage f with
  | .value => "!" ++ member ++ ".is_default()"
  | .nested _ => member ++ ".is_some()"
  | .repeated | .repeatedNested _ => "!" ++ member ++ ".is_empty()"

def writeCall (f : Schema.Field) : String :=
  let member := "self." ++ mapping.fieldName f.name
  match carriage f with
  | .value => member ++ ".write_to(w)?;"
  | .repeated => "write_repeated(&" ++ member ++ ", w)?;"
  | .nested _ => "write_nested(" ++ member ++ ".as_deref(), w)?;"
  | .repeatedNested _ => "write_repeated_nested(&" ++ member ++ ", w)?;"

def readCall (f : Schema.Field) : String :=
  "self." ++ mapping.fieldName f.name ++ " = " ++
  match carriage f with
  | .value => "pdlkit::wire::WireValue::read_from(r)?;"
  | .repeated => "read_repeated(r)?;"
  | .nested type => "read_nested::<" ++ type ++ ">(r)?.map(Box::new);"
  | .repeatedNested type => "read_repeated_nested::<" ++ type ++ ">(r)?;"

def markField (bit : Nat) (f : Schema.Field) : Code :=
  one ("mask.set_if(" ++ toString bit ++ ", " ++ presence f ++ ");")

def guarded (call : Schema.Field → String) (bit : Nat) (f : Schema.Field) : Code :=
  braced ("if mask.is_set(" ++ toString bit ++ ")") (one (call f))

def serializer (cx : Context) (m : Schema.Message) : SourceUnit :=
  let unused := if m.fields.isEmpty then "_" else ""
  .inDirectory "serialization" (fileName m.name)
    (opening cx ++ imports m ++
      braced ("impl pdlkit::wire::WireMessage for " ++ m.name)
        (one ("const TYPE_NAME: &'static str = \"" ++ cx.qualifiedName m ++ "\";") ++
          one ("const TYPE_TAG: i32 = " ++ toString m.typeTag ++ ";") ++
          one ("const FIELD_COUNT: usize = " ++ toString m.fields.length ++ ";") ++
          blank ++
          braced ("fn mark_present(&self, " ++ unused ++ "mask: &mut pdlkit::wire::PresenceMask)")
            (numbered m.fields markField) ++
          blank ++
          braced ("fn write_present(&self, " ++ unused ++ "mask: &pdlkit::wire::PresenceMask, " ++
              unused ++ "w: &mut pdlkit::wire::WireWriter) -> pdlkit::Result<()>")
            (numbered m.fields (guarded writeCall) ++ one "Ok(())") ++
          blank ++
          braced ("fn read_present(&mut self, " ++ unused ++ "mask: &pdlkit::wire::PresenceMask, " ++
              unused ++ "r: &mut pdlkit::wire::WireReader<'_>) -> pdlkit::Result<()>")
            (numbered m.fields (guarded readCall) ++ one "Ok(())")))

def registry (cx : Context) : SourceUnit :=
  let none := cx.definition.messages.isEmpty
  .ofCode "registry.rs"
    (opening cx ++
      onlyIf (!none) (one "use super::types::*;" ++ blank) ++
      one "/// Register every message type of this schema" ++
      braced ("pub fn register_all(" ++ (if none then "_registry" else "registry") ++
          ": &mut pdlkit::wire::TypeRegistry) -> pdlkit::Result<()>")
        ((each cx.definition.messages fun m =>
            one ("registry.register_message::<" ++ m.name ++ ">()?;")) ++
          one "Ok(())"))

def clientMethod (s : Schema.Service) (m : Schema.Method) : Code :=
  blank ++
  one ("/// `" ++ s.key m ++ "`") ++
  braced ("pub fn " ++ mapping.methodName m.name ++ "(&mut self, request: &" ++ m.request ++
      ") -> pdlkit::Result<" ++ m.response ++ ">")
    (one ("self.inner.call(\"" ++ s.key m ++ "\", request)"))

def client (cx : Context) (s : Schema.Service) : SourceUnit :=
  .inDirectory "client" (fileName s.name)
    (opening cx ++
      onlyIf (!s.methods.isEmpty) importTypes ++
      one ("/// Typed client for the `" ++ s.name ++ "` service") ++
      braced ("pub struct " ++ s.name ++ "Client") (one "inner: pdlkit::network::RpcClient,") ++
      blank ++
      braced ("impl " ++ s.name ++ "Client")
        (one ("pub const SERVICE_NAME: &'static str = \"" ++ s.name ++ "\";") ++
          blank ++
          braced "pub fn new(inner: pdlkit::network::RpcClient) -> Self"
            (one "Self \x7b inner \x7d") ++
          blank ++
          braced "pub fn into_inner(self) -> pdlkit::network::RpcClient" (one "self.inner") ++
          each s.methods (clientMethod s)))

def traitMethod (s : Schema.Service) (m : Schema.Method) : Code :=
  one ("/// `" ++ s.key m ++ "`") ++
  one ("fn " ++ mapping.methodName m.name ++ "(&self, request: " ++ m.request ++
    ") -> std::result::Result<" ++ m.response ++ ", pdlkit::protocol::RpcError>;")

def handlers (cx : Context) (s : Schema.Service) : SourceUnit :=
  .inDirectory "server" (Text.snakeCase s.name ++ "_service.rs")
    (opening cx ++
      onlyIf (!s.methods.isEmpty) importTypes ++
      one ("/// Handlers for the `" ++ s.name ++ "` service") ++
      braced ("pub trait " ++ s.name ++ "Service: Send + Sync + 'static")
        (spaced s.methods (traitMethod s)))

def route (m : Schema.Method) : Code :=
  within (".method(\"" ++ m.name ++ "\", \x7b") "\x7d)"
    (one "let service = std::sync::Arc::clone(&service);" ++
      one ("move |request: " ++ m.request ++ "| service." ++ mapping.methodName m.name ++
        "(request)"))

def dispatch (cx : Context) (s : Schema.Service) : SourceUnit :=
  let snake := Text.snakeCase s.name
  let parameter := if s.methods.isEmpty then "_service" else "service"
  .inDirectory "server" (snake ++ "_dispatch.rs")
    (opening cx ++
      onlyIf (!s.methods.isEmpty) importTypes ++
      one ("/// Route `" ++ s.name ++ ".*` requests to `service`") ++
      braced ("pub fn " ++ snake ++ "_dispatch<S: super::" ++ snake ++ "_service::" ++ s.name ++
          "Service>(" ++ parameter ++
          ": std::sync::Arc<S>) -> pdlkit::network::ServiceDispatch")
        (one ("pdlkit::network::ServiceDispatch::new(\"" ++ s.name ++ "\")") ++
          indent (each s.methods route ++ dedent nil)))

def insertSorted (s : String) : List String → List String
  | [] => [s]
  | t :: rest => if s < t then s :: t :: rest else if s = t then t :: rest else t :: insertSorted s rest

def modulesIn (dir : String) (units : List SourceUnit) : List String :=
  let inside := units.filter fun u => (u.path.parent?.map Files.Path.parts) == some (Files.Path.parts ⟨dir⟩)
  (inside.filterMap fun u => u.path.stem?.map escape).foldr insertSorted []

def index (dir : String) (modules exports : List String) : SourceUnit :=
  .inDirectory dir "mod.rs"
    (each modules (fun m => one ("mod " ++ m ++ ";")) ++
      onlyIf (!exports.isEmpty) (blank ++ each exports fun e => one ("pub use " ++ e ++ ";")))

def clientExport (s : Schema.Service) : String := moduleName s.name ++ "::" ++ s.name ++ "Client"

def serverExports (s : Schema.Service) : List String :=
  let snake := Text.snakeCase s.name
  [snake ++ "_dispatch::" ++ snake ++ "_dispatch", snake ++ "_service::" ++ s.name ++ "Service"]

def support (cx : Context) (units : List SourceUnit) : List SourceUnit :=
  let services := cx.definition.services
  let serialization := modulesIn "serialization" units
  let clients := modulesIn "client" units
  let servers := modulesIn "server" units
  let hasRegistry := units.any fun u => u.path.same ⟨"registry.rs"⟩
  let root :=
    opening cx ++
    one (if cx.namespaceName.isEmpty then "//! Generated protocol"
      else "//! Generated protocol `" ++ cx.namespaceName ++ "`") ++
    blank ++
    one "pub mod types;" ++
    onlyIf (!serialization.isEmpty) (one "pub mod serialization;") ++
    onlyIf hasRegistry (one "pub mod registry;") ++
    onlyIf (!clients.isEmpty) (one "pub mod client;") ++
    onlyIf (!servers.isEmpty) (one "pub mod server;") ++
    blank ++
    one "pub use types::*;" ++
    onlyIf hasRegistry (one "pub use registry::register_all;")
  (if serialization.isEmpty then [] else [index "serialization" serialization []]) ++
  (if clients.isEmpty then [] else [index "client" clients (services.map clientExport)]) ++
  (if servers.isEmpty then [] else [index "server" servers (services.flatMap serverExports)]) ++
  [.ofCode "mod.rs" root]

end Rust

open Rust in
def rust : Language where
  toMapping := mapping
  messages := messages
  serializer := serializer
  registry := registry
  client := client
  servers cx s := [handlers cx s, dispatch cx s]
  support := support

end WireProtocol.Target
