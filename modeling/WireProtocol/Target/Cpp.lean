import WireProtocol.Target.Basic
import WireProtocol.Text.NameWords

namespace WireProtocol.Target

namespace Cpp

open Code

def scalarType : Schema.FieldType → String
  | .int32 => "std::int32_t"
  | .int64 => "std::int64_t"
  | .float => "float"
  | .double => "double"
  | .bool => "bool"
  | .string => "std::string"
  | .vector3 => "pdlkit::Vector3"
  | .dateTime => "pdlkit::Timestamp"
  | .struct | .list | .map => "pdlkit::Object"

def defaultLiteral : Schema.FieldType → String
  | .int32 => "0"
  | .int64 => "0LL"
  | .float => "0.0f"
  | .double => "0.0"
  | .bool => "false"
  | .string => "\"\""
  | .vector3 | .dateTime | .struct | .list | .map => "\x7b\x7d"

def sharedPointer (name : String) : String := "std::shared_ptr<" ++ name ++ ">"

def mapping : Mapping where
  name := "cpp"
  scalarType := scalarType
  defaultLiteral := defaultLiteral
  structRef := sharedPointer
  structElement := sharedPointer
  nullLiteral := "nullptr"
  repeatedType element := "std::vector<" ++ element ++ ">"
  emptyRepeated _ := "\x7b\x7d"
  namespaceName name :=
    match nameParts name with
    | [] => "generated"
    | parts => String.intercalate "::" (parts.map Text.snakeCase)
  fieldName := Text.snakeCase
  methodName := Text.snakeCase
  membersClashWithType := false
  reservedTypeNames := []

def wireMethod : Schema.FieldType → String
  | .int32 => "int32"
  | .int64 => "int64"
  | .float => "float"
  | .double => "double"
  | .bool => "bool"
  | .string => "string"
  | .vector3 => "vector3"
  | .dateTime => "timestamp"
  | .struct | .list | .map => "object"

def opening (cx : Context) (includes : List String) : Code :=
  lines (cx.banner "//") ++
  blank ++
  one "#pragma once" ++
  blank ++
  each includes (fun i => if i.isEmpty then blank else one ("#include " ++ i)) ++
  blank

def inNamespace (name : String) (body : Code) : Code :=
  one ("namespace " ++ name ++ " \x7b") ++
  blank ++
  body ++
  blank ++
  one ("\x7d  // namespace " ++ name)

def inSubNamespace (cx : Context) (sub : String) (body : Code) : Code :=
  inNamespace (cx.namespaceName ++ "::" ++ sub) body

def classBraced (head : String) (body : Code) : Code := within (head ++ " \x7b") "\x7d;" body

def structCode (cx : Context) (m : Schema.Message) : Code :=
  blank ++
  one ("// " ++ cx.qualifiedName m) ++
  classBraced ("struct " ++ m.name)
    ((each m.fields fun f =>
        one (mapping.memberType f ++ " " ++ mapping.fieldName f.name ++ " = " ++
          mapping.memberDefault f ++ ";")) ++
      onlyIf (!m.fields.isEmpty) blank ++
      one (m.name ++ "() = default;"))

def messages (cx : Context) : SourceUnit :=
  .ofCode "messages.h"
    (opening cx ["<cstdint>", "<memory>", "<string>", "<vector>", "", "\"pdlkit/object.h\"",
        "\"pdlkit/timestamp.h\"", "\"pdlkit/vector3.h\""] ++
      inNamespace cx.namespaceName
        ((each cx.definition.messages fun m => one ("struct " ++ m.name ++ ";")) ++
          each cx.definition.messages (structCode cx)))

def member (f : Schema.Field) : String := "value." ++ mapping.fieldName f.name

def presence (f : Schema.Field) : String :=
  let access := member f
  if f.repeated then "!" ++ access ++ ".empty()"
  else
    match f.type with
    | .int32 | .int64 | .float | .double => access ++ " != 0"
    | .bool => access
    | .string => "!" ++ access ++ ".empty()"
    | .vector3 => "!" ++ access ++ ".is_zero()"
    | .dateTime => access ++ ".millis != 0"
    | .struct | .list | .map => access ++ " != nullptr"

def readCall (f : Schema.Field) : String :=
  match f.type, f.customType with
  | .struct, some name => "reader.read_object<" ++ name ++ ">()"
  | type, _ => "reader.read_" ++ wireMethod type ++ "()"

def writeField (f : Schema.Field) : Code :=
  let write := "writer.write_" ++ wireMethod f.type
  if f.repeated then
    one ("writer.write_int32(static_cast<std::int32_t>(" ++ member f ++ ".size()));") ++
    braced ("for (const auto& item : " ++ member f ++ ")") (one (write ++ "(item);"))
  else one (write ++ "(" ++ member f ++ ");")

def readField (f : Schema.Field) : Code :=
  if f.repeated then
    one "const std::int32_t count = reader.read_int32();" ++
    one (member f ++ ".reserve(count);") ++
    braced "for (std::int32_t i = 0; i < count; ++i)"
      (one (member f ++ ".push_back(" ++ readCall f ++ ");"))
  else one (member f ++ " = " ++ readCall f ++ ";")

def markField (bit : Nat) (f : Schema.Field) : Code :=
  one ("if (" ++ presence f ++ ") mask.set(" ++ toString bit ++ ");")

def guarded (body : Schema.Field → Code) (bit : Nat) (f : Schema.Field) : Code :=
  braced ("if (mask.is_set(" ++ toString bit ++ "))") (body f)

def serializer (cx : Context) (m : Schema.Message) : SourceUnit :=
  .inDirectory "serialization" (Text.snakeCase m.name ++ "_serializer.h")
    (opening cx ["<cstddef>", "<cstdint>", "", "\"pdlkit/wire.h\"", "\"../messages.h\""] ++
      inSubNamespace cx "serialization"
        (classBraced ("struct " ++ m.name ++ "Serializer")
          (one ("static constexpr const char* kTypeName = \"" ++ cx.qualifiedName m ++ "\";") ++
            one ("static constexpr std::int32_t kTypeTag = " ++ toString m.typeTag ++ ";") ++
            one ("static constexpr std::size_t kFieldCount = " ++ toString m.fields.length ++
              ";") ++
            one ("static constexpr std::size_t kMaskWords = " ++ toString m.maskWords ++ ";") ++
            blank ++
            braced ("static void write(const " ++ m.name ++
                "& value, pdlkit::WireWriter& writer)")
              (one "pdlkit::PooledMask mask(kMaskWords);" ++
                numbered m.fields markField ++
                one "writer.write_mask(mask);" ++
                numbered m.fields (guarded writeField)) ++
            blank ++
            braced ("static " ++ m.name ++ " read(pdlkit::WireReader& reader)")
              (one "pdlkit::PooledMask mask(kMaskWords);" ++
                one "reader.read_mask(mask);" ++
                one (m.name ++ " value;") ++
                numbered m.fields (guarded readField) ++
                one "return value;"))))

def registry (cx : Context) : SourceUnit :=
  let includes := cx.definition.messages.map fun m =>
    "\"" ++ Text.snakeCase m.name ++ "_serializer.h\""
  .inDirectory "serialization" "serializer_registry.h"
    (opening cx ("\"pdlkit/type_registry.h\"" :: includes) ++
      inSubNamespace cx "serialization"
        (braced "inline void register_all(pdlkit::TypeRegistry& registry)"
          (each cx.definition.messages fun m =>
            one ("registry.register_type<" ++ m.name ++ ">(" ++ m.name ++
              "Serializer::kTypeTag, &" ++ m.name ++ "Serializer::write, &" ++ m.name ++
              "Serializer::read);"))))

def serviceName (s : Schema.Service) : Code :=
  one ("static constexpr const char* kServiceName = \"" ++ s.name ++ "\";")

def clientMethod (s : Schema.Service) (m : Schema.Method) : Code :=
  blank ++
  braced ("std::future<" ++ m.response ++ "> " ++ mapping.methodName m.name ++ "(const " ++
      m.request ++ "& request)")
    (one ("return client_.call_async<" ++ m.request ++ ", " ++ m.response ++ ">(\"" ++ s.key m ++
      "\", request);"))

def client (cx : Context) (s : Schema.Service) : SourceUnit :=
  let name := s.name ++ "Client"
  .inDirectory "client" (Text.snakeCase s.name ++ "_client.h")
    (opening cx ["<future>", "", "\"pdlkit/rpc_client.h\"", "\"../messages.h\""] ++
      inSubNamespace cx "client"
        (classBraced ("class " ++ name)
          (one "public:" ++
            serviceName s ++
            blank ++
            one ("explicit " ++ name ++ "(pdlkit::RpcClient& client) : client_(client) \x7b\x7d") ++
            each s.methods (clientMethod s) ++
            blank ++
            one "private:" ++
            one "pdlkit::RpcClient& client_;")))

def interface (cx : Context) (s : Schema.Service) : SourceUnit :=
  let name := "I" ++ s.name ++ "Service"
  .inDirectory "server" ("i_" ++ Text.snakeCase s.name ++ "_service.h")
    (opening cx ["\"../messages.h\""] ++
      inSubNamespace cx "server"
        (classBraced ("class " ++ name)
          (one "public:" ++
            one ("virtual ~" ++ name ++ "() = default;") ++
            each s.methods fun m =>
              one ("virtual " ++ m.response ++ " " ++ mapping.methodName m.name ++ "(const " ++
                m.request ++ "& request) = 0;"))))

def route (m : Schema.Method) : Code :=
  within ("table.emplace(\"" ++ m.name ++ "\", [this](const pdlkit::Object& request) \x7b")
    "\x7d);"
    (one ("return pdlkit::Object(" ++ mapping.methodName m.name ++ "(request.as<" ++ m.request ++
      ">()));"))

def base (cx : Context) (s : Schema.Service) : SourceUnit :=
  let snake := Text.snakeCase s.name
  .inDirectory "server" (snake ++ "_service_base.h")
    (opening cx ["\"pdlkit/dispatch.h\"", "\"../messages.h\"", "\"i_" ++ snake ++ "_service.h\""] ++
      inSubNamespace cx "server"
        (classBraced ("class " ++ s.name ++ "ServiceBase : public I" ++ s.name ++ "Service")
          (one "public:" ++
            serviceName s ++
            blank ++
            braced "pdlkit::DispatchTable build_dispatch_table()"
              (one "pdlkit::DispatchTable table;" ++
                each s.methods route ++
                one "return table;"))))

def libraryName (cx : Context) : String :=
  if cx.definition.namespaceName.isEmpty then "generated_protocol"
  else Text.snakeCase cx.definition.namespaceName ++ "_protocol"

def headerName (u : SourceUnit) : String :=
  String.intercalate "/" (u.path.parts.map Files.Path.Part.text)

def sourceDir : String := "$\x7bCMAKE_CURRENT_SOURCE_DIR\x7d"

def buildFile (cx : Context) (units : List SourceUnit) : SourceUnit :=
  let library := libraryName cx
  let headers := (units.map headerName).mergeSort fun a b => !decide (b < a)
  .ofCode "CMakeLists.txt"
    (lines (cx.banner "#") ++
      blank ++
      one "cmake_minimum_required(VERSION 3.16)" ++
      blank ++
      one ("add_library(" ++ library ++ " INTERFACE)") ++
      blank ++
      within ("target_sources(" ++ library ++ " INTERFACE") ")"
        (each headers fun h => one (sourceDir ++ "/" ++ h)) ++
      blank ++
      one ("target_include_directories(" ++ library ++ " INTERFACE " ++ sourceDir ++ ")") ++
      one ("target_link_libraries(" ++ library ++ " INTERFACE pdlkit::core)") ++
      one ("target_compile_features(" ++ library ++ " INTERFACE cxx_std_17)"))

end Cpp

open Cpp in
def cpp : Language where
  toMapping := mapping
  messages := messages
  serializer := serializer
  registry := registry
  client := client
  servers cx s := [interface cx s, base cx s]
  support cx units := [buildFile cx units]

end WireProtocol.Target
