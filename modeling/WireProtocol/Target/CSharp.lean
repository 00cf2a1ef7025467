import WireProtocol.Target.Basic
import WireProtocol.Text.NameWords

namespace WireProtocol.Target

namespace CSharp

open Code

def scalarType : Schema.FieldType → String
  | .int32 => "int"
  | .int64 => "long"
  | .float => "float"
  | .double => "double"
  | .bool => "bool"
  | .string => "string"
  | .vector3 => "Vector3"
  | .dateTime => "DateTime"
  | .struct | .list | .map => "object"

def defaultLiteral : Schema.FieldType → String
  | .int32 => "0"
  | .int64 => "0L"
  | .float => "0.0f"
  | .double => "0.0"
  | .bool => "false"
  | .string => "string.Empty"
  | .vector3 => "Vector3.Zero"
  | .dateTime => "DateTime.UnixEpoch"
  | .struct | .list | .map => "null"

def mapping : Mapping where
  name := "csharp"
  scalarType := scalarType
  defaultLiteral := defaultLiteral
  structRef name := name
  structElement name := name
  nullLiteral := "null"
  repeatedType element := "List<" ++ element ++ ">"
  emptyRepeated element := "new List<" ++ element ++ ">()"
  namespaceName name :=
    match nameParts name with
    | [] => "Generated"
    | parts => String.intercalate "." (parts.map Text.pascalCase)
  fieldName := Text.pascalCase
  methodName name := name
  membersClashWithType := true
  reservedTypeNames := []

def wireMethod : Schema.FieldType → String
  | .int32 => "Int32"
  | .int64 => "Int64"
  | .float => "Single"
  | .double => "Double"
  | .bool => "Bool"
  | .string => "String"
  | .vector3 => "Vector3"
  | .dateTime => "DateTime"
  | .struct | .list | .map => "Object"

def brace (head : String) (body : Code) : Code := one head ++ within "\x7b" "\x7d" body

def opening (cx : Context) (usings : List String) : Code :=
  one "// <auto-generated />" ++
  lines (cx.banner "//") ++
  blank ++
  onlyIf (!usings.isEmpty) (each usings (fun u => one ("using " ++ u ++ ";")) ++ blank)

def inNamespace (cx : Context) (sub : String) (body : Code) : Code :=
  brace ("namespace " ++ cx.namespaceName ++ "." ++ sub) body

def classCode (cx : Context) (m : Schema.Message) : Code :=
  one "/// <summary>" ++
  one ("/// " ++ cx.qualifiedName m) ++
  one "/// </summary>" ++
  brace ("public sealed class " ++ m.name)
    ((each m.fields fun f =>
        one ("public " ++ mapping.memberType f ++ " " ++ mapping.fieldName f.name ++
          " \x7b get; set; \x7d")) ++
      onlyIf (!m.fields.isEmpty) blank ++
      brace ("public " ++ m.name ++ "()")
        (each m.fields fun f =>
          one (mapping.fieldName f.name ++ " = " ++ mapping.memberDefault f ++ ";")))

def messages (cx : Context) : SourceUnit :=
  .ofCode "Messages.cs"
    (opening cx ["System", "System.Collections.Generic", "System.Numerics"] ++
      brace ("namespace " ++ cx.namespaceName) (spaced cx.definition.messages (classCode cx)))

def member (f : Schema.Field) : String := "value." ++ mapping.fieldName f.name

def presence (f : Schema.Field) : String :=
  let access := member f
  if f.repeated then access ++ " != null && " ++ access ++ ".Count > 0"
  else
    match f.type with
    | .int32 | .int64 | .float | .double => access ++ " != 0"
    | .bool => access
    | .string => "!string.IsNullOrEmpty(" ++ access ++ ")"
    | .vector3 => access ++ " != Vector3.Zero"
    | .dateTime => access ++ " != DateTime.UnixEpoch"
    | .struct | .list | .map => access ++ " != null"

def readCall (f : Schema.Field) : String :=
  match f.type, f.customType with
  | .struct, some name => "reader.ReadObject<" ++ name ++ ">()"
  | type, _ => "reader.Read" ++ wireMethod type ++ "()"

def writeField (f : Schema.Field) : Code :=
  let write := "writer.Write" ++ wireMethod f.type
  if f.repeated then
    one ("writer.WriteInt32(" ++ member f ++ ".Count);") ++
    brace ("foreach (var item in " ++ member f ++ ")") (one (write ++ "(item);"))
  else one (write ++ "(" ++ member f ++ ");")

def readField (f : Schema.Field) : Code :=
  if f.repeated then
    one "var count = reader.ReadInt32();" ++
    one (member f ++ " = new List<" ++ mapping.elementType f ++ ">(count);") ++
    brace "for (var i = 0; i < count; i++)" (one (member f ++ ".Add(" ++ readCall f ++ ");"))
  else one (member f ++ " = " ++ readCall f ++ ";")

def markField (bit : Nat) (f : Schema.Field) : Code :=
  one ("if (" ++ presence f ++ ") mask.Set(" ++ toString bit ++ ");")

def guarded (body : Schema.Field → Code) (bit : Nat) (f : Schema.Field) : Code :=
  brace ("if (mask.IsSet(" ++ toString bit ++ "))") (body f)

def withMask (body : Code) : Code :=
  one "var mask = MaskPool.Shared.Acquire(MaskWords);" ++
  brace "try" body ++
  brace "finally" (one "MaskPool.Shared.Release(mask);")

def serializer (cx : Context) (m : Schema.Message) : SourceUnit :=
  let name := m.name ++ "Serializer"
  .inDirectory "Serialization" (name ++ ".cs")
    (opening cx ["System", "System.Collections.Generic", "System.Numerics", "PdlKit.Wire"] ++
      inNamespace cx "Serialization"
        (brace ("public sealed class " ++ name ++ " : IMessageSerializer<" ++ m.name ++ ">")
          (one ("public const string TypeName = \"" ++ cx.qualifiedName m ++ "\";") ++
            one ("public const int TypeTag = " ++ toString m.typeTag ++ ";") ++
            one ("public const int FieldCount = " ++ toString m.fields.length ++ ";") ++
            one ("public const int MaskWords = " ++ toString m.maskWords ++ ";") ++
            blank ++
            one ("public static readonly " ++ name ++ " Instance = new " ++ name ++ "();") ++
            blank ++
            brace ("public void Write(" ++ m.name ++ " value, WireWriter writer)")
              (withMask
                (numbered m.fields markField ++
                  one "writer.WriteMask(mask);" ++
                  numbered m.fields (guarded writeField))) ++
            blank ++
            brace ("public " ++ m.name ++ " Read(WireReader reader)")
              (withMask
                (one "reader.ReadMask(mask);" ++
                  one ("var value = new " ++ m.name ++ "();") ++
                  numbered m.fields (guarded readField) ++
                  one "return value;")))))

def registry (cx : Context) : SourceUnit :=
  .inDirectory "Serialization" "SerializerRegistry.cs"
    (opening cx ["PdlKit.Wire"] ++
      inNamespace cx "Serialization"
        (brace "public static class SerializerRegistry"
          (brace "public static void RegisterAll(TypeRegistry registry)"
            (each cx.definition.messages fun m =>
              one ("registry.Register<" ++ m.name ++ ">(" ++ m.name ++ "Serializer.TypeTag, " ++
                m.name ++ "Serializer.Instance);")))))

def signature (m : Schema.Method) : String :=
  "Task<" ++ m.response ++ "> " ++ m.name ++ "Async(" ++ m.request ++ " request)"

def serviceName (s : Schema.Service) : Code :=
  one ("public const string ServiceName = \"" ++ s.name ++ "\";")

def clientMethod (s : Schema.Service) (m : Schema.Method) : Code :=
  blank ++
  brace ("public " ++ signature m)
    (one ("return _client.CallAsync<" ++ m.request ++ ", " ++ m.response ++ ">(\"" ++ s.key m ++
      "\", request);"))

def client (cx : Context) (s : Schema.Service) : SourceUnit :=
  let name := s.name ++ "Client"
  .inDirectory "Client" (name ++ ".cs")
    (opening cx ["System.Threading.Tasks", "PdlKit.Rpc"] ++
      inNamespace cx "Client"
        (brace ("public sealed class " ++ name)
          (serviceName s ++
            blank ++
            one "private readonly RpcClient _client;" ++
            blank ++
            brace ("public " ++ name ++ "(RpcClient client)") (one "_client = client;") ++
            each s.methods (clientMethod s))))

def interface (cx : Context) (s : Schema.Service) : SourceUnit :=
  .inDirectory "Server" ("I" ++ s.name ++ "Service.cs")
    (opening cx ["System.Threading.Tasks"] ++
      inNamespace cx "Server"
        (brace ("public interface I" ++ s.name ++ "Service")
          (each s.methods fun m => one (signature m ++ ";"))))

def dispatchTable (s : Schema.Service) : Code :=
  brace "public IReadOnlyDictionary<string, Func<object, Task<object>>> BuildDispatchTable()"
    (one "return new Dictionary<string, Func<object, Task<object>>>" ++
      within "\x7b" "\x7d;"
        (each s.methods fun m =>
          one ("[\"" ++ m.name ++ "\"] = async request => await " ++ m.name ++ "Async((" ++
            m.request ++ ")request),")))

def base (cx : Context) (s : Schema.Service) : SourceUnit :=
  let name := s.name ++ "ServiceBase"
  .inDirectory "Server" (name ++ ".cs")
    (opening cx ["System", "System.Collections.Generic", "System.Threading.Tasks"] ++
      inNamespace cx "Server"
        (brace ("public abstract class " ++ name ++ " : I" ++ s.name ++ "Service")
          (serviceName s ++
            (each s.methods fun m => blank ++ one ("public abstract " ++ signature m ++ ";")) ++
            blank ++
            dispatchTable s)))

end CSharp

open CSharp in
def cSharp : Language where
  toMapping := mapping
  messages := messages
  serializer := serializer
  registry := registry
  client := client
  servers cx s := [interface cx s, base cx s]
  support _ _ := []

end WireProtocol.Target
