
namespace WireProtocol.Schema

inductive BlockKind
  | message | service
  deriving DecidableEq, Repr

def BlockKind.keyword : BlockKind → String
  | message => "message"
  | service => "service"

inductive MethodRole
  | request | response
  deriving DecidableEq, Repr

def MethodRole.name : MethodRole → String
  | request => "request"
  | response => "response"

inductive Severity
  | warning | error
  deriving DecidableEq, Repr

def Severity.name : Severity → String
  | warning => "warning"
  | error => "error"

inductive Problem
  | expectedBody (kind : BlockKind) (name : String)
  | nestedBlock (kind : BlockKind)
  | unexpectedOpening
  | unexpectedClosing
  | invalidNamespace (text : String)
  | malformedOption (text : String)
  | unrecognizedStatement (text : String)
  | unrecognizedField (text : String)
  | invalidField (text : String)
  | invalidFieldId (text : String)
  | unrecognizedMethod (text : String)
  | unclosedBody (kind : BlockKind) (name : String)
  | missingBody (kind : BlockKind) (name : String)
  | unterminatedBlock
  | noNamespace
  | messageRedeclared (name : String) (line : Nat)
  | fieldRedeclared (name message : String)
  | nonPositiveId (field : String) (id : Int32)
  | idReused (id : Int32) (field other message : String)
  | unknownMessage (message field type : String)
  | reservedType (field : String)
  | reservedTag (message : String) (tag : Int32)
  | sharedTag (other message : String) (tag : Int32)
  | serviceRedeclared (name : String)
  | noMethods (service : String)
  | methodRedeclared (name service : String)
  | undeclaredType (role : MethodRole) (type service method : String)
  deriving DecidableEq, Repr

namespace Problem

def severity : Problem → Severity
  | unclosedBody .. | noNamespace | noMethods _ => .warning
  | _ => .error

def text : Problem → String
  | expectedBody kind name => s!"expected `\x7b` after `" ++ kind.keyword ++ s!" {name}`"
  | nestedBlock kind => "nested blocks are not supported inside a " ++ kind.keyword
  | unexpectedOpening => "unexpected `\x7b` at top level"
  | unexpectedClosing => "unexpected `\x7d` at top level"
  | invalidNamespace text => s!"invalid namespace `{text}`"
  | malformedOption text => s!"malformed option `{text}`"
  | unrecognizedStatement text => s!"unrecognized statement `{text}`"
  | unrecognizedField text => s!"unrecognized field declaration `{text}`"
  | invalidField text => s!"invalid field declaration `{text}`"
  | invalidFieldId text => s!"invalid field id `{text}`"
  | unrecognizedMethod text => s!"unrecognized rpc declaration `{text}`"
  | unclosedBody kind name => kind.keyword ++ s!" `{name}` is missing its closing `\x7d`"
  | missingBody kind name => kind.keyword ++ s!" `{name}` has no body"
  | unterminatedBlock => "unterminated block at end of input"
  | noNamespace => "schema declares no namespace"
  | messageRedeclared name line => s!"message `{name}` already declared on line {line}"
  | fieldRedeclared name message => s!"field `{name}` declared twice in message `{message}`"
  | nonPositiveId field id => s!"field `{field}` has non-positive id {id}"
  | idReused id field other message =>
    s!"field id {id} of `{field}` already used by `{other}` in message `{message}`"
  | unknownMessage message field type =>
    s!"field `{message}.{field}` references unknown message `{type}`"
  | reservedType field => s!"field `{field}` uses a reserved type"
  | reservedTag message tag => s!"message `{message}` hashes to reserved tag {tag}"
  | sharedTag other message tag =>
    s!"messages `{other}` and `{message}` share type tag {tag}; rename one"
  | serviceRedeclared name => s!"service `{name}` declared more than once"
  | noMethods service => s!"service `{service}` declares no methods"
  | methodRedeclared name service => s!"method `{name}` declared twice in service `{service}`"
  | undeclaredType role type service method =>
    role.name ++ s!" type `{type}` of `{service}.{method}` is not a declared message"

end Problem

/-- Line 0 stands for the schema as a whole. -/
structure Diagnostic where
  line : Nat
  problem : Problem
  deriving DecidableEq, Repr

namespace Diagnostic

def severity (d : Diagnostic) : Severity := d.problem.severity

def isError (d : Diagnostic) : Bool := d.severity = .error

def text (d : Diagnostic) : String :=
  let finding := d.severity.name ++ ": " ++ d.problem.text
  if d.line = 0 then finding else s!"line {d.line}: " ++ finding

def summary? (ds : List Diagnostic) : Option String :=
  match ds.filter isError with
  | [] => none
  | errors => some (String.intercalate "; " (errors.map text))

end Diagnostic

end WireProtocol.Schema
