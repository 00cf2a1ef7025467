import WireProtocol.Schema.Statement
import WireProtocol.Schema.Token

namespace WireProtocol.Schema

inductive Block
  | message (m : Message)
  | service (s : Service)
  deriving DecidableEq, Repr

namespace Block

def kind : Block → BlockKind
  | message _ => .message
  | service _ => .service

def name : Block → String
  | message m => m.name
  | service s => s.name

def line : Block → Nat
  | message m => m.line
  | service s => s.line

def empty (kind : BlockKind) (name : String) (line : Nat) : Block :=
  match kind with
  | .message => .message ⟨name, [], 0, line⟩
  | .service => .service ⟨name, [], line⟩

def add (text : List Char) (line : Nat) : Block → Except Problem Block
  | message m => (Statement.field text line).map fun f => .message { m with fields := m.fields ++ [f] }
  | service s =>
    (Statement.method text line).map fun r => .service { s with methods := s.methods ++ [r] }

end Block

def Definition.declare (d : Definition) : Block → Definition
  | .message m => { d with messages := d.messages ++ [m] }
  | .service s => { d with services := d.services ++ [s] }

inductive Directive
  | namespaceName (name : String)
  | option (key value : String)
  | header (kind : BlockKind) (name : String)
  deriving DecidableEq, Repr

def Directive.ofStatement (text : List Char) : Except Problem Directive :=
  let (keyword, rest) := Statement.splitKeyword text
  if keyword = "namespace".toList then
    if Text.isDottedName rest then .ok (.namespaceName (String.ofList rest))
    else .error (.invalidNamespace (String.ofList rest))
  else if keyword = "option".toList then
    match Statement.option? rest with
    | some (key, value) => .ok (.option key value)
    | none => .error (.malformedOption (String.ofList text))
  else if keyword = "message".toList && Text.isIdentifier rest then
    .ok (.header .message (String.ofList rest))
  else if keyword = "service".toList && Text.isIdentifier rest then
    .ok (.header .service (String.ofList rest))
  else .error (.unrecognizedStatement (String.ofList text))

/-- Where in the text the reader is. Skipping goes on until `depth` braces have closed. -/
inductive Place
  | top
  | header (b : Block)
  | body (b : Block)
  | skipping (outer : Option Block) (depth : Nat)
  deriving DecidableEq, Repr

structure Outline where
  definition : Definition := {}
  diagnostics : List Diagnostic := []
  place : Place := .top
  deriving DecidableEq, Repr

namespace Outline

def report (o : Outline) (line : Nat) (problem : Problem) : Outline :=
  { o with diagnostics := o.diagnostics ++ [⟨line, problem⟩] }

def goto (o : Outline) (place : Place) : Outline := { o with place := place }

def obey (o : Outline) (line : Nat) : Directive → Outline
  | .namespaceName name => { o with definition := { o.definition with namespaceName := name } }
  | .option key value =>
    { o with definition := { o.definition with options := o.definition.options.insert key value } }
  | .header kind name => o.goto (.header (.empty kind name line))

def stepTop (o : Outline) (t : Token) : Outline :=
  let o := o.goto .top
  match t.kind with
  | .opening => (o.report t.line .unexpectedOpening).goto (.skipping none 1)
  | .closing => o.report t.line .unexpectedClosing
  | .statement text =>
    match Directive.ofStatement text with
    | .ok d => o.obey t.line d
    | .error problem => o.report t.line problem

def stepBody (o : Outline) (b : Block) (t : Token) : Outline :=
  match t.kind with
  | .closing => { o with definition := o.definition.declare b, place := .top }
  | .opening => (o.report t.line (.nestedBlock b.kind)).goto (.skipping (some b) 1)
  | .statement text =>
    match b.add text t.line with
    | .ok b => o.goto (.body b)
    | .error problem => o.report t.line problem

def stepSkipping (o : Outline) (outer : Option Block) (depth : Nat) (t : Token) : Outline :=
  match t.kind with
  | .opening => o.goto (.skipping outer (depth + 1))
  | .closing =>
    if depth = 1 then
      match outer with
      | none => o.goto .top
      | some b => o.goto (.body b)
    else o.goto (.skipping outer (depth - 1))
  | .statement _ => o

def step (o : Outline) (t : Token) : Outline :=
  match o.place with
  | .top => o.stepTop t
  | .header b =>
    if t.kind = .opening then o.goto (.body b)
    else (o.report b.line (.expectedBody b.kind b.name)).stepTop t
  | .body b => o.stepBody b t
  | .skipping outer depth => o.stepSkipping outer depth t

/-- The end of the text closes a body, but not a block that is skipped. -/
def finish (o : Outline) : Outline :=
  match o.place with
  | .top => o
  | .header b => o.report b.line (.missingBody b.kind b.name)
  | .body b =>
    { o.report b.line (.unclosedBody b.kind b.name) with definition := o.definition.declare b }
  | .skipping .. => o.report 0 .unterminatedBlock

def ofTokens (tokens : List Token) : Outline := (tokens.foldl step {}).finish

end Outline

structure Reading where
  definition : Definition
  diagnostics : List Diagnostic := []
  deriving DecidableEq, Repr

def Reading.hasErrors (r : Reading) : Bool := r.diagnostics.any Diagnostic.isError

/-- Tags are given last, since the namespace may stand anywhere. -/
def readSource (source : String) : Reading :=
  let o := Outline.ofTokens (Token.ofSource source.toList)
  ⟨o.definition.assignTags, o.diagnostics⟩

end WireProtocol.Schema
