import WireProtocol.Generation.Arguments
import WireProtocol.Generation.Input
import WireProtocol.Text.Terminal

namespace WireProtocol.Generation

open Files (FileSystem Path)
open Schema (Definition Diagnostic)
open Target (Language SourceUnit)

inductive Level
  | error | warning | info
  deriving DecidableEq, Repr

def Level.name : Level → String
  | error => "ERROR"
  | warning => "WARN"
  | info => "INFO"

/-- What a command says: lines for its output, and notes for a terminal. -/
structure Journal where
  lines : List String := []
  notes : List (Level × String) := []
  deriving DecidableEq, Repr

def Journal.note (s : Journal) (level : Level) (text : String) : Journal :=
  { s with notes := s.notes ++ [(level, Text.shown text)] }

/-- A failure keeps what was said and done before it. -/
abbrev Job (m : Type → Type) := ExceptT Error (StateT Journal m)

variable {m : Type → Type} [Monad m]

def say (line : String) : Job m Unit := modify fun s => { s with lines := s.lines ++ [line] }

def note (level : Level) (text : String) : Job m Unit :=
  modify (·.note level text)

def noteDiagnostic (file : Path) (d : Diagnostic) : Job m Unit :=
  note (if d.isError then .error else .warning) (file.text ++ ": " ++ d.text)

variable [FileSystem m]

def checkedSchema (file : Path) : Job m Definition := do
  let reading ← readSchema file
  let diagnostics := reading.diagnostics ++ reading.definition.validate
  diagnostics.forM (noteDiagnostic file)
  match (diagnostics.filter Diagnostic.isError).length with
  | 0 => return reading.definition
  | errors => throw (.invalidSchema file errors)

def writeUnit (directory : Path) (u : SourceUnit) : Job m Unit := do
  let file := directory.join u.path
  match file.parent? with
  | some parent => ask (FileSystem.createDirectories parent)
  | none => pure ()
  ask (FileSystem.write file (Utf8.encode u.contents))

def noteMissingRegistry (l : Language) (o : Target.Options) (rendered : Except Target.Refusal α) :
    Job m Unit :=
  if o.serialization || !o.factories then pure ()
  else
    match rendered with
    | .error (.invalid _) | .error (.clash ..) => pure ()
    | _ => note .warning (l.name ++ ": factories need serializers; skipping registry unit")

def generate (name : String) (d : Definition) (o : Target.Options) : Job m Unit := do
  match Target.ofName? name with
  | none => throw (.unknownLanguage name)
  | some l =>
    let rendered := Target.render l d o
    noteMissingRegistry l o rendered
    match rendered with
    | .error r => throw (.refused r)
    | .ok units =>
      units.forM (writeUnit o.outputDir)
      note .info (l.name ++ s!": wrote {units.length} files to " ++ o.outputDir.text)
      units.forM fun u => say (o.outputDir.join u.path).text

namespace Arguments

def output (a : Arguments) : Path := a.output?.getD ⟨"./generated"⟩

def targets (a : Arguments) : List String := if a.languages.isEmpty then ["rust"] else a.languages

def options (a : Arguments) (language : String) : Target.Options where
  outputDir := if a.targets.length > 1 then a.output.join ⟨language⟩ else a.output
  namespaceName := a.namespaceName?.getD ""
  serialization := !a.skipsSerialization
  clientServer := !a.skipsClientServer
  factories := !a.skipsFactories

end Arguments

def noteValid (file : Path) : Job m Unit := note .info (file.text ++ " is valid")

def saveSnapshot (d : Definition) (file : Path) : Job m Unit := do
  ask (FileSystem.write file (Schema.Snapshot.encode d))
  note .info ("Snapshot written to " ++ file.text)

def generateSchema (a : Arguments) (file : Path) : Job m Unit := do
  let d ← checkedSchema file
  a.snapshot?.forM (saveSnapshot d)
  if a.checksOnly then noteValid file
  else a.targets.forM fun language => generate language d (a.options language)

def generateRun (a : Arguments) (file : Path) : Job m Unit := do
  let r ← readRun file
  let d ← checkedSchema r.schema
  if a.checksOnly then noteValid r.schema
  else r.enabled.forM fun l => generate l.name d (r.options l)

def perform (a : Arguments) : Job m Unit :=
  match a.config?, a.schema? with
  | some file, _ => generateRun a file
  | none, some file => generateSchema a file
  | none, none => throw .missingSchema

def version : String := "0.1.0"

def help : List String :=
  ["Generate serializers, clients and servers from a PDL schema",
    "",
    "Usage: pdlkit-gen [OPTIONS] [SCHEMA]",
    "",
    "Arguments:",
    "  [SCHEMA]  Schema file (.pdl source or .pdlc snapshot)",
    "",
    "Options:",
    "  -c, --config <CONFIG>        JSON run file listing schema, output root and languages",
    "  -l, --lang <LANG>            Target languages: rust, csharp, cpp [default: rust]",
    "  -o, --out <OUT>              Output directory; with several languages each gets a " ++
      "subdirectory [default: ./generated]",
    "  -n, --namespace <NAMESPACE>  Override the target namespace [default: ]",
    "      --no-serialization       Skip serializer units",
    "      --no-client-server       Skip client and server units",
    "      --no-factories           Skip the type registry unit",
    "      --snapshot <SNAPSHOT>    Also write a compiled snapshot of the schema",
    "      --check                  Parse and validate only",
    "  -h, --help                   Print help",
    "  -V, --version                Print version"]

structure Result where
  exit : Nat
  journal : Journal := {}
  deriving DecidableEq, Repr

def command (arguments : List String) : m Result := do
  match Arguments.ofList arguments with
  | .error .help => return ⟨0, { lines := help }⟩
  | .error .version => return ⟨0, { lines := ["pdlkit-gen " ++ version] }⟩
  | .error .misuse => return ⟨2, {}⟩
  | .ok a =>
    match ← (perform a).run {} with
    | (.ok _, journal) => return ⟨0, journal⟩
    | (.error e, journal) => return ⟨1, journal.note .error e.message⟩

end WireProtocol.Generation
