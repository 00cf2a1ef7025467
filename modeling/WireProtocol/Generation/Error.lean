import WireProtocol.Files.FileSystem
import WireProtocol.Schema.Snapshot
import WireProtocol.Target.Render

namespace WireProtocol.Generation

open Files (Path)

inductive Error
  | missingSchema
  | files (fault : Files.Fault)
  | snapshot (fault : Schema.Snapshot.Fault)
  | malformedRun (file : Path)
  | invalidSchema (file : Path) (errors : Nat)
  | unknownLanguage (name : String)
  | refused (r : Target.Refusal)
  deriving DecidableEq, Repr

namespace Error

def kind : Error → ErrorKind
  | files _ => .io
  | snapshot _ => .snapshot
  | missingSchema | malformedRun _ | unknownLanguage _ => .config
  | invalidSchema .. => .schema
  | refused r => r.kind

def detail : Error → String
  | missingSchema => "no schema given"
  | files fault => fault.text
  | snapshot fault => fault.text
  | malformedRun file => file.text ++ ": no description of a run"
  | invalidSchema file errors => file.text ++ s!": {errors} error(s)"
  | unknownLanguage name => "unknown target language \'" ++ name ++ "\'"
  | refused r => r.text

def message (e : Error) : String := e.kind.describe e.detail

end Error

end WireProtocol.Generation
