import WireProtocol.Generation.Error
import WireProtocol.Generation.Run
import WireProtocol.Schema.Source

namespace WireProtocol.Generation

open Files (FileSystem Path)

variable {m : Type → Type} [Monad m]

def ask (answer : m (Except Files.Fault α)) : ExceptT Error m α := do
  match ← (answer : m _) with
  | .ok a => return a
  | .error fault => throw (.files fault)

variable [FileSystem m]

def readBytes (file : Path) : ExceptT Error m (List UInt8) := ask (FileSystem.read file)

def readText (file : Path) : ExceptT Error m String := do
  match Files.textOf (← readBytes file) with
  | .ok text => return text
  | .error fault => throw (.files fault)

def isSnapshot (file : Path) : Bool := file.extension? == some "pdlc"

def readSchema (file : Path) : ExceptT Error m Schema.Reading := do
  if isSnapshot file then
    match Schema.Snapshot.decode (← readBytes file) with
    | .ok d => return ⟨d, []⟩
    | .error fault => throw (.snapshot fault)
  else return Schema.readSource (← readText file)

def readRun (file : Path) : ExceptT Error m Run := do
  match Text.Json.ofText? (← readText file) >>= Run.ofJson? with
  | some r => return r.within file
  | none => throw (.malformedRun file)

end WireProtocol.Generation
