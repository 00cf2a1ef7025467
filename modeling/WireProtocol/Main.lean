import WireProtocol.Generation.Command

namespace WireProtocol.Files

def faultNumber (n : UInt32) : UInt32 := min n (0 - n)

def faultOf : IO.Error → Fault
  | .noFileOrDirectory .. => .notFound
  | .alreadyExists .. => .alreadyExists
  | e@(.inappropriateType _ n _) =>
    if faultNumber n = 20 then .notADirectory
    else if faultNumber n = 21 then .isADirectory
    else .other (toString e)
  | e@(.invalidArgument name n _) =>
    if name.any (·.contains '\x00') then .invalidName
    else if faultNumber n = 36 then .nameTooLong
    else .other (toString e)
  | e => .other (toString e)

def attempt (action : IO α) : IO (Except Fault α) := do
  match ← action.toBaseIO with
  | .ok a => return .ok a
  | .error e => return .error (faultOf e)

instance : FileSystem IO where
  read p := attempt do return (← IO.FS.readBinFile p.text).data.toList
  write p bytes := attempt (IO.FS.writeBinFile p.text ⟨bytes.toArray⟩)
  createDirectories p := attempt (IO.FS.createDirAll p.text)

end WireProtocol.Files

open WireProtocol.Generation in
def main (arguments : List String) : IO UInt32 := do
  let result ← command (m := IO) arguments
  for (level, text) in result.journal.notes do
    IO.eprintln (level.name ++ " " ++ text)
  for line in result.journal.lines do
    IO.println line
  return UInt32.ofNat result.exit
