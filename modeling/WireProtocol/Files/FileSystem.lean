import WireProtocol.Files.Path
import WireProtocol.Text.Utf8

namespace WireProtocol.Files

inductive Fault
  | notFound
  | alreadyExists
  | notADirectory
  | isADirectory
  | nameTooLong
  | invalidName
  | notText
  | other (text : String)
  deriving DecidableEq, Repr

def Fault.text : Fault → String
  | notFound => "No such file or directory (os error 2)"
  | alreadyExists => "File exists (os error 17)"
  | notADirectory => "Not a directory (os error 20)"
  | isADirectory => "Is a directory (os error 21)"
  | nameTooLong => "File name too long (os error 36)"
  | invalidName => "file name contained an unexpected NUL byte"
  | notText => "stream did not contain valid UTF-8"
  | other text => text

class FileSystem (m : Type → Type) where
  read : Path → m (Except Fault (List UInt8))
  write : Path → List UInt8 → m (Except Fault Unit)
  createDirectories : Path → m (Except Fault Unit)

instance {m : Type → Type} {σ : Type} [Monad m] [FileSystem m] : FileSystem (StateT σ m) where
  read p := StateT.lift (FileSystem.read p)
  write p bytes := StateT.lift (FileSystem.write p bytes)
  createDirectories p := StateT.lift (FileSystem.createDirectories p)

def textOf (bytes : List UInt8) : Except Fault String :=
  match Utf8.decode bytes with
  | .ok s => .ok s
  | .error _ => .error .notText

end WireProtocol.Files
