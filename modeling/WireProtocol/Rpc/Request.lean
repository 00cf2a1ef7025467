import WireProtocol.Rpc.Error
import WireProtocol.Text.Cut
import WireProtocol.Wire.Registry

namespace WireProtocol.Rpc

open Wire (Family Object Reader Registry Write)

abbrev Receive (α : Type) := EStateM Error Reader α

def ofWire (read : Wire.Read α) : Receive α := read.adaptExcept .wire

structure Request {ι : Type} (F : Family ι) where
  key : String
  object? : Option (Object F)

namespace Request

/-- The service and the method that a key names; only its first dot is between them. -/
def splitKey? (key : String) : Option (String × String) :=
  (Text.cutAt? (· == '.') key.toList).map fun (service, method) =>
    (String.ofList service, String.ofList method)

def readKey : Receive String := do
  match ← ofWire Wire.Read.text? with
  | some key => return key
  | none => throw .nullMethodKey

variable {ι : Type} {F : Family ι}

def read (g : Registry F) : Receive (Request F) := do
  let key ← readKey
  return ⟨key, ← ofWire g.readObject?⟩

def write [DecidableEq ι] (g : Registry F) (r : Request F) : Write := do
  Wire.Write.text? (some r.key)
  g.writeObject? r.object?

end Request

end WireProtocol.Rpc
