import WireProtocol.Rpc.Request

namespace WireProtocol.Rpc

open Wire (Family Object Registry Write)

inductive Response {ι : Type} (F : Family ι)
  | ok (object? : Option (Object F))
  | err (f : Failure)

namespace Response

def okStatus : UInt8 := 0

def errStatus : UInt8 := 1

end Response

def Failure.write (f : Failure) : Write := do
  Wire.Write.u8 Response.errStatus
  Wire.Write.i32 f.code.toInt32
  Wire.Write.text? (some f.message)

/-- No message reads as an empty one. -/
def Failure.read : Wire.Read Failure := do
  let code ← Wire.Read.i32
  let message? ← Wire.Read.text?
  return ⟨.ofInt32 code, message?.getD ""⟩

namespace Response

variable {ι : Type} {F : Family ι}

def isOk : Response F → Bool
  | ok _ => true
  | err _ => false

def failure? : Response F → Option Failure
  | ok _ => none
  | err f => some f

def text : Response F → String
  | ok (some _) => "Ok(<object>)"
  | ok none => "Ok(null)"
  | err f => "Err(" ++ f.text ++ ")"

def write [DecidableEq ι] (g : Registry F) : Response F → Write
  | ok object? => do
    Wire.Write.u8 okStatus
    g.writeObject? object?
  | err f => f.write

def read (g : Registry F) : Receive (Response F) := do
  let status ← ofWire Wire.Read.u8
  if status = okStatus then return .ok (← ofWire g.readObject?)
  else if status = errStatus then return .err (← ofWire Failure.read)
  else throw (.unknownStatus status)

end Response

end WireProtocol.Rpc
