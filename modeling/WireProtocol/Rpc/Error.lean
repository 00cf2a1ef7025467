import WireProtocol.Rpc.Failure
import WireProtocol.Wire.Error

namespace WireProtocol.Rpc

inductive Error
  | wire (e : Wire.Error)
  | endOfStream
  | incompleteHeader (length : Nat)
  | incompletePayload (expected length : Nat)
  | payloadTooLarge (length max : Nat)
  | lengthTooLarge (length : Nat)
  | nullMethodKey
  | unknownStatus (status : UInt8)
  | trailingBytes (count : Nat) (key : String)
  | remote (f : Failure)
  deriving DecidableEq, Repr

namespace Error

def kind : Error → ErrorKind
  | wire e => e.kind
  | endOfStream => .io
  | remote _ => .remote
  | _ => .protocol

def detail : Error → String
  | wire e => e.detail
  | endOfStream => "failed to fill whole buffer"
  | incompleteHeader n => s!"Incomplete header: expected 4 bytes, got {n}"
  | incompletePayload expected n => s!"Incomplete payload: expected {expected} bytes, got {n}"
  | payloadTooLarge n max => s!"Payload too large: {n} bytes (max {max})"
  | lengthTooLarge n => s!"Payload too large: {n} bytes"
  | nullMethodKey => "request has a null method key"
  | unknownStatus status => "Unknown response status: 0x" ++ Text.hex 2 status.toNat
  | trailingBytes n key => s!"{n} trailing bytes after response to {key}"
  | remote f => "(" ++ f.code.name ++ "): " ++ f.message

def message (e : Error) : String := e.kind.describe e.detail

end Error

end WireProtocol.Rpc
