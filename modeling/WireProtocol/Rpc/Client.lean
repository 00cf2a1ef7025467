import WireProtocol.Rpc.Frame
import WireProtocol.Rpc.Response

/-! Clients make calls over one stream, one at a time. What a peer sends waits in the inbox until it
is read; where the inbox ends, the peer has closed its side. No timeout is set for reads or writes:
a call waits for as long as its response takes. How the stream comes about is left open, and so is
what is logged. -/

namespace WireProtocol.Rpc

open Wire (Family Object ObjectType Pool Registry)

structure Client {ι : Type} (F : Family ι) where
  registry : Registry F
  pool : Option Pool := none
  maxFrame : Nat := Frame.defaultMax
  inbox : List UInt8 := []
  sent : List UInt8 := []

abbrev Exchange {ι : Type} (F : Family ι) (α : Type) := EStateM Error (Client F) α

variable {ι : Type} [DecidableEq ι] {F : Family ι}

namespace Client

/-- Sends a request, and returns its frame; a request that cannot be written sends nothing. -/
def send (r : Request F) : Exchange F (List UInt8) := fun c =>
  match r.write c.registry (.new c.pool) with
  | .error e w => .error (.wire e) { c with pool := w.pool }
  | .ok _ w =>
    match Frame.encode w.bytes with
    | .ok frame => .ok frame { c with pool := w.pool, sent := c.sent ++ frame }
    | .error e => .error e { c with pool := w.pool }

def deliver (bytes : List UInt8) (c : Client F) : Client F := { c with inbox := c.inbox ++ bytes }

def receive (key : String) : Exchange F (Response F) := fun c =>
  match Frame.read c.maxFrame c.inbox with
  | .error e rest => .error e { c with inbox := rest }
  | .ok payload rest =>
    match Response.read c.registry (.new payload c.pool) with
    | .error e r => .error e { c with inbox := rest, pool := r.pool }
    | .ok response r =>
      let c := { c with inbox := rest, pool := r.pool }
      if r.isEmpty then .ok response c else .error (.trailingBytes r.remaining key) c

def call (r : Request F) : Exchange F (Response F) := do
  let _ ← send r
  receive r.key

end Client

def Response.expect (type : ObjectType ι) : Response F → Except Error (Object F)
  | ok (some o) =>
    if o.type = type then .ok o else .error (.wire (.typeMismatch (type.name F) .otherObject))
  | ok none => .error (.wire (.typeMismatch (type.name F) .null))
  | err f => .error (.remote f)

end WireProtocol.Rpc
