import WireProtocol.Rpc.Frame
import WireProtocol.Rpc.Service

/-! Sessions: requests on a stream are answered one after the other. A frame that is too long ends a
session with a failure, since what follows it cannot be trusted. No timeout is set for reads or
writes: a session waits for the next request until the peer closes its side, and its peer takes all
that it sends. How streams are accepted is left open, and so is what is logged. -/

namespace WireProtocol.Rpc

open Wire (Family Pool Reader Registry Writer)

structure Host {ι : Type} (F : Family ι) where
  registry : Registry F
  dispatcher : Dispatcher F
  maxFrame : Nat := Frame.defaultMax

structure Answer {ι : Type} (F : Family ι) where
  response : Response F
  stops : Bool := false

/-- What a session has sent, and how it ended; no error stands for an end in order. -/
structure Served where
  sent : List UInt8
  error? : Option Error
  stopped : Bool
  pool : Option Pool

def Failure.frame (f : Failure) : List UInt8 :=
  match f.write (.new) with
  | .ok _ w =>
    match Frame.encode w.bytes with
    | .ok frame => frame
    | .error _ => []
  | .error _ _ => []

namespace Host

variable {ι : Type} [DecidableEq ι] {F : Family ι}

def answer (host : Host F) (r : Reader) : Answer F × Reader :=
  match Request.readKey r with
  | .error e r => (⟨.err (.badRequest e.message), false⟩, r)
  | .ok key r =>
    match host.registry.readObject? r with
    | .error e r =>
      (⟨.err (.badRequest s!"cannot decode payload for {key}: {e.message}"), false⟩, r)
    | .ok object? r => (⟨host.dispatcher.call ⟨key, object?⟩, host.dispatcher.stops key⟩, r)

/-- Writes a response. One that cannot be written gives way to a failure. -/
def respond (host : Host F) (response : Response F) (w : Writer) : Writer :=
  match response.write host.registry w with
  | .ok _ w => w
  | .error e w =>
    match Failure.write ⟨.internal, s!"cannot encode response: {e.message}"⟩ w.clear with
    | .ok _ w => w
    | .error _ w => w

def process (host : Host F) (pool : Option Pool) (payload : List UInt8) :
    List UInt8 × Bool × Option Pool :=
  let (answer, r) := host.answer (.new payload pool)
  let w := host.respond answer.response (.new r.pool)
  (w.bytes, answer.stops, w.pool)

/-- Answers payloads in order until the server stops; then follows what ends the stream. -/
def servePayloads (host : Host F) (ending : Error) (stopped : Bool) (pool : Option Pool) :
    List (List UInt8) → Served
  | [] =>
    if stopped then ⟨[], none, true, pool⟩
    else
      match ending with
      | .endOfStream => ⟨[], none, false, pool⟩
      | e => ⟨(Failure.badRequest e.message).frame, some e, false, pool⟩
  | payload :: rest =>
    if stopped then ⟨[], none, true, pool⟩
    else
      let (response, stops, pool) := host.process pool payload
      match Frame.encode response with
      | .error e => ⟨[], some e, stops, pool⟩
      | .ok frame =>
        let served := servePayloads host ending stops pool rest
        { served with sent := frame ++ served.sent }

def serve (host : Host F) (stopped : Bool) (pool : Option Pool) (stream : List UInt8) : Served :=
  let (payloads, ending) := Frame.readAll host.maxFrame stream
  host.servePayloads ending stopped pool payloads

end Host

end WireProtocol.Rpc
