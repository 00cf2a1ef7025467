import WireProtocol.Rpc.Client
import WireProtocol.Rpc.Session

namespace WireProtocol.Rpc

open Wire (Family Pool)

structure Settings where
  listenAddress : String := "127.0.0.1:7070"
  maxSessions : Nat := 1024
  readTimeout : Nat := 0
  writeTimeout : Nat := 0
  maxFrame : Nat := Frame.defaultMax
  acceptPoll : Nat := 10
  deriving DecidableEq, Repr

structure Server {ι : Type} (F : Family ι) where
  host : Host F
  maxSessions : Nat
  pool : Option Pool := some (.new {})
  stopped : Bool := false
  sessions : List Bool := []

namespace Server

variable {ι : Type} {F : Family ι}

def start (settings : Settings) (registry : Wire.Registry F) (dispatcher : Dispatcher F) :
    Server F where
  host := ⟨registry, dispatcher, settings.maxFrame⟩
  maxSessions := settings.maxSessions

def openSessions (s : Server F) : Nat := s.sessions.countP id

/-- A session that the server does not admit is closed from its beginning. -/
def connect (s : Server F) : Server F :=
  { s with sessions := s.sessions ++ [!s.stopped && decide (s.openSessions < s.maxSessions)] }

variable [DecidableEq ι]

def exchange (s : Server F) (i : Nat) (bytes : List UInt8) : List UInt8 × Server F :=
  if s.sessions[i]? = some true then
    let served := s.host.serve false s.pool bytes
    let stopped := s.stopped || served.stopped
    (served.sent,
      { s with
        pool := served.pool
        stopped := stopped
        sessions := s.sessions.set i (served.error?.isNone && !stopped) })
  else ([], s)

def call (s : Server F) (i : Nat) (c : Client F) (r : Request F) :
    Except Error (Response F) × Client F × Server F :=
  match Client.send r c with
  | .error e c => (.error e, c, s)
  | .ok frame c =>
    let (bytes, s) := s.exchange i frame
    match Client.receive r.key (c.deliver bytes) with
    | .error e c => (.error e, c, s)
    | .ok response c => (.ok response, c, s)

end Server

end WireProtocol.Rpc
