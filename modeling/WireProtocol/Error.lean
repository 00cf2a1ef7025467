
namespace WireProtocol

inductive ErrorKind
  | io | schema | snapshot | unexpectedEnd | decode | encode | duplicateTag | reservedTag
  | unknownTag | unregisteredType | typeMismatch | generation | network | protocol | remote | config
  deriving DecidableEq, Repr

namespace ErrorKind

def all : List ErrorKind :=
  [io, schema, snapshot, unexpectedEnd, decode, encode, duplicateTag, reservedTag, unknownTag,
    unregisteredType, typeMismatch, generation, network, protocol, remote, config]

def heading : ErrorKind → String
  | io => "IO error: "
  | schema => "Invalid schema: "
  | snapshot => "Snapshot error: "
  | unexpectedEnd => "Unexpected end of input: "
  | decode => "Decode error: "
  | encode => "Encode error: "
  | duplicateTag => "Type tag "
  | reservedTag => "Type tag "
  | unknownTag => "No handler registered for type tag "
  | unregisteredType => "No handler registered for type "
  | typeMismatch => "Type mismatch: "
  | generation => "Generation error: "
  | network => "Network error: "
  | protocol => "Protocol error: "
  | remote => "Remote error "
  | config => "Configuration error: "

def describe (kind : ErrorKind) (detail : String) : String := kind.heading ++ detail

end ErrorKind

end WireProtocol
