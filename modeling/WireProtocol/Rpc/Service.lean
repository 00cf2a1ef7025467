import WireProtocol.Rpc.Response

namespace WireProtocol.Rpc

open Wire (Family Object ObjectType)

/-- How a method ends; a crash may leave a text behind. -/
inductive Outcome {ι : Type} (F : Family ι)
  | reply (object? : Option (Object F))
  | failure (f : Failure)
  | crash (text? : Option String)

structure Method {ι : Type} (F : Family ι) where
  name : String
  run : Option (Object F) → Outcome F
  stops : Bool := false

structure Service {ι : Type} (F : Family ι) where
  name : String
  methods : List (Method F) := []

structure Dispatcher {ι : Type} (F : Family ι) where
  services : List (Service F) := []

variable {ι : Type} {F : Family ι}

def Outcome.response : Outcome F → Response F
  | reply object? => .ok object?
  | failure f => .err f
  | crash text? => .err ⟨.handlerFailed, text?.getD "handler panicked"⟩

def Method.typed [DecidableEq ι] (name : String) (type : ObjectType ι) (label : String)
    (run : Object F → Outcome F) : Method F where
  name := name
  run
    | none => .failure (.badRequest s!"expected {label}, got null")
    | some o =>
      if o.type = type then run o
      else .failure (.badRequest s!"expected {label}, got another type")

namespace Service

def add (s : Service F) (m : Method F) : Service F :=
  { s with methods := s.methods.filter (·.name != m.name) ++ [m] }

def method? (s : Service F) (name : String) : Option (Method F) :=
  s.methods.find? (·.name == name)

def methodNames (s : Service F) : List String :=
  (s.methods.map (·.name)).mergeSort (· ≤ ·)

end Service

namespace Dispatcher

/-- A service takes the place of one with the same name. -/
def register (d : Dispatcher F) (s : Service F) : Dispatcher F :=
  ⟨d.services.filter (·.name != s.name) ++ [s]⟩

def service? (d : Dispatcher F) (name : String) : Option (Service F) :=
  d.services.find? (·.name == name)

def contains (d : Dispatcher F) (name : String) : Bool := (d.service? name).isSome

def size (d : Dispatcher F) : Nat := d.services.length

def method (d : Dispatcher F) (key : String) : Except Failure (Method F) :=
  match Request.splitKey? key with
  | none => .error (.badRequest s!"malformed method key `{key}`")
  | some (service, method) =>
    match d.service? service with
    | none => .error ⟨.unknownService, s!"unknown service `{service}`"⟩
    | some s =>
      match s.method? method with
      | none => .error ⟨.unknownMethod, s!"service `{service}` has no method `{method}`"⟩
      | some m => .ok m

def call (d : Dispatcher F) (r : Request F) : Response F :=
  match d.method r.key with
  | .ok m => (m.run r.object?).response
  | .error f => .err f

def stops (d : Dispatcher F) (key : String) : Bool :=
  match d.method key with
  | .ok m => m.stops
  | .error _ => false

end Dispatcher

end WireProtocol.Rpc
