import WireProtocol.Files.Path
import WireProtocol.Text.Cut

namespace WireProtocol.Generation

open Files (Path)

structure Arguments where
  schema? : Option Path := none
  config? : Option Path := none
  languages : List String := []
  output? : Option Path := none
  namespaceName? : Option String := none
  snapshot? : Option Path := none
  skipsSerialization : Bool := false
  skipsClientServer : Bool := false
  skipsFactories : Bool := false
  checksOnly : Bool := false
  deriving DecidableEq, Repr

inductive Stop
  | help
  | version
  | misuse
  deriving DecidableEq, Repr

namespace Arguments

inductive Valued
  | config | language | output | namespaceName | snapshot
  deriving DecidableEq, Repr

inductive Flag
  | skipSerialization | skipClientServer | skipFactories | check
  deriving DecidableEq, Repr

inductive Switch
  | valued (o : Valued)
  | flag (f : Flag)
  | stop (s : Stop)
  deriving DecidableEq, Repr

def longSwitches : List (String × Switch) :=
  [("config", .valued .config), ("lang", .valued .language), ("out", .valued .output),
    ("namespace", .valued .namespaceName), ("snapshot", .valued .snapshot),
    ("no-serialization", .flag .skipSerialization), ("no-client-server", .flag .skipClientServer),
    ("no-factories", .flag .skipFactories), ("check", .flag .check), ("help", .stop .help),
    ("version", .stop .version)]

def shortSwitches : List (Char × Switch) :=
  [('c', .valued .config), ('l', .valued .language), ('o', .valued .output),
    ('n', .valued .namespaceName), ('h', .stop .help), ('V', .stop .version)]

def once (old : Option α) (new : α) : Except Stop (Option α) :=
  if old.isSome then .error .misuse else .ok (some new)

def path (text : String) : Except Stop Path := if text.isEmpty then .error .misuse else .ok ⟨text⟩

def setValue (a : Arguments) (value : String) : Valued → Except Stop Arguments
  | .config => do return { a with config? := ← once a.config? (← path value) }
  | .language =>
    .ok { a with
      languages := a.languages ++ (Text.splitAt (· == ',') value.toList).map String.ofList }
  | .output => do return { a with output? := ← once a.output? (← path value) }
  | .namespaceName => do return { a with namespaceName? := ← once a.namespaceName? value }
  | .snapshot => do return { a with snapshot? := ← once a.snapshot? (← path value) }

def setFlag (a : Arguments) : Flag → Except Stop Arguments
  | .skipSerialization =>
    if a.skipsSerialization then .error .misuse else .ok { a with skipsSerialization := true }
  | .skipClientServer =>
    if a.skipsClientServer then .error .misuse else .ok { a with skipsClientServer := true }
  | .skipFactories =>
    if a.skipsFactories then .error .misuse else .ok { a with skipsFactories := true }
  | .check => if a.checksOnly then .error .misuse else .ok { a with checksOnly := true }

/-- Arguments so far, and what the next one is: the value of an option, or nothing but the schema
once a double dash was seen. -/
structure Scan where
  found : Arguments := {}
  due : Option Valued := none
  plain : Bool := false

namespace Scan

def setSchema (s : Scan) (text : String) : Except Stop Scan := do
  return { s with found := { s.found with schema? := ← once s.found.schema? (← path text) } }

def apply (s : Scan) (attached? : Option String) : Switch → Except Stop Scan
  | .valued o =>
    match attached? with
    | some value => do return { s with found := ← s.found.setValue value o }
    | none => .ok { s with due := some o }
  | .flag f =>
    if attached?.isSome then .error .misuse else do return { s with found := ← s.found.setFlag f }
  | .stop stop => .error (if attached?.isSome then .misuse else stop)

def long (s : Scan) (text : List Char) : Except Stop Scan :=
  let (name, attached?) :=
    match Text.cutAt? (· == '=') text with
    | some (name, value) => (name, some (String.ofList value))
    | none => (text, none)
  match longSwitches.lookup (String.ofList name) with
  | some switch => s.apply attached? switch
  | none => .error .misuse

def short (s : Scan) (c : Char) (text : List Char) : Except Stop Scan :=
  match shortSwitches.lookup c, text with
  | some (.valued o), [] => s.apply none (.valued o)
  | some (.valued o), '=' :: value => s.apply (some (String.ofList value)) (.valued o)
  | some (.valued o), value => s.apply (some (String.ofList value)) (.valued o)
  | some switch, _ => s.apply none switch
  | none, _ => .error .misuse

def step (s : Scan) (argument : String) : Except Stop Scan :=
  if s.plain then s.setSchema argument
  else
    match s.due, argument.toList with
    | some _, '-' :: _ :: _ => .error .misuse
    | some o, _ => do return { s with found := ← s.found.setValue argument o, due := none }
    | none, ['-', '-'] => .ok { s with plain := true }
    | none, '-' :: '-' :: text => s.long text
    | none, '-' :: c :: text => s.short c text
    | none, _ => s.setSchema argument

def finish (s : Scan) : Except Stop Arguments :=
  if s.due.isSome || s.found.schema?.isSome == s.found.config?.isSome then .error .misuse
  else .ok s.found

end Scan

def ofList (arguments : List String) : Except Stop Arguments := do
  (← arguments.foldlM Scan.step {}).finish

end Arguments

end WireProtocol.Generation
