import WireProtocol.Wire.Object

namespace WireProtocol.Wire

structure Handler {ι : Type} (F : Family ι) where
  tag : Int32
  name : String
  type : ObjectType ι
  write : Object F → Write
  read : Read (Object F)

namespace Handler

variable {ι : Type} {F : Family ι}

def mismatch (name : String) : Write := throw (.typeMismatch name .otherValue)

def scalar (s : Scalar) (tag : Int32) : Handler F where
  tag := tag
  name := (ObjectType.scalar s).name F
  type := .scalar s
  write
    | .scalar t v => if h : t = s then s.write (h ▸ v) else mismatch ((ObjectType.scalar s).name F)
    | _ => mismatch ((ObjectType.scalar s).name F)
  read := .scalar s <$> s.read

def bytes (tag : Int32) : Handler F where
  tag := tag
  name := "bytes"
  type := .bytes
  write
    | .bytes b => Write.bytes? (some b)
    | _ => mismatch "bytes"
  read := (.bytes <| ·.getD []) <$> Read.bytes?

def record [DecidableEq ι] (F : Family ι) (i : ι) : Handler F where
  tag := (F i).tag
  name := (F i).name
  type := .record i
  write
    | .record j r => if h : j = i then (h ▸ r : Record F i).write else mismatch (F i).name
    | _ => mismatch (F i).name
  read := .record i <$> Record.read i

end Handler

structure Registry {ι : Type} (F : Family ι) where
  handlers : List (Handler F)

namespace Registry

variable {ι : Type} {F : Family ι}

def builtIns : List (Handler F) :=
  [.scalar .int32 1, .scalar .int64 2, .scalar .float 3, .scalar .double 4, .scalar .bool 5,
    .scalar .string 6, .bytes 7, .scalar .vector3 8, .scalar .dateTime 9]

def new : Registry F := ⟨builtIns⟩

def size (g : Registry F) : Nat := g.handlers.length

def isEmpty (g : Registry F) : Bool := g.handlers.isEmpty

def byTag? (g : Registry F) (tag : Int32) : Option (Handler F) :=
  g.handlers.find? (·.tag == tag)

def readObject? (g : Registry F) : Read (Option (Object F)) := do
  let tag ← Read.i32
  if tag = Tag.null then return none
  else
    match g.byTag? tag with
    | some h => some <$> h.read
    | none => throw (.unknownTag tag)

variable [DecidableEq ι]

def byType? (g : Registry F) (type : ObjectType ι) : Option (Handler F) :=
  g.handlers.find? (·.type == type)

def contains (g : Registry F) (type : ObjectType ι) : Bool := (g.byType? type).isSome

/-- Registering once more what is registered already changes nothing. -/
def register (g : Registry F) (h : Handler F) : Except Error (Registry F) :=
  if Tag.isReserved h.tag then .error (.reservedTag h.tag)
  else
    match g.byTag? h.tag with
    | some existing =>
      if existing.type = h.type then .ok g else .error (.duplicateTag h.tag existing.name)
    | none =>
      match g.byType? h.type with
      | some existing => .error (.typeTaken existing.name existing.tag)
      | none => .ok ⟨g.handlers ++ [h]⟩

def registerRecord (g : Registry F) (i : ι) : Except Error (Registry F) := g.register (.record F i)

/-- Registers one record after the other up to the first that is refused, and keeps those before it. -/
def registerRecords (g : Registry F) : List ι → Registry F × Except Error Unit
  | [] => (g, .ok ())
  | i :: rest =>
    match g.registerRecord i with
    | .ok g => g.registerRecords rest
    | .error e => (g, .error e)

def writeObject? (g : Registry F) : Option (Object F) → Write
  | none => Write.i32 Tag.null
  | some o =>
    match g.byType? o.type with
    | none => throw (.unregisteredType (o.type.name F))
    | some h => do
      Write.i32 h.tag
      h.write o

def readObjectOf? (g : Registry F) (type : ObjectType ι) : Read (Option (Object F)) := do
  match ← g.readObject? with
  | none => return none
  | some o =>
    if o.type = type then return some o
    else throw (.typeMismatch (type.name F) .otherObject)

end Registry

end WireProtocol.Wire
