import WireProtocol.Wire.Mask
import WireProtocol.Wire.Tag

namespace WireProtocol.Schema

/-- The type of a field's values. No schema text has a field of type `list` or `map`. -/
inductive FieldType
  | int32 | int64 | float | double | bool | string | struct | vector3 | dateTime | list | map
  deriving DecidableEq, Repr

namespace FieldType

def all : List FieldType :=
  [int32, int64, float, double, bool, string, struct, vector3, dateTime, list, map]

def name : FieldType → String
  | int32 => "int32"
  | int64 => "int64"
  | float => "float"
  | double => "double"
  | bool => "bool"
  | string => "string"
  | struct => "struct"
  | vector3 => "vector3"
  | dateTime => "datetime"
  | list => "list"
  | map => "map"

def primitives : List (String × FieldType) :=
  [("int32", int32), ("int", int32), ("int64", int64), ("long", int64), ("float", float),
    ("double", double), ("bool", bool), ("string", string), ("vector3", vector3),
    ("datetime", dateTime), ("timestamp", dateTime)]

def ofName? (name : String) : Option FieldType :=
  primitives.lookup (String.ofList (name.toList.map Char.toLower))

end FieldType

structure Field where
  name : String
  type : FieldType
  id : Int32
  repeated : Bool
  customType : Option String
  line : Nat
  deriving DecidableEq, Repr

structure Message where
  name : String
  fields : List Field
  typeTag : Int32
  line : Nat
  deriving DecidableEq, Repr

def Message.maskWords (m : Message) : Nat := Wire.wordsFor m.fields.length

structure Method where
  name : String
  request : String
  response : String
  line : Nat
  deriving DecidableEq, Repr

structure Service where
  name : String
  methods : List Method
  line : Nat
  deriving DecidableEq, Repr

def Service.key (s : Service) (m : Method) : String := s.name ++ "." ++ m.name

/-- Options by key, in increasing order of the keys. -/
structure Options where
  entries : List (String × String)
  sorted : entries.Pairwise (·.1 < ·.1)
  deriving DecidableEq, Repr

namespace Options

def empty : Options := ⟨[], .nil⟩

instance : Inhabited Options := ⟨empty⟩

def insertEntry (key value : String) : List (String × String) → List (String × String)
  | [] => [(key, value)]
  | (k, v) :: rest =>
    if key < k then (key, value) :: (k, v) :: rest
    else if key = k then (key, value) :: rest
    else (k, v) :: insertEntry key value rest

theorem mem_insertEntry {key value : String} {e : String × String}
    {entries : List (String × String)} (h : e ∈ insertEntry key value entries) :
    e = (key, value) ∨ e ∈ entries := by
  induction entries with
  | nil => simp_all [insertEntry]
  | cons entry rest ih =>
    simp only [insertEntry] at h
    split at h
    · grind
    · split at h <;> grind

theorem sorted_insertEntry {key value : String} {entries : List (String × String)}
    (h : entries.Pairwise (·.1 < ·.1)) : (insertEntry key value entries).Pairwise (·.1 < ·.1) := by
  induction entries with
  | nil => simp [insertEntry]
  | cons entry rest ih =>
    obtain ⟨hlt, hrest⟩ := List.pairwise_cons.1 h
    simp only [insertEntry]
    split
    · next hk =>
      refine List.pairwise_cons.2 ⟨fun e he => ?_, h⟩
      rcases List.mem_cons.1 he with rfl | he
      · exact hk
      · exact String.lt_trans hk (hlt e he)
    · next hk =>
      split
      · next heq => exact List.pairwise_cons.2 ⟨fun e he => heq ▸ hlt e he, hrest⟩
      · next hne =>
        refine List.pairwise_cons.2 ⟨fun e he => ?_, ih hrest⟩
        rcases mem_insertEntry he with rfl | he
        · have : entry.1 ≤ key := String.not_lt.1 hk
          exact String.not_le.1 fun hle => hne (String.le_antisymm hle this)
        · exact hlt e he

def insert (o : Options) (key value : String) : Options :=
  ⟨insertEntry key value o.entries, sorted_insertEntry o.sorted⟩

def get? (o : Options) (key : String) : Option String := o.entries.lookup key

end Options

structure Definition where
  namespaceName : String := ""
  messages : List Message := []
  services : List Service := []
  options : Options := .empty
  deriving DecidableEq, Repr, Inhabited

namespace Definition

def message? (d : Definition) (name : String) : Option Message := d.messages.find? (·.name == name)

def service? (d : Definition) (name : String) : Option Service := d.services.find? (·.name == name)

def qualifiedName (d : Definition) (message : String) : String :=
  if d.namespaceName.isEmpty then message else d.namespaceName ++ "." ++ message

def assignTags (d : Definition) : Definition :=
  { d with messages := d.messages.map fun m => { m with typeTag := Wire.Tag.ofName (d.qualifiedName m.name) } }

end Definition

end WireProtocol.Schema
