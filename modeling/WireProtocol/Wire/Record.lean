import WireProtocol.Wire.Scalar

/-! Message types, and the records that are their values. A family of types may be mutually
recursive: a layout refers to other layouts of its family by their index. -/

namespace WireProtocol.Wire

inductive Shape (ι : Type)
  | single (s : Scalar)
  | repeated (s : Scalar)
  | nested (i : ι)
  | repeatedNested (i : ι)
  deriving DecidableEq, Repr

structure Layout (ι : Type) where
  name : String
  tag : Int32
  fields : List (Shape ι)

abbrev Family (ι : Type) := ι → Layout ι

mutual

inductive Record {ι : Type} (F : Family ι) : ι → Type
  | mk {i : ι} (slots : Slots F (F i).fields) : Record F i

inductive Slots {ι : Type} (F : Family ι) : List (Shape ι) → Type
  | nil : Slots F []
  | single {s shapes} (v : s.Value) (rest : Slots F shapes) : Slots F (.single s :: shapes)
  | repeated {s shapes} (vs : List s.Value) (rest : Slots F shapes) :
    Slots F (.repeated s :: shapes)
  | absent {i shapes} (rest : Slots F shapes) : Slots F (.nested i :: shapes)
  | nested {i shapes} (r : Record F i) (rest : Slots F shapes) : Slots F (.nested i :: shapes)
  | repeatedNested {i shapes} (rs : Records F i) (rest : Slots F shapes) :
    Slots F (.repeatedNested i :: shapes)

inductive Records {ι : Type} (F : Family ι) : ι → Type
  | nil {i} : Records F i
  | cons {i} (r : Record F i) (rs : Records F i) : Records F i

end

variable {ι : Type} {F : Family ι}

def Records.length {i : ι} : Records F i → Nat
  | .nil => 0
  | .cons _ rs => rs.length + 1

def Records.ofList {i : ι} : List (Record F i) → Records F i
  | [] => .nil
  | r :: rs => .cons r (ofList rs)

def Records.toList {i : ι} : Records F i → List (Record F i)
  | .nil => []
  | .cons r rs => r :: rs.toList

def Records.isEmpty {i : ι} : Records F i → Bool
  | .nil => true
  | .cons .. => false

def Slots.zero : (shapes : List (Shape ι)) → Slots F shapes
  | [] => .nil
  | .single s :: shapes => .single s.zero (zero shapes)
  | .repeated _ :: shapes => .repeated [] (zero shapes)
  | .nested _ :: shapes => .absent (zero shapes)
  | .repeatedNested _ :: shapes => .repeatedNested .nil (zero shapes)

def Record.zero (i : ι) : Record F i := .mk (Slots.zero (F i).fields)

def Slots.present : {shapes : List (Shape ι)} → Slots F shapes → List Bool
  | _, .nil => []
  | _, .single (s := s) v rest => (!s.isZero v) :: rest.present
  | _, .repeated vs rest => (!vs.isEmpty) :: rest.present
  | _, .absent rest => false :: rest.present
  | _, .nested _ rest => true :: rest.present
  | _, .repeatedNested rs rest => (!rs.isEmpty) :: rest.present

def Record.present {i : ι} : Record F i → List Bool
  | .mk slots => slots.present

def Record.mask {i : ι} (r : Record F i) : Mask := (Mask.forFields (F i).fields.length).mark r.present

end WireProtocol.Wire
