import WireProtocol.Wire.Record
import WireProtocol.Wire.Tag

/-! The bytes of messages: the words of the presence mask, and after them the fields that hold
something, in order. Fields at their zero value take no more than their bit. A nested message has
its tag in front, and the null tag stands for its absence. -/

namespace WireProtocol.Wire

variable {ι : Type} {F : Family ι}

def Layout.maskWords (layout : Layout ι) : Nat := wordsFor layout.fields.length

mutual

def Record.write : {i : ι} → Record F i → Write
  | i, .mk slots => Write.withMask (F i).maskWords slots.present fun mask => slots.write mask 0

def Slots.write (mask : Mask) (k : Nat) : {shapes : List (Shape ι)} → Slots F shapes → Write
  | _, .nil => pure ()
  | _, .single (s := s) v rest => do
    if mask.contains k then s.write v
    rest.write mask (k + 1)
  | _, .repeated (s := s) vs rest => do
    if mask.contains k then s.writeMany vs
    rest.write mask (k + 1)
  | _, .absent rest => do
    if mask.contains k then Write.i32 Tag.null
    rest.write mask (k + 1)
  | _, .nested (i := i) r rest => do
    if mask.contains k then
      Write.i32 (F i).tag
      r.write
    rest.write mask (k + 1)
  | _, .repeatedNested rs rest => do
    if mask.contains k then
      Write.length rs.length
      rs.writeAll
    rest.write mask (k + 1)

def Records.writeAll : {i : ι} → Records F i → Write
  | _, .nil => pure ()
  | i, .cons r rs => do
    Write.i32 (F i).tag
    r.write
    rs.writeAll

end

def Record.writeNested? {i : ι} : Option (Record F i) → Write
  | none => Write.i32 Tag.null
  | some r => do
    Write.i32 (F i).tag
    r.write

def Records.write {i : ι} (rs : Records F i) : Write := do
  Write.length rs.length
  rs.writeAll

def Layout.readNested? (layout : Layout ι) (message : Read α) : Read (Option α) := do
  let tag ← Read.i32
  if tag = Tag.null then return none
  else if tag = layout.tag then return some (← message)
  else throw (.typeMismatch s!"{layout.name} (tag {layout.tag})" (.tag tag))

def Slots.read (message : (i : ι) → Read (Record F i)) (mask : Mask) (k : Nat) :
    (shapes : List (Shape ι)) → Read (Slots F shapes)
  | [] => return .nil
  | .single s :: shapes => do
    let v ← if mask.contains k then s.read else pure s.zero
    return .single v (← Slots.read message mask (k + 1) shapes)
  | .repeated s :: shapes => do
    let vs ← if mask.contains k then s.readMany else pure []
    return .repeated vs (← Slots.read message mask (k + 1) shapes)
  | .nested i :: shapes => do
    let r? ← if mask.contains k then (F i).readNested? (message i) else pure none
    let rest ← Slots.read message mask (k + 1) shapes
    match r? with
    | none => return .absent rest
    | some r => return .nested r rest
  | .repeatedNested i :: shapes => do
    let rs ←
      if mask.contains k then do
        Read.times ((·.getD (.zero i)) <$> (F i).readNested? (message i)) (← Read.length)
      else pure []
    return .repeatedNested (.ofList rs) (← Slots.read message mask (k + 1) shapes)

def Record.readWithin : (depth : Nat) → (i : ι) → Read (Record F i)
  | 0, _ => do throw (.unexpectedEnd 1 0)
  | depth + 1, i =>
    Read.withMask (F i).maskWords fun mask =>
      .mk <$> Slots.read (readWithin depth) mask 0 (F i).fields

/-- A nested message has its tag of four bytes in front, so the bytes left bound the depth. -/
def Record.read (i : ι) : Read (Record F i) := fun r =>
  readWithin (r.rest.length / 4 + 1) i r

def Record.readNested? (i : ι) : Read (Option (Record F i)) := (F i).readNested? (Record.read i)

def Records.read (i : ι) : Read (Records F i) := do
  return .ofList (← Read.times ((·.getD (.zero i)) <$> Record.readNested? i) (← Read.length))

def Record.encode {i : ι} (r : Record F i) : Except Error (List UInt8) :=
  match r.write (.new) with
  | .ok _ w => .ok w.bytes
  | .error e _ => .error e

def Record.decode (i : ι) (bytes : List UInt8) : Except Error (Record F i) :=
  match Record.read i (.new bytes) with
  | .ok r s =>
    if s.isEmpty then .ok r else .error (.decode (.trailingBytes s.remaining (F i).name))
  | .error e _ => .error e

theorem Record.exists_read_of_decode {i : ι} {bytes : List UInt8} {r : Record F i}
    (h : decode i bytes = .ok r) : ∃ s, read i (.new bytes) = .ok r s ∧ s.rest = [] := by
  rw [decode] at h
  split at h
  · next s hr =>
    split at h
    · next he =>
      cases h
      exact ⟨s, hr, List.isEmpty_iff.1 he⟩
    · cases h
  · cases h

end WireProtocol.Wire
