import WireProtocol.Proofs.Wire.Depth
import WireProtocol.Proofs.Wire.ScalarForm

/-! How records may stand in bytes. Reading is laxer than writing: a form may have bits in its mask
that no field has, may spell out a zero value, and may have an absent text or message where there
should be one. `Canonical` forms do none of this. -/

namespace WireProtocol.Wire

variable {ι : Type}

mutual

inductive RecordForm (F : Family ι) : ι → Type
  | mk {i : ι} (mask : Mask) (width : mask.width = (F i).maskWords)
    (slots : SlotForms F mask 0 (F i).fields) : RecordForm F i

/-- The forms of fields from number `k` on: those in the mask stand there, the others do not. -/
inductive SlotForms (F : Family ι) : Mask → Nat → List (Shape ι) → Type
  | nil {mask : Mask} {k : Nat} : SlotForms F mask k []
  | omitted {mask : Mask} {k : Nat} {shape : Shape ι} {shapes : List (Shape ι)}
    (clear : mask.contains k = false) (rest : SlotForms F mask (k + 1) shapes) :
    SlotForms F mask k (shape :: shapes)
  | single {mask : Mask} {k : Nat} {s : Scalar} {shapes : List (Shape ι)}
    (set : mask.contains k = true) (f : ScalarForm s) (rest : SlotForms F mask (k + 1) shapes) :
    SlotForms F mask k (.single s :: shapes)
  | repeated {mask : Mask} {k : Nat} {s : Scalar} {shapes : List (Shape ι)}
    (set : mask.contains k = true) (fs : List (ScalarForm s)) (fits : fs.length ≤ maxLength)
    (rest : SlotForms F mask (k + 1) shapes) : SlotForms F mask k (.repeated s :: shapes)
  | null {mask : Mask} {k : Nat} {i : ι} {shapes : List (Shape ι)}
    (set : mask.contains k = true) (rest : SlotForms F mask (k + 1) shapes) :
    SlotForms F mask k (.nested i :: shapes)
  | nested {mask : Mask} {k : Nat} {i : ι} {shapes : List (Shape ι)}
    (set : mask.contains k = true) (f : RecordForm F i) (rest : SlotForms F mask (k + 1) shapes) :
    SlotForms F mask k (.nested i :: shapes)
  | repeatedNested {mask : Mask} {k : Nat} {i : ι} {shapes : List (Shape ι)} {n : Nat}
    (set : mask.contains k = true) (fits : n ≤ maxLength) (fs : RecordForms F i n)
    (rest : SlotForms F mask (k + 1) shapes) : SlotForms F mask k (.repeatedNested i :: shapes)

inductive RecordForms (F : Family ι) : ι → Nat → Type
  | nil {i : ι} : RecordForms F i 0
  | null {i : ι} {n : Nat} (fs : RecordForms F i n) : RecordForms F i (n + 1)
  | cons {i : ι} {n : Nat} (f : RecordForm F i) (fs : RecordForms F i n) : RecordForms F i (n + 1)

end

variable {F : Family ι}

def Slots.omit {shapes : List (Shape ι)} (rest : Slots F shapes) :
    (shape : Shape ι) → Slots F (shape :: shapes)
  | .single s => .single s.zero rest
  | .repeated _ => .repeated [] rest
  | .nested _ => .absent rest
  | .repeatedNested _ => .repeatedNested .nil rest

mutual

def RecordForm.value : {i : ι} → RecordForm F i → Record F i
  | _, .mk _ _ slots => .mk slots.value

def SlotForms.value : {mask : Mask} → {k : Nat} → {shapes : List (Shape ι)} →
    SlotForms F mask k shapes → Slots F shapes
  | _, _, _, .nil => .nil
  | _, _, shape :: _, .omitted _ rest => rest.value.omit shape
  | _, _, _, .single _ f rest => .single f.toValue rest.value
  | _, _, _, .repeated _ fs _ rest => .repeated (fs.map (·.toValue)) rest.value
  | _, _, _, .null _ rest => .absent rest.value
  | _, _, _, .nested _ f rest => .nested f.value rest.value
  | _, _, _, .repeatedNested _ _ fs rest => .repeatedNested fs.value rest.value

def RecordForms.value : {i : ι} → {n : Nat} → RecordForms F i n → Records F i
  | _, _, .nil => .nil
  | i, _, .null fs => .cons (.zero i) fs.value
  | _, _, .cons f fs => .cons f.value fs.value

end

mutual

def RecordForm.bytes : {i : ι} → RecordForm F i → List UInt8
  | _, .mk mask _ slots => mask.bytes ++ slots.bytes

def SlotForms.bytes : {mask : Mask} → {k : Nat} → {shapes : List (Shape ι)} →
    SlotForms F mask k shapes → List UInt8
  | _, _, _, .nil => []
  | _, _, _, .omitted _ rest => rest.bytes
  | _, _, _, .single _ f rest => f.bytes ++ rest.bytes
  | _, _, _, .repeated _ fs _ rest =>
    (LittleEndian.ofUInt32 (UInt32.ofNat fs.length) ++ fs.flatMap (·.bytes)) ++ rest.bytes
  | _, _, _, .null _ rest => LittleEndian.ofUInt32 Tag.null.toUInt32 ++ rest.bytes
  | _, _, _, .nested (i := i) _ f rest =>
    (LittleEndian.ofUInt32 (F i).tag.toUInt32 ++ f.bytes) ++ rest.bytes
  | _, _, _, .repeatedNested (n := n) _ _ fs rest =>
    (LittleEndian.ofUInt32 (UInt32.ofNat n) ++ fs.bytes) ++ rest.bytes

def RecordForms.bytes : {i : ι} → {n : Nat} → RecordForms F i n → List UInt8
  | _, _, .nil => []
  | _, _, .null fs => LittleEndian.ofUInt32 Tag.null.toUInt32 ++ fs.bytes
  | i, _, .cons f fs => LittleEndian.ofUInt32 (F i).tag.toUInt32 ++ (f.bytes ++ fs.bytes)

end

mutual

/-- No bit beyond the fields, no bit for a zero value, and nothing absent in a list; so in all the
messages that are nested in it. -/
def RecordForm.Canonical : {i : ι} → RecordForm F i → Prop
  | i, .mk mask _ slots =>
    (∀ k, (F i).fields.length ≤ k → mask.contains k = false) ∧ slots.Canonical

def SlotForms.Canonical : {mask : Mask} → {k : Nat} → {shapes : List (Shape ι)} →
    SlotForms F mask k shapes → Prop
  | _, _, _, .nil => True
  | _, _, _, .omitted _ rest => rest.Canonical
  | _, _, _, .single _ f rest => f.isZero = false ∧ rest.Canonical
  | _, _, _, .repeated _ fs _ rest => fs ≠ [] ∧ (∀ f ∈ fs, ¬ f.IsNull) ∧ rest.Canonical
  | _, _, _, .null .. => False
  | _, _, _, .nested _ f rest => f.Canonical ∧ rest.Canonical
  | _, _, _, .repeatedNested (n := n) _ _ fs rest => n ≠ 0 ∧ fs.Canonical ∧ rest.Canonical

def RecordForms.Canonical : {i : ι} → {n : Nat} → RecordForms F i n → Prop
  | _, _, .nil => True
  | _, _, .null _ => False
  | _, _, .cons f fs => f.Canonical ∧ fs.Canonical

end

end WireProtocol.Wire
