import Mathlib.Data.List.Forall2
import WireProtocol.Proofs.Wire.RoundTrip

namespace WireProtocol.Wire

variable {ι : Type}

inductive Content (F : Family ι)
  | single (s : Scalar) (v : s.Value)
  | repeated (s : Scalar) (vs : List s.Value)
  | nested (i : ι) (r? : Option (Record F i))
  | repeatedNested (i : ι) (rs : Records F i)

variable {F : Family ι}

namespace Content

def shape : Content F → Shape ι
  | single s _ => .single s
  | repeated s _ => .repeated s
  | nested i _ => .nested i
  | repeatedNested i _ => .repeatedNested i

def isZero : Content F → Bool
  | single s v => s.isZero v
  | repeated _ vs => vs.isEmpty
  | nested _ r? => r?.isNone
  | repeatedNested _ rs => rs.isEmpty

def write : Content F → Write
  | single s v => s.write v
  | repeated s vs => s.writeMany vs
  | nested _ r? => Record.writeNested? r?
  | repeatedNested _ rs => rs.write

def encode (c : Content F) : Except Error (List UInt8) :=
  match c.write .new with
  | .ok _ w => .ok w.bytes
  | .error e _ => .error e

end Content

def Slots.contents : {shapes : List (Shape ι)} → Slots F shapes → List (Content F)
  | _, .nil => []
  | _, .single (s := s) v rest => .single s v :: rest.contents
  | _, .repeated (s := s) vs rest => .repeated s vs :: rest.contents
  | _, .absent (i := i) rest => .nested i none :: rest.contents
  | _, .nested (i := i) r rest => .nested i (some r) :: rest.contents
  | _, .repeatedNested (i := i) rs rest => .repeatedNested i rs :: rest.contents

def Record.contents {i : ι} : Record F i → List (Content F)
  | .mk slots => slots.contents

namespace Content

def lengths : Content F → List Nat
  | single s v => s.lengths v
  | repeated s vs => vs.length :: vs.flatMap s.lengths
  | nested _ none => []
  | nested _ (some r) => r.lengths
  | repeatedNested _ rs => rs.length :: rs.lengths

def bytes : Content F → List UInt8
  | single s v => s.bytes v
  | repeated s vs => LittleEndian.ofUInt32 (UInt32.ofNat vs.length) ++ vs.flatMap s.bytes
  | nested _ none => LittleEndian.ofUInt32 Tag.null.toUInt32
  | nested i (some r) => LittleEndian.ofUInt32 (F i).tag.toUInt32 ++ r.bytes
  | repeatedNested _ rs => LittleEndian.ofUInt32 (UInt32.ofNat rs.length) ++ rs.bytes

theorem checks_write (c : Content F) : Write.Checks c.write c.lengths c.bytes := by
  cases c with
  | single s v => exact s.checks_write v
  | repeated s vs => exact s.checks_writeMany vs
  | nested i r? =>
    cases r? with
    | none => exact (Write.puts_i32 _).checks
    | some r => exact (Write.puts_i32 _).checks.bind r.checks_write
  | repeatedNested i rs => exact (Write.checks_length _).bind rs.checks_writeAll

theorem encode_eq_ok {c : Content F} (h : ∀ n ∈ c.lengths, n ≤ maxLength) :
    c.encode = .ok c.bytes := by
  obtain ⟨pool, hp⟩ := c.checks_write.puts h [] none
  simp [encode, Writer.new, hp]

theorem bytes_ne_nil (c : Content F) : c.bytes ≠ [] := by
  intro h
  have hl := congrArg List.length h
  cases c with
  | single s v =>
    cases s <;> simp [bytes, Scalar.bytes] at hl
  | repeated s vs => simp [bytes] at hl
  | nested i r? => cases r? <;> simp [bytes] at hl
  | repeatedNested i rs => simp [bytes] at hl

end Content

namespace Slots

theorem shape_contents {shapes : List (Shape ι)} (slots : Slots F shapes) :
    slots.contents.map (·.shape) = shapes := by
  induction shapes with
  | nil => cases slots with | nil => rfl
  | cons shape shapes ih => cases slots <;> exact congrArg (List.cons _) (ih _)

theorem present_eq {shapes : List (Shape ι)} (slots : Slots F shapes) :
    slots.present = slots.contents.map (!·.isZero) := by
  induction shapes with
  | nil => cases slots with | nil => rfl
  | cons shape shapes ih => cases slots <;> simp [contents, present, Content.isZero, ih]

theorem lengths_eq {shapes : List (Shape ι)} (slots : Slots F shapes) :
    slots.lengths = slots.contents.flatMap (·.lengths) := by
  induction shapes with
  | nil => cases slots with | nil => rfl
  | cons shape shapes ih => cases slots <;> simp [contents, lengths, Content.lengths, ih]

theorem bytes_eq {shapes : List (Shape ι)} (slots : Slots F shapes) :
    slots.bytes = (slots.contents.filter (!·.isZero)).flatMap (·.bytes) := by
  induction shapes with
  | nil => cases slots with | nil => rfl
  | cons shape shapes ih =>
    cases slots with
    | single v rest =>
      cases h : Scalar.isZero _ v <;> simp [contents, bytes, Content.isZero, Content.bytes, ih, h]
    | repeated vs rest => cases vs <;> simp [contents, bytes, Content.isZero, Content.bytes, ih]
    | absent rest => simp [contents, bytes, Content.isZero, ih]
    | nested r rest => simp [contents, bytes, Content.isZero, Content.bytes, ih]
    | repeatedNested rs rest =>
      cases rs <;> simp [contents, bytes, Content.isZero, Content.bytes, Records.isEmpty, ih]

end Slots

namespace Record

variable {i : ι}

theorem shape_contents (r : Record F i) : r.contents.map (·.shape) = (F i).fields := by
  cases r with
  | mk slots => exact slots.shape_contents

theorem bytes_eq (r : Record F i) :
    r.bytes = r.mask.bytes ++ (r.contents.filter (!·.isZero)).flatMap (·.bytes) := by
  cases r with
  | mk slots =>
    rw [Record.bytes, slots.bytes_eq]
    rfl

theorem width_mask (r : Record F i) : r.mask.width = (F i).maskWords :=
  (Mask.width_mark _ _).trans (Mask.width_new _)

theorem present_eq (r : Record F i) : r.present = r.contents.map (!·.isZero) := by
  cases r with
  | mk slots => exact slots.present_eq

theorem length_present_le (r : Record F i) : r.present.length ≤ 32 * (F i).maskWords := by
  cases r with
  | mk slots => exact slots.length_present_le

theorem contains_mask (r : Record F i) (k : Nat) :
    r.mask.contains k = true ↔ ∃ c, r.contents[k]? = some c ∧ c.isZero = false := by
  have hm : r.mask.contains k = (r.present[k]?).getD false :=
    Mask.contains_mark _ r.present r.length_present_le k
  rw [hm, r.present_eq, List.getElem?_map]
  cases r.contents[k]? <;> simp

theorem encode_of_mem_contents {r : Record F i} (h : ∀ n ∈ r.lengths, n ≤ maxLength) {c : Content F}
    (hc : c ∈ r.contents) : c.encode = .ok c.bytes := by
  cases r with
  | mk slots =>
    refine Content.encode_eq_ok fun n hn => h n ?_
    rw [Record.lengths, slots.lengths_eq]
    exact List.mem_flatMap.2 ⟨c, hc, hn⟩

/-- A message that has an encoding is written as one word for every 32 fields, in which the bits are
set of those fields that hold something, and after them what each of these fields is written as by
itself. No field is written as nothing, so there are only words when no field holds anything. It is
the same behind other bytes, and with masks of a pool. -/
theorem encode_contents {r : Record F i} {bytes : List UInt8} (h : r.encode = .ok bytes) :
    ∃ (words : List UInt32) (parts : List (List UInt8)),
      words.length = ((F i).fields.length + 31) / 32 ∧
      r.contents.map (·.shape) = (F i).fields ∧
      (∀ k, (words[k / 32]?.getD 0).toNat.testBit (k % 32) = true ↔
        ∃ c, r.contents[k]? = some c ∧ c.isZero = false) ∧
      List.Forall₂ (fun c part => c.encode = .ok part) (r.contents.filter (!·.isZero)) parts ∧
      bytes = words.flatMap LittleEndian.ofUInt32 ++ parts.flatten ∧
      (bytes = words.flatMap LittleEndian.ofUInt32 ↔ ∀ c ∈ r.contents, c.isZero = true) ∧
      ∀ before pool, ∃ pool', r.write ⟨before, pool⟩ = .ok () ⟨before ++ bytes, pool'⟩ := by
  obtain ⟨fits, rfl⟩ := lengths_le_of_encode h
  refine ⟨r.mask.words, (r.contents.filter (!·.isZero)).map (·.bytes), r.width_mask,
    r.shape_contents, fun k => ?_, ?_, ?_, ?_, r.checks_write.puts fits⟩
  · rw [← Mask.contains_eq, r.contains_mask]
  · rw [List.forall₂_map_right_iff]
    exact List.forall₂_same.2 fun c hc => encode_of_mem_contents fits (List.mem_of_mem_filter hc)
  · rw [r.bytes_eq, List.flatMap_def]
    rfl
  · rw [r.bytes_eq]
    simp [Mask.bytes, Content.bytes_ne_nil]

end Record

theorem encode_contents_chain :
    let inner : Record chain () := .mk (.single ⟨1⟩ (.absent .nil))
    let r : Record chain () := .mk (.single ⟨0x80000000⟩ (.nested inner .nil))
    r.encode = .ok [2, 0, 0, 0, 100, 0, 0, 0, 1, 0, 0, 0, 1, 0, 0, 0] ∧
      ∃ (words : List UInt32) (part : List UInt8), words.length = 1 ∧
        (Content.nested () (some inner)).encode = .ok part ∧
        [2, 0, 0, 0, 100, 0, 0, 0, 1, 0, 0, 0, 1, 0, 0, 0] =
          words.flatMap LittleEndian.ofUInt32 ++ part := by
  intro inner r
  have h : r.encode = .ok [2, 0, 0, 0, 100, 0, 0, 0, 1, 0, 0, 0, 1, 0, 0, 0] := rfl
  obtain ⟨words, parts, hl, -, -, hp, hb, -⟩ := Record.encode_contents h
  have hc : r.contents.filter (!·.isZero) = [.nested () (some inner)] := rfl
  rw [hc] at hp
  obtain ⟨part, _, he, hn, rfl⟩ := List.forall₂_cons_left_iff.1 hp
  obtain rfl := List.forall₂_nil_left_iff.1 hn
  exact ⟨h, words, part, hl, he, by simpa using hb⟩

end WireProtocol.Wire
