import WireProtocol.Proofs.Wire.Writing
import WireProtocol.Wire.Message

namespace WireProtocol.Wire

namespace Scalar

def lengths : (s : Scalar) → s.Value → List Nat
  | string, v => [(Utf8.encode v).length]
  | int32, _ | int64, _ | float, _ | double, _ | bool, _ | vector3, _ | dateTime, _ => []

def bytes : (s : Scalar) → s.Value → List UInt8
  | int32, v => LittleEndian.ofUInt32 (Int32.toUInt32 v)
  | int64, v => LittleEndian.ofUInt64 (Int64.toUInt64 v)
  | float, v => LittleEndian.ofUInt32 (Single.bits v)
  | double, v => LittleEndian.ofUInt64 (Double.bits v)
  | bool, v => [if (v : Bool) then 1 else 0]
  | string, v => LittleEndian.ofUInt32 (UInt32.ofNat (Utf8.encode v).length) ++ Utf8.encode v
  | vector3, v =>
    LittleEndian.ofUInt32 (Vector3.x v).bits ++
      (LittleEndian.ofUInt32 (Vector3.y v).bits ++ LittleEndian.ofUInt32 (Vector3.z v).bits)
  | dateTime, v => LittleEndian.ofUInt64 (Timestamp.millis v).toUInt64

open Write in
theorem checks_write (s : Scalar) (v : s.Value) : Checks (s.write v) (s.lengths v) (s.bytes v) := by
  cases s with
  | int32 => exact (puts_i32 v).checks
  | int64 => exact (puts_i64 v).checks
  | float => exact (puts_u32 _).checks
  | double => exact (puts_u64 _).checks
  | bool => exact (puts_bool v).checks
  | string => exact checks_text? v
  | vector3 => exact ((puts_u32 _).bind ((puts_u32 _).bind (puts_u32 _))).checks
  | dateTime => exact (puts_i64 _).checks

theorem checks_writeMany (s : Scalar) (vs : List s.Value) :
    Write.Checks (s.writeMany vs) (vs.length :: vs.flatMap s.lengths)
      (LittleEndian.ofUInt32 (UInt32.ofNat vs.length) ++ vs.flatMap s.bytes) :=
  (Write.checks_length vs.length).bind (Write.checks_each s.checks_write vs)

end Scalar

variable {ι : Type} {F : Family ι}

mutual

def Record.lengths : {i : ι} → Record F i → List Nat
  | _, .mk slots => slots.lengths

def Slots.lengths : {shapes : List (Shape ι)} → Slots F shapes → List Nat
  | _, .nil => []
  | _, .single (s := s) v rest => s.lengths v ++ rest.lengths
  | _, .repeated (s := s) vs rest => (vs.length :: vs.flatMap s.lengths) ++ rest.lengths
  | _, .absent rest => rest.lengths
  | _, .nested r rest => r.lengths ++ rest.lengths
  | _, .repeatedNested rs rest => (rs.length :: rs.lengths) ++ rest.lengths

def Records.lengths : {i : ι} → Records F i → List Nat
  | _, .nil => []
  | _, .cons r rs => r.lengths ++ rs.lengths

end

mutual

def Record.bytes : {i : ι} → Record F i → List UInt8
  | i, .mk slots => ((Mask.forFields (F i).fields.length).mark slots.present).bytes ++ slots.bytes

def Slots.bytes : {shapes : List (Shape ι)} → Slots F shapes → List UInt8
  | _, .nil => []
  | _, .single (s := s) v rest => (if s.isZero v then [] else s.bytes v) ++ rest.bytes
  | _, .repeated (s := s) vs rest =>
    (if vs.isEmpty then []
      else LittleEndian.ofUInt32 (UInt32.ofNat vs.length) ++ vs.flatMap s.bytes) ++ rest.bytes
  | _, .absent rest => rest.bytes
  | _, .nested (i := i) r rest =>
    (LittleEndian.ofUInt32 (F i).tag.toUInt32 ++ r.bytes) ++ rest.bytes
  | _, .repeatedNested rs rest =>
    (if rs.isEmpty then [] else LittleEndian.ofUInt32 (UInt32.ofNat rs.length) ++ rs.bytes) ++
      rest.bytes

def Records.bytes : {i : ι} → Records F i → List UInt8
  | _, .nil => []
  | i, .cons r rs => LittleEndian.ofUInt32 (F i).tag.toUInt32 ++ (r.bytes ++ rs.bytes)

end

@[simp] theorem Slots.length_present {shapes : List (Shape ι)} (slots : Slots F shapes) :
    slots.present.length = shapes.length := by
  induction shapes with
  | nil => cases slots with | nil => rfl
  | cons shape shapes ih => cases slots <;> simp [Slots.present, ih]

theorem Slots.length_present_le {i : ι} (slots : Slots F (F i).fields) :
    slots.present.length ≤ 32 * (F i).maskWords := by
  rw [Slots.length_present]
  exact Mask.le_wordsFor _

theorem Scalar.lengths_le_of_isZero {s : Scalar} {v : s.Value} (h : s.isZero v = true) :
    ∀ n ∈ s.lengths v, n ≤ maxLength := by
  cases s with
  | string =>
    have hv : v = "" := by simpa [Scalar.isZero] using h
    subst hv
    simp [Scalar.lengths]
  | _ => simp [Scalar.lengths]

mutual

theorem Record.checks_write {i : ι} : (r : Record F i) → Write.Checks r.write r.lengths r.bytes
  | .mk slots => by
    rw [Record.write, Record.lengths, Record.bytes]
    exact Write.checks_withMask
      (slots.checks_write _ 0 (Mask.shows_mark slots.length_present_le))

theorem Slots.checks_write (mask : Mask) (k : Nat) {shapes : List (Shape ι)} :
    (slots : Slots F shapes) → mask.Shows k slots.present →
      Write.Checks (slots.write mask k) slots.lengths slots.bytes
  | .nil, _ => Write.Puts.pure.checks
  | .single (s := s) v rest, h => by
    rw [Slots.present, Mask.shows_cons] at h
    have hr := rest.checks_write mask (k + 1) h.2
    rw [Slots.write, Slots.lengths, Slots.bytes]
    cases hz : s.isZero v with
    | true =>
      simp only [h.1, hz, Bool.not_true, Bool.false_eq_true, if_false, if_true, List.nil_append]
      exact hr.skip (Scalar.lengths_le_of_isZero hz)
    | false =>
      simp only [h.1, hz, Bool.not_false, Bool.false_eq_true, if_false, if_true]
      exact (s.checks_write v).bind hr
  | .repeated (s := s) vs rest, h => by
    rw [Slots.present, Mask.shows_cons] at h
    have hr := rest.checks_write mask (k + 1) h.2
    rw [Slots.write, Slots.lengths, Slots.bytes]
    cases vs with
    | nil =>
      simp only [h.1, List.isEmpty_nil, Bool.not_true, Bool.false_eq_true, if_false, if_true,
        List.nil_append]
      exact hr.skip (by simp)
    | cons v vs =>
      simp only [h.1, List.isEmpty_cons, Bool.not_false, Bool.false_eq_true, if_false, if_true]
      exact (s.checks_writeMany (v :: vs)).bind hr
  | .absent rest, h => by
    rw [Slots.present, Mask.shows_cons] at h
    rw [Slots.write, Slots.lengths, Slots.bytes]
    simp only [h.1, Bool.false_eq_true, if_false]
    exact rest.checks_write mask (k + 1) h.2
  | .nested (i := i) r rest, h => by
    rw [Slots.present, Mask.shows_cons] at h
    rw [Slots.write, Slots.lengths, Slots.bytes, List.append_assoc]
    simp only [h.1, if_true]
    exact (Write.puts_i32 (F i).tag).checks.bind
      (r.checks_write.bind (rest.checks_write mask (k + 1) h.2))
  | .repeatedNested rs rest, h => by
    rw [Slots.present, Mask.shows_cons] at h
    have hr := rest.checks_write mask (k + 1) h.2
    rw [Slots.write, Slots.lengths, Slots.bytes]
    cases rs with
    | nil =>
      simp only [h.1, Records.isEmpty, Bool.not_true, Bool.false_eq_true, if_false, if_true,
        List.nil_append]
      exact hr.skip (by simp [Records.length, Records.lengths])
    | cons r rs =>
      simp only [h.1, Records.isEmpty, Bool.not_false, Bool.false_eq_true, if_false, if_true]
      rw [List.append_assoc]
      exact (Write.checks_length _).bind ((Records.cons r rs).checks_writeAll.bind hr)

theorem Records.checks_writeAll {i : ι} :
    (rs : Records F i) → Write.Checks rs.writeAll rs.lengths rs.bytes
  | .nil => Write.Puts.pure.checks
  | .cons r rs =>
    (Write.puts_i32 (F i).tag).checks.bind (r.checks_write.bind rs.checks_writeAll)

end

theorem Record.encode_eq {i : ι} (r : Record F i) :
    r.encode = match Write.tooLarge? r.lengths with
      | none => .ok r.bytes
      | some n => .error (.encode (.lengthTooLarge n)) := by
  have h := r.checks_write
  simp only [Write.Checks] at h
  rw [Record.encode]
  cases hl : Write.tooLarge? r.lengths with
  | none =>
    rw [hl] at h
    obtain ⟨pool', h⟩ := h [] none
    simp only [Writer.new, h, List.nil_append]
  | some n =>
    rw [hl] at h
    obtain ⟨w, h⟩ := h .new
    simp only [h]

theorem Record.encode_eq_ok {i : ι} {r : Record F i} (h : ∀ n ∈ r.lengths, n ≤ maxLength) :
    r.encode = .ok r.bytes := by
  rw [r.encode_eq, Write.tooLarge?_eq_none.2 h]

theorem Record.lengths_le_of_encode {i : ι} {r : Record F i} {bytes : List UInt8}
    (h : r.encode = .ok bytes) : (∀ n ∈ r.lengths, n ≤ maxLength) ∧ bytes = r.bytes := by
  rw [r.encode_eq] at h
  split at h
  · next hl =>
    cases h
    exact ⟨Write.tooLarge?_eq_none.1 hl, rfl⟩
  · cases h

theorem Record.encode_eq_error_iff {i : ι} {r : Record F i} :
    (∃ e, r.encode = .error e) ↔ ∃ n ∈ r.lengths, maxLength < n := by
  rw [r.encode_eq]
  cases hl : Write.tooLarge? r.lengths with
  | none => simpa using Write.tooLarge?_eq_none.1 hl
  | some n =>
    have hn : maxLength < n := by simpa using List.find?_some hl
    simpa using ⟨n, List.mem_of_find?_eq_some hl, hn⟩

end WireProtocol.Wire
