import WireProtocol.Proofs.Wire.Encoding

namespace WireProtocol.Wire

inductive ScalarForm : Scalar → Type
  | value {s : Scalar} (v : s.Value) (fits : ∀ n ∈ s.lengths v, n ≤ maxLength) : ScalarForm s
  | null : ScalarForm .string

namespace ScalarForm

def bytes : {s : Scalar} → ScalarForm s → List UInt8
  | s, .value v _ => s.bytes v
  | _, .null => LittleEndian.ofUInt32 (-1)

def toValue : {s : Scalar} → ScalarForm s → s.Value
  | _, .value v _ => v
  | _, .null => ""

def IsNull : {s : Scalar} → ScalarForm s → Prop
  | _, .value .. => False
  | _, .null => True

def isZero {s : Scalar} (f : ScalarForm s) : Bool := s.isZero f.toValue

theorem takes_read : {s : Scalar} → (f : ScalarForm s) → Read.Takes s.read f.bytes f.toValue
  | .int32, .value v _ => Read.takes_i32 v
  | .int64, .value v _ => Read.takes_i64 v
  | .float, .value v _ => (Read.takes_u32 (Single.bits v)).map Single.mk
  | .double, .value v _ => (Read.takes_u64 (Double.bits v)).map Double.mk
  | .bool, .value v _ => Read.takes_bool v
  | .string, .value _ fits =>
    (Read.takes_text?_some (fits _ List.mem_cons_self)).map fun s? : Option String => s?.getD ""
  | .string, .null => Read.takes_text?_none.map fun s? : Option String => s?.getD ""
  | .vector3, .value v _ =>
    (Read.takes_u32 (Vector3.x v).bits).bind
      ((Read.takes_u32 (Vector3.y v).bits).bind
        ((Read.takes_u32 (Vector3.z v).bits).bind_pure rfl))
  | .dateTime, .value v _ => (Read.takes_i64 (Timestamp.millis v)).map Timestamp.mk

theorem bytes_empty_ne_null : Scalar.bytes .string "" ≠ LittleEndian.ofUInt32 (-1) := by decide

theorem bytes_append_inj : {s : Scalar} → {f g : ScalarForm s} → {a b : List UInt8} →
    f.bytes ++ a = g.bytes ++ b → f = g ∧ a = b := by
  intro s f g a b h
  obtain ⟨hb, hv, hr⟩ := f.takes_read.inj g.takes_read h
  refine ⟨?_, hr⟩
  cases f with
  | value v fits =>
    cases g with
    | value v' fits' => cases hv; rfl
    | null =>
      cases hv
      exact absurd hb bytes_empty_ne_null
  | null =>
    cases g with
    | value v' fits' =>
      cases hv
      exact absurd hb.symm bytes_empty_ne_null
    | null => rfl

theorem exists_of_value (s : Scalar) (v : s.Value) {bytes : List UInt8}
    (fits : ∀ n ∈ s.lengths v, n ≤ maxLength) (h : bytes = s.bytes v) :
    ∃ f : ScalarForm s, f.bytes = bytes ∧ f.toValue = v :=
  ⟨.value v fits, h.symm, rfl⟩

end ScalarForm

theorem Scalar.yields_read (s : Scalar) :
    Read.Yields s.read fun bytes v => ∃ f : ScalarForm s, f.bytes = bytes ∧ f.toValue = v := by
  cases s with
  | int32 =>
    exact Read.yields_i32.mono fun _ v => ScalarForm.exists_of_value int32 v (by simp [lengths])
  | int64 =>
    exact Read.yields_i64.mono fun _ v => ScalarForm.exists_of_value int64 v (by simp [lengths])
  | float =>
    refine .map (Read.yields_u32.mono fun _ x => ?_)
    exact ScalarForm.exists_of_value float ⟨x⟩ (by simp [lengths])
  | double =>
    refine .map (Read.yields_u64.mono fun _ x => ?_)
    exact ScalarForm.exists_of_value double ⟨x⟩ (by simp [lengths])
  | bool =>
    exact Read.yields_bool.mono fun _ v => ScalarForm.exists_of_value bool v (by simp [lengths])
  | string =>
    refine .map (Read.yields_text?.mono fun bytes v h => ?_)
    cases v with
    | none => exact ⟨.null, h.symm, rfl⟩
    | some v => exact ScalarForm.exists_of_value string v (by simpa [lengths] using h.1) h.2
  | vector3 =>
    apply Read.yields_u32.bind
    rintro _ x rfl
    apply Read.yields_u32.bind
    rintro _ y rfl
    apply Read.yields_u32.bind
    rintro _ z rfl
    apply Read.Yields.pure
    exact ScalarForm.exists_of_value vector3 ⟨⟨x⟩, ⟨y⟩, ⟨z⟩⟩ (by simp [lengths]) (by simp [bytes])
  | dateTime =>
    refine .map (Read.yields_i64.mono fun _ n => ?_)
    exact ScalarForm.exists_of_value dateTime ⟨n⟩ (by simp [lengths])

end WireProtocol.Wire
