import WireProtocol.Proofs.Wire.RecordReading

namespace WireProtocol.Wire

def Scalar.norm : (s : Scalar) → s.Value → s.Value
  | .float, v => if Single.isZero v then Single.mk 0 else v
  | .double, v => if Double.isZero v then Double.mk 0 else v
  | .vector3, v => if Vector3.isZero v then Vector3.mk ⟨0⟩ ⟨0⟩ ⟨0⟩ else v
  | .int32, v | .int64, v | .bool, v | .string, v | .dateTime, v => v

variable {ι : Type} {F : Family ι}

mutual

def Record.norm : {i : ι} → Record F i → Record F i
  | _, .mk slots => .mk slots.norm

def Slots.norm : {shapes : List (Shape ι)} → Slots F shapes → Slots F shapes
  | _, .nil => .nil
  | _, .single (s := s) v rest => .single (s.norm v) rest.norm
  | _, .repeated vs rest => .repeated vs rest.norm
  | _, .absent rest => .absent rest.norm
  | _, .nested r rest => .nested r.norm rest.norm
  | _, .repeatedNested rs rest => .repeatedNested rs.norm rest.norm

def Records.norm : {i : ι} → Records F i → Records F i
  | _, .nil => .nil
  | _, .cons r rs => .cons r.norm rs.norm

end

namespace Scalar

@[simp] theorem isZero_zero (s : Scalar) : s.isZero s.zero = true := by cases s <;> decide

theorem norm_of_isZero {s : Scalar} {v : s.Value} (h : s.isZero v = true) : s.norm v = s.zero := by
  cases s with
  | float => exact if_pos h
  | double => exact if_pos h
  | vector3 => exact if_pos h
  | int32 => simpa [isZero, norm, zero] using h
  | int64 => simpa [isZero, norm, zero] using h
  | bool => simpa [isZero, norm, zero] using h
  | string => simpa [isZero, norm, zero] using h
  | dateTime =>
    have hm : Timestamp.millis v = 0 := by simpa [isZero] using h
    exact congrArg Timestamp.mk hm

theorem norm_of_not_isZero {s : Scalar} {v : s.Value} (h : s.isZero v = false) : s.norm v = v := by
  cases s with
  | float => exact if_neg (Bool.eq_false_iff.1 h)
  | double => exact if_neg (Bool.eq_false_iff.1 h)
  | vector3 => exact if_neg (Bool.eq_false_iff.1 h)
  | _ => rfl

end Scalar

section Omit

variable {shapes : List (Shape ι)} (rest : Slots F shapes)

@[simp] theorem Slots.present_omit (shape : Shape ι) :
    (rest.omit shape).present = false :: rest.present := by
  cases shape <;> simp [Slots.omit, Slots.present, Records.isEmpty]

@[simp] theorem Slots.bytes_omit (shape : Shape ι) : (rest.omit shape).bytes = rest.bytes := by
  cases shape <;> simp [Slots.omit, Slots.bytes, Records.isEmpty]

theorem Slots.lengths_omit (shape : Shape ι) :
    ∀ n ∈ (rest.omit shape).lengths, n = 0 ∨ n ∈ rest.lengths := by
  cases shape with
  | single s =>
    cases s <;> simp +contextual [Slots.omit, Slots.lengths, Scalar.lengths, Scalar.zero]
  | repeated s => simp [Slots.omit, Slots.lengths]
  | nested i => exact fun n hn => .inr hn
  | repeatedNested i => simp [Slots.omit, Slots.lengths, Records.length, Records.lengths]

end Omit

theorem Slots.zero_cons (shape : Shape ι) (shapes : List (Shape ι)) :
    Slots.zero (F := F) (shape :: shapes) = (Slots.zero shapes).omit shape := by
  cases shape <;> rfl

theorem Slots.lengths_zero (shapes : List (Shape ι)) :
    ∀ n ∈ (Slots.zero (F := F) shapes).lengths, n = 0 := by
  induction shapes with
  | nil => simp [Slots.zero, Slots.lengths]
  | cons shape shapes ih =>
    intro n hn
    rw [Slots.zero_cons] at hn
    exact (Slots.lengths_omit _ _ n hn).elim id (ih n)

@[simp] theorem RecordForms.length_value {i : ι} :
    {n : Nat} → (fs : RecordForms F i n) → fs.value.length = n
  | _, .nil => rfl
  | _, .null fs => congrArg (· + 1) fs.length_value
  | _, .cons _ fs => congrArg (· + 1) fs.length_value

@[simp] theorem RecordForms.isEmpty_value {i : ι} {n : Nat} (fs : RecordForms F i n) :
    fs.value.isEmpty = decide (n = 0) := by
  cases fs <;> simp [RecordForms.value, Records.isEmpty]

theorem ScalarForm.lengths_toValue_le {s : Scalar} (f : ScalarForm s) :
    ∀ n ∈ s.lengths f.toValue, n ≤ maxLength := by
  cases f with
  | value v fits => exact fits
  | null => simp [ScalarForm.toValue, Scalar.lengths]

mutual

theorem RecordForm.lengths_value_le :
    {i : ι} → (f : RecordForm F i) → ∀ n ∈ f.value.lengths, n ≤ maxLength
  | _, .mk _ _ slots => slots.lengths_value_le

theorem SlotForms.lengths_value_le : {mask : Mask} → {k : Nat} → {shapes : List (Shape ι)} →
    (f : SlotForms F mask k shapes) → ∀ n ∈ f.value.lengths, n ≤ maxLength
  | _, _, _, .nil => by simp [SlotForms.value, Slots.lengths]
  | _, _, shape :: _, .omitted _ rest => fun n hn =>
    (Slots.lengths_omit _ shape n hn).elim (fun h => h ▸ Nat.zero_le _) (rest.lengths_value_le n)
  | _, _, _, .single _ f rest => by
    rw [SlotForms.value, Slots.lengths, List.forall_mem_append]
    exact ⟨f.lengths_toValue_le, rest.lengths_value_le⟩
  | _, _, _, .repeated _ fs fits rest => by
    rw [SlotForms.value, Slots.lengths, List.forall_mem_append, List.forall_mem_cons]
    refine ⟨⟨by simpa using fits, ?_⟩, rest.lengths_value_le⟩
    intro n hn
    obtain ⟨v, hv, hn⟩ := List.mem_flatMap.1 hn
    obtain ⟨f, -, rfl⟩ := List.mem_map.1 hv
    exact f.lengths_toValue_le n hn
  | _, _, _, .null _ rest => rest.lengths_value_le
  | _, _, _, .nested _ f rest => by
    rw [SlotForms.value, Slots.lengths, List.forall_mem_append]
    exact ⟨f.lengths_value_le, rest.lengths_value_le⟩
  | _, _, _, .repeatedNested _ fits fs rest => by
    rw [SlotForms.value, Slots.lengths, List.forall_mem_append, List.forall_mem_cons]
    exact ⟨⟨fs.length_value.trans_le fits, fs.lengths_value_le⟩, rest.lengths_value_le⟩

theorem RecordForms.lengths_value_le : {i : ι} → {n : Nat} → (fs : RecordForms F i n) →
    ∀ n ∈ fs.value.lengths, n ≤ maxLength
  | _, _, .nil => by simp [RecordForms.value, Records.lengths]
  | i, _, .null fs => by
    rw [RecordForms.value, Records.lengths, List.forall_mem_append]
    refine ⟨fun n hn => ?_, fs.lengths_value_le⟩
    exact Slots.lengths_zero (F i).fields n hn ▸ Nat.zero_le _
  | _, _, .cons f fs => by
    rw [RecordForms.value, Records.lengths, List.forall_mem_append]
    exact ⟨f.lengths_value_le, fs.lengths_value_le⟩

end

theorem ScalarForm.bytes_toValue {s : Scalar} {f : ScalarForm s} (h : ¬ f.IsNull) :
    s.bytes f.toValue = f.bytes := by
  cases f with
  | value v fits => rfl
  | null => exact absurd trivial h

theorem ScalarForm.not_isNull {s : Scalar} {f : ScalarForm s} (h : f.isZero = false) :
    ¬ f.IsNull := by
  cases f with
  | value v fits => exact id
  | null => cases h

theorem ScalarForm.exists_map_value {s : Scalar} (vs : List s.Value)
    (fits : ∀ n ∈ vs.flatMap s.lengths, n ≤ maxLength) :
    ∃ fs : List (ScalarForm s), (∀ f ∈ fs, ¬ f.IsNull) ∧ fs.map (·.toValue) = vs ∧
      fs.flatMap (·.bytes) = vs.flatMap s.bytes := by
  induction vs with
  | nil => exact ⟨[], by simp⟩
  | cons v vs ih =>
    rw [List.flatMap_cons, List.forall_mem_append] at fits
    obtain ⟨fs, hn, hv, hb⟩ := ih fits.2
    refine ⟨.value v fits.1 :: fs, ?_, ?_, ?_⟩
    · exact List.forall_mem_cons.2 ⟨id, hn⟩
    · rw [List.map_cons, hv]
      rfl
    · rw [List.flatMap_cons, hb]
      rfl

theorem SlotForms.shows_present : {mask : Mask} → {k : Nat} → {shapes : List (Shape ι)} →
    (f : SlotForms F mask k shapes) → f.Canonical → mask.Shows k f.value.present
  | mask, k, _, .nil, _ => mask.shows_nil k
  | _, _, shape :: _, .omitted clear rest, h => by
    rw [SlotForms.value, Slots.present_omit, Mask.shows_cons]
    exact ⟨clear, rest.shows_present h⟩
  | _, _, _, .single set f rest, h => by
    rw [SlotForms.Canonical] at h
    rw [SlotForms.value, Slots.present, Mask.shows_cons, set]
    exact ⟨congrArg not h.1.symm, rest.shows_present h.2⟩
  | _, _, _, .repeated set fs _ rest, h => by
    rw [SlotForms.Canonical] at h
    rw [SlotForms.value, Slots.present, Mask.shows_cons, set]
    exact ⟨by simp [h.1], rest.shows_present h.2.2⟩
  | _, _, _, .null .., h => h.elim
  | _, _, _, .nested set _ rest, h => by
    rw [SlotForms.Canonical] at h
    rw [SlotForms.value, Slots.present, Mask.shows_cons, set]
    exact ⟨rfl, rest.shows_present h.2⟩
  | _, _, _, .repeatedNested set _ fs rest, h => by
    rw [SlotForms.Canonical] at h
    rw [SlotForms.value, Slots.present, Mask.shows_cons, set, fs.isEmpty_value]
    exact ⟨by simp [h.1], rest.shows_present h.2.2⟩

theorem SlotForms.mark_present {i : ι} {mask : Mask} (width : mask.width = (F i).maskWords)
    (f : SlotForms F mask 0 (F i).fields)
    (hstray : ∀ k, (F i).fields.length ≤ k → mask.contains k = false) (h : f.Canonical) :
    (Mask.forFields (F i).fields.length).mark f.value.present = mask := by
  refine Mask.ext_contains ?_ fun k => ?_
  · rw [Mask.width_mark, Mask.forFields, Mask.width_new, width, Layout.maskWords]
  · have hl := f.value.length_present_le
    rw [Layout.maskWords] at hl
    rw [Mask.forFields, Mask.contains_mark _ _ hl]
    cases hk : f.value.present[k]? with
    | none =>
      rw [List.getElem?_eq_none_iff, Slots.length_present] at hk
      exact (hstray k hk).symm
    | some b =>
      have hb := f.shows_present h k b hk
      rw [Nat.zero_add] at hb
      exact hb.symm

mutual

theorem RecordForm.bytes_value :
    {i : ι} → (f : RecordForm F i) → f.Canonical → f.value.bytes = f.bytes
  | i, .mk mask width slots, h => by
    rw [RecordForm.Canonical] at h
    rw [RecordForm.value, Record.bytes, RecordForm.bytes, slots.mark_present width h.1 h.2,
      slots.bytes_value h.2]

theorem SlotForms.bytes_value : {mask : Mask} → {k : Nat} → {shapes : List (Shape ι)} →
    (f : SlotForms F mask k shapes) → f.Canonical → f.value.bytes = f.bytes
  | _, _, _, .nil, _ => rfl
  | _, _, shape :: _, .omitted _ rest, h => by
    rw [SlotForms.value, Slots.bytes_omit, SlotForms.bytes, rest.bytes_value h]
  | _, _, _, .single (s := s) _ f rest, h => by
    rw [SlotForms.Canonical] at h
    have hz : s.isZero f.toValue = false := h.1
    rw [SlotForms.value, Slots.bytes, SlotForms.bytes, rest.bytes_value h.2, hz,
      if_neg Bool.false_ne_true, f.bytes_toValue (f.not_isNull h.1)]
  | _, _, _, .repeated _ fs _ rest, h => by
    rw [SlotForms.Canonical] at h
    have hb : fs.flatMap (fun f => Scalar.bytes _ f.toValue) = fs.flatMap (·.bytes) :=
      congrArg List.flatten (List.map_congr_left fun f hf => f.bytes_toValue (h.2.1 f hf))
    rw [SlotForms.value, Slots.bytes, SlotForms.bytes, rest.bytes_value h.2.2,
      if_neg (by simp [h.1]), List.flatMap_map, List.length_map, hb]
  | _, _, _, .null .., h => h.elim
  | _, _, _, .nested _ f rest, h => by
    rw [SlotForms.Canonical] at h
    rw [SlotForms.value, Slots.bytes, SlotForms.bytes, f.bytes_value h.1, rest.bytes_value h.2]
  | _, _, _, .repeatedNested _ _ fs rest, h => by
    rw [SlotForms.Canonical] at h
    rw [SlotForms.value, Slots.bytes, SlotForms.bytes, fs.bytes_value h.2.1, rest.bytes_value h.2.2,
      fs.length_value, fs.isEmpty_value, if_neg (by simp [h.1])]

theorem RecordForms.bytes_value : {i : ι} → {n : Nat} → (fs : RecordForms F i n) → fs.Canonical →
    fs.value.bytes = fs.bytes
  | _, _, .nil, _ => rfl
  | _, _, .null _, h => h.elim
  | _, _, .cons f fs, h => by
    rw [RecordForms.Canonical] at h
    rw [RecordForms.value, Records.bytes, RecordForms.bytes, f.bytes_value h.1, fs.bytes_value h.2]

end

mutual

theorem Record.exists_canonical : {i : ι} → (r : Record F i) → (∀ n ∈ r.lengths, n ≤ maxLength) →
    ∃ f : RecordForm F i, f.Canonical ∧ f.bytes = r.bytes ∧ f.value = r.norm
  | i, .mk slots, fits => by
    have hs : ((Mask.forFields (F i).fields.length).mark slots.present).Shows 0 slots.present :=
      Mask.shows_mark slots.length_present_le
    obtain ⟨f, hc, hb, hv⟩ := slots.exists_canonical hs fits
    have width :
        ((Mask.forFields (F i).fields.length).mark slots.present).width = (F i).maskWords := by
      simp [Mask.forFields, Layout.maskWords]
    refine ⟨.mk _ width f, ?_, ?_, ?_⟩
    · rw [RecordForm.Canonical]
      refine ⟨fun k hk => ?_, hc⟩
      have hl := slots.length_present_le
      rw [Layout.maskWords] at hl
      rw [Mask.forFields, Mask.contains_mark _ _ hl, List.getElem?_eq_none (by simpa using hk)]
      rfl
    · rw [RecordForm.bytes, Record.bytes, hb]
    · rw [RecordForm.value, Record.norm, hv]

theorem Slots.exists_canonical {mask : Mask} : {k : Nat} → {shapes : List (Shape ι)} →
    (slots : Slots F shapes) → mask.Shows k slots.present → (∀ n ∈ slots.lengths, n ≤ maxLength) →
      ∃ f : SlotForms F mask k shapes, f.Canonical ∧ f.bytes = slots.bytes ∧ f.value = slots.norm
  | _, _, .nil, _, _ => ⟨.nil, trivial, rfl, rfl⟩
  | k, _, .single (s := s) v rest, hs, fits => by
    rw [Slots.present, Mask.shows_cons] at hs
    rw [Slots.lengths, List.forall_mem_append] at fits
    obtain ⟨f, hc, hb, hv⟩ := rest.exists_canonical hs.2 fits.2
    rw [Slots.bytes, Slots.norm, ← hb, ← hv]
    cases hz : s.isZero v with
    | true =>
      have clear : mask.contains k = false := by simpa [hz] using hs.1
      refine ⟨.omitted clear f, hc, rfl, ?_⟩
      rw [SlotForms.value, Slots.omit, Scalar.norm_of_isZero hz]
    | false =>
      have set : mask.contains k = true := by simpa [hz] using hs.1
      refine ⟨.single set (.value v fits.1) f, ⟨hz, hc⟩, rfl, ?_⟩
      rw [SlotForms.value, Scalar.norm_of_not_isZero hz]
      rfl
  | k, _, .repeated (s := s) vs rest, hs, fits => by
    rw [Slots.present, Mask.shows_cons] at hs
    rw [Slots.lengths, List.forall_mem_append, List.forall_mem_cons] at fits
    obtain ⟨f, hc, hb, hv⟩ := rest.exists_canonical hs.2 fits.2
    rw [Slots.bytes, Slots.norm, ← hb, ← hv]
    cases vs with
    | nil => exact ⟨.omitted hs.1 f, hc, rfl, rfl⟩
    | cons v vs =>
      obtain ⟨fs, hn, hfv, hfb⟩ := ScalarForm.exists_map_value (v :: vs) fits.1.2
      have hl : fs.length = (v :: vs).length := by rw [← hfv, List.length_map]
      have hne : fs ≠ [] := fun h => by simp [h] at hl
      refine ⟨.repeated hs.1 fs (hl.trans_le fits.1.1) f, ⟨hne, hn, hc⟩, ?_, ?_⟩
      · rw [SlotForms.bytes, hfb, hl]
        rfl
      · rw [SlotForms.value, hfv]
  | k, _, .absent rest, hs, fits => by
    rw [Slots.present, Mask.shows_cons] at hs
    obtain ⟨f, hc, hb, hv⟩ := rest.exists_canonical hs.2 fits
    refine ⟨.omitted hs.1 f, hc, hb, ?_⟩
    rw [SlotForms.value, Slots.norm, hv]
    rfl
  | k, _, .nested r rest, hs, fits => by
    rw [Slots.present, Mask.shows_cons] at hs
    rw [Slots.lengths, List.forall_mem_append] at fits
    obtain ⟨g, hgc, hgb, hgv⟩ := r.exists_canonical fits.1
    obtain ⟨f, hc, hb, hv⟩ := rest.exists_canonical hs.2 fits.2
    refine ⟨.nested hs.1 g f, ⟨hgc, hc⟩, ?_, ?_⟩
    · rw [SlotForms.bytes, Slots.bytes, hgb, hb]
    · rw [SlotForms.value, Slots.norm, hgv, hv]
  | k, _, .repeatedNested rs rest, hs, fits => by
    rw [Slots.present, Mask.shows_cons] at hs
    rw [Slots.lengths, List.forall_mem_append, List.forall_mem_cons] at fits
    obtain ⟨f, hc, hb, hv⟩ := rest.exists_canonical hs.2 fits.2
    rw [Slots.bytes, Slots.norm, ← hb, ← hv]
    cases rs with
    | nil => exact ⟨.omitted hs.1 f, hc, rfl, rfl⟩
    | cons r rs =>
      obtain ⟨fs, hfc, hfb, hfv⟩ := (Records.cons r rs).exists_canonical fits.1.2
      have set : mask.contains k = true := hs.1
      refine ⟨.repeatedNested set fits.1.1 fs f, ⟨by simp [Records.length], hfc, hc⟩, ?_, ?_⟩
      · rw [SlotForms.bytes, hfb]
        rfl
      · rw [SlotForms.value, hfv]

theorem Records.exists_canonical : {i : ι} → (rs : Records F i) →
    (∀ n ∈ rs.lengths, n ≤ maxLength) →
      ∃ fs : RecordForms F i rs.length, fs.Canonical ∧ fs.bytes = rs.bytes ∧ fs.value = rs.norm
  | _, .nil, _ => ⟨.nil, trivial, rfl, rfl⟩
  | _, .cons r rs, fits => by
    rw [Records.lengths, List.forall_mem_append] at fits
    obtain ⟨f, hc, hb, hv⟩ := r.exists_canonical fits.1
    obtain ⟨fs, hfc, hfb, hfv⟩ := rs.exists_canonical fits.2
    rw [Records.length]
    refine ⟨.cons f fs, ⟨hc, hfc⟩, ?_, ?_⟩
    · rw [RecordForms.bytes, Records.bytes, hb, hfb]
    · rw [RecordForms.value, Records.norm, hv, hfv]

end

end WireProtocol.Wire
