import WireProtocol.Proofs.Wire.RecordForm

namespace WireProtocol.Wire

variable {α ι : Type} {F : Family ι}

theorem Mask.bytes_append_inj {m m' : Mask} (hw : m.width = m'.width) {a b : List UInt8}
    (h : m.bytes ++ a = m'.bytes ++ b) : m = m' ∧ a = b := by
  have hm := Read.takes_fillWords [] m.words
  have hm' := Read.takes_fillWords [] m'.words
  rw [show m.words.length = m'.words.length from hw] at hm
  obtain ⟨-, hv, hr⟩ := hm.inj hm' h
  exact ⟨congrArg Mask.mk hv, hr⟩

theorem Slots.read_of_clear (message : (i : ι) → Read (Record F i)) {mask : Mask} {k : Nat}
    (clear : mask.contains k = false) (shape : Shape ι) (shapes : List (Shape ι)) :
    Slots.read message mask k (shape :: shapes) =
      (fun rest : Slots F shapes => rest.omit shape) <$>
        Slots.read message mask (k + 1) shapes := by
  cases shape with
  | single s => rw [read_single, clear]; rfl
  | repeated s => rw [read_repeated, clear]; rfl
  | nested i => rw [read_nested, clear]; rfl
  | repeatedNested i => rw [read_repeatedNested, clear]; rfl

theorem Layout.takes_readNested?_none (layout : Layout ι) (message : Read α) :
    Read.Takes (layout.readNested? message) (LittleEndian.ofUInt32 Tag.null.toUInt32) none :=
  (Read.takes_i32 Tag.null).bind_pure (by simp)

theorem Layout.takes_readNested?_some {layout : Layout ι} (htag : layout.tag ≠ Tag.null)
    {message : Read α} {bytes : List UInt8} {a : α} (h : Read.Takes message bytes a) :
    Read.Takes (layout.readNested? message) (LittleEndian.ofUInt32 layout.tag.toUInt32 ++ bytes)
      (some a) := by
  apply (Read.takes_i32 layout.tag).bind
  rw [if_neg htag, if_pos rfl]
  exact h.bind_pure rfl

@[simp] theorem Records.ofList_toList {i : ι} (rs : Records F i) :
    Records.ofList rs.toList = rs := by
  fun_induction Records.toList rs with
  | case1 => rfl
  | case2 i r rs ih => rw [Records.ofList, ih]

mutual

theorem RecordForm.takes_read (hF : ∀ i, (F i).tag ≠ Tag.null) :
    {i : ι} → (f : RecordForm F i) → Read.Takes (Record.read i) f.bytes f.value
  | i, .mk mask width slots => by
    rw [Record.read_eq, RecordForm.bytes, RecordForm.value, ← width]
    exact Read.takes_withMask ((slots.takes_read hF).map _)

theorem SlotForms.takes_read (hF : ∀ i, (F i).tag ≠ Tag.null) : {mask : Mask} → {k : Nat} →
    {shapes : List (Shape ι)} → (f : SlotForms F mask k shapes) →
      Read.Takes (Slots.read Record.read mask k shapes) f.bytes f.value
  | _, _, _, .nil => .pure _
  | mask, k, shape :: shapes, .omitted clear rest => by
    rw [Slots.read_of_clear _ clear, SlotForms.bytes, SlotForms.value]
    exact (rest.takes_read hF).map _
  | mask, k, _, .single set f rest => by
    rw [Slots.read_single, if_pos set, SlotForms.bytes, SlotForms.value]
    exact f.takes_read.bind ((rest.takes_read hF).map _)
  | mask, k, _, .repeated set fs fits rest => by
    rw [Slots.read_repeated, if_pos set, SlotForms.bytes, SlotForms.value]
    have h := Read.takes_times fs fun f _ => f.takes_read
    exact ((Read.takes_length fits).bind h).bind ((rest.takes_read hF).map _)
  | mask, k, _, .null (i := i) set rest => by
    rw [Slots.read_nested, if_pos set, SlotForms.bytes, SlotForms.value]
    exact ((F i).takes_readNested?_none _).bind ((rest.takes_read hF).map _)
  | mask, k, _, .nested (i := i) set f rest => by
    rw [Slots.read_nested, if_pos set, SlotForms.bytes, SlotForms.value]
    exact (Layout.takes_readNested?_some (hF i) (f.takes_read hF)).bind ((rest.takes_read hF).map _)
  | mask, k, _, .repeatedNested set fits fs rest => by
    rw [Slots.read_repeatedNested, if_pos set, SlotForms.bytes, SlotForms.value,
      ← fs.value.ofList_toList]
    exact ((Read.takes_length fits).bind (fs.takes_times hF)).bind ((rest.takes_read hF).map _)

theorem RecordForms.takes_times (hF : ∀ i, (F i).tag ≠ Tag.null) : {i : ι} → {n : Nat} →
    (fs : RecordForms F i n) →
    Read.Takes (Read.times ((·.getD (.zero i)) <$> (F i).readNested? (Record.read i)) n)
      fs.bytes fs.value.toList
  | _, _, .nil => .pure _
  | i, _, .null fs =>
    (((F i).takes_readNested?_none _).map _).bind ((fs.takes_times hF).bind_pure rfl)
  | i, _, .cons f fs => by
    rw [RecordForms.bytes, ← List.append_assoc]
    exact ((Layout.takes_readNested?_some (hF i) (f.takes_read hF)).map _).bind
      ((fs.takes_times hF).bind_pure rfl)

end

theorem Layout.yields_readNested? (layout : Layout ι) {message : Read α} {P : List UInt8 → α → Prop}
    (h : Read.Yields message P) :
    Read.Yields (layout.readNested? message) fun bytes a? => match a? with
      | none => bytes = LittleEndian.ofUInt32 Tag.null.toUInt32
      | some a =>
        ∃ right, P right a ∧ bytes = LittleEndian.ofUInt32 layout.tag.toUInt32 ++ right := by
  apply Read.yields_i32.bind
  rintro _ tag rfl
  split
  · next ht => exact .pure (by rw [List.append_nil, ht])
  · split
    · next ht =>
      refine h.bind fun right a ha => .pure ⟨right, ha, ?_⟩
      rw [List.append_nil, ht]
    · exact .throw _

section

variable {message : (i : ι) → Read (Record F i)}
  (hm : ∀ i, Read.Yields (message i) fun bytes v =>
    ∃ f : RecordForm F i, f.bytes = bytes ∧ f.value = v)

include hm

theorem Records.yields_times (i : ι) (n : Nat) :
    Read.Yields (Read.times ((·.getD (.zero i)) <$> (F i).readNested? (message i)) n) fun bytes rs =>
      ∃ fs : RecordForms F i n, fs.bytes = bytes ∧ fs.value = .ofList rs := by
  induction n with
  | zero => exact .pure ⟨.nil, rfl, rfl⟩
  | succ n ih =>
    refine ((F i).yields_readNested? (hm i)).image.bind ?_
    rintro left _ ⟨r?, h, rfl⟩
    apply ih.bind
    rintro right rs ⟨fs, rfl, hv⟩
    cases r? with
    | none =>
      apply Read.Yields.pure
      exact ⟨.null fs, by simp [RecordForms.bytes, h], by simp [RecordForms.value, hv, ofList]⟩
    | some r =>
      obtain ⟨_, ⟨f, rfl, rfl⟩, rfl⟩ := h
      apply Read.Yields.pure
      exact ⟨.cons f fs, by simp [RecordForms.bytes], by simp [RecordForms.value, hv, ofList]⟩

theorem Slots.yields_read (mask : Mask) (k : Nat) (shapes : List (Shape ι)) :
    Read.Yields (Slots.read message mask k shapes) fun bytes slots =>
      ∃ f : SlotForms F mask k shapes, f.bytes = bytes ∧ f.value = slots := by
  induction shapes generalizing k with
  | nil => exact .pure ⟨.nil, rfl, rfl⟩
  | cons shape shapes ih =>
    cases set : mask.contains k with
    | false =>
      rw [Slots.read_of_clear message set]
      refine .map ((ih (k + 1)).mono ?_)
      rintro _ _ ⟨rest, rfl, rfl⟩
      exact ⟨.omitted set rest, rfl, rfl⟩
    | true =>
      cases shape with
      | single s =>
        rw [Slots.read_single, if_pos set]
        apply s.yields_read.bind
        rintro _ _ ⟨f, rfl, rfl⟩
        refine .map ((ih (k + 1)).mono ?_)
        rintro _ _ ⟨rest, rfl, rfl⟩
        exact ⟨.single set f rest, rfl, rfl⟩
      | repeated s =>
        rw [Slots.read_repeated, if_pos set, Scalar.readMany, bind_assoc]
        apply Read.yields_length.bind
        rintro _ n ⟨fits, rfl⟩
        apply (Read.yields_times s.yields_read n).bind
        rintro _ _ ⟨fs, rfl, rfl, rfl⟩
        refine .map ((ih (k + 1)).mono ?_)
        rintro _ _ ⟨rest, rfl, rfl⟩
        exact ⟨.repeated set fs fits rest, by simp [SlotForms.bytes], rfl⟩
      | nested i =>
        rw [Slots.read_nested, if_pos set]
        refine ((F i).yields_readNested? (hm i)).bind ?_
        intro left r? h
        refine .map ((ih (k + 1)).mono ?_)
        rintro _ _ ⟨rest, rfl, rfl⟩
        cases r? with
        | none => exact ⟨.null set rest, by simp [SlotForms.bytes, h], rfl⟩
        | some r =>
          obtain ⟨_, ⟨f, rfl, rfl⟩, rfl⟩ := h
          exact ⟨.nested set f rest, rfl, rfl⟩
      | repeatedNested i =>
        rw [Slots.read_repeatedNested, if_pos set, bind_assoc]
        apply Read.yields_length.bind
        rintro _ n ⟨fits, rfl⟩
        apply (Records.yields_times hm i n).bind
        rintro _ rs ⟨fs, rfl, hv⟩
        refine .map ((ih (k + 1)).mono ?_)
        rintro _ _ ⟨rest, rfl, rfl⟩
        refine ⟨.repeatedNested set fits fs rest, by simp [SlotForms.bytes], ?_⟩
        rw [SlotForms.value, hv]

end

theorem Record.yields_readWithin (depth : Nat) (i : ι) :
    Read.Yields (Record.readWithin depth i) fun bytes r =>
      ∃ f : RecordForm F i, f.bytes = bytes ∧ f.value = r := by
  induction depth generalizing i with
  | zero => exact .throw _
  | succ depth ih =>
    apply Read.yields_withMask
    intro mask width
    refine .map ((Slots.yields_read ih mask 0 _).mono ?_)
    rintro _ _ ⟨slots, rfl, rfl⟩
    exact ⟨.mk mask width slots, rfl, rfl⟩

theorem Record.yields_read (i : ι) :
    Read.Yields (Record.read i) fun bytes r =>
      ∃ f : RecordForm F i, f.bytes = bytes ∧ f.value = r :=
  fun r => Record.yields_readWithin (r.rest.length / 4 + 1) i r

theorem Layout.tag_append_ne {layout : Layout ι} (htag : layout.tag ≠ Tag.null) (a b : List UInt8) :
    LittleEndian.ofUInt32 layout.tag.toUInt32 ++ a ≠
      LittleEndian.ofUInt32 Tag.null.toUInt32 ++ b := by
  intro h
  obtain ⟨-, ht, -⟩ := (Read.takes_i32 layout.tag).inj (Read.takes_i32 Tag.null) h
  exact htag ht

theorem ScalarForm.flatMap_bytes_append_inj {s : Scalar} {fs gs : List (ScalarForm s)}
    {a b : List UInt8} (hl : fs.length = gs.length)
    (h : fs.flatMap (·.bytes) ++ a = gs.flatMap (·.bytes) ++ b) : fs = gs ∧ a = b := by
  induction fs generalizing gs with
  | nil =>
    obtain rfl : gs = [] := List.length_eq_zero_iff.1 hl.symm
    exact ⟨rfl, h⟩
  | cons f fs ih =>
    cases gs with
    | nil => cases hl
    | cons g gs =>
      simp only [List.flatMap_cons, List.append_assoc] at h
      obtain ⟨rfl, h₁⟩ := ScalarForm.bytes_append_inj h
      obtain ⟨rfl, hr⟩ := ih (Nat.succ.inj hl) h₁
      exact ⟨rfl, hr⟩

mutual

theorem RecordForm.bytes_append_inj (hF : ∀ i, (F i).tag ≠ Tag.null) : {i : ι} →
    (f g : RecordForm F i) → {a b : List UInt8} → f.bytes ++ a = g.bytes ++ b → f = g ∧ a = b
  | _, .mk mask width slots, .mk mask' width' slots', a, b, h => by
    simp only [RecordForm.bytes, List.append_assoc] at h
    obtain ⟨rfl, h₁⟩ := Mask.bytes_append_inj (width.trans width'.symm) h
    obtain ⟨rfl, hr⟩ := slots.bytes_append_inj hF slots' h₁
    exact ⟨rfl, hr⟩

theorem SlotForms.bytes_append_inj (hF : ∀ i, (F i).tag ≠ Tag.null) : {mask : Mask} → {k : Nat} →
    {shapes : List (Shape ι)} → (f g : SlotForms F mask k shapes) → {a b : List UInt8} →
      f.bytes ++ a = g.bytes ++ b → f = g ∧ a = b
  | _, _, _, .nil, .nil, a, b, h => ⟨rfl, h⟩
  | _, _, _, .omitted clear rest, g, a, b, h => by
    cases g with
    | omitted _ rest' =>
      obtain ⟨rfl, hr⟩ := rest.bytes_append_inj hF rest' h
      exact ⟨rfl, hr⟩
    | single set | repeated set | null set | nested set | repeatedNested set =>
      exact absurd (clear.symm.trans set) Bool.false_ne_true
  | _, _, _, .single set f rest, g, a, b, h => by
    cases g with
    | omitted clear _ => exact absurd (clear.symm.trans set) Bool.false_ne_true
    | single _ f' rest' =>
      simp only [SlotForms.bytes, List.append_assoc] at h
      obtain ⟨rfl, h₁⟩ := ScalarForm.bytes_append_inj h
      obtain ⟨rfl, hr⟩ := rest.bytes_append_inj hF rest' h₁
      exact ⟨rfl, hr⟩
  | _, _, _, .repeated set fs fits rest, g, a, b, h => by
    cases g with
    | omitted clear _ => exact absurd (clear.symm.trans set) Bool.false_ne_true
    | repeated _ fs' fits' rest' =>
      simp only [SlotForms.bytes, List.append_assoc] at h
      obtain ⟨-, hl, h₁⟩ := (Read.takes_length fits).inj (Read.takes_length fits') h
      obtain ⟨rfl, h₂⟩ := ScalarForm.flatMap_bytes_append_inj hl h₁
      obtain ⟨rfl, hr⟩ := rest.bytes_append_inj hF rest' h₂
      exact ⟨rfl, hr⟩
  | _, _, _, .null (i := i) set rest, g, a, b, h => by
    cases g with
    | omitted clear _ => exact absurd (clear.symm.trans set) Bool.false_ne_true
    | null _ rest' =>
      simp only [SlotForms.bytes, List.append_assoc] at h
      obtain ⟨rfl, hr⟩ := rest.bytes_append_inj hF rest' (List.append_cancel_left h)
      exact ⟨rfl, hr⟩
    | nested _ f' rest' =>
      simp only [SlotForms.bytes, List.append_assoc] at h
      exact absurd h.symm (Layout.tag_append_ne (hF i) _ _)
  | _, _, _, .nested (i := i) set f rest, g, a, b, h => by
    cases g with
    | omitted clear _ => exact absurd (clear.symm.trans set) Bool.false_ne_true
    | null _ rest' =>
      simp only [SlotForms.bytes, List.append_assoc] at h
      exact absurd h (Layout.tag_append_ne (hF i) _ _)
    | nested _ f' rest' =>
      simp only [SlotForms.bytes, List.append_assoc] at h
      obtain ⟨rfl, h₁⟩ := f.bytes_append_inj hF f' (List.append_cancel_left h)
      obtain ⟨rfl, hr⟩ := rest.bytes_append_inj hF rest' h₁
      exact ⟨rfl, hr⟩
  | _, _, _, .repeatedNested set fits fs rest, g, a, b, h => by
    cases g with
    | omitted clear _ => exact absurd (clear.symm.trans set) Bool.false_ne_true
    | repeatedNested _ fits' fs' rest' =>
      simp only [SlotForms.bytes, List.append_assoc] at h
      obtain ⟨-, rfl, h₁⟩ := (Read.takes_length fits).inj (Read.takes_length fits') h
      obtain ⟨rfl, h₂⟩ := fs.bytes_append_inj hF fs' h₁
      obtain ⟨rfl, hr⟩ := rest.bytes_append_inj hF rest' h₂
      exact ⟨rfl, hr⟩

theorem RecordForms.bytes_append_inj (hF : ∀ i, (F i).tag ≠ Tag.null) : {i : ι} → {n : Nat} →
    (fs gs : RecordForms F i n) → {a b : List UInt8} → fs.bytes ++ a = gs.bytes ++ b →
      fs = gs ∧ a = b
  | _, _, .nil, .nil, a, b, h => ⟨rfl, h⟩
  | i, _, .null fs, g, a, b, h => by
    cases g with
    | null gs =>
      simp only [RecordForms.bytes, List.append_assoc] at h
      obtain ⟨rfl, hr⟩ := fs.bytes_append_inj hF gs (List.append_cancel_left h)
      exact ⟨rfl, hr⟩
    | cons g gs =>
      simp only [RecordForms.bytes, List.append_assoc] at h
      exact absurd h.symm (Layout.tag_append_ne (hF i) _ _)
  | i, _, .cons f fs, g, a, b, h => by
    cases g with
    | null gs =>
      simp only [RecordForms.bytes, List.append_assoc] at h
      exact absurd h (Layout.tag_append_ne (hF i) _ _)
    | cons g gs =>
      simp only [RecordForms.bytes, List.append_assoc] at h
      obtain ⟨rfl, h₁⟩ := f.bytes_append_inj hF g (List.append_cancel_left h)
      obtain ⟨rfl, hr⟩ := fs.bytes_append_inj hF gs h₁
      exact ⟨rfl, hr⟩

end

end WireProtocol.Wire
