import WireProtocol.Proofs.Wire.Delimiting
import WireProtocol.Proofs.Wire.Pooling

namespace WireProtocol.Wire

variable {α β ι : Type} {F : Family ι}

mutual

def Record.elements : {i : ι} → Record F i → Nat
  | _, .mk slots => slots.elements

def Slots.elements : {shapes : List (Shape ι)} → Slots F shapes → Nat
  | _, .nil => 0
  | _, .single _ rest => rest.elements
  | _, .repeated vs rest => vs.length + rest.elements
  | _, .absent rest => rest.elements
  | _, .nested r rest => r.elements + rest.elements
  | _, .repeatedNested rs rest => rs.length + rs.elements + rest.elements

def Records.elements : {i : ι} → Records F i → Nat
  | _, .nil => 0
  | _, .cons r rs => r.elements + rs.elements

end

mutual

def Record.messages : {i : ι} → Record F i → Nat
  | _, .mk slots => slots.messages

def Slots.messages : {shapes : List (Shape ι)} → Slots F shapes → Nat
  | _, .nil => 0
  | _, .single _ rest => rest.messages
  | _, .repeated _ rest => rest.messages
  | _, .absent rest => rest.messages
  | _, .nested r rest => r.messages + 1 + rest.messages
  | _, .repeatedNested rs rest => rs.messages + rest.messages

def Records.messages : {i : ι} → Records F i → Nat
  | _, .nil => 0
  | _, .cons r rs => r.messages + 1 + rs.messages

end

mutual

def Record.depth : {i : ι} → Record F i → Nat
  | _, .mk slots => slots.depth

def Slots.depth : {shapes : List (Shape ι)} → Slots F shapes → Nat
  | _, .nil => 0
  | _, .single _ rest => rest.depth
  | _, .repeated _ rest => rest.depth
  | _, .absent rest => rest.depth
  | _, .nested r rest => max (r.depth + 1) rest.depth
  | _, .repeatedNested rs rest => max rs.depth rest.depth

def Records.depth : {i : ι} → Records F i → Nat
  | _, .nil => 0
  | _, .cons r rs => max (r.depth + 1) rs.depth

end

section

variable {shapes : List (Shape ι)}

@[simp] theorem Slots.elements_omit (rest : Slots F shapes) (shape : Shape ι) :
    (rest.omit shape).elements = rest.elements := by
  cases shape <;> simp [Slots.omit, elements, Records.elements, Records.length]

@[simp] theorem Slots.messages_omit (rest : Slots F shapes) (shape : Shape ι) :
    (rest.omit shape).messages = rest.messages := by
  cases shape <;> simp [Slots.omit, messages, Records.messages]

@[simp] theorem Slots.depth_omit (rest : Slots F shapes) (shape : Shape ι) :
    (rest.omit shape).depth = rest.depth := by
  cases shape <;> simp [Slots.omit, depth, Records.depth]

theorem Slots.sizes_zero (shapes : List (Shape ι)) :
    (Slots.zero (F := F) shapes).elements = 0 ∧ (Slots.zero (F := F) shapes).messages = 0 ∧
      (Slots.zero (F := F) shapes).depth = 0 := by
  induction shapes with
  | nil => exact ⟨rfl, rfl, rfl⟩
  | cons shape shapes ih => simpa [Slots.zero_cons] using ih

theorem Record.sizes_zero (i : ι) : (Record.zero (F := F) i).elements = 0 ∧
    (Record.zero (F := F) i).messages = 0 ∧ (Record.zero (F := F) i).depth = 0 :=
  Slots.sizes_zero (F i).fields

end

theorem ScalarForm.one_le_length {s : Scalar} (f : ScalarForm s) : 1 ≤ f.bytes.length := by
  cases f with
  | null => decide
  | value v _ =>
    cases s with
    | string =>
      simp [bytes, Scalar.bytes]
      omega
    | _ => simp [bytes, Scalar.bytes]

theorem ScalarForm.length_le_length {s : Scalar} (fs : List (ScalarForm s)) :
    fs.length ≤ (fs.flatMap (·.bytes)).length := by
  induction fs with
  | nil => rfl
  | cons f fs ih =>
    have hf := f.one_le_length
    rw [List.flatMap_cons, List.length_append, List.length_cons]
    omega

mutual

theorem RecordForm.sizes_le : {i : ι} → (f : RecordForm F i) →
    f.value.elements + f.value.messages ≤ f.bytes.length ∧ 4 * f.value.depth ≤ f.bytes.length
  | _, .mk mask _ slots => by
    have h := slots.sizes_le
    simp only [RecordForm.value, RecordForm.bytes, Record.elements, Record.messages, Record.depth,
      List.length_append]
    omega

theorem SlotForms.sizes_le : {mask : Mask} → {k : Nat} → {shapes : List (Shape ι)} →
    (f : SlotForms F mask k shapes) →
    f.value.elements + f.value.messages ≤ f.bytes.length ∧ 4 * f.value.depth ≤ f.bytes.length
  | _, _, _, .nil => ⟨Nat.le_refl _, Nat.le_refl _⟩
  | _, _, _, .omitted _ rest => by simpa [SlotForms.value, SlotForms.bytes] using rest.sizes_le
  | _, _, _, .single _ f rest => by
    have hr := rest.sizes_le
    simp only [SlotForms.value, SlotForms.bytes, Slots.elements, Slots.messages, Slots.depth,
      List.length_append]
    omega
  | _, _, _, .repeated _ fs _ rest => by
    have hf := ScalarForm.length_le_length fs
    have hr := rest.sizes_le
    simp only [SlotForms.value, SlotForms.bytes, Slots.elements, Slots.messages, Slots.depth,
      List.length_append, List.length_map]
    omega
  | _, _, _, .null _ rest => by
    have hr := rest.sizes_le
    simp only [SlotForms.value, SlotForms.bytes, Slots.elements, Slots.messages, Slots.depth,
      List.length_append]
    omega
  | _, _, _, .nested _ f rest => by
    have hf := f.sizes_le
    have hr := rest.sizes_le
    simp only [SlotForms.value, SlotForms.bytes, Slots.elements, Slots.messages, Slots.depth,
      List.length_append, LittleEndian.length_ofUInt32]
    omega
  | _, _, _, .repeatedNested _ _ fs rest => by
    have hf := fs.sizes_le
    have hr := rest.sizes_le
    simp only [SlotForms.value, SlotForms.bytes, Slots.elements, Slots.messages, Slots.depth,
      List.length_append]
    omega

theorem RecordForms.sizes_le : {i : ι} → {n : Nat} → (fs : RecordForms F i n) →
    fs.value.length + fs.value.elements + fs.value.messages ≤ fs.bytes.length ∧
      4 * fs.value.depth ≤ fs.bytes.length
  | _, _, .nil => ⟨Nat.le_refl _, Nat.le_refl _⟩
  | i, _, .null fs => by
    have hz := Record.sizes_zero (F := F) i
    have hf := fs.sizes_le
    simp only [RecordForms.value, RecordForms.bytes, Records.length, Records.elements,
      Records.messages, Records.depth, List.length_append, LittleEndian.length_ofUInt32]
    omega
  | _, _, .cons f fs => by
    have hf := f.sizes_le
    have hfs := fs.sizes_le
    simp only [RecordForms.value, RecordForms.bytes, Records.length, Records.elements,
      Records.messages, Records.depth, List.length_append, LittleEndian.length_ofUInt32]
    omega

end

namespace Read

def Blames (m : Read α) : Prop := ∀ s e s', m s = .error e s' → e.OfInput

namespace Blames

theorem pure (a : α) : Blames (Pure.pure a : Read α) := by
  intro s e s' h
  cases h

theorem bind {m : Read α} {f : α → Read β} (hm : Blames m) (hf : ∀ a, Blames (f a)) :
    Blames (m >>= f) := by
  intro s e s' h
  cases hr : m s with
  | ok a t =>
    rw [bind_of_ok hr] at h
    exact hf a t e s' h
  | error e' t =>
    rw [bind_of_error hr] at h
    cases h
    exact hm s e _ hr

theorem take (n : Nat) : Blames (take n) := by
  intro s e s' h
  simp only [Read.take] at h
  split at h
  · cases h
  · cases h
    exact .unexpectedEnd _ _

theorem fillWords (done : List UInt32) (n : Nat) : Blames (fillWords done n) :=
  fillWords_of (P := Blames) pure bind (take 4) done n

theorem withMask {width : Nat} {use : Mask → Read α} (h : ∀ mask, Blames (use mask)) :
    Blames (withMask width use) := by
  intro s e s' hs
  have hv := seen_withMask width use s
  rw [hs] at hv
  rcases seen_cases hv with ⟨a, t, t', ht, -⟩ | ⟨e', t, t', ht, ht', -⟩
  · cases ht
  · cases ht
    exact (fillWords [] width).bind (fun words => h ⟨words⟩) _ _ _ ht'

end Blames

theorem passes_blames : Passes Blames where
  pure := .pure
  refuse h := by
    rintro s e s' ⟨⟩
    exact h
  bind := .bind
  take := .take
  withMask _ _ := .withMask

/-- In the run of a read from a reader on, the part begins where the reader `t` is. -/
inductive Begins {β : Type} (part : Read β) (t : Reader) : {α : Type} → Read α → Reader → Prop
  | whole : Begins part t part t
  | first {α γ : Type} {m : Read α} {f : α → Read γ} {s : Reader} (h : Begins part t m s) :
    Begins part t (m >>= f) s
  | next {α γ : Type} {m : Read α} {f : α → Read γ} {a : α} {s s' : Reader} (hm : m s = .ok a s')
    (h : Begins part t (f a) s') : Begins part t (m >>= f) s
  | masked {α : Type} {width : Nat} {use : Mask → Read α} {words : List UInt32} {s s' : Reader}
    (hw : fillWords [] width { s with pool := (Pool.lend s.pool width).2 } = .ok words s')
    (h : Begins part t (use ⟨words⟩) s') : Begins part t (withMask width use) s

theorem Begins.map {part : Read β} {t s : Reader} {γ : Type} {m : Read α} (h : Begins part t m s)
    (f : α → γ) : Begins part t (f <$> m) s := by
  rw [map_eq_pure_bind]
  exact .first h

theorem Begins.error {part : Read β} {t s : Reader} {m : Read α} (h : Begins part t m s) {e : Error}
    {t' : Reader} (he : part t = .error e t') : ∃ s', m s = .error e s' := by
  induction h with
  | whole => exact ⟨t', he⟩
  | first _ ih =>
    obtain ⟨s', hs⟩ := ih
    exact ⟨s', bind_of_error hs⟩
  | next hm _ ih =>
    obtain ⟨s', hs⟩ := ih
    exact ⟨s', by rw [bind_of_ok hm, hs]⟩
  | masked hw _ ih =>
    obtain ⟨s', hs⟩ := ih
    exact withMask_of_bind_error (by rw [bind_of_ok hw, hs])

theorem times_short {one : Read α} (ho : Consumes 1 one) {n : Nat} {s : Reader}
    (h : s.rest.length < n) : ∃ k as t e t', k ≤ s.rest.length ∧ times one k s = .ok as t ∧
      one t = .error e t' ∧ times one n s = .error e t' := by
  induction n generalizing s with
  | zero => omega
  | succ n ih =>
    cases hs : one s with
    | error e t => exact ⟨0, [], s, e, t, Nat.zero_le _, rfl, hs, bind_of_error hs⟩
    | ok a s' =>
      obtain ⟨bytes, hb, hl⟩ := ho s a s' hs
      have hlen : s.rest.length = bytes.length + s'.rest.length := by rw [hb, List.length_append]
      obtain ⟨k, as, t, e, t', hk, ht, he, hn⟩ := ih (s := s') (by omega)
      refine ⟨k + 1, a :: as, t, e, t', by omega, ?_, he, ?_⟩
      · rw [times, bind_of_ok hs, bind_of_ok ht]
        rfl
      · rw [times, bind_of_ok hs, bind_of_error hn]

end Read

/-- How the elements of lists are read. -/
inductive Element (F : Family ι) : {α : Type} → Read α → Prop
  | scalar (s : Scalar) : Element F s.read
  | message (i : ι) : Element F ((·.getD (.zero i)) <$> Record.readNested? (F := F) i)

theorem Element.consumes {one : Read α} (h : Element F one) : Read.Consumes 1 one := by
  cases h with
  | scalar s =>
    refine s.yields_read.mono ?_
    rintro _ _ ⟨f, rfl, -⟩
    exact f.one_le_length
  | message i =>
    refine Read.Consumes.map (n := 1) _ (((F i).yields_readNested? (Record.yields_read i)).mono ?_)
    rintro bytes (_ | r) h
    · simp [h]
    · obtain ⟨right, -, rfl⟩ := h
      simp
      omega

section

open Read (Begins)

variable {part : Read β} {t s s' : Reader} {i : ι} {mask : Mask} {k : Nat}
  {message : (i : ι) → Read (Record F i)}

theorem Record.begins_read (words : List UInt32)
    (hw : Read.fillWords [] (F i).maskWords
      { s with pool := (Pool.lend s.pool (F i).maskWords).2 } = .ok words s')
    (h : Begins part t (Slots.read (F := F) Record.read ⟨words⟩ 0 (F i).fields) s') :
    Begins part t (Record.read (F := F) i) s := by
  rw [Record.read_eq]
  exact .masked hw (h.map _)

theorem Layout.begins_readNested? {layout : Layout ι} {m : Read α} (hn : layout.tag ≠ Tag.null)
    (ht : Read.i32 s = .ok layout.tag s') (h : Begins part t m s') :
    Begins part t (layout.readNested? m) s := by
  refine .next ht ?_
  rw [if_neg hn, if_pos rfl]
  exact .first h

theorem Slots.begins_of_clear (hk : mask.contains k = false) (shape : Shape ι)
    {shapes : List (Shape ι)} (h : Begins part t (Slots.read message mask (k + 1) shapes) s) :
    Begins part t (Slots.read message mask k (shape :: shapes)) s := by
  rw [Slots.read_of_clear message hk]
  exact h.map _

theorem Slots.begins_repeated (hk : mask.contains k = true) (sc : Scalar) (shapes : List (Shape ι))
    (t : Reader) : Begins sc.readMany t (Slots.read message mask k (.repeated sc :: shapes)) t := by
  rw [Slots.read_repeated, if_pos hk]
  exact .first .whole

theorem Slots.begins_repeatedNested {n : Nat} (hk : mask.contains k = true)
    (hl : Read.length s = .ok (n + 1) s') (shapes : List (Shape ι))
    (h : Begins part t ((F i).readNested? (message i)) s') :
    Begins part t (Slots.read message mask k (.repeatedNested i :: shapes)) s := by
  rw [Slots.read_repeatedNested, if_pos hk]
  exact .first (.next hl (.first (h.map _)))

end

/-- Reading a message calls itself for nested messages, and comes to an end: no deeper than the
bytes that are left allow. It gives a message that is no larger than its bytes, or refuses the
bytes. A list that is longer than what is left is the end of it, after no more elements than there
are bytes. -/
theorem Record.read_bounded (i : ι) (s : Reader) :
    (read (F := F) i = Read.withMask (F i).maskWords fun mask =>
      .mk <$> Slots.read read mask 0 (F i).fields) ∧
    (∀ depth, s.rest.length < 4 * depth → readWithin depth i s = read (F := F) i s) ∧
    (match read (F := F) i s with
      | .ok r s' => ∃ bytes, s.rest = bytes ++ s'.rest ∧ s'.position = s.position + bytes.length ∧
          r.elements + r.messages ≤ bytes.length ∧ 4 * r.depth ≤ bytes.length
      | .error e _ => e.kind ∈ [.unexpectedEnd, .decode, .typeMismatch]) ∧
    ∀ {α : Type} {one : Read α} {t u : Reader} {n : Nat}, Element F one →
      Read.Begins (Read.length >>= Read.times one) t (read (F := F) i) s →
      Read.length t = .ok n u → u.rest.length < n →
      ∃ k as v e v' s', k ≤ u.rest.length ∧ Read.times one k u = .ok as v ∧ one v = .error e v' ∧
        read (F := F) i s = .error e s' := by
  refine ⟨read_eq i, fun depth h => (read_eq_readWithin i h).symm, ?_,
    fun {α one t u n} ho hb hl hn => ?_⟩
  · cases hr : read (F := F) i s with
    | ok r s' =>
      obtain ⟨bytes, hb, ht⟩ := delimits_read i s r s' hr
      obtain ⟨_, hf, f, rfl, rfl⟩ := yields_read i s r s' hr
      obtain rfl := List.append_cancel_right (hb.symm.trans hf)
      obtain ⟨pool', hw⟩ := ht.whole s.position s'.rest s.pool
      rw [← hb, hr] at hw
      exact ⟨f.bytes, hb, congrArg Reader.position (EStateM.Result.ok.inj hw).2, f.sizes_le⟩
    | error e s' =>
      dsimp only
      cases Read.passes_blames.readWithin _ i s e s' hr <;> simp [Error.kind]
  · obtain ⟨k, as, v, e, v', hk, ha, he, ht⟩ := Read.times_short ho.consumes hn
    obtain ⟨s', hs⟩ := hb.error (by rw [bind_of_ok hl, ht])
    exact ⟨k, as, v, e, v', s', hk, ha, he, hs⟩

def tree : Family Unit := fun _ => ⟨"Node", 7, [.repeated .bool, .repeatedNested ()]⟩

def greedy : List UInt8 :=
  [2, 0, 0, 0, 1, 0, 0, 0, 7, 0, 0, 0, 1, 0, 0, 0, 255, 255, 255, 127, 1]

theorem Record.read_bounded_greedy :
    readWithin (F := tree) 6 () (.new greedy) = read () (.new greedy) ∧
    ∃ k as v e v' s', k ≤ 1 ∧ Read.times Scalar.bool.read k ⟨20, [1], none⟩ = .ok as v ∧
      Scalar.bool.read v = .error e v' ∧ read (F := tree) () (.new greedy) = .error e s' := by
  have hl : Read.length ⟨16, [255, 255, 255, 127, 1], none⟩ =
      .ok 0x7fffffff ⟨20, [1], none⟩ := rfl
  have hb : Read.Begins (Read.length >>= Read.times Scalar.bool.read)
      ⟨16, [255, 255, 255, 127, 1], none⟩ (read (F := tree) ()) (.new greedy) := by
    have below : Read.Begins (Scalar.readMany .bool) ⟨16, [255, 255, 255, 127, 1], none⟩
        (read (F := tree) ()) ⟨12, [1, 0, 0, 0, 255, 255, 255, 127, 1], none⟩ :=
      begins_read [1] rfl (Slots.begins_repeated rfl .bool _ _)
    refine begins_read [2] rfl (Slots.begins_of_clear rfl _ ?_)
    refine Slots.begins_repeatedNested rfl rfl _ ?_
    exact Layout.begins_readNested? (by decide) rfl below
  obtain ⟨-, within, -, list⟩ := read_bounded (F := tree) () (.new greedy)
  exact ⟨within 6 (by decide), list (.scalar .bool) hb hl (by decide)⟩

end WireProtocol.Wire
