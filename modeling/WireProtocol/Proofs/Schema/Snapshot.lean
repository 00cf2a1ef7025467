import Mathlib.Data.List.Infix
import WireProtocol.Proofs.Checksum
import WireProtocol.Schema.Snapshot

namespace WireProtocol.Schema

def Field.wrapped (f : Field) : Field := { f with line := f.line % 2 ^ 64 }

def Message.wrapped (m : Message) : Message :=
  { m with fields := m.fields.map Field.wrapped, line := m.line % 2 ^ 64 }

def Method.wrapped (m : Method) : Method := { m with line := m.line % 2 ^ 64 }

def Service.wrapped (s : Service) : Service :=
  { s with methods := s.methods.map Method.wrapped, line := s.line % 2 ^ 64 }

def Definition.wrapped (d : Definition) : Definition :=
  { d with messages := d.messages.map Message.wrapped, services := d.services.map Service.wrapped }

namespace Options

theorem insertEntry_of_lt {key value : String} {entries : List (String × String)}
    (h : ∀ e ∈ entries, e.1 < key) : insertEntry key value entries = entries ++ [(key, value)] := by
  induction entries with
  | nil => rfl
  | cons e entries ih =>
    rw [List.forall_mem_cons] at h
    have hk := String.lt_asymm h.1
    have hne : key ≠ e.1 := fun he => String.lt_irrefl _ (he ▸ h.1)
    rw [insertEntry, if_neg hk, if_neg hne, ih h.2, List.cons_append]

theorem entries_foldl_insert (o : Options) (entries : List (String × String))
    (h : (o.entries ++ entries).Pairwise (·.1 < ·.1)) :
    (entries.foldl (fun o e => o.insert e.1 e.2) o).entries = o.entries ++ entries := by
  induction entries generalizing o with
  | nil => rw [List.append_nil]; rfl
  | cons e entries ih =>
    have hb : ∀ e' ∈ o.entries, e'.1 < e.1 := fun e' he' =>
      (List.pairwise_append.1 h).2.2 e' he' e List.mem_cons_self
    have he : (o.insert e.1 e.2).entries = o.entries ++ [e] := insertEntry_of_lt hb
    rw [List.foldl_cons, ih, he, List.append_assoc]
    · rfl
    · rwa [he, List.append_assoc]

theorem foldl_insert_entries (o : Options) :
    o.entries.foldl (fun o e => o.insert e.1 e.2) empty = o := by
  have h := entries_foldl_insert empty o.entries o.sorted
  cases o with
  | mk entries sorted =>
    cases ho : entries.foldl (fun o e => o.insert e.1 e.2) empty with
    | mk entries' sorted' =>
      simp only [ho] at h
      subst h
      rfl

end Options

namespace Snapshot

variable {α β : Type}

/-- The value is taken off just these bytes, and off less of them not at all. -/
structure Takes (m : Take α) (bytes : List UInt8) (a : α) : Prop where
  whole : ∀ rest, m (bytes ++ rest) = .ok (a, rest)
  part : ∀ part, part <+: bytes → part ≠ bytes → m part = .error .ended

theorem bind_of_ok {m : Take α} {f : α → Take β} {s s' : List UInt8} {a : α}
    (h : m s = .ok (a, s')) :
    (m >>= f) s = f a s' := by
  simp [bind, StateT.bind, h, Except.bind]

theorem bind_of_error {m : Take α} {f : α → Take β} {s : List UInt8} {fault : BodyFault}
    (h : m s = .error fault) : (m >>= f) s = .error fault := by
  simp [bind, StateT.bind, h, Except.bind]

namespace Takes

theorem pure (a : α) : Takes (Pure.pure a) [] a where
  whole _ := rfl
  part _ hp hne := absurd (List.prefix_nil.1 hp) hne

theorem alone {m : Take α} {bytes : List UInt8} {a : α} (h : Takes m bytes a) :
    m bytes = .ok (a, []) := by
  have ha := h.whole []
  rwa [List.append_nil] at ha

theorem bind {m : Take α} {f : α → Take β} {left right : List UInt8} {a : α} {b : β}
    (hm : Takes m left a) (hf : Takes (f a) right b) : Takes (m >>= f) (left ++ right) b where
  whole rest := by rw [List.append_assoc, bind_of_ok (hm.whole _), hf.whole]
  part part hp hne := by
    rcases List.prefix_or_prefix_of_prefix hp (List.prefix_append left right) with hl | ⟨tail, rfl⟩
    · by_cases he : part = left
      · have hr : right ≠ [] := fun h => hne (by simp [he, h])
        rw [he, bind_of_ok hm.alone]
        exact hf.part [] List.nil_prefix hr.symm
      · exact bind_of_error (hm.part part hl he)
    · have ht : tail <+: right := (List.prefix_append_right_inj left).1 hp
      have htr : tail ≠ right := fun h => hne (by rw [h])
      rw [bind_of_ok (hm.whole tail)]
      exact hf.part tail ht htr

theorem bind_pure {m : Take α} {f : α → Take β} {bytes : List UInt8} {a : α} {b : β}
    (hm : Takes m bytes a) (hf : f a = Pure.pure b) : Takes (m >>= f) bytes b := by
  have h := hm.bind (f := f) (hf ▸ Takes.pure b)
  rwa [List.append_nil] at h

end Takes

theorem takes_take (bytes : List UInt8) : Takes (take bytes.length) bytes bytes where
  whole rest := by simp [take]
  part part hp hne := by
    have hlt : part.length < bytes.length :=
      Nat.lt_of_le_of_ne hp.length_le fun h => hne (hp.eq_of_length h)
    simp [take, Nat.not_le.2 hlt]

theorem takes_nat (n : Nat) : Takes takeNat (ofNat n) (n % 2 ^ 64) := by
  have h := takes_take (ofNat n)
  rw [ofNat, LittleEndian.length_digits] at h
  exact h.bind_pure (by rw [LittleEndian.value_digits]; rfl)

theorem takes_int32 (n : Int32) : Takes takeInt32 (ofInt32 n) n := by
  have h := takes_take (ofInt32 n)
  rw [ofInt32, LittleEndian.length_ofUInt32] at h
  exact h.bind_pure (by simp)

theorem takes_byte (b : UInt8) : Takes takeByte [b] b :=
  (takes_take [b]).bind_pure (by simp [LittleEndian.value])

theorem takes_bool (b : Bool) : Takes takeBool (ofBool b) b := by
  cases b <;> exact (takes_byte _).bind_pure rfl

theorem takes_string {s : String} (h : (Utf8.encode s).length < 2 ^ 64) :
    Takes takeString (ofString s) s := by
  have hn := takes_nat (Utf8.encode s).length
  rw [Nat.mod_eq_of_lt h] at hn
  refine hn.bind ((takes_take _).bind_pure ?_)
  rw [Utf8.decode_encode]

theorem takes_option {s? : Option String} (h : ∀ s ∈ s?, (Utf8.encode s).length < 2 ^ 64) :
    Takes takeOption (ofOption s?) s? := by
  cases s? with
  | none => exact (takes_byte 0).bind_pure rfl
  | some s => exact (takes_byte 1).bind ((takes_string (h s rfl)).bind_pure rfl)

theorem takes_type (t : FieldType) : Takes takeType (LittleEndian.digits 4 (typeIndex t)) t := by
  have h := takes_take (LittleEndian.digits 4 (typeIndex t))
  rw [LittleEndian.length_digits] at h
  exact h.bind_pure (by cases t <;> rfl)

section

variable {m : Take α} {one : α → List UInt8} {value : α → α} {as : List α}

theorem takes_times (h : ∀ a ∈ as, Takes m (one a) (value a)) :
    Takes (takeTimes m as.length) (as.flatMap one) (as.map value) := by
  induction as with
  | nil => exact .pure []
  | cons a as ih =>
    rw [List.forall_mem_cons] at h
    exact h.1.bind ((ih h.2).bind_pure rfl)

theorem takes_list (hl : as.length < 2 ^ 64) (h : ∀ a ∈ as, Takes m (one a) (value a)) :
    Takes (takeList m) (ofList one as) (as.map value) := by
  have hn := takes_nat as.length
  rw [Nat.mod_eq_of_lt hl] at hn
  exact hn.bind (takes_times h)

theorem fits_list (one : α → List UInt8) (as : List α) (h : (ofList one as).length < 2 ^ 64)
    (hpos : ∀ a, 0 < (one a).length) :
    as.length < 2 ^ 64 ∧ ∀ a ∈ as, (one a).length < 2 ^ 64 := by
  have hf : as.length ≤ (as.flatMap one).length ∧
      ∀ a ∈ as, (one a).length ≤ (as.flatMap one).length := by
    clear h
    induction as with
    | nil => simp
    | cons a as ih =>
      have ha := hpos a
      simp only [List.flatMap_cons, List.length_append, List.length_cons, List.forall_mem_cons]
      refine ⟨by omega, by omega, fun b hb => ?_⟩
      have hl := ih.2 b hb
      omega
  rw [ofList, List.length_append] at h
  refine ⟨by omega, fun a ha => ?_⟩
  have hl := hf.2 a ha
  omega

end

@[simp] theorem length_ofNat (n : Nat) : (ofNat n).length = 8 := LittleEndian.length_digits 8 n

@[simp] theorem length_ofString (s : String) :
    (ofString s).length = 8 + (Utf8.encode s).length := by
  simp [ofString]

theorem takes_field {f : Field} (h : (ofField f).length < 2 ^ 64) :
    Takes takeField (ofField f) f.wrapped := by
  simp only [ofField, List.length_append, length_ofString, List.append_assoc] at h ⊢
  have hc : ∀ s ∈ f.customType, (Utf8.encode s).length < 2 ^ 64 := by
    intro s hs
    rw [Option.mem_def.1 hs, ofOption, List.length_cons, length_ofString] at h
    omega
  refine (takes_string (by omega)).bind ((takes_type _).bind ((takes_int32 _).bind ?_))
  exact (takes_bool _).bind ((takes_option hc).bind ((takes_nat _).bind_pure rfl))

theorem takes_message {m : Message} (h : (ofMessage m).length < 2 ^ 64) :
    Takes takeMessage (ofMessage m) m.wrapped := by
  simp only [ofMessage, List.length_append, length_ofString, List.append_assoc] at h ⊢
  obtain ⟨hl, hf⟩ := fits_list ofField m.fields (by omega) fun f => by
    simp only [ofField, List.length_append, length_ofString]
    omega
  refine (takes_string (by omega)).bind ((takes_list hl fun f hm => takes_field (hf f hm)).bind ?_)
  exact (takes_int32 _).bind ((takes_nat _).bind_pure rfl)

theorem takes_method {m : Method} (h : (ofMethod m).length < 2 ^ 64) :
    Takes takeMethod (ofMethod m) m.wrapped := by
  simp only [ofMethod, List.length_append, length_ofString, List.append_assoc] at h ⊢
  refine (takes_string (by omega)).bind ((takes_string (by omega)).bind ?_)
  exact (takes_string (by omega)).bind ((takes_nat _).bind_pure rfl)

theorem takes_service {s : Service} (h : (ofService s).length < 2 ^ 64) :
    Takes takeService (ofService s) s.wrapped := by
  simp only [ofService, List.length_append, length_ofString, List.append_assoc] at h ⊢
  obtain ⟨hl, hm⟩ := fits_list ofMethod s.methods (by omega) fun m => by
    simp only [ofMethod, List.length_append, length_ofString]
    omega
  refine (takes_string (by omega)).bind ((takes_list hl fun m hs => takes_method (hm m hs)).bind ?_)
  exact (takes_nat _).bind_pure rfl

theorem takes_optionEntry {e : String × String} (h : (ofOptionEntry e).length < 2 ^ 64) :
    Takes takeOptionEntry (ofOptionEntry e) e := by
  simp only [ofOptionEntry, List.length_append, length_ofString] at h ⊢
  exact (takes_string (by omega)).bind ((takes_string (by omega)).bind_pure rfl)

theorem takes_definition {d : Definition} (h : (ofDefinition d).length < 2 ^ 64) :
    Takes takeDefinition (ofDefinition d) d.wrapped := by
  simp only [ofDefinition, List.length_append, length_ofString, List.append_assoc] at h ⊢
  obtain ⟨hml, hm⟩ := fits_list ofMessage d.messages (by omega) fun m => by
    simp only [ofMessage, List.length_append, length_ofString]
    omega
  obtain ⟨hsl, hs⟩ := fits_list ofService d.services (by omega) fun s => by
    simp only [ofService, List.length_append, length_ofString]
    omega
  obtain ⟨hol, ho⟩ := fits_list ofOptionEntry d.options.entries (by omega) fun e => by
    simp only [ofOptionEntry, List.length_append, length_ofString]
    omega
  have hos : Takes (takeList takeOptionEntry) (ofList ofOptionEntry d.options.entries)
      (d.options.entries.map id) := takes_list hol fun e he => takes_optionEntry (ho e he)
  rw [List.map_id] at hos
  refine (takes_string (by omega)).bind ((takes_list hml fun m h => takes_message (hm m h)).bind ?_)
  refine (takes_list hsl fun s h => takes_service (hs s h)).bind (hos.bind_pure ?_)
  rw [Options.foldl_insert_entries]
  rfl

/-- A body behind the header that belongs to it. -/
def sealed (body : List UInt8) : List UInt8 :=
  magic ++ LittleEndian.digits 2 version ++ LittleEndian.ofUInt32 (Checksum.crc32 body) ++ body

theorem encode_eq_sealed (d : Definition) : encode d = sealed (ofDefinition d) := rfl

theorem drop_sealed (body : List UInt8) : (sealed body).drop headerSize = body := by
  rw [sealed, List.drop_left' (by simp [magic, headerSize])]

theorem take_drop_header (bytes : List UInt8) :
    bytes.take 4 ++ ((bytes.drop 4).take 2 ++ ((bytes.drop 6).take 4 ++ bytes.drop headerSize)) =
      bytes := by
  have h6 := List.take_append_drop 4 (bytes.drop 6)
  have h4 := List.take_append_drop 2 (bytes.drop 4)
  rw [List.drop_drop] at h4 h6
  rw [headerSize, h6, h4, List.take_append_drop]

theorem sealed_of_decode {bytes : List UInt8} {d : Definition} (h : decode bytes = .ok d) :
    bytes = sealed (bytes.drop headerSize) ∧
      ∃ rest, takeDefinition (bytes.drop headerSize) = .ok (d, rest) := by
  simp only [decode] at h
  split at h
  · cases h
  next hl =>
  split at h
  · cases h
  next hm =>
  split at h
  · cases h
  next hv =>
  split at h
  · cases h
  next hc =>
  split at h
  · next rest ht =>
    cases h
    refine ⟨?_, rest, ht⟩
    have hl : 10 ≤ bytes.length := Nat.not_lt.1 hl
    have hver : (bytes.drop 4).take 2 = LittleEndian.digits 2 version := by
      rw [← Decidable.not_not.1 hv]
      have hd := LittleEndian.digits_value ((bytes.drop 4).take 2)
      rwa [List.length_take_of_le (by rw [List.length_drop]; omega), eq_comm] at hd
    have hcrc : (bytes.drop 6).take 4 =
        LittleEndian.ofUInt32 (Checksum.crc32 (bytes.drop headerSize)) := by
      rw [← Decidable.not_not.1 hc, LittleEndian.ofUInt32_toUInt32]
      rw [List.length_take_of_le (by rw [List.length_drop]; omega)]
    have hb := take_drop_header bytes
    rw [Decidable.not_not.1 hm, hver, hcrc] at hb
    rw [sealed, List.append_assoc, List.append_assoc]
    exact hb.symm
  · cases h

/-- The bytes are not the same any more, but were changed only among the `count` from `start` on. -/
structure ChangedWithin (start count : Nat) (bytes bytes' : List UInt8) : Prop where
  changed : bytes' ≠ bytes
  length : bytes'.length = bytes.length
  before : bytes'.take start = bytes.take start
  after : bytes'.drop (start + count) = bytes.drop (start + count)

theorem take_drop_window (start : Nat) (bytes : List UInt8) :
    bytes.take start ++ ((bytes.drop start).take 4 ++ bytes.drop (start + 4)) = bytes := by
  have h := List.take_append_drop 4 (bytes.drop start)
  rw [List.drop_drop] at h
  rw [h, List.take_append_drop]

theorem crc32_ne_of_changedWithin {start : Nat} {bytes bytes' : List UInt8}
    (h : ChangedWithin start 4 bytes bytes') : Checksum.crc32 bytes' ≠ Checksum.crc32 bytes := by
  intro he
  have hb := take_drop_window start bytes
  have hb' := take_drop_window start bytes'
  rw [h.before, h.after] at hb'
  rw [← hb, ← hb'] at he
  have hw := Checksum.crc32_append_inj (by simp [h.length]) (List.length_take_le ..) he
  rw [hw, hb] at hb'
  exact h.changed hb'.symm

theorem changedWithin_drop {start count : Nat} {bytes bytes' : List UInt8}
    (h : ChangedWithin (headerSize + start) count bytes bytes') :
    ChangedWithin start count (bytes.drop headerSize) (bytes'.drop headerSize) where
  changed he := by
    have hh := congrArg (List.take headerSize) h.before
    rw [List.take_take, List.take_take, Nat.min_eq_left (Nat.le_add_right ..)] at hh
    apply h.changed
    rw [← List.take_append_drop headerSize bytes', he, hh, List.take_append_drop]
  length := by rw [List.length_drop, List.length_drop, h.length]
  before := by
    have hb := congrArg (List.drop headerSize) h.before
    rwa [List.drop_take, List.drop_take, Nat.add_sub_cancel_left] at hb
  after := by
    rw [List.drop_drop, List.drop_drop, ← Nat.add_assoc]
    exact h.after

theorem crc32_eq_of_take_sealed {body body' : List UInt8}
    (h : (sealed body').take headerSize = (sealed body).take headerSize) :
    Checksum.crc32 body' = Checksum.crc32 body := by
  rw [sealed, sealed, List.take_left' (by simp [magic, headerSize]),
    List.take_left' (by simp [magic, headerSize])] at h
  exact LittleEndian.ofUInt32_injective (List.append_cancel_left h)

section

variable {d d' : Definition} {bytes : List UInt8}

theorem decode_ne_ok_of_header (h : ChangedWithin 0 headerSize (encode d) bytes) :
    decode bytes ≠ .ok d' := by
  intro hd
  have hs := (sealed_of_decode hd).1
  have ha := h.after
  rw [Nat.zero_add] at ha
  rw [ha, encode_eq_sealed, drop_sealed, ← encode_eq_sealed] at hs
  exact h.changed hs

theorem decode_ne_ok_of_body {start : Nat}
    (h : ChangedWithin (headerSize + start) 4 (encode d) bytes) : decode bytes ≠ .ok d' := by
  intro hd
  have hs := (sealed_of_decode hd).1
  have hh := congrArg (List.take headerSize) h.before
  rw [List.take_take, List.take_take, Nat.min_eq_left (Nat.le_add_right ..), hs] at hh
  have hc := changedWithin_drop h
  rw [encode_eq_sealed, drop_sealed] at hc
  exact crc32_ne_of_changedWithin hc (crc32_eq_of_take_sealed hh)

theorem decode_ne_ok_of_prefix (hl : (encode d).length < 2 ^ 64) (hp : bytes <+: encode d)
    (hne : bytes ≠ encode d) : decode bytes ≠ .ok d' := by
  intro hd
  obtain ⟨hs, rest, ht⟩ := sealed_of_decode hd
  have hb : (ofDefinition d).length < 2 ^ 64 := by
    rw [encode_eq_sealed, sealed, List.length_append] at hl
    omega
  have hbp : bytes.drop headerSize <+: ofDefinition d := by
    have h := hp.drop headerSize
    rwa [encode_eq_sealed, drop_sealed] at h
  have hbne : bytes.drop headerSize ≠ ofDefinition d := fun h => by
    rw [h, ← encode_eq_sealed] at hs
    exact hne hs
  rw [(takes_definition hb).part _ hbp hbne] at ht
  cases ht

end

/-- A snapshot is rejected when its header was changed in any way, when up to four bytes in a row of
its body were changed, and, if its length is a machine word, when it was cut off. -/
theorem decode_damaged (d : Definition) :
    (∀ bytes, ChangedWithin 0 headerSize (encode d) bytes ∨
        (∃ start, headerSize ≤ start ∧ ChangedWithin start 4 (encode d) bytes) →
      ∃ fault, decode bytes = .error fault) ∧
    ((encode d).length < 2 ^ 64 → ∀ part, part <+: encode d → part ≠ encode d →
      ∃ fault, decode part = .error fault) := by
  have error_of_ne {bytes : List UInt8} (h : ∀ d', decode bytes ≠ .ok d') :
      ∃ fault, decode bytes = .error fault := by
    cases hd : decode bytes with
    | error fault => exact ⟨fault, rfl⟩
    | ok d' => exact absurd hd (h d')
  refine ⟨fun bytes h => error_of_ne fun d' => ?_, fun hl part hp hne => error_of_ne fun d' => ?_⟩
  · rcases h with h | ⟨start, hs, h⟩
    · exact decode_ne_ok_of_header h
    · obtain ⟨n, rfl⟩ := Nat.exists_eq_add_of_le hs
      exact decode_ne_ok_of_body h
  · exact decode_ne_ok_of_prefix hl hp hne

def point : Definition where
  namespaceName := "geo"
  messages := [⟨"Point", [⟨"x", .int32, 0, false, none, 3⟩], 7, 2⟩]
  options := Options.empty.insert "prefix" "Geo"

/-- The wrong version; the field renamed to `y` and made an `int64`; nothing after its name. -/
theorem decode_damaged_point :
    ChangedWithin 0 headerSize (encode point) ((encode point).set 5 1) ∧
    ChangedWithin 58 4 (encode point) (((encode point).set 58 121).set 59 1) ∧
    (encode point).length < 2 ^ 64 ∧
    (∃ fault, decode ((encode point).set 5 1) = .error fault) ∧
    (∃ fault, decode (((encode point).set 58 121).set 59 1) = .error fault) ∧
    ∃ fault, decode ((encode point).take 59) = .error fault := by
  have header : ChangedWithin 0 headerSize (encode point) ((encode point).set 5 1) :=
    ⟨fun h => absurd (congrArg (·[5]?) h) (by decide +kernel), List.length_set, rfl,
      List.drop_set_of_lt (by decide)⟩
  have body : ChangedWithin 58 4 (encode point) (((encode point).set 58 121).set 59 1) :=
    ⟨fun h => absurd (congrArg (·[58]?) h) (by decide +kernel), by simp only [List.length_set],
      by simp only [List.take_set_of_le, Nat.reduceLeDiff, Nat.le_refl],
      by simp only [List.drop_set_of_lt, Nat.reduceAdd, Nat.reduceLT]⟩
  have fits : (encode point).length < 2 ^ 64 := by decide +kernel
  exact ⟨header, body, fits, (decode_damaged point).1 _ (.inl header),
    (decode_damaged point).1 _ (.inr ⟨58, by decide, body⟩),
    (decode_damaged point).2 fits _ (List.take_prefix _ _) fun h =>
      absurd (congrArg List.length h) (by decide +kernel)⟩

end Snapshot

end WireProtocol.Schema
