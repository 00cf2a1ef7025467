import Mathlib.Data.List.Perm.Subperm
import WireProtocol.Proofs.Schema.Snapshot

/-! Snapshots as they are read. Each part of a body can be written in one way only, but for two
things: bytes after the definition are ignored, and options may come in any order and more than
once. So what was read is written as the same bytes exactly when there is none of either. -/

namespace WireProtocol.Schema

namespace Options

def ofEntries (entries : List (String × String)) : Options :=
  entries.foldl (fun o e => o.insert e.1 e.2) empty

theorem entries_ofEntries {entries : List (String × String)} (h : entries.Pairwise (·.1 < ·.1)) :
    (ofEntries entries).entries = entries := entries_foldl_insert empty entries h

theorem mem_foldl_insert {e : String × String} {o : Options} {entries : List (String × String)}
    (h : e ∈ (entries.foldl (fun o e => o.insert e.1 e.2) o).entries) :
    e ∈ o.entries ∨ e ∈ entries := by
  induction entries generalizing o with
  | nil => exact .inl h
  | cons e' entries ih =>
    rcases ih h with h | h
    · rcases mem_insertEntry h with rfl | h
      · exact .inr List.mem_cons_self
      · exact .inl h
    · exact .inr (List.mem_cons_of_mem _ h)

theorem entries_ofEntries_subset (entries : List (String × String)) :
    (ofEntries entries).entries ⊆ entries := by
  intro e he
  rcases mem_foldl_insert he with h | h
  · cases h
  · exact h

theorem length_ofEntries_le (entries : List (String × String)) :
    (ofEntries entries).entries.length ≤ entries.length := by
  have hnodup : (ofEntries entries).entries.Nodup :=
    (ofEntries entries).sorted.imp fun h => ne_of_apply_ne Prod.fst (String.ne_of_lt h)
  exact (hnodup.subperm (entries_ofEntries_subset entries)).length_le

end Options

namespace Snapshot

variable {α β : Type}

def Yields (m : Take α) (P : List UInt8 → α → Prop) : Prop :=
  ∀ s a rest, m s = .ok (a, rest) → ∃ bytes, s = bytes ++ rest ∧ P bytes a

/-- What was taken stood there as it is written, and is taken off these bytes again. -/
def Spells (m : Take α) (one : α → List UInt8) : Prop :=
  Yields m fun bytes a => bytes = one a ∧ Takes m (one a) a

namespace Yields

variable {m : Take α} {f : α → Take β} {P : List UInt8 → α → Prop} {Q : List UInt8 → β → Prop}

theorem pure {a : α} (h : P [] a) : Yields (Pure.pure a) P := by
  intro s b rest hs
  cases hs
  exact ⟨[], rfl, h⟩

theorem throw (fault : BodyFault) : Yields (throw fault : Take α) P := by
  intro s a rest h
  cases h

theorem mono {P' : List UInt8 → α → Prop} (h : Yields m P)
    (hP : ∀ bytes a, P bytes a → P' bytes a) : Yields m P' := by
  intro s a rest hm
  obtain ⟨bytes, hs, hp⟩ := h s a rest hm
  exact ⟨bytes, hs, hP bytes a hp⟩

theorem bind (hm : Yields m P)
    (hf : ∀ left a, P left a → Yields (f a) fun right => Q (left ++ right)) :
    Yields (m >>= f) Q := by
  intro s b rest h
  cases hs : m s with
  | error fault =>
    rw [bind_of_error hs] at h
    cases h
  | ok taken =>
    obtain ⟨a, s'⟩ := taken
    rw [bind_of_ok hs] at h
    obtain ⟨left, rfl, hp⟩ := hm s a s' hs
    obtain ⟨right, rfl, hq⟩ := hf left a hp s' b rest h
    exact ⟨left ++ right, (List.append_assoc ..).symm, hq⟩

end Yields

theorem yields_take (n : Nat) : Yields (take n) fun bytes a => bytes.length = n ∧ a = bytes := by
  intro s a rest h
  simp only [take] at h
  split at h
  · next hn =>
    cases h
    exact ⟨s.take n, (List.take_append_drop n s).symm, List.length_take_of_le hn, rfl⟩
  · cases h

theorem Spells.bind {m : Take α} {one : α → List UInt8} {f : α → Take β}
    {Q : List UInt8 → β → Prop} (hm : Spells m one)
    (hf : ∀ a, Takes m (one a) a → Yields (f a) fun right => Q (one a ++ right)) :
    Yields (m >>= f) Q := by
  apply Yields.bind hm
  rintro _ a ⟨rfl, ht⟩
  exact hf a ht

theorem yields_nat : Yields takeNat fun bytes n => bytes = ofNat n ∧ n < 2 ^ 64 := by
  apply (yields_take 8).bind
  rintro _ bytes ⟨hl, rfl⟩
  refine .pure ⟨?_, ?_⟩
  · rw [List.append_nil, ofNat, ← hl, LittleEndian.digits_value]
  · have h := LittleEndian.value_lt bytes
    rwa [hl] at h

theorem spells_nat : Spells takeNat ofNat := by
  apply yields_nat.mono
  rintro _ n ⟨rfl, hn⟩
  have h := takes_nat n
  rw [Nat.mod_eq_of_lt hn] at h
  exact ⟨rfl, h⟩

theorem spells_int32 : Spells takeInt32 ofInt32 := by
  apply (yields_take 4).bind
  rintro _ bytes ⟨hl, rfl⟩
  refine .pure ⟨?_, takes_int32 _⟩
  rw [List.append_nil, ofInt32, UInt32.toUInt32_toInt32, LittleEndian.ofUInt32_toUInt32 hl]

theorem yields_byte : Yields takeByte fun bytes b => bytes = [b] := by
  apply (yields_take 1).bind
  rintro _ bytes ⟨hl, rfl⟩
  obtain ⟨b, rfl⟩ := List.length_eq_one_iff.1 hl
  exact .pure (by simp [LittleEndian.value])

theorem spells_bool : Spells takeBool ofBool := by
  apply yields_byte.bind
  rintro _ b rfl
  split
  · exact .pure ⟨rfl, takes_bool false⟩
  · exact .pure ⟨rfl, takes_bool true⟩
  · exact .throw _

theorem spells_string : Spells takeString ofString := by
  apply yields_nat.bind
  rintro _ n ⟨rfl, hn⟩
  apply (yields_take n).bind
  rintro _ bytes ⟨rfl, rfl⟩
  split
  · next s hs =>
    obtain rfl := Utf8.encode_of_decode hs
    exact .pure ⟨by rw [List.append_nil, ofString], takes_string hn⟩
  · exact .throw _

theorem spells_option : Spells takeOption ofOption := by
  apply yields_byte.bind
  rintro _ b rfl
  split
  · exact .pure ⟨rfl, (takes_byte 0).bind_pure rfl⟩
  · refine spells_string.bind fun s hs => ?_
    exact .pure ⟨by simp [ofOption], (takes_byte 1).bind (hs.bind_pure rfl)⟩
  · exact .throw _

theorem typeIndex_of_getElem? {n : Nat} {t : FieldType} (h : FieldType.all[n]? = some t) :
    typeIndex t = n := by
  obtain ⟨hn, rfl⟩ := List.getElem?_eq_some_iff.1 h
  exact List.Nodup.idxOf_getElem (by decide) n hn

theorem spells_type : Spells takeType fun t => LittleEndian.digits 4 (typeIndex t) := by
  apply (yields_take 4).bind
  rintro _ bytes ⟨hl, rfl⟩
  dsimp only
  split
  · next t ht =>
    refine .pure ⟨?_, takes_type t⟩
    rw [List.append_nil, typeIndex_of_getElem? ht, ← hl, LittleEndian.digits_value]
  · exact .throw _

theorem yields_times {m : Take α} {one : α → List UInt8} (h : Spells m one) (n : Nat) :
    Yields (takeTimes m n) fun bytes as =>
      bytes = as.flatMap one ∧ as.length = n ∧ ∀ a ∈ as, Takes m (one a) a := by
  induction n with
  | zero => exact .pure ⟨rfl, rfl, by simp⟩
  | succ n ih =>
    refine h.bind fun a ha => ?_
    apply ih.bind
    rintro _ as ⟨rfl, rfl, has⟩
    exact .pure ⟨by simp, rfl, List.forall_mem_cons.2 ⟨ha, has⟩⟩

theorem yields_list {m : Take α} {one : α → List UInt8} (h : Spells m one) :
    Yields (takeList m) fun bytes as =>
      bytes = ofList one as ∧ as.length < 2 ^ 64 ∧ ∀ a ∈ as, Takes m (one a) a := by
  apply yields_nat.bind
  rintro _ n ⟨rfl, hn⟩
  apply (yields_times h n).mono
  rintro _ as ⟨rfl, rfl, has⟩
  exact ⟨rfl, hn, has⟩

theorem takes_list_self {m : Take α} {one : α → List UInt8} {as : List α}
    (hl : as.length < 2 ^ 64) (h : ∀ a ∈ as, Takes m (one a) a) :
    Takes (takeList m) (ofList one as) as := by
  have ht : Takes (takeList m) (ofList one as) (as.map id) := takes_list hl h
  rwa [List.map_id] at ht

theorem spells_list {m : Take α} {one : α → List UInt8} (h : Spells m one) :
    Spells (takeList m) (ofList one) := by
  apply (yields_list h).mono
  rintro _ as ⟨rfl, hl, has⟩
  exact ⟨rfl, takes_list_self hl has⟩

theorem spells_field : Spells takeField ofField := by
  refine spells_string.bind fun name hn => spells_type.bind fun type ht => ?_
  refine spells_int32.bind fun id hi => spells_bool.bind fun repeated hr => ?_
  refine spells_option.bind fun customType hc => spells_nat.bind fun line hl => ?_
  refine .pure ⟨by simp [ofField], ?_⟩
  simp only [ofField, List.append_assoc]
  exact hn.bind (ht.bind (hi.bind (hr.bind (hc.bind (hl.bind_pure rfl)))))

theorem spells_message : Spells takeMessage ofMessage := by
  refine spells_string.bind fun name hn => (spells_list spells_field).bind fun fields hf => ?_
  refine spells_int32.bind fun tag ht => spells_nat.bind fun line hl => ?_
  refine .pure ⟨by simp [ofMessage], ?_⟩
  simp only [ofMessage, List.append_assoc]
  exact hn.bind (hf.bind (ht.bind (hl.bind_pure rfl)))

theorem spells_method : Spells takeMethod ofMethod := by
  refine spells_string.bind fun name hn => spells_string.bind fun request hq => ?_
  refine spells_string.bind fun response hp => spells_nat.bind fun line hl => ?_
  refine .pure ⟨by simp [ofMethod], ?_⟩
  simp only [ofMethod, List.append_assoc]
  exact hn.bind (hq.bind (hp.bind (hl.bind_pure rfl)))

theorem spells_service : Spells takeService ofService := by
  refine spells_string.bind fun name hn => (spells_list spells_method).bind fun methods hm => ?_
  refine spells_nat.bind fun line hl => ?_
  refine .pure ⟨by simp [ofService], ?_⟩
  simp only [ofService, List.append_assoc]
  exact hn.bind (hm.bind (hl.bind_pure rfl))

theorem spells_optionEntry : Spells takeOptionEntry ofOptionEntry := by
  refine spells_string.bind fun key hk => spells_string.bind fun value hv => ?_
  exact .pure ⟨by simp [ofOptionEntry], hk.bind (hv.bind_pure rfl)⟩

/-- What stands in a body: a definition, but with its options as they come. -/
structure Body where
  namespaceName : String
  messages : List Message
  services : List Service
  entries : List (String × String)

namespace Body

def bytes (b : Body) : List UInt8 :=
  ofString b.namespaceName ++ (ofList ofMessage b.messages ++
    (ofList ofService b.services ++ ofList ofOptionEntry b.entries))

def definition (b : Body) : Definition :=
  ⟨b.namespaceName, b.messages, b.services, .ofEntries b.entries⟩

def ofDefinition (d : Definition) : Body :=
  ⟨d.namespaceName, d.messages, d.services, d.options.entries⟩

structure Legible (b : Body) : Prop where
  namespaceName : Takes takeString (ofString b.namespaceName) b.namespaceName
  messages : Takes (takeList takeMessage) (ofList ofMessage b.messages) b.messages
  services : Takes (takeList takeService) (ofList ofService b.services) b.services
  count : b.entries.length < 2 ^ 64
  entries : ∀ e ∈ b.entries, Takes takeOptionEntry (ofOptionEntry e) e

end Body

theorem bytes_ofDefinition (d : Definition) : (Body.ofDefinition d).bytes = ofDefinition d := by
  simp [Body.bytes, Body.ofDefinition, ofDefinition]

theorem definition_ofDefinition (d : Definition) : (Body.ofDefinition d).definition = d := by
  rw [Body.definition, Body.ofDefinition, Options.ofEntries, Options.foldl_insert_entries]

def takeBody : Take Body :=
  return ⟨← takeString, ← takeList takeMessage, ← takeList takeService, ← takeList takeOptionEntry⟩

theorem takeDefinition_eq_ok {s rest : List UInt8} {d : Definition} :
    takeDefinition s = .ok (d, rest) ↔ ∃ b, takeBody s = .ok (b, rest) ∧ b.definition = d := by
  have h : takeDefinition = takeBody >>= fun b => pure b.definition := by
    simp only [takeDefinition, takeBody, bind_assoc, pure_bind]
    rfl
  rw [h]
  cases hb : takeBody s with
  | error fault => simp [bind_of_error hb]
  | ok taken =>
    obtain ⟨b, rest'⟩ := taken
    have hp : (pure b.definition : Take Definition) rest' = .ok (b.definition, rest') := rfl
    rw [bind_of_ok hb, hp]
    simp [and_comm]

theorem yields_body : Yields takeBody fun bytes b => bytes = b.bytes ∧ b.Legible := by
  refine spells_string.bind fun name hn => (spells_list spells_message).bind fun messages hm => ?_
  refine (spells_list spells_service).bind fun services hs => ?_
  apply (yields_list spells_optionEntry).bind
  rintro _ entries ⟨rfl, hl, he⟩
  exact .pure ⟨by simp [Body.bytes], hn, hm, hs, hl, he⟩

namespace Body.Legible

variable {b : Body}

theorem takes_entries (h : b.Legible) :
    Takes (takeList takeOptionEntry) (ofList ofOptionEntry b.entries) b.entries :=
  takes_list_self h.count h.entries

theorem takes_body (h : b.Legible) : Takes takeBody b.bytes b :=
  h.namespaceName.bind (h.messages.bind (h.services.bind (h.takes_entries.bind_pure rfl)))

theorem ofDefinition (h : b.Legible) : (Body.ofDefinition b.definition).Legible where
  namespaceName := h.namespaceName
  messages := h.messages
  services := h.services
  count := (Options.length_ofEntries_le b.entries).trans_lt h.count
  entries e he := h.entries e (Options.entries_ofEntries_subset b.entries he)

theorem bytes_eq_iff (h : b.Legible) (rest : List UInt8) :
    (Body.ofDefinition b.definition).bytes = b.bytes ++ rest ↔
      rest = [] ∧ b.entries.Pairwise fun e e' => Utf8.encode e.1 < Utf8.encode e'.1 := by
  simp only [Utf8.encode_lt_encode]
  refine ⟨fun hb => ?_, fun ⟨hr, hs⟩ => ?_⟩
  · simp only [bytes, List.append_assoc] at hb
    have he := List.append_cancel_left (List.append_cancel_left (List.append_cancel_left hb))
    have hw := h.ofDefinition.takes_entries.alone
    rw [he, h.takes_entries.whole rest] at hw
    obtain ⟨he', hr⟩ := Prod.mk.inj (Except.ok.inj hw)
    exact ⟨hr, he' ▸ (Options.ofEntries b.entries).sorted⟩
  · have he : (Body.ofDefinition b.definition).entries = b.entries := Options.entries_ofEntries hs
    rw [hr, List.append_nil, bytes, he]
    rfl

end Body.Legible

theorem sealed_inj {a b : List UInt8} : sealed a = sealed b ↔ a = b := by
  refine ⟨fun h => ?_, congrArg sealed⟩
  rw [← drop_sealed a, h, drop_sealed]

theorem take_sealed (body : List UInt8) :
    (sealed body).take 4 = magic ∧ ((sealed body).drop 4).take 2 = LittleEndian.digits 2 version ∧
      ((sealed body).drop 6).take 4 = LittleEndian.ofUInt32 (Checksum.crc32 body) := by
  simp [sealed, magic, List.take_append, List.drop_append]

theorem decode_sealed {body rest : List UInt8} {d : Definition}
    (h : takeDefinition body = .ok (d, rest)) : decode (sealed body) = .ok d := by
  obtain ⟨hm, hv, hc⟩ := take_sealed body
  have hl : ¬ (sealed body).length < headerSize := by
    simp only [sealed, magic, headerSize, List.length_append, List.length_cons,
      LittleEndian.length_digits, LittleEndian.length_ofUInt32]
    omega
  have hversion : LittleEndian.value (LittleEndian.digits 2 version) = version := by decide
  simp only [decode, hl, hm, hv, hc, drop_sealed, hversion, h]
  simp

theorem Body.Legible.decode_encode {b : Body} (h : b.Legible) :
    decode (encode b.definition) = .ok b.definition := by
  have ht := h.ofDefinition.takes_body.alone
  rw [bytes_ofDefinition] at ht
  exact decode_sealed (takeDefinition_eq_ok.2 ⟨_, ht, definition_ofDefinition _⟩)

theorem exists_body_of_decode {bytes : List UInt8} {d : Definition} (h : decode bytes = .ok d) :
    ∃ body rest, takeBody (bytes.drop headerSize) = .ok (body, rest) ∧
      bytes = sealed (body.bytes ++ rest) ∧ body.definition = d ∧ body.Legible := by
  obtain ⟨hs, rest, ht⟩ := sealed_of_decode h
  obtain ⟨body, hb, rfl⟩ := takeDefinition_eq_ok.1 ht
  obtain ⟨_, hbytes, rfl, hl⟩ := yields_body _ _ _ hb
  exact ⟨body, rest, hb, hbytes ▸ hs, rfl, hl⟩

end Snapshot

theorem Field.wrapped_eq_self {f : Field} (h : f.line < 2 ^ 64) : f.wrapped = f := by
  rw [Field.wrapped, Nat.mod_eq_of_lt h]

theorem Method.wrapped_eq_self {m : Method} (h : m.line < 2 ^ 64) : m.wrapped = m := by
  rw [Method.wrapped, Nat.mod_eq_of_lt h]

theorem Message.wrapped_eq_self {m : Message} (h : m.line < 2 ^ 64)
    (hf : ∀ f ∈ m.fields, f.line < 2 ^ 64) : m.wrapped = m := by
  have hm : m.fields.map Field.wrapped = m.fields.map id :=
    List.map_congr_left fun f hm => Field.wrapped_eq_self (hf f hm)
  rw [Message.wrapped, Nat.mod_eq_of_lt h, hm, List.map_id]

theorem Service.wrapped_eq_self {s : Service} (h : s.line < 2 ^ 64)
    (hm : ∀ m ∈ s.methods, m.line < 2 ^ 64) : s.wrapped = s := by
  have hs : s.methods.map Method.wrapped = s.methods.map id :=
    List.map_congr_left fun m hs => Method.wrapped_eq_self (hm m hs)
  rw [Service.wrapped, Nat.mod_eq_of_lt h, hs, List.map_id]

def Definition.lines (d : Definition) : List Nat :=
  d.messages.flatMap (fun m => m.line :: m.fields.map Field.line) ++
    d.services.flatMap fun s => s.line :: s.methods.map Method.line

/-- What a machine can hold: its words count the lines, and the bytes that are written. -/
structure Definition.InMemory (d : Definition) : Prop where
  lines : ∀ n ∈ d.lines, n < 2 ^ 64
  size : (Snapshot.encode d).length < 2 ^ 64

theorem Definition.wrapped_eq_self {d : Definition} (h : ∀ n ∈ d.lines, n < 2 ^ 64) :
    d.wrapped = d := by
  simp only [lines, List.forall_mem_append, List.forall_mem_flatMap, List.forall_mem_cons,
    List.forall_mem_map] at h
  have hm : d.messages.map Message.wrapped = d.messages.map id :=
    List.map_congr_left fun m hd => Message.wrapped_eq_self (h.1 m hd).1 (h.1 m hd).2
  have hs : d.services.map Service.wrapped = d.services.map id :=
    List.map_congr_left fun s hd => Service.wrapped_eq_self (h.2 s hd).1 (h.2 s hd).2
  rw [Definition.wrapped, hm, hs, List.map_id, List.map_id]

namespace Snapshot

theorem decode_encode_inMemory {d : Definition} (h : d.InMemory) : decode (encode d) = .ok d := by
  have hl : (ofDefinition d).length < 2 ^ 64 := by
    have hs := h.size
    rw [encode_eq_sealed, sealed, List.length_append] at hs
    omega
  have ht := (takes_definition hl).alone
  rw [Definition.wrapped_eq_self h.lines] at ht
  exact decode_sealed ht

/-- A definition comes back from its snapshot, and one that was read from any snapshot does so too.
The snapshot it was read from is its own exactly when no bytes follow the definition and the keys of
its options increase in the order of their bytes. -/
theorem decode_encode_iff_canonical :
    (∀ d : Definition, d.InMemory → decode (encode d) = .ok d) ∧
    ∀ (bytes : List UInt8) (d : Definition), decode bytes = .ok d →
      decode (encode d) = .ok d ∧
      ∃ body rest, takeBody (bytes.drop headerSize) = .ok (body, rest) ∧
        bytes = sealed (body.bytes ++ rest) ∧ body.definition = d ∧
        (encode d = bytes ↔
          rest = [] ∧ body.entries.Pairwise fun e e' => Utf8.encode e.1 < Utf8.encode e'.1) := by
  refine ⟨fun d h => decode_encode_inMemory h, fun bytes d h => ?_⟩
  obtain ⟨body, rest, ht, rfl, rfl, hl⟩ := exists_body_of_decode h
  refine ⟨hl.decode_encode, body, rest, ht, rfl, rfl, ?_⟩
  rw [← hl.bytes_eq_iff, bytes_ofDefinition, encode_eq_sealed]
  exact sealed_inj

def shuffled : Body :=
  ⟨"geo", [⟨"Point", [⟨"x", .map, -1, true, some "T", 3⟩], 7, 2⟩], [⟨"Map", [], 5⟩],
    [("k", "1"), ("b", "2"), ("k", "3")]⟩

theorem legible_shuffled : shuffled.Legible where
  namespaceName := takes_string (by decide)
  messages := takes_list_self (by decide) (List.forall_mem_singleton.2 (takes_message (by decide)))
  services := takes_list_self (by decide) (List.forall_mem_singleton.2 (takes_service (by decide)))
  count := by decide
  entries e he := takes_optionEntry (by revert e; decide)

theorem decode_encode_iff_canonical_shuffled :
    shuffled.definition.InMemory ∧
      decode (encode shuffled.definition) = .ok shuffled.definition ∧
      decode (sealed shuffled.bytes) = .ok shuffled.definition ∧
      encode shuffled.definition ≠ sealed shuffled.bytes := by
  have inMemory : shuffled.definition.InMemory := ⟨by decide, by decide +kernel⟩
  have ht : takeBody shuffled.bytes = .ok (shuffled, []) := legible_shuffled.takes_body.alone
  have hd : decode (sealed shuffled.bytes) = .ok shuffled.definition :=
    decode_sealed (takeDefinition_eq_ok.2 ⟨_, ht, rfl⟩)
  refine ⟨inMemory, decode_encode_iff_canonical.1 _ inMemory, hd, fun he => ?_⟩
  obtain ⟨-, body, rest, hb, -, -, hiff⟩ := decode_encode_iff_canonical.2 _ _ hd
  rw [drop_sealed, ht] at hb
  cases hb
  exact absurd (hiff.1 he).2 (by decide)

end Snapshot

end WireProtocol.Schema
