import WireProtocol.Proofs.Target.Sheets

namespace WireProtocol.Target.Cpp

open Code (Encloses Prints)
open Schema (Definition)

def heads : List (String × Part) :=
  [("static constexpr const char* kTypeName = ", .typeName),
    ("static constexpr std::int32_t kTypeTag = ", .typeTag),
    ("static constexpr std::size_t kFieldCount = ", .fieldCount),
    ("static constexpr std::size_t kMaskWords = ", .maskWords), ("static void write(", .writing)]

def writes : List (String × String) :=
  [("write_int32", "int32"), ("write_int64", "int64"), ("write_float", "float"),
    ("write_double", "double"), ("write_bool", "bool"), ("write_string", "string"),
    ("write_vector3", "vector3"), ("write_timestamp", "datetime"), ("write_object", "struct")]

def reads : List (String × String) :=
  [("read_int32", "int32"), ("read_int64", "int64"), ("read_float", "float"),
    ("read_double", "double"), ("read_bool", "bool"), ("read_string", "string"),
    ("read_vector3", "vector3"), ("read_timestamp", "datetime"), ("read_object", "struct")]

def dialect : Dialect where
  heads message := heads ++ [("static " ++ message ++ " " ++ "read(", .reading)]
  testing := .writing
  subject := "value"
  set := ["mask", "set"]
  isSet := ["mask", "is_set"]
  writes := writes
  reads := reads

theorem lookup_writes {type : Schema.FieldType} (h : type ≠ .list ∧ type ≠ .map) :
    writes.lookup ("write_" ++ wireMethod type) = some type.name := by
  cases type <;> first | rfl | simp at h

theorem lookup_reads {type : Schema.FieldType} (h : type ≠ .list ∧ type ≠ .map) :
    reads.lookup ("read_" ++ wireMethod type) = some type.name := by
  cases type <;> first | rfl | simp at h

theorem named_wireMethod (type : Schema.FieldType) : Named (wireMethod type) := by
  cases type <;> decide

section

variable {f : Schema.Field} (hf : Typed f)

include hf

theorem named_member : Named (mapping.fieldName f.name) := .snakeCase hf.name

theorem flat_member : '\n' ∉ (member f).toList := by simp [member, (named_member hf).flat]

theorem stands_member : Stands (member f) := .append (by decide) (named_member hf).flat

theorem flat_presence : '\n' ∉ (presence f).toList := by
  have hm := flat_member hf
  unfold presence
  cases f.repeated <;> cases f.type <;> simp [hm]

theorem finds_markField (depth bit : Nat) : Finds dialect.item? depth (markField bit f)
    [(.test (toString bit) [mapping.fieldName f.name], [])] := by
  have hm := named_member hf
  have hp := flat_presence hf
  have hb := Named.toString bit
  unfold markField
  generalize toString bit = bit at hb ⊢
  refine .line ((((Stands.append (by decide) hp).append (by decide)).append hb.flat).append
    (by decide)) ?_
  unfold presence member
  cases f.repeated with
  | true =>
    simp (disch := decide) [Dialect.item?, dialect, List.filterMap_cons, mentionsFrom_name hm,
      mentionsFrom_name hb]
  | false =>
    cases f.type <;>
      simp (disch := decide) [Dialect.item?, dialect, List.filterMap_cons, mentionsFrom_name hm,
        mentionsFrom_name hb]

theorem handles_writeField : Handles dialect dialect.writes (writeField f)
    (mapping.fieldName f.name) (wireKinds f) := by
  have hm := named_member hf
  have hcall : "writer.write_" ++ wireMethod f.type =
      "writer." ++ ("write_" ++ wireMethod f.type) := by
    rw [← String.append_assoc]
    rfl
  have hwrite : Named ("write_" ++ wireMethod f.type) :=
    .append (by decide) (named_wireMethod f.type)
  have hkind := lookup_writes hf.type
  have hother : writes.lookup "write_int32" = some "int32" ∧ writes.lookup "" = none ∧
      writes.lookup "static_cast" = none ∧ writes.lookup "std" = none ∧
      writes.lookup "size" = none := ⟨rfl, rfl, rfl, rfl, rfl⟩
  unfold writeField wireKinds
  rw [hcall]
  generalize "write_" ++ wireMethod f.type = write at hwrite hkind ⊢
  have hstart : Stands ("writer." ++ write) := .append (by decide) hwrite.flat
  cases f.repeated with
  | false =>
    have hline : Stands ("writer." ++ write ++ "(" ++ member f ++ ");") :=
      ((hstart.append (by decide)).append (flat_member hf)).append (by decide)
    dsimp only
    rw [if_neg Bool.false_ne_true, if_neg Bool.false_ne_true]
    refine .of_prints (.one hline) ?_ ?_ <;>
      simp (disch := decide) [dialect, List.filterMap_cons, member, mentionsFrom_name hm,
        mentionsFrom_name hwrite, hkind]
  | true =>
    have hcount : Stands
        ("writer.write_int32(static_cast<std::int32_t>(" ++ member f ++ ".size()));") :=
      .append (.append (by decide) (flat_member hf)) (by decide)
    have heach : Stands ("for (const auto& item : " ++ member f ++ ")") :=
      .append (.append (by decide) (flat_member hf)) (by decide)
    have hitem : Stands ("writer." ++ write ++ "(item);") := hstart.append (by decide)
    have hloop : Encloses (.braced _ _) _ _ _ := .braced heach (.one hitem.flush)
    have hp := (Prints.one hcount).append (.enclosed hloop (.one hitem))
    dsimp only
    rw [if_pos rfl, if_pos rfl]
    refine .of_prints hp ?_ ?_ <;>
      simp (disch := decide) [dialect, List.filterMap_cons, member, mentionsFrom_name hm,
        mentionsFrom_name hwrite, hkind, hother, Schema.FieldType.name]

theorem readCall_eq : (∃ type, Named type ∧ f.type = .struct ∧
      readCall f = "reader.read_object<" ++ type ++ ">()") ∨
    readCall f = "reader." ++ ("read_" ++ wireMethod f.type) ++ "()" := by
  unfold readCall
  split
  · next type ht hc =>
    exact .inl ⟨type, .of_isIdentifier (hf.customName type hc), ht, rfl⟩
  · refine .inr ?_
    rw [← String.append_assoc]
    rfl

theorem flat_readCall : '\n' ∉ (readCall f).toList := by
  rcases readCall_eq hf with ⟨type, ht, -, h⟩ | h <;> rw [h]
  · simp [ht.flat]
  · simp [(named_wireMethod f.type).flat]

theorem handles_readField : Handles dialect dialect.reads (readField f)
    (mapping.fieldName f.name) (wireKinds f) := by
  have hm := named_member hf
  have hc := flat_readCall hf
  have hread : Named ("read_" ++ wireMethod f.type) :=
    .append (by decide) (named_wireMethod f.type)
  have hkind := lookup_reads hf.type
  have hother : reads.lookup "read_int32" = some "int32" ∧
      reads.lookup "read_object" = some "struct" ∧ reads.lookup "" = none ∧
      reads.lookup "std" = none ∧ reads.lookup "reserve" = none ∧
      reads.lookup "push_back" = none := ⟨rfl, rfl, rfl, rfl, rfl, rfl⟩
  have hshape := readCall_eq hf
  unfold readField wireKinds
  generalize "read_" ++ wireMethod f.type = read at hread hkind hshape
  cases f.repeated with
  | false =>
    have hline : Stands (member f ++ " = " ++ readCall f ++ ";") :=
      (((stands_member hf).append (by decide)).append hc).append (by decide)
    rw [if_neg Bool.false_ne_true, if_neg Bool.false_ne_true]
    rcases hshape with ⟨type, ht, htype, h⟩ | h
    · refine .of_prints (.one hline) ?_ ?_ <;>
        simp (disch := decide) [dialect, List.filterMap_cons, member, mentionsFrom_name hm, h,
          htype, mentionsFrom_name ht, hother, Schema.FieldType.name]
    · refine .of_prints (.one hline) ?_ ?_ <;>
        simp (disch := decide) [dialect, List.filterMap_cons, member, mentionsFrom_name hm, h,
          mentionsFrom_name hread, hkind]
  | true =>
    have hcount : Stands "const std::int32_t count = reader.read_int32();" := by decide
    have hlist : Stands (member f ++ ".reserve(count);") := (stands_member hf).append (by decide)
    have hitem : Stands (member f ++ ".push_back(" ++ readCall f ++ ");") :=
      (((stands_member hf).append (by decide)).append hc).append (by decide)
    have hloop : Encloses (.braced "for (std::int32_t i = 0; i < count; ++i)" _) _ _ _ :=
      .braced (by decide) (.one hitem.flush)
    have hp := ((Prints.one hcount).append (.one hlist)).append (.enclosed hloop (.one hitem))
    rw [if_pos rfl, if_pos rfl]
    rcases hshape with ⟨type, ht, htype, h⟩ | h
    · refine .of_prints hp ?_ ?_ <;>
        simp (disch := decide) [dialect, List.filterMap_cons, member, mentionsFrom_name hm, h,
          htype, mentionsFrom_name ht, hother, Schema.FieldType.name]
    · refine .of_prints hp ?_ ?_ <;>
        simp (disch := decide) [dialect, List.filterMap_cons, member, mentionsFrom_name hm, h,
          mentionsFrom_name hread, hkind, hother, Schema.FieldType.name]

omit hf in
theorem finds_guarded {body : Schema.Field → Code} (h : (body f).Level) (depth bit : Nat) :
    Finds dialect.item? depth (guarded body bit f)
      [(.guard (toString bit), (body f).laid (depth + 1))] := by
  have hb := Named.toString bit
  unfold guarded
  generalize toString bit = bit at hb ⊢
  refine .enclosed (.braced ((Stands.append (by decide) hb.flat).append (by decide)) h) ?_
    (by decide)
  simp (disch := decide) [Dialect.item?, dialect, mentionsFrom_name hb]

end

section

variable {name : String}

theorem starts_other {t : String} (h : Starts heads t none) (hp : Diverges "static " t) :
    Starts (dialect.heads name) t none := h.apart hp

theorem part?_read (hn : ' ' ∉ name.toList) : part? (dialect.heads name)
    ("static " ++ name ++ " read(pdlkit::WireReader& reader)" ++ " \x7b") =
      some (.reading, "pdlkit::WireReader& reader) \x7b") := by
  have hline : "static " ++ name ++ " read(pdlkit::WireReader& reader)" ++ " \x7b" =
      "static " ++ name ++ " " ++ ("read(" ++ "pdlkit::WireReader& reader) \x7b") := by
    rw [@String.append_assoc _ " " _, @String.append_assoc _ _ " \x7b"]
    rfl
  rw [hline]
  refine part?_word hn _ ?_
  simp only [heads, List.forall_mem_cons]
  exact ⟨⟨"constexpr", "const char* kTypeName = ", by decide⟩,
    ⟨"constexpr", "std::int32_t kTypeTag = ", by decide⟩,
    ⟨"constexpr", "std::size_t kFieldCount = ", by decide⟩,
    ⟨"constexpr", "std::size_t kMaskWords = ", by decide⟩,
    ⟨"void", "write(", by decide⟩, List.forall_mem_nil _⟩

end

theorem finds_opening {d : Definition} {o : Options} {last : Nat} (hw : d.WellFormed last)
    (name : String) {includes : List String} (h : ∀ i ∈ includes, '\n' ∉ i.toList) :
    Finds (part? (dialect.heads name)) 0 (opening (cpp.context d o) includes) [] := by
  have comment : Starts (dialect.heads name) "//" none :=
    starts_other (.literal (by decide)) (by decide)
  have once : Starts (dialect.heads name) "#pragma once" none :=
    starts_other (.literal (by decide)) (by decide)
  have inclusion : Starts (dialect.heads name) "#include " none :=
    starts_other (.literal (by decide)) (by decide)
  have each : Finds (part? (dialect.heads name)) 0
      (.each includes fun i => if i.isEmpty then .blank else .one ("#include " ++ i)) [] :=
    .concat_idle fun i hi => by
      split
      · exact .blank
      · exact .other (inclusion.append (h i hi))
  exact (((((Finds.banner hw comment).append .blank).append (.other once)).append .blank).append
    each).append .blank

theorem finds_classBraced {name head : String} (hh : Starts (dialect.heads name) head none)
    {depth : Nat} {body : Code} {found : List ((Part × String) × List (Nat × String))}
    (hb : Finds (part? (dialect.heads name)) (depth + 1) body found) :
    Finds (part? (dialect.heads name)) depth (classBraced head body) found := by
  have closing : Starts (dialect.heads name) "\x7d;" none :=
    starts_other (.literal (by decide)) (by decide)
  exact .inside (.within (hh.stands.append (by decide)) (by decide) hb.level)
    (hh.append (by decide)).found closing.found hb

theorem newline_notMem_mapped {d : Definition} {last : Nat} (hw : d.WellFormed last) :
    '\n' ∉ (mapping.namespaceName d.namespaceName).toList := by
  have hparts : '\n' ∉ (String.intercalate "::" ((nameParts d.namespaceName).map
      Text.snakeCase)).toList :=
    newline_notMem_mapParts hw (by decide) fun hp => (Named.snakeCase hp).flat
  rw [mapping]
  dsimp only
  split
  · decide
  · exact hparts

section

variable {m : Schema.Message} (hf : ∀ f ∈ m.fields, Typed f)

include hf

theorem finds_writing : Finds dialect.item? 2 (.one "pdlkit::PooledMask mask(kMaskWords);" ++
    .numbered m.fields markField ++ .one "writer.write_mask(mask);" ++
    .numbered m.fields (guarded writeField))
    ([] ++ tested (fun f => mapping.fieldName f.name) m.fields ++ [] ++
      handled 3 writeField m.fields) :=
  (((Finds.idle (by decide) (by decide)).append
    (.numbered fun f hmem i => finds_markField (hf f hmem) 2 i)).append
    (.idle (by decide) (by decide))).append
    (.numbered fun f hmem i => finds_guarded (handles_writeField (hf f hmem)).level 2 i)

theorem finds_reading (hi : Text.isIdentifier m.name.toList = true) :
    Finds dialect.item? 2 (.one "pdlkit::PooledMask mask(kMaskWords);" ++
      .one "reader.read_mask(mask);" ++ .one (m.name ++ " value;") ++
      .numbered m.fields (guarded readField) ++ .one "return value;")
      ([] ++ [] ++ [] ++ handled 3 readField m.fields ++ []) := by
  have hvalue : dialect.item? (m.name ++ " value;") = none := by
    simp (disch := decide) [Dialect.item?, dialect, mentionsFrom_name (.of_isIdentifier hi)]
  exact ((((Finds.idle (by decide) (by decide)).append (.idle (by decide) (by decide))).append
    (.idle ((stands_of_isIdentifier hi).append (by decide)) hvalue)).append
    (.numbered fun f hmem i => finds_guarded (handles_readField (hf f hmem)).level 2 i)).append
    (.idle (by decide) (by decide))

end

theorem read_serializer {d : Definition} {o : Options} {last : Nat} (hw : d.WellFormed last)
    (hs : '\n' ∉ (cpp.context d o).namespaceName.toList) {m : Schema.Message}
    (hm : m ∈ d.messages) (hf : ∀ f ∈ m.fields, Typed f) :
    dialect.read m.name (serializer (cpp.context d o) m).contents =
      .ofMessage (fun f => mapping.fieldName f.name) wireKinds [toString m.maskWords ++ ";"] d m :=
    by
  have hname := Named.of_isIdentifier (hw.messages m hm).name
  have hspace := space_notMem_of_isIdentifier (hw.messages m hm).name
  have hsub : '\n' ∉ ((cpp.context d o).namespaceName ++ "::" ++ "serialization").toList := by
    simp [hs]
  have hqualified : '\n' ∉ (d.qualifiedName m.name).toList := newline_notMem_qualifiedName hw hm
  have htag := newline_notMem_int32 m.typeTag
  have hcount := (Named.toString m.fields.length).flat
  have hwords := (Named.toString m.maskWords).flat
  have writing := finds_writing hf
  have reading := finds_reading hf (hw.messages m hm).name
  have closing : part? (dialect.heads m.name) "\x7d" = none :=
    (starts_other (.literal (by decide)) (by decide)).found
  have space : Starts (dialect.heads m.name) "namespace " none :=
    starts_other (.literal (by decide)) (by decide)
  have comment : Starts (dialect.heads m.name) "\x7d  // namespace " none :=
    starts_other (.literal (by decide)) (by decide)
  have record : Starts (dialect.heads m.name) "struct " none :=
    starts_other (.literal (by decide)) (by decide)
  have typeName : Starts (dialect.heads m.name) "static constexpr const char* kTypeName = \""
      (some (.typeName, "\"")) := .concat_some (.literal (by decide)) _
  have typeTag : Starts (dialect.heads m.name) "static constexpr std::int32_t kTypeTag = "
      (some (.typeTag, "")) := .concat_some (.literal (by decide)) _
  have fieldCount : Starts (dialect.heads m.name) "static constexpr std::size_t kFieldCount = "
      (some (.fieldCount, "")) := .concat_some (.literal (by decide)) _
  have maskWords : Starts (dialect.heads m.name) "static constexpr std::size_t kMaskWords = "
      (some (.maskWords, "")) := .concat_some (.literal (by decide)) _
  have write : Starts (dialect.heads m.name) "static void write(const "
      (some (.writing, "const ")) := .concat_some (.literal (by decide)) _
  have read : Stands ("static " ++ m.name ++ " read(pdlkit::WireReader& reader)") :=
    .append (.append (by decide) hname.flat) (by decide)
  refine Dialect.read_render ((finds_opening hw m.name (by decide)).append
    (.append (.append (.append (.append
      (.other ((space.append hsub).append (by decide)))
      .blank)
      (finds_classBraced ((record.append hname.flat).append (by decide))
        (.append (.append (.append (.append (.append (.append (.append
          (.entry ((typeName.more hqualified).more (by decide)))
          (.entry ((typeTag.more htag).more (by decide))))
          (.entry ((fieldCount.more hcount).more (by decide))))
          (.entry ((maskWords.more hwords).more (by decide))))
          .blank)
          (.headed ((write.more hname.flat).more (by decide)) writing.level closing))
          .blank)
          (.enclosed (.braced read reading.level) (part?_read hspace) closing))))
      .blank)
      (.other (comment.append hsub)))) ?_
  have htesting : dialect.testing = .writing := rfl
  have hwrites := filterMap_guard?_handled 3 fun f hmem => handles_writeField (hf f hmem)
  have hreads := filterMap_guard?_handled 3 fun f hmem => handles_readField (hf f hmem)
  simp [Dialect.sheet, Sheet.ofMessage, htesting, writing.found, reading.found, hwrites, hreads]

end WireProtocol.Target.Cpp
