import WireProtocol.Proofs.Target.Sheets

namespace WireProtocol.Target.CSharp

open Code (Encloses Prints)
open Schema (Definition)

def heads : List (String × Part) :=
  [("public const string TypeName = ", .typeName), ("public const int TypeTag = ", .typeTag),
    ("public const int FieldCount = ", .fieldCount), ("public const int MaskWords = ", .maskWords),
    ("public void Write(", .writing)]

def writes : List (String × String) :=
  [("WriteInt32", "int32"), ("WriteInt64", "int64"), ("WriteSingle", "float"),
    ("WriteDouble", "double"), ("WriteBool", "bool"), ("WriteString", "string"),
    ("WriteVector3", "vector3"), ("WriteDateTime", "datetime"), ("WriteObject", "struct")]

def reads : List (String × String) :=
  [("ReadInt32", "int32"), ("ReadInt64", "int64"), ("ReadSingle", "float"),
    ("ReadDouble", "double"), ("ReadBool", "bool"), ("ReadString", "string"),
    ("ReadVector3", "vector3"), ("ReadDateTime", "datetime"), ("ReadObject", "struct")]

def dialect : Dialect where
  heads message := heads ++ [("public " ++ message ++ " " ++ "Read(", .reading)]
  testing := .writing
  subject := "value"
  set := ["mask", "Set"]
  isSet := ["mask", "IsSet"]
  writes := writes
  reads := reads

theorem lookup_writes {type : Schema.FieldType} (h : type ≠ .list ∧ type ≠ .map) :
    writes.lookup ("Write" ++ wireMethod type) = some type.name := by
  cases type <;> first | rfl | simp at h

theorem lookup_reads {type : Schema.FieldType} (h : type ≠ .list ∧ type ≠ .map) :
    reads.lookup ("Read" ++ wireMethod type) = some type.name := by
  cases type <;> first | rfl | simp at h

theorem named_wireMethod (type : Schema.FieldType) : Named (wireMethod type) := by
  cases type <;> decide

section

variable {f : Schema.Field} (hf : Typed f)

include hf

theorem named_member : Named (mapping.fieldName f.name) := .pascalCase hf.name

theorem flat_member : '\n' ∉ (member f).toList := by simp [member, (named_member hf).flat]

theorem stands_member : Stands (member f) := .append (by decide) (named_member hf).flat

theorem flat_presence : '\n' ∉ (presence f).toList := by
  have hm := flat_member hf
  unfold presence
  cases f.repeated <;> cases f.type <;> simp [hm]

theorem finds_markField (depth bit : Nat) : Finds dialect.item? depth (markField bit f)
    [(.test (toString bit) [mapping.fieldName f.name], [])] := by
  have hm := named_member hf
  have hp := flat_presence hf
  have hb := Named.toString bit
  unfold markField
  generalize toString bit = bit at hb ⊢
  refine .line ((((Stands.append (by decide) hp).append (by decide)).append hb.flat).append
    (by decide)) ?_
  unfold presence member
  cases f.repeated with
  | true =>
    simp (disch := decide) [Dialect.item?, dialect, List.filterMap_cons, mentionsFrom_name hm,
      mentionsFrom_name hb]
  | false =>
    cases f.type <;>
      simp (disch := decide) [Dialect.item?, dialect, List.filterMap_cons, mentionsFrom_name hm,
        mentionsFrom_name hb]

theorem handles_writeField : Handles dialect dialect.writes (writeField f)
    (mapping.fieldName f.name) (wireKinds f) := by
  have hm := named_member hf
  have hcall : "writer.Write" ++ wireMethod f.type =
      "writer." ++ ("Write" ++ wireMethod f.type) := by
    rw [← String.append_assoc]
    rfl
  have hwrite : Named ("Write" ++ wireMethod f.type) :=
    .append (by decide) (named_wireMethod f.type)
  have hkind := lookup_writes hf.type
  have hother : writes.lookup "WriteInt32" = some "int32" ∧ writes.lookup "" = none := ⟨rfl, rfl⟩
  unfold writeField wireKinds
  rw [hcall]
  generalize "Write" ++ wireMethod f.type = write at hwrite hkind ⊢
  have hstart : Stands ("writer." ++ write) := .append (by decide) hwrite.flat
  cases f.repeated with
  | false =>
    refine .of_prints (.one (((hstart.append (by decide)).append (flat_member hf)).append
      (by decide))) ?member ?kind
    all_goals
      simp (disch := decide) [dialect, List.filterMap_cons, member, mentionsFrom_name hm,
        mentionsFrom_name hwrite, hkind]
  | true =>
    have hcount : Stands ("writer.WriteInt32(" ++ member f ++ ".Count);") :=
      .append (.append (by decide) (flat_member hf)) (by decide)
    have heach : Stands ("foreach (var item in " ++ member f ++ ")") :=
      .append (.append (by decide) (flat_member hf)) (by decide)
    have hitem : Stands ("writer." ++ write ++ "(item);") := hstart.append (by decide)
    have hloop : Encloses (brace _ _) _ _ _ := .brace heach (.one hitem.flush)
    dsimp only
    rw [if_pos rfl, if_pos rfl]
    have hp := (Prints.one hcount).append (.enclosed hloop (.one hitem))
    refine .of_prints hp ?_ ?_
    all_goals
      simp (disch := decide) [dialect, List.filterMap_cons, member, mentionsFrom_name hm,
        mentionsFrom_name hwrite, hkind, hother, Schema.FieldType.name]

theorem named_elementType : Named (mapping.elementType f) := by
  have hscalar : ∀ type, Named (scalarType type) := fun type => by cases type <;> decide
  rw [Mapping.elementType]
  split
  · next type _ hc =>
    have ht := Named.of_isIdentifier (hf.customName type hc)
    split <;> exact ht
  · exact hscalar _

theorem readCall_eq : (∃ type, Named type ∧ f.type = .struct ∧
      readCall f = "reader.ReadObject<" ++ type ++ ">()") ∨
    readCall f = "reader." ++ ("Read" ++ wireMethod f.type) ++ "()" := by
  unfold readCall
  split
  · next type ht hc =>
    exact .inl ⟨type, .of_isIdentifier (hf.customName type hc), ht, rfl⟩
  · refine .inr ?_
    rw [← String.append_assoc]
    rfl

theorem flat_readCall : '\n' ∉ (readCall f).toList := by
  rcases readCall_eq hf with ⟨type, ht, -, h⟩ | h <;> rw [h]
  · simp [ht.flat]
  · simp [(named_wireMethod f.type).flat]

theorem handles_readField : Handles dialect dialect.reads (readField f)
    (mapping.fieldName f.name) (wireKinds f) := by
  have hm := named_member hf
  have he := named_elementType hf
  have hc := flat_readCall hf
  have hread : Named ("Read" ++ wireMethod f.type) :=
    .append (by decide) (named_wireMethod f.type)
  have hkind := lookup_reads hf.type
  have hother : reads.lookup "ReadInt32" = some "int32" ∧
      reads.lookup "ReadObject" = some "struct" ∧ reads.lookup "" = none ∧
      reads.lookup "List" = none ∧ reads.lookup "Add" = none :=
    ⟨rfl, rfl, rfl, rfl, rfl⟩
  have hshape := readCall_eq hf
  unfold readField wireKinds
  generalize "Read" ++ wireMethod f.type = read at hread hkind hshape
  cases f.repeated with
  | false =>
    have hline : Stands (member f ++ " = " ++ readCall f ++ ";") :=
      (((stands_member hf).append (by decide)).append hc).append (by decide)
    rw [if_neg Bool.false_ne_true, if_neg Bool.false_ne_true]
    rcases hshape with ⟨type, ht, htype, h⟩ | h
    · refine .of_prints (.one hline) ?_ ?_ <;>
        simp (disch := decide) [dialect, List.filterMap_cons, member, mentionsFrom_name hm, h,
          htype, mentionsFrom_name ht, hother, Schema.FieldType.name]
    · refine .of_prints (.one hline) ?_ ?_ <;>
        simp (disch := decide) [dialect, List.filterMap_cons, member, mentionsFrom_name hm, h,
          mentionsFrom_name hread, hkind]
  | true =>
    have hlist : Stands (member f ++ " = new List<" ++ mapping.elementType f ++ ">(count);") :=
      (((stands_member hf).append (by decide)).append he.flat).append (by decide)
    have hitem : Stands (member f ++ ".Add(" ++ readCall f ++ ");") :=
      (((stands_member hf).append (by decide)).append hc).append (by decide)
    have hcount : Stands "var count = reader.ReadInt32();" := by decide
    have hloop : Encloses (brace "for (var i = 0; i < count; i++)" _) _ _ _ :=
      .brace (by decide) (.one hitem.flush)
    have hp := ((Prints.one hcount).append (.one hlist)).append (.enclosed hloop (.one hitem))
    rw [if_pos rfl, if_pos rfl]
    rcases hshape with ⟨type, ht, htype, h⟩ | h
    · refine .of_prints hp ?_ ?_ <;>
        simp (disch := decide) [dialect, List.filterMap_cons, member, mentionsFrom_name hm, h,
          htype, mentionsFrom_name ht, mentionsFrom_name he, hother, Schema.FieldType.name]
    · refine .of_prints hp ?_ ?_ <;>
        simp (disch := decide) [dialect, List.filterMap_cons, member, mentionsFrom_name hm, h,
          mentionsFrom_name hread, mentionsFrom_name he, hkind, hother, Schema.FieldType.name]

omit hf in
theorem finds_guarded {body : Schema.Field → Code} (h : (body f).Level) (depth bit : Nat) :
    Finds dialect.item? depth (guarded body bit f)
      [(.guard (toString bit), (body f).laid (depth + 1))] := by
  have hb := Named.toString bit
  unfold guarded
  generalize toString bit = bit at hb ⊢
  refine .enclosed (.brace ((Stands.append (by decide) hb.flat).append (by decide)) h) ?_
    (by decide)
  simp (disch := decide) [Dialect.item?, dialect, mentionsFrom_name hb]

end

theorem finds_withMask {body : Code} {depth : Nat} {found : List (Item × List (Nat × String))}
    (h : Finds dialect.item? (depth + 1) body found) :
    Finds dialect.item? depth (withMask body) found := by
  have acquire : Finds dialect.item? depth
      (.one "var mask = MaskPool.Shared.Acquire(MaskWords);") [] :=
    .idle (by decide) (by decide)
  have attempt : Finds dialect.item? depth (brace "try" body) found :=
    .inside (.brace (by decide) h.level) (by decide) (by decide) h
  have release : Finds dialect.item? depth
      (brace "finally" (.one "MaskPool.Shared.Release(mask);")) [] :=
    .inside (.brace (by decide) (.one (by decide))) (by decide) (by decide)
      (.idle (by decide) (by decide))
  exact ((acquire.append attempt).append release).of_eq (by simp)

section

variable {name : String}

theorem starts_other {t : String} (h : Starts heads t none) (hp : Diverges "public " t) :
    Starts (dialect.heads name) t none := h.apart hp

theorem starts_word {word t : String} (hn : ' ' ∉ name.toList) (hw : ' ' ∉ word.toList)
    (h : Starts heads ("public " ++ word ++ " " ++ t) none) (ht : Diverges "Read(" t) :
    Starts (dialect.heads name) ("public " ++ word ++ " " ++ t) none := h.word hn hw ht

theorem part?_read (hn : ' ' ∉ name.toList) : part? (dialect.heads name)
    ("public " ++ name ++ " Read(WireReader reader)") = some (.reading, "WireReader reader)") := by
  have hline : "public " ++ name ++ " Read(WireReader reader)" =
      "public " ++ name ++ " " ++ ("Read(" ++ "WireReader reader)") := by
    rw [@String.append_assoc _ " " _]
    rfl
  rw [hline]
  refine part?_word hn _ ?_
  simp only [heads, List.forall_mem_cons]
  exact ⟨⟨"const", "string TypeName = ", by decide⟩, ⟨"const", "int TypeTag = ", by decide⟩,
    ⟨"const", "int FieldCount = ", by decide⟩, ⟨"const", "int MaskWords = ", by decide⟩,
    ⟨"void", "Write(", by decide⟩, List.forall_mem_nil _⟩

end

theorem finds_opening {d : Definition} {o : Options} {last : Nat} (hw : d.WellFormed last)
    (name : String) {usings : List String} (h : ∀ u ∈ usings, '\n' ∉ u.toList) :
    Finds (part? (dialect.heads name)) 0 (opening (cSharp.context d o) usings) [] := by
  have generated : Starts (dialect.heads name) "// <auto-generated />" none :=
    starts_other (.literal (by decide)) (by decide)
  have comment : Starts (dialect.heads name) "//" none :=
    starts_other (.literal (by decide)) (by decide)
  have use : Starts (dialect.heads name) "using " none :=
    starts_other (.literal (by decide)) (by decide)
  have each : Finds (part? (dialect.heads name)) 0
      (.each usings fun u => .one ("using " ++ u ++ ";")) [] :=
    .concat_idle fun u hu => .other ((use.append (h u hu)).append (by decide))
  exact (((Finds.other generated).append (.banner hw comment)).append .blank).append
    (.onlyIf _ (each.append .blank))

theorem newline_notMem_mapped {d : Definition} {last : Nat} (hw : d.WellFormed last) :
    '\n' ∉ (mapping.namespaceName d.namespaceName).toList := by
  have hparts : '\n' ∉ (String.intercalate "." ((nameParts d.namespaceName).map
      Text.pascalCase)).toList :=
    newline_notMem_mapParts hw (by decide) fun hp => (Named.pascalCase hp).flat
  rw [mapping]
  dsimp only
  split
  · decide
  · exact hparts

section

variable {m : Schema.Message} (hf : ∀ f ∈ m.fields, Typed f)

include hf

theorem finds_writing : Finds dialect.item? 3 (withMask (.numbered m.fields markField ++
    .one "writer.WriteMask(mask);" ++ .numbered m.fields (guarded writeField)))
    (tested (fun f => mapping.fieldName f.name) m.fields ++ [] ++
      handled 5 writeField m.fields) :=
  finds_withMask (((Finds.numbered fun f hmem i => finds_markField (hf f hmem) 4 i).append
    (.idle (by decide) (by decide))).append
    (.numbered fun f hmem i => finds_guarded (handles_writeField (hf f hmem)).level 4 i))

theorem finds_reading (hname : Named m.name) :
    Finds dialect.item? 3 (withMask (.one "reader.ReadMask(mask);" ++
      .one ("var value = new " ++ m.name ++ "();") ++ .numbered m.fields (guarded readField) ++
      .one "return value;")) ([] ++ [] ++ handled 5 readField m.fields ++ []) := by
  refine finds_withMask ((((Finds.idle (by decide) (by decide)).append (.idle ?_ ?_)).append
    (.numbered fun f hmem i => finds_guarded (handles_readField (hf f hmem)).level 4 i)).append
    (.idle (by decide) (by decide)))
  · exact .append (.append (by decide) hname.flat) (by decide)
  · simp (disch := decide) [Dialect.item?, dialect, mentionsFrom_name hname]

end

theorem read_serializer {d : Definition} {o : Options} {last : Nat} (hw : d.WellFormed last)
    (hs : '\n' ∉ (cSharp.context d o).namespaceName.toList) {m : Schema.Message}
    (hm : m ∈ d.messages) (hf : ∀ f ∈ m.fields, Typed f) :
    dialect.read m.name (serializer (cSharp.context d o) m).contents =
      .ofMessage (fun f => mapping.fieldName f.name) wireKinds [toString m.maskWords ++ ";"] d m :=
    by
  have hname := Named.of_isIdentifier (hw.messages m hm).name
  have hspace := space_notMem_of_isIdentifier (hw.messages m hm).name
  have hserializer : '\n' ∉ (m.name ++ "Serializer").toList := by simp [hname.flat]
  have hqualified : '\n' ∉ (d.qualifiedName m.name).toList := newline_notMem_qualifiedName hw hm
  have htag := newline_notMem_int32 m.typeTag
  have hcount := (Named.toString m.fields.length).flat
  have hwords := (Named.toString m.maskWords).flat
  have writing := finds_writing hf
  have reading := finds_reading hf hname
  have closing : part? (dialect.heads m.name) "\x7d" = none :=
    (starts_other (.literal (by decide)) (by decide)).found
  have space : Starts (dialect.heads m.name) "namespace " none :=
    starts_other (.literal (by decide)) (by decide)
  have sealed : Starts (dialect.heads m.name) ("public " ++ "sealed" ++ " " ++ "class ") none :=
    starts_word hspace (by decide) (.literal (by decide)) (by decide)
  have readonly : Starts (dialect.heads m.name)
      ("public " ++ "static" ++ " " ++ "readonly ") none :=
    starts_word hspace (by decide) (.literal (by decide)) (by decide)
  have typeName : Starts (dialect.heads m.name) "public const string TypeName = \""
      (some (.typeName, "\"")) := .concat_some (.literal (by decide)) _
  have typeTag : Starts (dialect.heads m.name) "public const int TypeTag = "
      (some (.typeTag, "")) := .concat_some (.literal (by decide)) _
  have fieldCount : Starts (dialect.heads m.name) "public const int FieldCount = "
      (some (.fieldCount, "")) := .concat_some (.literal (by decide)) _
  have maskWords : Starts (dialect.heads m.name) "public const int MaskWords = "
      (some (.maskWords, "")) := .concat_some (.literal (by decide)) _
  have write : Starts (dialect.heads m.name) "public void Write(" (some (.writing, "")) :=
    .concat_some (.literal (by decide)) _
  have read : Stands ("public " ++ m.name ++ " Read(WireReader reader)") :=
    .append (.append (by decide) hname.flat) (by decide)
  refine Dialect.read_render ((finds_opening hw m.name (by decide)).append
    (.within_brace (((space.append hs).append (by decide)).append (by decide)) closing
      (.within_brace ((((sealed.append hserializer).append (by decide)).append hname.flat).append
          (by decide)) closing
        (.append (.append (.append (.append (.append (.append (.append (.append (.append
          (.entry ((typeName.more hqualified).more (by decide)))
          (.entry ((typeTag.more htag).more (by decide))))
          (.entry ((fieldCount.more hcount).more (by decide))))
          (.entry ((maskWords.more hwords).more (by decide))))
          .blank)
          (.other ((((readonly.append hserializer).append (by decide)).append hserializer).append
            (by decide))))
          .blank)
          (.headed_brace ((write.more hname.flat).more (by decide)) writing.level closing))
          .blank)
          (.enclosed (.brace read reading.level) (part?_read hspace) closing))))) ?_
  have htesting : dialect.testing = .writing := rfl
  have hwrites := filterMap_guard?_handled 5 fun f hmem => handles_writeField (hf f hmem)
  have hreads := filterMap_guard?_handled 5 fun f hmem => handles_readField (hf f hmem)
  simp [Dialect.sheet, Sheet.ofMessage, htesting, writing.found, reading.found, hwrites, hreads]

end WireProtocol.Target.CSharp
