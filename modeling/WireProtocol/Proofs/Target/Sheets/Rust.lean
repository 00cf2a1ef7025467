import WireProtocol.Proofs.Target.Sheets

namespace WireProtocol.Target.Rust

open Schema (Definition)

def heads : List (String × Part) :=
  [("const TYPE_NAME: &'static str = ", .typeName), ("const TYPE_TAG: i32 = ", .typeTag),
    ("const FIELD_COUNT: usize = ", .fieldCount), ("fn mark_present(", .testing),
    ("fn write_present(", .writing), ("fn read_present(", .reading)]

def dialect : Dialect where
  heads _ := heads
  testing := .testing
  subject := "self"
  set := ["mask", "set_if"]
  isSet := ["mask", "is_set"]
  writes := [("write_to", "value"), ("write_repeated", "repeated"), ("write_nested", "nested"),
    ("write_repeated_nested", "repeated_nested")]
  reads := [("read_from", "value"), ("read_repeated", "repeated"), ("read_nested", "nested"),
    ("read_repeated_nested", "repeated_nested")]

def kind (f : Schema.Field) : String :=
  if f.type = .struct then if f.repeated then "repeated_nested" else "nested"
  else if f.repeated then "repeated" else "value"

section

variable {f : Schema.Field} (hf : Typed f)

include hf

theorem named_member : Named (mapping.fieldName f.name) := isNameChar_moduleName hf.name

theorem named_carriage : (∀ type, carriage f = .nested type → Named type) ∧
    ∀ type, carriage f = .repeatedNested type → Named type := by
  have h : ∀ type, f.customType = some type → Named type := fun type h =>
    .of_isIdentifier (hf.customName type h)
  constructor <;> intro type ht <;> rw [carriage] at ht <;> split at ht <;> simp_all

theorem kind_eq : kind f = (carriage f).suffix?.getD "value" := by
  rw [kind, carriage]
  cases hc : f.customType with
  | none =>
    have ht : f.type ≠ .struct := fun ht => by simpa [hc] using hf.custom.2 ht
    cases f.repeated <;> simp [ht, Carriage.suffix?]
  | some type =>
    have ht : f.type = .struct := hf.custom.1 (by rw [hc]; rfl)
    cases f.repeated <;> simp [ht, Carriage.suffix?]

theorem flat_presence : '\n' ∉ (presence f).toList := by
  have hm := (named_member hf).flat
  unfold presence
  cases carriage f <;> simp [hm]

theorem finds_markField (depth bit : Nat) : Finds dialect.item? depth (markField bit f)
    [(.test (toString bit) [mapping.fieldName f.name], [])] := by
  have hm := named_member hf
  have hp := flat_presence hf
  have hb := Named.toString bit
  unfold markField
  generalize toString bit = bit at hb ⊢
  refine .line ((((Stands.append (by decide) hb.flat).append (by decide)).append hp).append
    (by decide)) ?_
  unfold presence
  cases carriage f <;>
    simp (disch := decide) [Dialect.item?, dialect, List.filterMap_cons, mentionsFrom_name hm,
      mentionsFrom_name hb]

theorem stands_writeCall : Stands (writeCall f) := by
  have hm := (named_member hf).flat
  have hself : '\n' ∉ ("self." ++ mapping.fieldName f.name).toList := by simp [hm]
  unfold writeCall
  cases carriage f with
  | value => exact (Stands.append (by decide) hm).append (by decide)
  | repeated | nested | repeatedNested => exact (Stands.append (by decide) hself).append (by decide)

theorem stands_readCall : Stands (readCall f) := by
  have hm := (named_member hf).flat
  obtain ⟨hn, hr⟩ := named_carriage hf
  refine ((Stands.append (by decide) hm).append (by decide)).append ?_
  cases hc : carriage f with
  | value => decide
  | repeated => decide
  | nested type => simp [(hn type hc).flat]
  | repeatedNested type => simp [(hr type hc).flat]

theorem handles_writeCall : Handles dialect dialect.writes (.one (writeCall f))
    (mapping.fieldName f.name) [kind f] := by
  have hm := named_member hf
  refine .of_prints (.one (stands_writeCall hf)) ?member ?kind
  all_goals
    rw [List.flatMap_singleton, writeCall]
    cases hc : carriage f <;>
      simp (disch := decide) [dialect, List.filterMap_cons, List.lookup_cons, mentionsFrom_name hm,
        kind_eq hf, hc, Carriage.suffix?]

theorem handles_readCall : Handles dialect dialect.reads (.one (readCall f))
    (mapping.fieldName f.name) [kind f] := by
  have hm := named_member hf
  have ht := named_carriage hf
  refine .of_prints (.one (stands_readCall hf)) ?member ?kind
  all_goals
    rw [List.flatMap_singleton, readCall]
    cases hc : carriage f with
    | value | repeated =>
      simp (disch := decide) [dialect, List.filterMap_cons, List.lookup_cons, mentionsFrom_name hm,
        kind_eq hf, hc, Carriage.suffix?]
    | nested type =>
      simp (disch := decide) [dialect, List.filterMap_cons, List.lookup_cons, mentionsFrom_name hm,
        mentionsFrom_name (ht.1 type hc), kind_eq hf, hc, Carriage.suffix?]
    | repeatedNested type =>
      simp (disch := decide) [dialect, List.filterMap_cons, List.lookup_cons, mentionsFrom_name hm,
        mentionsFrom_name (ht.2 type hc), kind_eq hf, hc, Carriage.suffix?]

omit hf in
theorem finds_guarded {call : Schema.Field → String} (hs : Stands (call f)) (depth bit : Nat) :
    Finds dialect.item? depth (guarded call bit f)
      [(.guard (toString bit), (Code.one (call f)).laid (depth + 1))] := by
  have hb := Named.toString bit
  unfold guarded
  generalize toString bit = bit at hb ⊢
  refine .enclosed (.braced ((Stands.append (by decide) hb.flat).append (by decide))
    (.one hs.flush)) ?_ (by decide)
  simp (disch := decide) [Dialect.item?, dialect, mentionsFrom_name hb]

end

theorem flat_helpers (m : Schema.Message) :
    '\n' ∉ (String.intercalate ", " (helpers m)).toList := by
  have hused : ∀ name ∈ ["nested", "repeated", "repeated_nested"], '\n' ∉ name.toList := by decide
  refine newline_notMem_intercalate (by decide) fun name hn => ?_
  rcases List.mem_append.1 hn with hn | hn
  all_goals
    obtain ⟨suffix, hs, rfl⟩ := List.mem_map.1 hn
    simp [hused suffix (List.mem_of_mem_filter hs)]

theorem finds_imports (m : Schema.Message) : Finds (part? heads) 0 (imports m) [] := by
  have hmessage : Starts heads "use pdlkit::wire::message::\x7b" none :=
    .literal (by decide)
  refine (((Finds.onlyIf _ (.other ((hmessage.append (flat_helpers m)).append (by decide)))).append
    (.onlyIf _ (.other ?_))).append (.onlyIf _ .blank)).append ((Finds.other ?_).append .blank)
  · exact .literal (by decide)
  · exact .literal (by decide)

theorem read_serializer {d : Definition} {o : Options} {last : Nat} (hw : d.WellFormed last)
    {m : Schema.Message} (hm : m ∈ d.messages) (hf : ∀ f ∈ m.fields, Typed f) :
    dialect.read m.name (serializer (rust.context d o) m).contents =
      .ofMessage (fun f => mapping.fieldName f.name) (fun f => [kind f]) [] d m := by
  have hname := newline_notMem_of_isIdentifier (hw.messages m hm).name
  have hqualified : '\n' ∉ (d.qualifiedName m.name).toList := newline_notMem_qualifiedName hw hm
  have htag := newline_notMem_int32 m.typeTag
  have hcount := (Named.toString m.fields.length).flat
  have hunused : '\n' ∉ (if m.fields.isEmpty then "_" else "").toList := by split <;> decide
  have testing : Finds dialect.item? 2 (.numbered m.fields markField)
      (tested (fun f => mapping.fieldName f.name) m.fields) :=
    .numbered fun f hmem i => finds_markField (hf f hmem) 2 i
  have writing : Finds dialect.item? 2 (.numbered m.fields (guarded writeCall) ++ .one "Ok(())")
      (handled 3 (fun f => .one (writeCall f)) m.fields ++ []) :=
    .append (.numbered fun f hmem i => finds_guarded (stands_writeCall (hf f hmem)) 2 i)
      (.idle (by decide) (by decide))
  have reading : Finds dialect.item? 2 (.numbered m.fields (guarded readCall) ++ .one "Ok(())")
      (handled 3 (fun f => .one (readCall f)) m.fields ++ []) :=
    .append (.numbered fun f hmem i => finds_guarded (stands_readCall (hf f hmem)) 2 i)
      (.idle (by decide) (by decide))
  have comment : Starts heads "//" none := .literal (by decide)
  have impl : Starts heads "impl pdlkit::wire::WireMessage for " none := .literal (by decide)
  have typeName : Starts heads "const TYPE_NAME: &'static str = \"" (some (.typeName, "\"")) :=
    .literal (by decide)
  have typeTag : Starts heads "const TYPE_TAG: i32 = " (some (.typeTag, "")) :=
    .literal (by decide)
  have fieldCount : Starts heads "const FIELD_COUNT: usize = " (some (.fieldCount, "")) :=
    .literal (by decide)
  have mark : Starts heads "fn mark_present(&self, " (some (.testing, "&self, ")) :=
    .literal (by decide)
  have write : Starts heads "fn write_present(&self, " (some (.writing, "&self, ")) :=
    .literal (by decide)
  have read : Starts heads "fn read_present(&mut self, " (some (.reading, "&mut self, ")) :=
    .literal (by decide)
  refine Dialect.read_render ((((Finds.banner hw comment).append .blank).append
    (finds_imports m)).append (.within (impl.append hname) (by decide)
      (.append (.append (.append (.append (.append (.append (.append (.append
        (.entry ((typeName.more hqualified).more (by decide)))
        (.entry ((typeTag.more htag).more (by decide))))
        (.entry ((fieldCount.more hcount).more (by decide))))
        .blank)
        (.headed ((mark.more hunused).more (by decide)) testing.level (by decide)))
        .blank)
        (.headed ((((write.more hunused).more (by decide)).more hunused).more (by decide))
          writing.level (by decide)))
        .blank)
        (.headed ((((read.more hunused).more (by decide)).more hunused).more (by decide))
          reading.level (by decide))))) ?_
  have htesting : dialect.testing = .testing := rfl
  have hwrites := filterMap_guard?_handled 3
    fun f hmem => handles_writeCall (hf f hmem)
  have hreads := filterMap_guard?_handled 3
    fun f hmem => handles_readCall (hf f hmem)
  simp [Dialect.sheet, Sheet.ofMessage, htesting, testing.found, writing.found, reading.found,
    hwrites, hreads]

end WireProtocol.Target.Rust
