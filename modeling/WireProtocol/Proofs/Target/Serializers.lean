import WireProtocol.Proofs.Target.Rendered
import WireProtocol.Proofs.Target.Sheets.CSharp
import WireProtocol.Proofs.Target.Sheets.Cpp
import WireProtocol.Proofs.Target.Sheets.Rust

namespace WireProtocol.Schema

theorem Message.maskWords_eq (m : Message) : m.maskWords = (m.fields.length + 31) / 32 := rfl

theorem Definition.declares_of_customType {d : Definition} {last : Nat} (hw : d.WellFormed last)
    (h : ¬ Faulty d.validate) {m : Message} (hm : m ∈ d.messages) {f : Field} (hf : f ∈ m.fields)
    {type : String} (ht : f.customType = some type) : d.Declares type := by
  have hstruct : f.type = .struct := ((hw.messages m hm).fields f hf).custom.1 (by rw [ht]; rfl)
  by_contra hd
  have hflawed : m.Flawed d := .unknownMessage hf hstruct (by rwa [ht])
  rcases (d.message_flawed_iff m).1 hflawed with hfields | htag
  · exact h (d.faulty_validate.2 (.inl (.inr ⟨m, hm, hfields⟩)))
  · exact h (d.faulty_validate.2 (.inr (.inl (d.faulty_checkTags.2 (.inl ⟨m, hm, htag⟩)))))

end WireProtocol.Schema

namespace WireProtocol.Target

open Files.Path (ofNames)
open Schema (Definition Faulty)

structure Serialized (l : Language) (d : Definition) (o : Options) (units : List SourceUnit) :
    Prop where
  serialization : o.serialization = true
  rendered : render l d o = .ok units

/-- A serializer of the message is among the units, at its place, and this is on its sheet. -/
def Serializes (l : Dialect) (f : Filing) (units : List SourceUnit) (m : Schema.Message)
    (sheet : Sheet) : Prop :=
  ∃ u ∈ units, u.path = ofNames (f.serializer m.name) ∧ l.read m.name u.contents = sheet

section

variable {l : Language} {f : Filing} {d : Definition} {o : Options} {units : List SourceUnit}
  {last : Nat} {m : Schema.Message}

theorem Serialized.typed (h : Serialized l d o units) (hf : f.Complete l) (hw : d.WellFormed last)
    (hm : m ∈ d.messages) : ∀ field ∈ m.fields, Typed field := by
  have hv : ¬ Faulty d.validate := ((exists_render_iff hf hw.slashFree).1 ⟨_, h.rendered⟩).1
  intro field hfield
  have hfw := (hw.messages m hm).fields field hfield
  refine ⟨hfw.name, hfw.type, hfw.custom, fun type ht => ?_⟩
  obtain ⟨target, hmem, rfl⟩ := d.declares_of_customType hw hv hm hfield ht
  exact (hw.messages target hmem).name

theorem Serialized.serializes (h : Serialized l d o units) (hf : f.Complete l)
    (hw : d.WellFormed last) (hm : m ∈ d.messages) {dialect : Dialect} {sheet : Sheet}
    (hs : dialect.read m.name (l.serializer (l.context d o) m).contents = sheet) :
    Serializes dialect f units m sheet := by
  refine ⟨l.serializer (l.context d o) m, ?_, hf.holds.serializer _ ?_, hs⟩
  · refine (filed_of_render hf hw.slashFree h.rendered).perm.symm.subset ?_
    have hserializers := List.mem_map_of_mem (f := l.serializer (l.context d o)) hm
    simp [Language.mainUnits, h.serialization, hserializers]
  · exact Text.slash_notMem_of_isIdentifier (hw.messages m hm).name

end

/-- Of each message in a text that all targets accept, three serializers are made, and their sheets
show the same type name, tag and number of fields. The presence of field `k` is tested by its member
in the target and marked at bit `k`; where that bit is tested, this member is written or read, as
elements of the same kinds both ways. Masks have as many words as hold a bit for each field. -/
theorem serializers_agree (source : String) {o o' o'' : Options}
    {units units' units'' : List SourceUnit}
    (hrust : Serialized rust (Schema.readSource source).definition o units)
    (hcSharp : Serialized cSharp (Schema.readSource source).definition o' units')
    (hcpp : Serialized cpp (Schema.readSource source).definition o'' units'')
    (hn : '\n' ∉ o'.namespaceName.toList ∧ '\n' ∉ o''.namespaceName.toList) :
    let d := (Schema.readSource source).definition
    ∀ m ∈ d.messages,
      Serializes Rust.dialect rustFiling units m
        (.ofMessage (fun f => rust.fieldName f.name) (fun f => [Rust.kind f]) [] d m) ∧
      Serializes CSharp.dialect cSharpFiling units' m
        (.ofMessage (fun f => cSharp.fieldName f.name) wireKinds
          [toString ((m.fields.length + 31) / 32) ++ ";"] d m) ∧
      Serializes Cpp.dialect cppFiling units'' m
        (.ofMessage (fun f => cpp.fieldName f.name) wireKinds
          [toString ((m.fields.length + 31) / 32) ++ ";"] d m) := by
  intro d m hm
  rw [← m.maskWords_eq]
  have hw := Schema.wellFormed_readSource source
  refine ⟨?rust, ?cSharp, ?cpp⟩
  case rust =>
    exact hrust.serializes complete_rust hw hm
      (Rust.read_serializer hw hm (hrust.typed complete_rust hw hm))
  case cSharp =>
    have hspace : '\n' ∉ (cSharp.context d o').namespaceName.toList :=
      newline_notMem_context (CSharp.newline_notMem_mapped hw) hn.1
    exact hcSharp.serializes complete_cSharp hw hm
      (CSharp.read_serializer hw hspace hm (hcSharp.typed complete_cSharp hw hm))
  case cpp =>
    have hspace : '\n' ∉ (cpp.context d o'').namespaceName.toList :=
      newline_notMem_context (Cpp.newline_notMem_mapped hw) hn.2
    exact hcpp.serializes complete_cpp hw hm
      (Cpp.read_serializer hw hspace hm (hcpp.typed complete_cpp hw hm))

def node : Definition :=
  (Schema.readSource "namespace t
message Node \x7b int32 id = 1; repeated Node nextNodes = 2; \x7d").definition

def nodeSheet (id next : String × List String) (maskWords : List String) : Sheet where
  typeName := ["\"t.Node\";"]
  typeTag := ["1535764342;"]
  fieldCount := ["2;"]
  maskWords := maskWords
  tests := [("0", [id.1]), ("1", [next.1])]
  writes := [⟨"0", [id.1], id.2⟩, ⟨"1", [next.1], next.2⟩]
  reads := [⟨"0", [id.1], id.2⟩, ⟨"1", [next.1], next.2⟩]

theorem exists_serialized_node {l : Language} {f : Filing} (hf : f.Complete l)
    (hc : l.clash? node = none) (hn : (f.all node {}).Nodup) :
    ∃ units, Serialized l node {} units := by
  have hd : node.SlashFree := (Schema.wellFormed_readSource _).slashFree
  obtain ⟨units, h⟩ := exists_render_of_none hf hd (by decide +kernel) hc hn
  exact ⟨units, rfl, h⟩

theorem serializers_agree_node :
    ∃ units units' units'', Serialized rust node {} units ∧ Serialized cSharp node {} units' ∧
      Serialized cpp node {} units'' ∧ ∃ m ∈ node.messages,
        Serializes Rust.dialect rustFiling units m
          (nodeSheet ("id", ["value"]) ("next_nodes", ["repeated_nested"]) []) ∧
        Serializes CSharp.dialect cSharpFiling units' m
          (nodeSheet ("Id", ["int32"]) ("NextNodes", ["int32", "struct"]) ["1;"]) ∧
        Serializes Cpp.dialect cppFiling units'' m
          (nodeSheet ("id", ["int32"]) ("next_nodes", ["int32", "struct"]) ["1;"]) := by
  obtain ⟨units, hr⟩ :=
    exists_serialized_node complete_rust (by decide +kernel) (by decide +kernel)
  obtain ⟨units', hc⟩ :=
    exists_serialized_node complete_cSharp (by decide +kernel) (by decide +kernel)
  obtain ⟨units'', hh⟩ :=
    exists_serialized_node complete_cpp (by decide +kernel) (by decide +kernel)
  have hm : ∃ m ∈ node.messages,
      Sheet.ofMessage (fun f => rust.fieldName f.name) (fun f => [Rust.kind f]) [] node m =
        nodeSheet ("id", ["value"]) ("next_nodes", ["repeated_nested"]) [] ∧
      Sheet.ofMessage (fun f => cSharp.fieldName f.name) wireKinds
          [toString ((m.fields.length + 31) / 32) ++ ";"] node m =
        nodeSheet ("Id", ["int32"]) ("NextNodes", ["int32", "struct"]) ["1;"] ∧
      Sheet.ofMessage (fun f => cpp.fieldName f.name) wireKinds
          [toString ((m.fields.length + 31) / 32) ++ ";"] node m =
        nodeSheet ("id", ["int32"]) ("next_nodes", ["int32", "struct"]) ["1;"] := by
    decide +kernel
  obtain ⟨m, hm, hrust, hcSharp, hcpp⟩ := hm
  have hagree := serializers_agree _ hr hc hh (by decide) m hm
  rw [← hrust, ← hcSharp, ← hcpp]
  exact ⟨units, units', units'', hr, hc, hh, m, hm, hagree⟩

end WireProtocol.Target
