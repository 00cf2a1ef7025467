import WireProtocol.Proofs.Target.Acceptance

namespace WireProtocol.Target

open Schema (Definition FieldType)
open Text (isIdentifier)

def isBracket (c : Char) : Bool := c == '<' || c == '>'

def typeNames (type : String) : List String :=
  ((Text.splitAt isBracket type.toList).filter (!·.isEmpty)).map String.ofList

theorem typeNames_append {left right : String} {c : Char} (hc : isBracket c = true) :
    typeNames (left ++ String.singleton c ++ right) = typeNames left ++ typeNames right := by
  rw [typeNames, String.toList_append, String.toList_append, String.toList_singleton,
    List.append_assoc, List.singleton_append, Text.splitAt_append_cons _ hc, List.filter_append,
    List.map_append]
  rfl

theorem typeNames_of_isDottedName {name : String} (h : Text.isDottedName name.toList = true) :
    typeNames name = [name] := by
  have hterm := Text.isTerm_of_isDottedName h
  have hb : ∀ c ∈ name.toList, isBracket c = false := fun c hc => by
    rw [isBracket, hterm.ne (by decide) c hc, hterm.ne (by decide) c hc]
    rfl
  rw [typeNames, Text.splitAt_of_forall hb, List.filter_singleton,
    List.isEmpty_eq_false_iff.2 hterm.ne_nil]
  simp

def Wraps (f : String → String) : Prop :=
  ∀ type n, n ∈ typeNames (f type) ↔ n ∈ typeNames (f "") ∨ n ∈ typeNames type

theorem typeNames_empty : typeNames "" = [] := rfl

theorem wraps_id : Wraps fun type => type := fun type n => by simp [typeNames_empty]

theorem wraps_between {left right before after : String} {c c' : Char}
    (hl : left = before ++ String.singleton c) (hr : right = String.singleton c' ++ after)
    (hc : isBracket c = true) (hc' : isBracket c' = true) :
    Wraps fun type => left ++ type ++ right := by
  have h : ∀ type, typeNames (left ++ type ++ right) =
      typeNames before ++ typeNames type ++ typeNames after := fun type => by
    rw [hr, ← String.append_assoc, typeNames_append hc', hl, typeNames_append hc]
  intro type n
  simp only [h, typeNames_empty, List.mem_append, List.not_mem_nil, or_false]
  exact or_right_comm

def scalars : List FieldType :=
  [.int32, .int64, .float, .double, .bool, .string, .vector3, .dateTime]

namespace Mapping

def ownTypes (m : Mapping) : List String :=
  scalars.map m.scalarType ++ [m.structRef "", m.structElement "", m.repeatedType ""]

/-- The names that the target brings along for the types of fields, without those that lead into a
namespace. -/
def builtins (m : Mapping) : List String :=
  (m.ownTypes.flatMap typeNames).filter fun n => !n.toList.contains ':'

/-- Those of the `builtins` that messages may have. -/
def exposed (m : Mapping) : List String :=
  m.builtins.filter fun n => !m.reservedTypeNames.contains n

end Mapping

theorem exposed_rust : rust.exposed = ["i32", "i64", "f32", "f64", "bool"] := by decide

theorem exposed_cSharp : cSharp.exposed =
    ["int", "long", "float", "double", "bool", "string", "Vector3", "DateTime", "List"] := by
  decide

theorem exposed_cpp : cpp.exposed = ["float", "double", "bool"] := by decide

structure Mapping.Wrapping (m : Mapping) : Prop where
  structRef : Wraps m.structRef
  structElement : Wraps m.structElement
  repeatedType : Wraps m.repeatedType

theorem wrapping {l : Language} (hl : l ∈ all) : l.Wrapping := by
  have rest : ∀ {left before : String}, left = before ++ String.singleton '<' →
      Wraps fun type => left ++ type ++ ">" := fun h =>
    @wraps_between _ ">" _ "" '<' '>' h rfl rfl rfl
  simp only [all, List.mem_cons, List.not_mem_nil, or_false] at hl
  rcases hl with rfl | rfl | rfl
  · exact ⟨@wraps_between "Option<Box<" ">>" "Option<Box" ">" '<' '>' rfl rfl rfl rfl, wraps_id,
      @rest "Vec<" "Vec" rfl⟩
  · exact ⟨wraps_id, wraps_id, @rest "List<" "List" rfl⟩
  · exact ⟨@rest "std::shared_ptr<" "std::shared_ptr" rfl,
      @rest "std::shared_ptr<" "std::shared_ptr" rfl, @rest "std::vector<" "std::vector" rfl⟩

section

variable {l : Language} {d : Definition} {o : Options} {units : List SourceUnit}

theorem scalar_of_wellFormed {f : Schema.Field} (hf : f.WellFormed) (h : f.type ≠ .struct) :
    f.type ∈ scalars := by
  obtain ⟨hlist, hmap⟩ := hf.type
  cases ht : f.type <;> simp_all [scalars]

theorem mem_typeNames_memberType (hw : l.Wrapping) {f : Schema.Field} (hf : f.WellFormed)
    {n : String} (hn : n ∈ typeNames (l.memberType f)) :
    n ∈ l.ownTypes.flatMap typeNames ∨ f.customType = some n := by
  have own : ∀ {type}, type ∈ l.ownTypes → n ∈ typeNames type →
      n ∈ l.ownTypes.flatMap typeNames := fun ht hn => List.mem_flatMap.2 ⟨_, ht, hn⟩
  have element : n ∈ typeNames (l.elementType f) →
      n ∈ l.ownTypes.flatMap typeNames ∨ f.customType = some n := by
    intro hn
    cases hc : f.customType with
    | none =>
      -- A field that refers to no message has one of the scalar types.
      have ht : f.type ≠ .struct := fun ht => by simpa [hc] using hf.custom.2 ht
      have he : l.elementType f = l.scalarType f.type := by
        simp [Mapping.elementType, hc]
      refine .inl (own (List.mem_append_left _ ?_) (he ▸ hn))
      exact List.mem_map_of_mem (scalar_of_wellFormed hf ht)
    | some name =>
      have ht : f.type = .struct := hf.custom.1 (by simp [hc])
      have hname : n ∈ typeNames name → some name = some n := by
        rw [typeNames_of_isDottedName (hf.customName name hc).1, List.mem_singleton]
        exact fun hn => congrArg some hn.symm
      rw [Mapping.elementType, ht, hc] at hn
      dsimp only at hn
      split at hn
      · exact ((hw.structElement _ n).1 hn).imp (own (by simp [Mapping.ownTypes])) hname
      · exact ((hw.structRef _ n).1 hn).imp (own (by simp [Mapping.ownTypes])) hname
  rw [Mapping.memberType] at hn
  split at hn
  · exact ((hw.repeatedType _ n).1 hn).elim (fun hn => .inl (own (by simp [Mapping.ownTypes]) hn))
      element
  · exact element hn

theorem distinct_of_render (hl : l ∈ all) (hd : d.SlashFree) (h : render l d o = .ok units) :
    l.Distinct d := by
  obtain ⟨f, hf⟩ := exists_complete hl
  exact ((exists_render_iff hf hd).1 ⟨units, h⟩).2.1

theorem mem_exposed_of_declares (hl : l ∈ all) (hd : d.SlashFree) (h : render l d o = .ok units)
    {n : String} (hb : n ∈ l.builtins) (hn : d.Declares n) : n ∈ l.exposed := by
  obtain ⟨m, hm, rfl⟩ := hn
  have hr := (distinct_of_render hl hd h).reserved m hm
  simpa [Mapping.exposed, hb] using hr

end

theorem accepted_soleMessage {l : Language} (hl : l ∈ all) {n : String} (hn : n ∈ l.exposed) :
    (∃ units, render l (soleMessage n) {} = .ok units) ∧ (soleMessage n).Declares n := by
  have accepted : ∀ {l : Language} {f : Filing}, f.Complete l →
      (∀ n ∈ l.exposed, Schema.Diagnostic.summary? (soleMessage n).validate = none ∧
        l.clash? (soleMessage n) = none ∧ (f.all (soleMessage n) {}).Nodup ∧
        ∃ m ∈ (soleMessage n).messages, m.name = n) → n ∈ l.exposed →
      (∃ units, render l (soleMessage n) {} = .ok units) ∧ (soleMessage n).Declares n := by
    intro l f hf h hn
    obtain ⟨hv, hc, hnodup, hm⟩ := h n hn
    have hd : (soleMessage n).SlashFree := (Schema.wellFormed_readSource _).slashFree
    exact ⟨exists_render_of_none hf hd hv hc hnodup, hm⟩
  simp only [all, List.mem_cons, List.not_mem_nil, or_false] at hl
  rcases hl with rfl | rfl | rfl
  · exact accepted complete_rust (by rw [exposed_rust]; decide +kernel) hn
  · exact accepted complete_cSharp (by rw [exposed_cSharp]; decide +kernel) hn
  · exact accepted complete_cpp (by rw [exposed_cpp]; decide +kernel) hn

/-- The target's own names that accepted definitions declare as those of messages are the exposed
ones. In what a member is declared with, a name of a message that is not exposed stands only for
the message that the field refers to. -/
theorem builtins_declared_iff {l : Language} (hl : l ∈ all) :
    (∀ n ∈ l.builtins, n ∈ l.exposed ↔ ∃ source o units,
      render l (Schema.readSource source).definition o = .ok units ∧
        (Schema.readSource source).definition.Declares n) ∧
    ∀ source o units, render l (Schema.readSource source).definition o = .ok units →
      ∀ m ∈ (Schema.readSource source).definition.messages, ∀ f ∈ m.fields,
        ∀ n ∈ typeNames (l.memberType f), (Schema.readSource source).definition.Declares n →
          n ∉ l.exposed → f.customType = some n := by
  constructor
  · intro n hb
    constructor
    · intro hn
      obtain ⟨⟨units, h⟩, hm⟩ := accepted_soleMessage hl hn
      exact ⟨_, _, units, h, hm⟩
    · rintro ⟨source, o, units, h, hn⟩
      exact mem_exposed_of_declares hl (Schema.wellFormed_readSource source).slashFree h hb hn
  · intro source o units h m hm f hf n hn hdeclared hexposed
    have hw := Schema.wellFormed_readSource source
    refine (mem_typeNames_memberType (wrapping hl) ((hw.messages m hm).fields f hf) hn).resolve_left
      fun hown => hexposed (mem_exposed_of_declares hl hw.slashFree h ?_ hdeclared)
    obtain ⟨m', hm', rfl⟩ := hdeclared
    have hcolon : ':' ∉ m'.name.toList := fun hc =>
      absurd (Text.isIdentifierRest_of_isIdentifier (hw.messages m' hm').name _ hc) (by decide)
    simpa [Mapping.builtins, hcolon] using List.mem_flatMap.1 hown

theorem builtins_declared_iff_option : rust ∈ all ∧ ¬ ∃ source o units,
    render rust (Schema.readSource source).definition o = .ok units ∧
      (Schema.readSource source).definition.Declares "Option" := by
  have hl : rust ∈ all := by simp [all]
  exact ⟨hl, fun h =>
    absurd (((builtins_declared_iff hl).1 "Option" (by decide)).2 h) (by decide)⟩

def boolReading : Schema.Reading :=
  Schema.readSource
    "namespace t\nmessage bool \x7b int32 a = 1; \x7d\nmessage M \x7b bool on = 1; \x7d"

/-- The type of the field is the primitive one, and what it is declared with is the message. -/
theorem bool_declared :
    boolReading.diagnostics = [] ∧ (∃ units, render rust boolReading.definition {} = .ok units) ∧
      "bool" ∈ rust.builtins ∧ boolReading.definition.Declares "bool" ∧
      ∃ m ∈ boolReading.definition.messages, ∃ f ∈ m.fields, f.type = .bool ∧ f.customType = none ∧
        rust.memberType f = "bool" := by
  have hd : boolReading.definition.SlashFree := (Schema.wellFormed_readSource _).slashFree
  have rendered := @exists_render_of_none rust _ {} _ complete_rust hd
    (by decide +kernel) (by decide +kernel) (by decide +kernel)
  have declared : ∃ m ∈ boolReading.definition.messages, m.name = "bool" := by decide +kernel
  exact ⟨by decide +kernel, rendered, by decide, declared, by decide +kernel⟩

end WireProtocol.Target
