import Mathlib.Data.List.Nodup
import Mathlib.Data.List.Perm.Basic
import WireProtocol.Proofs.Schema.Validation
import WireProtocol.Proofs.Target.Keys
import WireProtocol.Proofs.Target.Paths

namespace WireProtocol.Schema.Diagnostic

theorem summary?_eq_none_iff {ds : List Diagnostic} : summary? ds = none ↔ ¬ Faulty ds := by
  have h : ds.filter isError = [] ↔ ¬ Faulty ds := by simp [Faulty, List.filter_eq_nil_iff]
  rw [← h, summary?]
  cases ds.filter isError <;> simp

end WireProtocol.Schema.Diagnostic

namespace WireProtocol.Target

open Files (Path)
open Files.Path (IsName ofNames)
open Schema (Definition Faulty)
open Text (snakeCase pascalCase)

def Apart (before keys : List String) : Prop := keys.Nodup ∧ ∀ k ∈ keys, k ∉ before

theorem apart_nil (before : List String) : Apart before [] := ⟨.nil, List.forall_mem_nil _⟩

theorem apart_cons {before keys : List String} {k : String} :
    Apart before (k :: keys) ↔ k ∉ before ∧ Apart (k :: before) keys := by
  simp only [Apart, List.nodup_cons, List.mem_cons, not_or]
  grind

theorem apart_empty {keys : List String} : Apart [] keys ↔ keys.Nodup := by
  simp [Apart]

theorem find?_key_eq_none_iff {key : String → String} {names : List String} {k : String} :
    names.find? (key · == k) = none ↔ k ∉ names.map key := by
  simp

namespace Mapping
variable {m : Mapping}

theorem fieldClash?_eq_none_iff {message : String} {before : List String}
    {fields : List Schema.Field} :
    m.fieldClash? message before fields = none ↔
      (∀ f ∈ fields, m.membersClashWithType = true → m.fieldName f.name ≠ message) ∧
      Apart (before.map m.fieldName) (fields.map fun f => m.fieldName f.name) := by
  induction fields generalizing before with
  | nil => simp [fieldClash?, apart_nil]
  | cons f fields ih =>
    rw [fieldClash?, List.map_cons, apart_cons, List.forall_mem_cons, ← List.map_cons,
      ← find?_key_eq_none_iff]
    split
    · next h => simp_all
    · next h =>
      have hf : m.membersClashWithType = true → m.fieldName f.name ≠ message := by simpa using h
      rw [and_iff_right hf]
      cases before.find? (m.fieldName · == m.fieldName f.name) <;> simp [ih]

theorem methodClash?_eq_none_iff {service : String} {before : List String}
    {methods : List Schema.Method} :
    m.methodClash? service before methods = none ↔
      Apart (before.map m.methodName) (methods.map fun r => m.methodName r.name) := by
  induction methods generalizing before with
  | nil => simp [methodClash?, apart_nil]
  | cons r methods ih =>
    rw [methodClash?, List.map_cons, apart_cons, ← List.map_cons, ← find?_key_eq_none_iff, ← ih]
    cases before.find? (m.methodName · == m.methodName r.name) <;> simp

/-- What the names of messages, fields and methods must satisfy in the target. -/
structure Distinct (m : Mapping) (d : Definition) : Prop where
  reserved : ∀ message ∈ d.messages, message.name ∉ m.reservedTypeNames
  types : ∀ message ∈ d.messages, ∀ f ∈ message.fields, m.membersClashWithType = true →
    m.fieldName f.name ≠ message.name
  fields : ∀ message ∈ d.messages, (message.fields.map fun f => m.fieldName f.name).Nodup
  methods : ∀ s ∈ d.services, (s.methods.map fun r => m.methodName r.name).Nodup

theorem clash?_eq_none_iff {d : Definition} : m.clash? d = none ↔ m.Distinct d := by
  have hm : ∀ message : Schema.Message, m.messageClash? message = none ↔
      message.name ∉ m.reservedTypeNames ∧
      (∀ f ∈ message.fields, m.membersClashWithType = true → m.fieldName f.name ≠ message.name) ∧
      (message.fields.map fun f => m.fieldName f.name).Nodup := by
    intro message
    rw [messageClash?, ← apart_empty, ← List.map_nil (f := m.fieldName),
      ← fieldClash?_eq_none_iff]
    split <;> simp_all
  have hs : ∀ s : Schema.Service, m.methodClash? s.name [] s.methods = none ↔
      (s.methods.map fun r => m.methodName r.name).Nodup := fun s =>
    methodClash?_eq_none_iff.trans apart_empty
  simp only [clash?, Option.or_eq_none_iff, List.findSome?_eq_none_iff, hm, hs]
  exact ⟨fun ⟨hmessages, hservices⟩ => ⟨fun x hx => (hmessages x hx).1,
      fun x hx => (hmessages x hx).2.1, fun x hx => (hmessages x hx).2.2, hservices⟩,
    fun h => ⟨fun x hx => ⟨h.reserved x hx, h.types x hx, h.fields x hx⟩, h.methods⟩⟩

end Mapping

section

variable {l : Language} {d : Definition} {o : Options} {f : Filing}

theorem repeatedPath?_of_pairwise {units : List SourceUnit}
    (h : units.Pairwise fun a b => a.path.same b.path = false) : repeatedPath? units = none := by
  induction units with
  | nil => rfl
  | cons a rest ih =>
    obtain ⟨ha, hrest⟩ := List.pairwise_cons.1 h
    cases rest with
    | nil => rfl
    | cons b rest =>
      rw [repeatedPath?, if_neg (Bool.eq_false_iff.1 (ha b List.mem_cons_self))]
      exact ih hrest

theorem same_ofNames_iff {names names' : List String} (h : Shelved names) (h' : Shelved names') :
    (ofNames names).same (ofNames names') = false ↔ names ≠ names' := by
  rw [Bool.eq_false_iff, Path.same, Ne, beq_iff_eq, Path.parts_ofNames h.isName,
    Path.parts_ofNames h'.isName,
    (List.map_injective_iff.2 fun _ _ => Path.Part.name.inj).eq_iff]

theorem repeatedPath?_units_eq_none_iff (hf : f.Complete l) (hd : d.SlashFree) :
    repeatedPath? (l.units d o) = none ↔ (f.all d o).Nodup := by
  have hp : (l.units d o).Perm (l.mainUnits d o ++ l.support (l.context d o) (l.mainUnits d o)) :=
    List.mergeSort_perm _ _
  have symm : ∀ {a b : SourceUnit}, a.path.same b.path = false → b.path.same a.path = false := by
    intro a b h
    rwa [Path.same, BEq.comm]
  -- Among units in order it is enough to look at neighbours; for all pairs the order is nothing.
  calc repeatedPath? (l.units d o) = none
    _ ↔ (l.units d o).Pairwise fun a b => a.path.same b.path = false :=
      ⟨pairwise_of_repeatedPath? (pairwise_units l d o), repeatedPath?_of_pairwise⟩
    _ ↔ (l.mainUnits d o ++ l.support (l.context d o) (l.mainUnits d o)).Pairwise
          fun a b => a.path.same b.path = false := hp.pairwise_iff symm
    _ ↔ ((f.all d o).map ofNames).Pairwise fun p q => p.same q = false := by
      rw [← hf.paths hd, List.pairwise_map]
    _ ↔ (f.all d o).Nodup := by
      rw [List.pairwise_map]
      exact List.Pairwise.iff_of_mem fun ha hb =>
        same_ofNames_iff (hf.shallow.all hd _ ha) (hf.shallow.all hd _ hb)

theorem exists_render_iff (hf : f.Complete l) (hd : d.SlashFree) :
    (∃ units, render l d o = .ok units) ↔
      ¬ Faulty d.validate ∧ l.Distinct d ∧ (f.all d o).Nodup := by
  rw [← Schema.Diagnostic.summary?_eq_none_iff, ← Mapping.clash?_eq_none_iff,
    ← repeatedPath?_units_eq_none_iff hf hd, render]
  cases Schema.Diagnostic.summary? d.validate with
  | some errors => simp
  | none =>
    cases l.clash? d with
    | some c => simp
    | none => cases h : repeatedPath? (l.units d o) <;> simp [h]

theorem exists_render_of_none (hf : f.Complete l) (hd : d.SlashFree)
    (hv : Schema.Diagnostic.summary? d.validate = none) (hc : l.clash? d = none)
    (hn : (f.all d o).Nodup) : ∃ units, render l d o = .ok units :=
  (exists_render_iff hf hd).2
    ⟨Schema.Diagnostic.summary?_eq_none_iff.1 hv, Mapping.clash?_eq_none_iff.1 hc, hn⟩

theorem kind_of_render {r : Refusal} (h : render l d o = .error r) :
    r.kind = .schema ∧ Faulty d.validate ∨ r.kind = .generation ∧ ¬ Faulty d.validate := by
  rw [render] at h
  split at h
  · next hs =>
    cases h
    refine .inl ⟨rfl, of_not_not fun hn => ?_⟩
    rw [Schema.Diagnostic.summary?_eq_none_iff.2 hn] at hs
    cases hs
  · next hs =>
    refine .inr ⟨?_, Schema.Diagnostic.summary?_eq_none_iff.1 hs⟩
    split at h
    · cases h
      rfl
    · dsimp only at h
      split at h <;> cases h
      rfl

end

structure MembersApart (key : String → String) (d : Definition) : Prop where
  fields : ∀ m ∈ d.messages, (m.fields.map fun f => key f.name).Nodup
  methods : ∀ s ∈ d.services, (s.methods.map fun r => key r.name).Nodup

namespace Rust

theorem escape_inj {name name' : String} (h : '#' ∉ name.toList) (h' : '#' ∉ name'.toList) :
    escape name = escape name' ↔ name = name' := by
  have marked : ∀ {a b : String}, '#' ∉ b.toList → "r#" ++ a ≠ b := by
    rintro a _ hb rfl
    exact hb (by simp)
  simp only [escape]
  split <;> split
  · exact String.append_right_inj "r#"
  · exact iff_of_false (marked h') (by grind)
  · exact iff_of_false (fun he => marked h he.symm) (by grind)
  · exact Iff.rfl

end Rust

theorem hash_notMem_snakeCase {name : String} (h : Text.isIdentifier name.toList = true) :
    '#' ∉ (snakeCase name).toList :=
  fun hm => absurd (Text.lowered_of_mem_snakeCase h hm).1 (by decide)

theorem nodup_moduleName_iff {names : List String}
    (h : ∀ name ∈ names, Text.isIdentifier name.toList = true) :
    (names.map Rust.moduleName).Nodup ↔ (names.map snakeCase).Nodup := by
  simp only [List.Nodup, List.pairwise_map]
  exact List.Pairwise.iff_of_mem fun ha hb => not_congr
    (Rust.escape_inj (hash_notMem_snakeCase (h _ ha)) (hash_notMem_snakeCase (h _ hb)))

section

variable {d : Definition} {o : Options}

theorem Mapping.distinct_iff {m : Mapping} (hm : m.membersClashWithType = false)
    (hmethod : m.methodName = m.fieldName) : m.Distinct d ↔
      (∀ message ∈ d.messages, message.name ∉ m.reservedTypeNames) ∧
        MembersApart m.fieldName d := by
  constructor
  · exact fun h => ⟨h.reserved, h.fields, hmethod ▸ h.methods⟩
  · rintro ⟨hr, hf, hs⟩
    exact ⟨hr, fun _ _ _ _ ht => absurd (hm.symm.trans ht) nofun, hf, hmethod ▸ hs⟩

theorem membersApart_moduleName_iff {last : Nat} (hw : d.WellFormed last) :
    MembersApart Rust.moduleName d ↔ MembersApart snakeCase d := by
  have hf : ∀ m ∈ d.messages, (m.fields.map fun f => Rust.moduleName f.name).Nodup ↔
      (m.fields.map fun f => snakeCase f.name).Nodup := fun m hm => by
    have h := @nodup_moduleName_iff (m.fields.map (·.name))
      (List.forall_mem_map.2 fun f hf => ((hw.messages m hm).fields f hf).name)
    rwa [List.map_map, List.map_map] at h
  have hs : ∀ s ∈ d.services, (s.methods.map fun r => Rust.moduleName r.name).Nodup ↔
      (s.methods.map fun r => snakeCase r.name).Nodup := fun s hs => by
    have h := @nodup_moduleName_iff (s.methods.map (·.name))
      (List.forall_mem_map.2 fun r hr => ((hw.services s hs).methods r hr).name)
    rwa [List.map_map, List.map_map] at h
  constructor
  · rintro ⟨h, h'⟩
    exact ⟨fun m hm => (hf m hm).1 (h m hm), fun s hm => (hs s hm).1 (h' s hm)⟩
  · rintro ⟨h, h'⟩
    exact ⟨fun m hm => (hf m hm).2 (h m hm), fun s hm => (hs s hm).2 (h' s hm)⟩

theorem nodup_names (h : ¬ Faulty d.validate) : (d.messages.map (·.name)).Nodup ∧
    (d.services.map (·.name)).Nodup ∧ ∀ s ∈ d.services, (s.methods.map (·.name)).Nodup := by
  rw [Definition.faulty_validate] at h
  simp only [not_or, not_not] at h
  obtain ⟨⟨hm, -⟩, -, hs, hf⟩ := h
  refine ⟨hm, hs, fun s hms => by_contra fun hn => hf ⟨s, hms, ?_⟩⟩
  exact (d.service_flawed_iff s).1 (.methodNames hn)

theorem distinct_cSharp_iff (h : ¬ Faulty d.validate) : cSharp.Distinct d ↔
    ∀ m ∈ d.messages, (m.fields.map fun f => pascalCase f.name).Nodup ∧
      ∀ f ∈ m.fields, pascalCase f.name ≠ m.name := by
  constructor
  · exact fun hd m hm => ⟨hd.fields m hm, fun f hf => hd.types m hm f hf rfl⟩
  · exact fun hd => ⟨fun _ _ => List.not_mem_nil, fun m hm f hf _ => (hd m hm).2 f hf,
      fun m hm => (hd m hm).1, (nodup_names h).2.2⟩

theorem filesApart_id (h : ¬ Faulty d.validate) : FilesApart id [] d o :=
  ⟨fun _ => ⟨(nodup_names h).1, fun _ _ => List.not_mem_nil⟩,
    fun _ => ⟨(nodup_names h).2.1, fun _ _ => List.not_mem_nil⟩⟩

end

/-- What is read of any text is rendered in each language exactly when it has no errors, what the
language makes of the names of members is distinct, and so are the names of the files that the
options ask for. It is refused as a schema if it has errors, and otherwise as something that cannot
be generated. -/
theorem render_decided (source : String) (o : Options) :
    let d := (Schema.readSource source).definition
    ((∃ units, render rust d o = .ok units) ↔ ¬ Faulty d.validate ∧
      (∀ m ∈ d.messages, m.name ∉ ["Box", "Option", "Self", "String", "Vec"]) ∧
      MembersApart snakeCase d ∧ FilesApart snakeCase ["mod"] d o) ∧
    ((∃ units, render cpp d o = .ok units) ↔ ¬ Faulty d.validate ∧
      MembersApart snakeCase d ∧ FilesApart snakeCase [] d o) ∧
    ((∃ units, render cSharp d o = .ok units) ↔ ¬ Faulty d.validate ∧
      ∀ m ∈ d.messages, (m.fields.map fun f => pascalCase f.name).Nodup ∧
        ∀ f ∈ m.fields, pascalCase f.name ≠ m.name) ∧
    ∀ (l : Language) (r : Refusal), render l d o = .error r →
      r.kind = .schema ∧ Faulty d.validate ∨ r.kind = .generation ∧ ¬ Faulty d.validate := by
  intro d
  have hw := Schema.wellFormed_readSource source
  have hd : d.SlashFree := hw.slashFree
  refine ⟨?rust, ?cpp, ?cSharp, fun _ _ => kind_of_render⟩
  case rust =>
    rw [exists_render_iff complete_rust hd, keyed_rust.nodup_all_iff,
      Mapping.distinct_iff rfl rfl, and_assoc]
    exact and_congr_right' (and_congr_right' (and_congr_left' (membersApart_moduleName_iff hw)))
  case cpp =>
    rw [exists_render_iff complete_cpp hd, keyed_cpp.nodup_all_iff, Mapping.distinct_iff rfl rfl,
      and_assoc]
    exact and_congr_right' (and_iff_right fun _ _ => List.not_mem_nil)
  case cSharp =>
    rw [exists_render_iff complete_cSharp hd, keyed_cSharp.nodup_all_iff]
    refine and_congr_right fun h => ?_
    rw [distinct_cSharp_iff h, and_iff_left (filesApart_id h)]

def soleMessage (name : String) : Definition :=
  (Schema.readSource ("namespace t\nmessage " ++ name ++ " \x7b \x7d")).definition

theorem render_decided_mod :
    (¬ ∃ units, render rust (soleMessage "Mod") {} = .ok units) ∧
      ∃ units, render rust (soleMessage "Mod") { serialization := false } = .ok units := by
  have valid : ¬ Faulty (soleMessage "Mod").validate :=
    Schema.Diagnostic.summary?_eq_none_iff.1 (by decide +kernel)
  have services : (soleMessage "Mod").services = [] := by decide +kernel
  have messages : (soleMessage "Mod").messages.map (fun m => snakeCase m.name) = ["mod"] ∧
      ∀ m ∈ (soleMessage "Mod").messages, m.fields = [] ∧
        m.name ∉ ["Box", "Option", "Self", "String", "Vec"] := by decide +kernel
  have members : MembersApart snakeCase (soleMessage "Mod") :=
    ⟨fun m hm => by simp [(messages.2 m hm).1], by simp [services]⟩
  have files : FilesApart snakeCase ["mod"] (soleMessage "Mod") { serialization := false } :=
    ⟨nofun, fun _ => by simp [services]⟩
  constructor
  · intro h
    obtain ⟨-, -, -, hfiles, -⟩ := (render_decided _ _).1.1 h
    have hmod : "mod" ∈ (soleMessage "Mod").messages.map fun m => snakeCase m.name :=
      messages.1 ▸ List.mem_cons_self
    obtain ⟨m, hm, he⟩ := List.mem_map.1 hmod
    exact (hfiles rfl).2 m hm (he ▸ List.mem_cons_self)
  · exact (render_decided _ _).1.2 ⟨valid, fun m hm => (messages.2 m hm).2, members, files⟩

end WireProtocol.Target
