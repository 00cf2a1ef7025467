import WireProtocol.Proofs.Files.Path
import WireProtocol.Proofs.NameWords
import WireProtocol.Target.Render

namespace WireProtocol.Files.Path

variable {dir file : String}

theorem ofNames_pair (hd : IsName dir) (hf : IsName file) :
    join ⟨dir⟩ ⟨file⟩ = ofNames [dir, file] := by
  have h : ∀ n ∈ [dir] ++ [file], IsName n := by simp [hd, hf]
  rw [← ofNames_singleton dir, ← ofNames_singleton file, ← empty_join (ofNames [dir]),
    ← join_ofNames_append (by simp) (by simp) h, empty_join]
  rfl

theorem dropIdle_name (hf : IsName file) : dropIdle [file] = [file] := by
  rw [dropIdle, if_neg (not_or.2 ⟨hf.ne_empty, hf.ne_current⟩)]

theorem parent?_ofNames_pair (hd : IsName dir) (hf : IsName file) :
    (ofNames [dir, file]).parent? = some ⟨dir⟩ := by
  rw [parent?, pieces_ofNames (by simp) (by simp [hd, hf])]
  simp [dropIdle_name hf, dropIdle, hd.ne_empty]

theorem parent?_ofNames_singleton (hf : IsName file) : (ofNames [file]).parent? = some ⟨""⟩ := by
  rw [parent?, pieces_ofNames (by simp) (by simp [hf])]
  simp [dropIdle, hf.ne_empty]

theorem stem?_ofNames_pair (hd : IsName dir) (hf : IsName file) :
    (ofNames [dir, file]).stem? = some (splitExtension file).1 := by
  rw [stem?, fileName?, parts_ofNames (by simp [hd, hf])]
  rfl

theorem splitExtension_append {stem : String} (hs : stem ≠ "") {extension : List Char}
    (he : '.' ∉ extension) :
    splitExtension (stem ++ String.ofList ('.' :: extension)) =
      (stem, some (String.ofList extension)) := by
  have he : ∀ c ∈ extension.reverse, (c == '.') = false := fun c hc => by
    rw [beq_eq_false_iff_ne]
    rintro rfl
    exact he (List.mem_reverse.1 hc)
  have hn : stem.toList.reverse.isEmpty = false := by simpa using hs
  rw [splitExtension, String.toList_append, String.toList_ofList, List.reverse_append,
    List.reverse_cons, List.append_assoc, List.singleton_append, Text.cutAt?_append he rfl]
  simp [hn]

end WireProtocol.Files.Path

namespace WireProtocol.Schema.Definition

structure SlashFree (d : Definition) : Prop where
  messages : ∀ m ∈ d.messages, '/' ∉ m.name.toList
  services : ∀ s ∈ d.services, '/' ∉ s.name.toList

end WireProtocol.Schema.Definition

namespace WireProtocol.Target

open Files (Path)
open Files.Path (IsName ofNames)
open Schema (Definition)
open Text (snakeCase slash_notMem_snakeCase)

inductive Shelved : List String → Prop
  | top {file : String} (hf : IsName file) : Shelved [file]
  | folder {dir file : String} (hd : IsName dir) (hf : IsName file) : Shelved [dir, file]

theorem Shelved.isName {names : List String} (h : Shelved names) : ∀ n ∈ names, IsName n := by
  cases h with
  | top hf => simpa using hf
  | folder hd hf => simpa using ⟨hd, hf⟩

theorem Shelved.plain {names : List String} (h : Shelved names) : (ofNames names).Plain := by
  refine ⟨names, ?_, h.isName, rfl⟩
  cases h <;> simp

section

variable {name ending dir file : String}

theorem slash_notMem_append (hn : '/' ∉ name.toList) (he : '/' ∉ ending.toList) :
    '/' ∉ (name ++ ending).toList := by
  rw [String.toList_append, List.mem_append]
  exact not_or.2 ⟨hn, he⟩

theorem shelved_append (hd : IsName dir) (hn : '/' ∉ name.toList)
    (he : '/' ∉ ending.toList ∧ 2 < ending.toList.length) : Shelved [dir, name ++ ending] := by
  refine .folder hd (.of_length (slash_notMem_append hn he.1) ?_)
  rw [String.toList_append, List.length_append]
  omega

theorem path_ofCode (file : String) (code : Code) :
    (SourceUnit.ofCode file code).path = ofNames [file] := (Path.ofNames_singleton file).symm

theorem path_inDirectory (h : Shelved [dir, file]) (code : Code) :
    (SourceUnit.inDirectory dir file code).path = ofNames [dir, file] :=
  Path.ofNames_pair (h.isName dir (by simp)) (h.isName file (by simp))

end

/-- Where the units of a target lie, by the names on their paths. -/
structure Filing where
  messages : List String
  serializer : String → List String
  registry : List String
  client : String → List String
  servers : String → List (List String)
  support : Definition → Options → List (List String)

namespace Filing

def service (f : Filing) (name : String) : List (List String) := f.client name :: f.servers name

def messageUnits (f : Filing) (d : Definition) (o : Options) : List (List String) :=
  if o.serialization then
    d.messages.map (fun m => f.serializer m.name) ++ (if o.factories then [f.registry] else [])
  else []

def serviceUnits (f : Filing) (d : Definition) (o : Options) : List (List String) :=
  if o.clientServer then d.services.flatMap fun s => f.service s.name else []

def main (f : Filing) (d : Definition) (o : Options) : List (List String) :=
  f.messages :: (f.messageUnits d o ++ f.serviceUnits d o)

def all (f : Filing) (d : Definition) (o : Options) : List (List String) :=
  f.main d o ++ f.support d o

variable {f : Filing} {l : Language} {d : Definition} {o : Options}

theorem mem_messageUnits {names : List String} :
    names ∈ f.messageUnits d o ↔ o.serialization = true ∧
      ((∃ m ∈ d.messages, names = f.serializer m.name) ∨
        o.factories = true ∧ names = f.registry) := by
  simp [messageUnits, @eq_comm _ names]

theorem mem_serviceUnits {names : List String} :
    names ∈ f.serviceUnits d o ↔ o.clientServer = true ∧
      ∃ s ∈ d.services, names ∈ f.service s.name := by
  simp [serviceUnits]

theorem mem_main {names : List String} :
    names ∈ f.main d o ↔
      names = f.messages ∨ names ∈ f.messageUnits d o ∨ names ∈ f.serviceUnits d o := by
  rw [main, List.mem_cons, List.mem_append]

structure Shallow (f : Filing) : Prop where
  messages : Shelved f.messages
  serializer : ∀ {name}, '/' ∉ name.toList → Shelved (f.serializer name)
  registry : Shelved f.registry
  client : ∀ {name}, '/' ∉ name.toList → Shelved (f.client name)
  servers : ∀ {name}, '/' ∉ name.toList → ∀ names ∈ f.servers name, Shelved names
  support : ∀ d o, ∀ names ∈ f.support d o, Shelved names

theorem Shallow.main (h : f.Shallow) (hd : d.SlashFree) : ∀ names ∈ f.main d o, Shelved names := by
  intro names hn
  rcases mem_main.1 hn with rfl | hn | hn
  · exact h.messages
  · obtain ⟨-, ⟨m, hm, rfl⟩ | ⟨-, rfl⟩⟩ := mem_messageUnits.1 hn
    · exact h.serializer (hd.messages m hm)
    · exact h.registry
  · obtain ⟨-, s, hs, hn⟩ := mem_serviceUnits.1 hn
    rcases List.mem_cons.1 hn with rfl | hn
    · exact h.client (hd.services s hs)
    · exact h.servers (hd.services s hs) names hn

theorem Shallow.all (h : f.Shallow) (hd : d.SlashFree) : ∀ names ∈ f.all d o, Shelved names :=
  List.forall_mem_append.2 ⟨h.main hd, h.support d o⟩

structure Holds (f : Filing) (l : Language) : Prop where
  messages : ∀ cx, (l.messages cx).path = ofNames f.messages
  serializer : ∀ cx {m : Schema.Message}, '/' ∉ m.name.toList →
    (l.serializer cx m).path = ofNames (f.serializer m.name)
  registry : ∀ cx, (l.registry cx).path = ofNames f.registry
  client : ∀ cx {s : Schema.Service}, '/' ∉ s.name.toList →
    (l.client cx s).path = ofNames (f.client s.name)
  servers : ∀ cx {s : Schema.Service}, '/' ∉ s.name.toList →
    (l.servers cx s).map (·.path) = (f.servers s.name).map ofNames

theorem Holds.main (h : f.Holds l) (hd : d.SlashFree) (o : Options) :
    (l.mainUnits d o).map (·.path) = (f.main d o).map ofNames := by
  have hm : d.messages.map (fun m => (l.serializer (l.context d o) m).path) =
      d.messages.map (fun m => ofNames (f.serializer m.name)) :=
    List.map_congr_left fun m hm => h.serializer _ (hd.messages m hm)
  have hs : d.services.flatMap (fun s => (l.client (l.context d o) s ::
        l.servers (l.context d o) s).map (·.path)) =
      d.services.flatMap (fun s => (f.service s.name).map ofNames) :=
    List.flatMap_congr fun s hs => by
      rw [service, List.map_cons, List.map_cons, h.client _ (hd.services s hs),
        h.servers _ (hd.services s hs)]
  rw [Language.mainUnits, Filing.main, messageUnits, serviceUnits, List.append_assoc,
    List.singleton_append, List.map_cons, List.map_cons, h.messages]
  simp only [List.map_append, apply_ite (List.map _), List.map_map, Function.comp_def, hm,
    List.map_singleton, h.registry, List.map_nil, List.map_flatMap, hs]

end Filing

namespace Rust

theorem mem_insertSorted {s y : String} {l : List String} :
    y ∈ insertSorted s l ↔ y = s ∨ y ∈ l := by
  induction l with
  | nil => simp [insertSorted]
  | cons t l ih =>
    rw [insertSorted]
    split
    · simp
    · split
      · next hst => simp [hst]
      · simp only [List.mem_cons, ih]
        exact or_left_comm

theorem mem_foldr_insertSorted {y : String} {l : List String} :
    y ∈ l.foldr insertSorted [] ↔ y ∈ l := by
  induction l with
  | nil => simp
  | cons s l ih => rw [List.foldr_cons, mem_insertSorted, ih, List.mem_cons]

theorem parent?_eq_iff {dir : String} (hd : IsName dir) {names : List String} (h : Shelved names) :
    (ofNames names).parent?.map Path.parts = some (Path.parts ⟨dir⟩) ↔
      ∃ file, names = [dir, file] := by
  have parts_mk : ∀ {s : String}, IsName s → Path.parts ⟨s⟩ = [.name s] := fun {s} hs => by
    rw [← Path.ofNames_singleton, Path.parts_ofNames (by simpa using hs)]
    rfl
  cases h with
  | top hf =>
    rw [Path.parent?_ofNames_singleton hf, parts_mk hd]
    simp [show Path.parts ⟨""⟩ = [] from by decide]
  | folder hd' hf =>
    rw [Path.parent?_ofNames_pair hd' hf, parts_mk hd, Option.map_some, parts_mk hd']
    simp

section

variable {dir : String} (hd : IsName dir) {units : List SourceUnit} {paths : List (List String)}
  (hp : units.map (·.path) = paths.map ofNames) (hs : ∀ names ∈ paths, Shelved names)

include hd hp hs

theorem mem_modulesIn {y : String} : y ∈ modulesIn dir units ↔
    ∃ file, [dir, file] ∈ paths ∧ escape (Path.splitExtension file).1 = y := by
  have hunits : y ∈ modulesIn dir units ↔ ∃ p ∈ units.map (·.path),
      p.parent?.map Path.parts = some (Path.parts ⟨dir⟩) ∧ p.stem?.map escape = some y := by
    simp only [modulesIn, mem_foldr_insertSorted, List.mem_filterMap, List.mem_filter,
      List.mem_map, beq_iff_eq, and_assoc, exists_exists_and_eq_and]
  rw [hunits, hp]
  constructor
  · rintro ⟨_, hm, hparent, hstem⟩
    obtain ⟨names, hn, rfl⟩ := List.mem_map.1 hm
    obtain ⟨file, rfl⟩ := (parent?_eq_iff hd (hs names hn)).1 hparent
    have hf : IsName file := (hs _ hn).isName file (by simp)
    rw [Path.stem?_ofNames_pair hd hf] at hstem
    exact ⟨file, hn, Option.some.inj hstem⟩
  · rintro ⟨file, hn, rfl⟩
    have hf : IsName file := (hs _ hn).isName file (by simp)
    refine ⟨_, List.mem_map_of_mem hn, (parent?_eq_iff hd (hs _ hn)).2 ⟨file, rfl⟩, ?_⟩
    rw [Path.stem?_ofNames_pair hd hf]
    rfl

theorem isEmpty_modulesIn :
    (modulesIn dir units).isEmpty = false ↔ ∃ file, [dir, file] ∈ paths := by
  rw [List.isEmpty_eq_false_iff_exists_mem]
  simp only [mem_modulesIn hd hp hs]
  exact ⟨fun ⟨_, file, hm, _⟩ => ⟨file, hm⟩, fun ⟨file, hm⟩ => ⟨_, file, hm, rfl⟩⟩

end

end Rust

def rustFiling : Filing where
  messages := ["types.rs"]
  serializer name := ["serialization", snakeCase name ++ ".rs"]
  registry := ["registry.rs"]
  client name := ["client", snakeCase name ++ ".rs"]
  servers name :=
    [["server", snakeCase name ++ "_service.rs"], ["server", snakeCase name ++ "_dispatch.rs"]]
  support d o :=
    (if o.serialization && !d.messages.isEmpty then [["serialization", "mod.rs"]] else []) ++
    (if o.clientServer && !d.services.isEmpty then [["client", "mod.rs"]] else []) ++
    (if o.clientServer && !d.services.isEmpty then [["server", "mod.rs"]] else []) ++
    [["mod.rs"]]

def cSharpFiling : Filing where
  messages := ["Messages.cs"]
  serializer name := ["Serialization", name ++ "Serializer" ++ ".cs"]
  registry := ["Serialization", "SerializerRegistry.cs"]
  client name := ["Client", name ++ "Client" ++ ".cs"]
  servers name :=
    [["Server", "I" ++ name ++ "Service.cs"], ["Server", name ++ "ServiceBase" ++ ".cs"]]
  support _ _ := []

def cppFiling : Filing where
  messages := ["messages.h"]
  serializer name := ["serialization", snakeCase name ++ "_serializer.h"]
  registry := ["serialization", "serializer_registry.h"]
  client name := ["client", snakeCase name ++ "_client.h"]
  servers name :=
    [["server", "i_" ++ snakeCase name ++ "_service.h"],
      ["server", snakeCase name ++ "_service_base.h"]]
  support _ _ := [["CMakeLists.txt"]]

theorem shallow_rust : rustFiling.Shallow where
  messages := .top (by decide)
  serializer h := shelved_append (by decide) (slash_notMem_snakeCase h) (by decide)
  registry := .top (by decide)
  client h := shelved_append (by decide) (slash_notMem_snakeCase h) (by decide)
  servers h := List.forall_mem_cons.2
    ⟨shelved_append (by decide) (slash_notMem_snakeCase h) (by decide),
      List.forall_mem_singleton.2
        (shelved_append (by decide) (slash_notMem_snakeCase h) (by decide))⟩
  support d o names hn := by
    simp only [rustFiling, List.mem_append, List.mem_ite_nil_right, List.mem_singleton] at hn
    rcases hn with ((⟨-, rfl⟩ | ⟨-, rfl⟩) | ⟨-, rfl⟩) | rfl
    · exact .folder (by decide) (by decide)
    · exact .folder (by decide) (by decide)
    · exact .folder (by decide) (by decide)
    · exact .top (by decide)

theorem shallow_cSharp : cSharpFiling.Shallow where
  messages := .top (by decide)
  serializer h := shelved_append (by decide) (slash_notMem_append h (by decide)) (by decide)
  registry := .folder (by decide) (by decide)
  client h := shelved_append (by decide) (slash_notMem_append h (by decide)) (by decide)
  servers h := List.forall_mem_cons.2
    ⟨shelved_append (by decide) (slash_notMem_append (by decide) h) (by decide),
      List.forall_mem_singleton.2
        (shelved_append (by decide) (slash_notMem_append h (by decide)) (by decide))⟩
  support _ _ := List.forall_mem_nil _

theorem shallow_cpp : cppFiling.Shallow where
  messages := .top (by decide)
  serializer h := shelved_append (by decide) (slash_notMem_snakeCase h) (by decide)
  registry := .folder (by decide) (by decide)
  client h := shelved_append (by decide) (slash_notMem_snakeCase h) (by decide)
  servers h := List.forall_mem_cons.2
    ⟨shelved_append (by decide) (slash_notMem_append (by decide) (slash_notMem_snakeCase h))
        (by decide),
      List.forall_mem_singleton.2
        (shelved_append (by decide) (slash_notMem_snakeCase h) (by decide))⟩
  support _ _ := List.forall_mem_singleton.2 (.top (by decide))

theorem holds_rust : rustFiling.Holds rust where
  messages _ := path_ofCode _ _
  serializer _ _ h := path_inDirectory (shallow_rust.serializer h) _
  registry _ := path_ofCode _ _
  client _ _ h := path_inDirectory (shallow_rust.client h) _
  servers _ _ h := congrArg₂ (fun p q => [p, q])
    (path_inDirectory (shallow_rust.servers h _ List.mem_cons_self) _)
    (path_inDirectory (shallow_rust.servers h _ (List.mem_cons_of_mem _ List.mem_cons_self)) _)

theorem holds_cSharp : cSharpFiling.Holds cSharp where
  messages _ := path_ofCode _ _
  serializer _ _ h := path_inDirectory (shallow_cSharp.serializer h) _
  registry _ := path_inDirectory shallow_cSharp.registry _
  client _ _ h := path_inDirectory (shallow_cSharp.client h) _
  servers _ _ h := congrArg₂ (fun p q => [p, q])
    (path_inDirectory (shallow_cSharp.servers h _ List.mem_cons_self) _)
    (path_inDirectory (shallow_cSharp.servers h _ (List.mem_cons_of_mem _ List.mem_cons_self)) _)

theorem holds_cpp : cppFiling.Holds cpp where
  messages _ := path_ofCode _ _
  serializer _ _ h := path_inDirectory (shallow_cpp.serializer h) _
  registry _ := path_inDirectory shallow_cpp.registry _
  client _ _ h := path_inDirectory (shallow_cpp.client h) _
  servers _ _ h := congrArg₂ (fun p q => [p, q])
    (path_inDirectory (shallow_cpp.servers h _ List.mem_cons_self) _)
    (path_inDirectory (shallow_cpp.servers h _ (List.mem_cons_of_mem _ List.mem_cons_self)) _)

variable {d : Definition}

theorem mem_main_rust {o : Options} {dir file : String} : [dir, file] ∈ rustFiling.main d o ↔
    (o.serialization = true ∧ ∃ m ∈ d.messages,
      [dir, file] = ["serialization", snakeCase m.name ++ ".rs"]) ∨
    (o.clientServer = true ∧ ∃ s ∈ d.services,
      [dir, file] = ["client", snakeCase s.name ++ ".rs"] ∨
      [dir, file] = ["server", snakeCase s.name ++ "_service.rs"] ∨
      [dir, file] = ["server", snakeCase s.name ++ "_dispatch.rs"]) := by
  simp [Filing.mem_main, Filing.mem_messageUnits, Filing.mem_serviceUnits, Filing.service,
    rustFiling]

theorem support_rust (hd : d.SlashFree) (o : Options) :
    (rust.support (rust.context d o) (rust.mainUnits d o)).map (·.path) =
      (rustFiling.support d o).map ofNames := by
  have empty : ∀ {dir : String}, IsName dir → ∀ {c : Bool},
      ((∃ file, [dir, file] ∈ rustFiling.main d o) ↔ c = true) →
        (Rust.modulesIn dir (rust.mainUnits d o)).isEmpty = !c := by
    intro dir hdir c hc
    rw [← Rust.isEmpty_modulesIn hdir (holds_rust.main hd o) (shallow_rust.main hd)] at hc
    rw [← Bool.not_eq_eq_eq_not, Bool.eq_iff_iff, Bool.not_eq_true', hc]
  have hserialization := @empty "serialization" (by decide) (o.serialization && !d.messages.isEmpty)
    (by simp [mem_main_rust, ← List.isEmpty_eq_false_iff_exists_mem])
  have hclient := @empty "client" (by decide) (o.clientServer && !d.services.isEmpty)
    (by simp [mem_main_rust, ← List.isEmpty_eq_false_iff_exists_mem])
  have hserver := @empty "server" (by decide) (o.clientServer && !d.services.isEmpty)
    (by simp [mem_main_rust, ← List.isEmpty_eq_false_iff_exists_mem, and_or_left, exists_or])
  have index : ∀ {dir : String}, IsName dir → ∀ modules exports,
      (Rust.index dir modules exports).path = ofNames [dir, "mod.rs"] := fun hdir _ _ =>
    path_inDirectory (.folder hdir (by decide)) _
  change (Rust.support (rust.context d o) (rust.mainUnits d o)).map (·.path) = _
  simp only [Rust.support, rustFiling, List.map_append, hserialization, hclient, hserver,
    apply_ite (List.map _), List.map_nil, List.map_singleton, path_ofCode,
    @index "serialization" (by decide), @index "client" (by decide), @index "server" (by decide)]
  cases o.serialization && !d.messages.isEmpty <;>
    cases o.clientServer && !d.services.isEmpty <;> rfl

structure Filing.Complete (f : Filing) (l : Language) : Prop where
  shallow : f.Shallow
  holds : f.Holds l
  support : ∀ {d : Definition}, d.SlashFree → ∀ o,
    (l.support (l.context d o) (l.mainUnits d o)).map (·.path) = (f.support d o).map ofNames

theorem complete_rust : rustFiling.Complete rust := ⟨shallow_rust, holds_rust, support_rust⟩

theorem complete_cSharp : cSharpFiling.Complete cSharp :=
  ⟨shallow_cSharp, holds_cSharp, fun _ _ => rfl⟩

theorem complete_cpp : cppFiling.Complete cpp :=
  ⟨shallow_cpp, holds_cpp, fun _ _ => congrArg (fun p => [p]) (path_ofCode _ _)⟩

theorem exists_complete {l : Language} (h : l ∈ all) : ∃ f : Filing, f.Complete l := by
  simp only [all, List.mem_cons, List.not_mem_nil, or_false] at h
  rcases h with rfl | rfl | rfl
  · exact ⟨_, complete_rust⟩
  · exact ⟨_, complete_cSharp⟩
  · exact ⟨_, complete_cpp⟩

theorem Filing.Complete.paths {f : Filing} {l : Language} (h : f.Complete l) (hd : d.SlashFree)
    (o : Options) :
    (l.mainUnits d o ++ l.support (l.context d o) (l.mainUnits d o)).map (·.path) =
      (f.all d o).map ofNames := by
  rw [List.map_append, h.holds.main hd, h.support hd, Filing.all, List.map_append]

end WireProtocol.Target
