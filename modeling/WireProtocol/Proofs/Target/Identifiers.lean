import WireProtocol.Proofs.Target.Acceptance
import WireProtocol.Proofs.Target.Lines

namespace WireProtocol.Target.Rust

open Text (snakeCase isIdentifier isIdentifierRest isIdentifierStart)
open Files (Path)
open Files.Path (IsName ofNames)
open Schema (Definition)

/-- The words that the language keeps for itself, whether it has a use for them or not. -/
def reservedWords : List String :=
  ["Self", "abstract", "as", "async", "await", "become", "box", "break", "const", "continue",
    "crate", "do", "dyn", "else", "enum", "extern", "false", "final", "fn", "for", "if", "impl",
    "in", "let", "loop", "macro", "match", "mod", "move", "mut", "override", "priv", "pub", "ref",
    "return", "self", "static", "struct", "super", "trait", "true", "try", "type", "typeof",
    "unsafe", "unsized", "use", "virtual", "where", "while", "yield"]

def pathWords : List String := ["Self", "crate", "self", "super"]

inductive Legal : String → Prop
  | plain {name : String} (h : isIdentifier name.toList = true) (hu : name ≠ "_")
      (hr : name ∉ reservedWords) : Legal name
  | marked {word : String} (h : word ∈ reservedWords) (hp : word ∉ pathWords) :
      Legal ("r#" ++ word)

/-- The reserved words in lower case that `escape` does not mark, or marks in vain. -/
def unspeakable : List String :=
  ["abstract", "become", "crate", "do", "final", "macro", "override", "priv", "self", "super",
    "try", "typeof", "unsized", "virtual"]

theorem legal_marked_iff {word : String} :
    Legal ("r#" ++ word) ↔ word ∈ reservedWords ∧ word ∉ pathWords := by
  refine ⟨fun h => ?_, fun h => .marked h.1 h.2⟩
  generalize he : "r#" ++ word = name at h
  cases h with
  | plain h =>
    subst he
    exact absurd (Text.isIdentifierRest_of_isIdentifier h '#' (by simp)) (by decide)
  | marked h hp =>
    rw [(String.append_right_inj "r#").1 he]
    exact ⟨h, hp⟩

theorem legal_plain_iff {name : String} (hn : '#' ∉ name.toList) :
    Legal name ↔ isIdentifier name.toList = true ∧ name ≠ "_" ∧ name ∉ reservedWords := by
  refine ⟨fun h => ?_, fun h => .plain h.1 h.2.1 h.2.2⟩
  cases h with
  | plain h hu hr => exact ⟨h, hu, hr⟩
  | marked => exact absurd (by simp) hn

theorem isIdentifier_iff {name : String} (h : ∀ c ∈ name.toList, isIdentifierRest c = true) :
    isIdentifier name.toList = true ↔
      name ≠ "" ∧ ∀ c ∈ name.toList.head?, c.isDigit = false := by
  rw [Ne, ← String.toList_eq_nil_iff]
  cases hl : name.toList with
  | nil => simp [isIdentifier]
  | cons c rest =>
    rw [hl, List.forall_mem_cons] at h
    have hr : rest.all isIdentifierRest = true := List.all_eq_true.2 h.2
    have hs := Text.forall_isIdentifierRest
      (P := fun c => isIdentifierStart c = true ↔ c.isDigit = false) (by decide) h.1
    simp [isIdentifier, hr, hs]

theorem legal_escape_iff {word : String}
    (h : ∀ c ∈ word.toList, isIdentifierRest c = true ∧ c.isUpper = false) :
    Legal (escape word) ↔ (word ≠ "" ∧ ∀ c ∈ word.toList.head?, c.isDigit = false) ∧
      word ≠ "_" ∧ word ∉ unspeakable := by
  rw [escape]
  split
  · next hk =>
    -- Every keyword is reserved; the mark helps but those that lead into paths.
    have hwords : ∀ word ∈ keywords, word ∈ reservedWords ∧ word ≠ "" ∧
        word.toList.head?.all (!·.isDigit) = true ∧ word ≠ "_" ∧
        (word ∉ pathWords ↔ word ∉ unspeakable) := by decide
    obtain ⟨hr, hne, hd, hu, hp⟩ := hwords word (List.contains_iff_mem.1 hk)
    have hd : ∀ c ∈ word.toList.head?, c.isDigit = false := by simpa [Option.all_eq_true] using hd
    rw [legal_marked_iff, and_iff_right hr, hp, and_iff_right ⟨hne, hd⟩, and_iff_right hu]
  · next hk =>
    have hn : '#' ∉ word.toList := fun hm => absurd (h _ hm).1 (by decide)
    -- The one reserved word with a capital is no word in lower case.
    have hself : word ≠ "Self" := by
      rintro rfl
      exact absurd (h 'S' (by decide)).2 (by decide)
    have hwords : word ∈ reservedWords ↔ word ∈ unspeakable := by
      have hle : ∀ w ∈ reservedWords, w ∈ keywords ∨ w = "Self" ∨ w ∈ unspeakable := by decide
      have hge : ∀ w ∈ unspeakable, w ∈ reservedWords := by decide
      have hk : word ∉ keywords := fun hm => hk (List.contains_iff_mem.2 hm)
      exact ⟨fun hw => ((hle word hw).resolve_left hk).resolve_left hself, hge word⟩
    rw [legal_plain_iff hn, isIdentifier_iff fun c hc => (h c hc).1, hwords]

/-- The name makes an identifier when it is put in snake case and the ending is added. -/
structure Speakable (name ending : String) : Prop where
  nonempty : ending = "" → ∃ c ∈ name.toList, c ≠ '_'
  noDigit : ∀ c ∈ name.toList.find? (· != '_'), c.isDigit = false
  unreserved : snakeCase name ++ ending ∉ unspeakable

def endings : List String := ["", "_service", "_dispatch"]

section

variable {name : String} (h : isIdentifier name.toList = true)

include h

theorem snakeCase_eq_empty_iff : snakeCase name = "" ↔ ∀ c ∈ name.toList, c = '_' := by
  rw [← String.toList_eq_nil_iff, ← List.head?_eq_none_iff, Text.head?_snakeCase h]
  simp

theorem digit_snakeCase_iff : (∀ c ∈ (snakeCase name).toList.head?, c.isDigit = false) ↔
    ∀ c ∈ name.toList.find? (· != '_'), c.isDigit = false := by
  have hd : ∀ c ∈ name.toList, c.toLower.isDigit = c.isDigit := fun c hc =>
    Text.forall_isIdentifierRest (P := fun c => c.toLower.isDigit = c.isDigit) (by decide)
      (Text.isIdentifierRest_of_isIdentifier h c hc)
  rw [Text.head?_snakeCase h]
  cases hf : name.toList.find? (· != '_') with
  | none => simp
  | some c => simp [hd c (List.mem_of_find?_eq_some hf)]

theorem snakeCase_ne_underscore : snakeCase name ≠ "_" := by
  intro he
  have hh := Text.head?_snakeCase h
  rw [he] at hh
  obtain ⟨c, hc, hl⟩ := Option.map_eq_some_iff.1 hh.symm
  have hu : c ≠ '_' := by simpa using List.find?_some hc
  exact Text.forall_isIdentifierRest (P := fun c => c ≠ '_' → c.toLower ≠ '_') (by decide)
    (Text.isIdentifierRest_of_isIdentifier h c (List.mem_of_find?_eq_some hc)) hu hl

theorem legal_escape_snakeCase_iff {ending : String} (he : ending ∈ endings) :
    Legal (escape (snakeCase name ++ ending)) ↔ Speakable name ending := by
  have hends : ∀ e ∈ endings, e.toList.all (fun c => isIdentifierRest c && !c.isUpper) = true ∧
      e.toList.head?.all (!·.isDigit) = true ∧ (e ≠ "" → 2 < e.toList.length) := by decide
  obtain ⟨hrest, hdigit, hlong⟩ := hends ending he
  have hrest : ∀ c ∈ ending.toList, isIdentifierRest c = true ∧ c.isUpper = false := by
    simpa using hrest
  have hw : ∀ c ∈ (snakeCase name ++ ending).toList,
      isIdentifierRest c = true ∧ c.isUpper = false := by
    rw [String.toList_append]
    exact List.forall_mem_append.2 ⟨fun c hc => Text.lowered_of_mem_snakeCase h hc, hrest⟩
  have hu : snakeCase name ++ ending ≠ "_" := by
    by_cases hn : ending = ""
    · rw [hn, String.append_empty]
      exact snakeCase_ne_underscore h
    · intro hc
      have hl : ((snakeCase name).toList ++ ending.toList).length = 1 := by
        rw [← String.toList_append, hc]
        rfl
      have hlong := hlong hn
      rw [List.length_append] at hl
      omega
  have hempty : snakeCase name ++ ending ≠ "" ↔ (ending = "" → ∃ c ∈ name.toList, c ≠ '_') := by
    rw [Ne, String.append_eq_empty_iff, snakeCase_eq_empty_iff h]
    grind
  have hd : (∀ c ∈ (snakeCase name ++ ending).toList.head?, c.isDigit = false) ↔
      ∀ c ∈ name.toList.find? (· != '_'), c.isDigit = false := by
    rw [← digit_snakeCase_iff h, String.toList_append, List.head?_append]
    cases (snakeCase name).toList.head? with
    | none => simpa [Option.all_eq_true] using hdigit
    | some c => simp
  rw [legal_escape_iff hw, and_iff_right hu, hempty, hd, and_assoc]
  exact ⟨fun ⟨h, h', h''⟩ => ⟨h, h', h''⟩, fun ⟨h, h', h''⟩ => ⟨h, h', h''⟩⟩

end

def topModules : List String := ["types", "serialization", "registry", "client", "server"]

/-- A name of the schema, with an ending, is emitted as the name of a field, a method, a segment of
the namespace or a module. -/
inductive Emits (d : Definition) (o : Options) : String → String → String → Prop
  | field {m : Schema.Message} (hm : m ∈ d.messages) {f : Schema.Field} (hf : f ∈ m.fields) :
      Emits d o f.name "" (rust.fieldName f.name)
  | method {s : Schema.Service} (hs : s ∈ d.services) {r : Schema.Method} (hr : r ∈ s.methods) :
      Emits d o r.name "" (rust.methodName r.name)
  | segment {part : String} (hp : part ∈ nameParts d.namespaceName) :
      Emits d o part "" (moduleName part)
  | top {module : String} (h : module ∈ topModules) : Emits d o module "" module
  | reexport {s : Schema.Service} (hs : s ∈ d.services) : Emits d o s.name "" (moduleName s.name)
  | serializer {m : Schema.Message} (hm : m ∈ d.messages) {stem : String}
      (h : (rust.serializer (rust.context d o) m).path.stem? = some stem) :
      Emits d o m.name "" (escape stem)
  | client {s : Schema.Service} (hs : s ∈ d.services) {stem : String}
      (h : (rust.client (rust.context d o) s).path.stem? = some stem) :
      Emits d o s.name "" (escape stem)
  | handlers {s : Schema.Service} (hs : s ∈ d.services) {stem : String}
      (h : (handlers (rust.context d o) s).path.stem? = some stem) :
      Emits d o s.name "_service" (escape stem)
  | dispatch {s : Schema.Service} (hs : s ∈ d.services) {stem : String}
      (h : (dispatch (rust.context d o) s).path.stem? = some stem) :
      Emits d o s.name "_dispatch" (escape stem)

section

variable {name ending : String} (h : isIdentifier name.toList = true)

include h

theorem legal_stem_iff {dir file stem : String} (hd : IsName dir) (he : ending ∈ endings)
    (hf : snakeCase name ++ ending ++ ".rs" = file)
    (hs : (ofNames [dir, file]).stem? = some stem) :
    Legal (escape stem) ↔ Speakable name ending := by
  have hends : ∀ e ∈ endings, '/' ∉ e.toList := by decide
  have hslash : '/' ∉ (snakeCase name ++ ending).toList := slash_notMem_append
    (Text.slash_notMem_snakeCase (Text.slash_notMem_of_isIdentifier h)) (hends ending he)
  have hname := (@shelved_append _ ".rs" _ hd hslash (by decide)).isName _
    (List.mem_cons_of_mem _ List.mem_cons_self)
  rw [← hf, Path.stem?_ofNames_pair hd hname] at hs
  obtain rfl := Option.some.inj hs
  by_cases hw : snakeCase name ++ ending = ""
  -- The file is called `.rs`, which counts as a name without an extension.
  · have hl : ¬ Legal (escape (Path.splitExtension ("" ++ ".rs")).1) := fun hl =>
      absurd ((legal_plain_iff (by decide)).1 hl).1 (by decide)
    rw [hw]
    refine iff_of_false hl fun hspeak => ?_
    obtain ⟨hempty, hending⟩ := String.append_eq_empty_iff.1 hw
    obtain ⟨c, hc, hne⟩ := hspeak.nonempty hending
    exact hne ((snakeCase_eq_empty_iff h).1 hempty c hc)
  · have hr : ".rs" = String.ofList ('.' :: "rs".toList) := rfl
    rw [hr, Path.splitExtension_append hw (by decide)]
    exact legal_escape_snakeCase_iff h he

end

section

variable {d : Definition} {o : Options} {s : Schema.Service} (cx : Context)

theorem path_handlers (hs : '/' ∉ s.name.toList) :
    (handlers cx s).path = ofNames ["server", snakeCase s.name ++ "_service.rs"] :=
  path_inDirectory (shallow_rust.servers hs _ List.mem_cons_self) _

theorem path_dispatch (hs : '/' ∉ s.name.toList) :
    (dispatch cx s).path = ofNames ["server", snakeCase s.name ++ "_dispatch.rs"] :=
  path_inDirectory (shallow_rust.servers hs _ (List.mem_cons_of_mem _ List.mem_cons_self)) _

theorem legal_of_emits {last : Nat} (hw : d.WellFormed last) {name ending emitted : String}
    (h : Emits d o name ending emitted) : Legal emitted ↔ Speakable name ending := by
  have plain : ∀ {name : String}, isIdentifier name.toList = true →
      (Legal (moduleName name) ↔ Speakable name "") := fun {name} hn => by
    have h := @legal_escape_snakeCase_iff _ hn "" (by decide)
    rwa [String.append_empty] at h
  have hservice : ∀ s ∈ d.services, isIdentifier s.name.toList = true := fun s hs =>
    (hw.services s hs).name
  cases h with
  | field hm hf => exact plain ((hw.messages _ hm).fields _ hf).name
  | method hs hr => exact plain ((hw.services _ hs).methods _ hr).name
  | segment hp => exact plain (isIdentifier_of_mem_nameParts hw.namespaceName hp)
  | reexport hs => exact plain (hservice _ hs)
  | top hm =>
    have ht : ∀ y ∈ topModules, isIdentifier y.toList = true ∧ moduleName y = y := by decide
    obtain ⟨hi, he⟩ := ht _ hm
    have h := plain hi
    rwa [he] at h
  | serializer hm h =>
    have hn := (hw.messages _ hm).name
    rw [holds_rust.serializer _ (Text.slash_notMem_of_isIdentifier hn)] at h
    exact legal_stem_iff hn (by decide) (by decide) (by rw [String.append_empty]) h
  | client hs h =>
    have hn := hservice _ hs
    rw [holds_rust.client _ (Text.slash_notMem_of_isIdentifier hn)] at h
    exact legal_stem_iff hn (by decide) (by decide) (by rw [String.append_empty]) h
  | handlers hs h =>
    have hn := hservice _ hs
    rw [path_handlers _ (Text.slash_notMem_of_isIdentifier hn)] at h
    exact legal_stem_iff hn (by decide) (by decide) String.append_assoc h
  | dispatch hs h =>
    have hn := hservice _ hs
    rw [path_dispatch _ (Text.slash_notMem_of_isIdentifier hn)] at h
    exact legal_stem_iff hn (by decide) (by decide) String.append_assoc h

theorem emits_of_mem_modulesIn (hd : d.SlashFree) {dir : String} (hdir : dir ∈ topModules)
    {emitted : String} (h : emitted ∈ modulesIn dir (rust.mainUnits d o)) :
    ∃ name ending, Emits d o name ending emitted := by
  have hnames : ∀ dir ∈ topModules, IsName dir := by decide
  have hdir := hnames dir hdir
  obtain ⟨file, hm, rfl⟩ :=
    (mem_modulesIn hdir (holds_rust.main hd o) (shallow_rust.main hd)).1 h
  have hstem := Path.stem?_ofNames_pair hdir ((shallow_rust.main hd _ hm).isName file (by simp))
  rcases mem_main_rust.1 hm with ⟨-, m, hmem, he⟩ | ⟨-, s, hs, he | he | he⟩ <;> rw [he] at hstem
  · have hp := holds_rust.serializer (rust.context d o) (hd.messages m hmem)
    exact ⟨_, _, .serializer hmem ((congrArg Path.stem? hp).trans hstem)⟩
  · have hp := holds_rust.client (rust.context d o) (hd.services s hs)
    exact ⟨_, _, .client hs ((congrArg Path.stem? hp).trans hstem)⟩
  · have hp := path_handlers (rust.context d o) (hd.services s hs)
    exact ⟨_, _, .handlers hs ((congrArg Path.stem? hp).trans hstem)⟩
  · have hp := path_dispatch (rust.context d o) (hd.services s hs)
    exact ⟨_, _, .dispatch hs ((congrArg Path.stem? hp).trans hstem)⟩

end

/-- Whatever text is read, what is emitted for its names is an identifier exactly when the name is
speakable, and every module that is listed for a folder is emitted for a name. -/
theorem emitted_legal_iff (source : String) (o : Options) :
    let d := (Schema.readSource source).definition
    (∀ name ending emitted, Emits d o name ending emitted →
      (Legal emitted ↔ Speakable name ending)) ∧
    ∀ dir ∈ topModules, ∀ emitted ∈ modulesIn dir (rust.mainUnits d o),
      ∃ name ending, Emits d o name ending emitted := by
  have hw := Schema.wellFormed_readSource source
  exact ⟨fun _ _ _ => legal_of_emits hw, fun _ hdir _ => emits_of_mem_modulesIn hw.slashFree hdir⟩

def soleField (name : String) : Schema.Reading :=
  Schema.readSource ("namespace t\nmessage M \x7b int32 " ++ name ++ " = 1; \x7d")

theorem emits_soleField {name emitted : String}
    (h : ∃ m ∈ (soleField name).definition.messages, ∃ f ∈ m.fields,
      f.name = name ∧ rust.fieldName f.name = emitted) :
    Emits (soleField name).definition {} name "" emitted := by
  obtain ⟨m, hm, f, hf, hname, hemitted⟩ := h
  have emits : Emits (soleField name).definition {} f.name "" (rust.fieldName f.name) :=
    .field hm hf
  rwa [hemitted, hname] at emits

theorem emitted_legal_iff_type :
    Emits (soleField "Type").definition {} "Type" "" "r#type" ∧ Speakable "Type" "" ∧
      Legal "r#type" := by
  have emits : Emits (soleField "Type").definition {} "Type" "" "r#type" :=
    emits_soleField (by decide +kernel)
  have speakable : Speakable "Type" "" :=
    ⟨fun _ => ⟨'T', by decide, by decide⟩, by simp, by decide⟩
  exact ⟨emits, speakable, ((emitted_legal_iff _ {}).1 _ _ _ emits).2 speakable⟩

/-- A field may be called by a word that the language only reserves. -/
theorem emitted_illegal :
    (soleField "try").diagnostics = [] ∧
      (∃ units, render rust (soleField "try").definition {} = .ok units) ∧
        Emits (soleField "try").definition {} "try" "" "try" ∧ ¬ Legal "try" := by
  have hd : (soleField "try").definition.SlashFree := (Schema.wellFormed_readSource _).slashFree
  have rendered := @exists_render_of_none rust _ {} _ complete_rust hd
    (by decide +kernel) (by decide +kernel) (by decide +kernel)
  exact ⟨by decide +kernel, rendered, emits_soleField (by decide +kernel), fun h =>
    absurd ((legal_plain_iff (by decide)).1 h).2.2 (by decide)⟩

end WireProtocol.Target.Rust
