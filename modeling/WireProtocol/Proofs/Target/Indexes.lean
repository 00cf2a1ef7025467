import WireProtocol.Proofs.Target.Functions
import WireProtocol.Proofs.Target.Listing
import WireProtocol.Proofs.Target.Rendered

namespace WireProtocol.Target

open Files (Path)
open Files.Path (IsName ofNames)
open Schema (Definition)
open Text (snakeCase isIdentifier)

namespace Rust

theorem pairwise_insertSorted {s : String} {names : List String} (h : names.Pairwise (· < ·)) :
    (insertSorted s names).Pairwise (· < ·) := by
  induction names with
  | nil => exact List.pairwise_singleton _ _
  | cons t names ih =>
    obtain ⟨ht, hn⟩ := List.pairwise_cons.1 h
    rw [insertSorted]
    split
    · next hst =>
      refine List.pairwise_cons.2 ⟨List.forall_mem_cons.2 ⟨hst, fun x hx => ?_⟩, h⟩
      exact String.lt_trans hst (ht x hx)
    · split
      · exact h
      · next hst hne =>
        refine List.pairwise_cons.2 ⟨fun x hx => ?_, ih hn⟩
        rcases mem_insertSorted.1 hx with rfl | hx
        · exact String.not_le.1 fun hle => hne (String.le_antisymm hle (String.not_lt.1 hst))
        · exact ht x hx

theorem pairwise_modulesIn (dir : String) (units : List SourceUnit) :
    (modulesIn dir units).Pairwise (· < ·) := by
  rw [modulesIn]
  generalize List.filterMap _ _ = names
  induction names with
  | nil => exact .nil
  | cons s names ih => exact pairwise_insertSorted ih

theorem nodup_modulesIn (dir : String) (units : List SourceUnit) : (modulesIn dir units).Nodup :=
  (pairwise_modulesIn dir units).imp fun hlt => String.ne_of_lt hlt

theorem behind_index {dir : String} {modules exports : List String}
    (hm : ∀ m ∈ modules, '\n' ∉ m.toList) (he : ∀ e ∈ exports, '\n' ∉ e.toList) :
    behind "mod " (index dir modules exports).contents = modules.map (· ++ ";") := by
  have hmodules : Lists "mod " (.each modules fun m => .one ("mod " ++ m ++ ";"))
      (modules.map (· ++ ";")) := .each fun m hmem => by
    rw [String.append_assoc]
    exact .entry (by decide) (by decide) (by simp [hm m hmem])
  have hexports : Lists "mod " (.each exports fun e => .one ("pub use " ++ e ++ ";")) [] :=
    .each_nil fun e hmem => by
      rw [String.append_assoc]
      exact .line (by decide) (by decide) (by simp [he e hmem])
  exact ((hmodules.append (.onlyIf_nil _ (Lists.blank.append hexports))).of_eq
    (List.append_nil _)).behind

def folders : List String := ["serialization", "client", "server"]

def moduleLine? (u : SourceUnit) : Option String :=
  u.path.stem?.map fun stem => escape stem ++ ";"

def listedIn (dir : String) (units : List SourceUnit) : List SourceUnit :=
  units.filter fun u => u.path.parent? = some ⟨dir⟩ ∧ u.path ≠ ofNames [dir, "mod.rs"]

/-- The folder has an index, which lists the other units in it, each of them once. -/
def Indexed (dir : String) (units : List SourceUnit) : Prop :=
  ∃ u ∈ units, u.path = ofNames [dir, "mod.rs"] ∧ (behind "mod " u.contents).Nodup ∧
    ((behind "mod " u.contents).map some).Perm ((listedIn dir units).map moduleLine?)

/-- There is a root, which lists the folders that there are units in, each of them once. -/
def Rooted (units : List SourceUnit) : Prop :=
  ∃ u ∈ units, u.path = ofNames ["mod.rs"] ∧ (behind "pub mod " u.contents).Nodup ∧
    ∀ dir ∈ folders, dir ++ ";" ∈ behind "pub mod " u.contents ↔
      ∃ v ∈ units, v.path.parent? = some ⟨dir⟩

section

variable {d : Definition} {o : Options} {units : List SourceUnit} {dir file : String} {last : Nat}

theorem isName_folder (h : dir ∈ folders) : IsName dir := by
  have hall : ∀ dir ∈ folders, IsName dir := by decide
  exact hall dir h

theorem exists_base (hw : d.WellFormed last) (h : [dir, file] ∈ rustFiling.main d o) :
    ∃ base : String, file = base ++ ".rs" ∧ ∀ c ∈ base.toList, Text.isIdentifierRest c = true := by
  have hbase : ∀ {name : String}, isIdentifier name.toList = true → ∀ ending : String,
      ending.toList.all Text.isIdentifierRest = true →
        ∀ c ∈ (snakeCase name ++ ending).toList, Text.isIdentifierRest c = true := by
    intro name hn ending he
    rw [String.toList_append]
    exact List.forall_mem_append.2
      ⟨fun c hc => (Text.lowered_of_mem_snakeCase hn hc).1, List.all_eq_true.1 he⟩
  simp only [mem_main_rust, List.cons.injEq, and_true] at h
  rcases h with ⟨-, m, hm, -, rfl⟩ | ⟨-, s, hs, ⟨-, rfl⟩ | ⟨-, rfl⟩ | ⟨-, rfl⟩⟩
  · exact ⟨snakeCase m.name ++ "", by rw [String.append_empty],
      hbase (hw.messages m hm).name _ rfl⟩
  · exact ⟨snakeCase s.name ++ "", by rw [String.append_empty],
      hbase (hw.services s hs).name _ rfl⟩
  · exact ⟨snakeCase s.name ++ "_service", by rw [String.append_assoc]; rfl,
      hbase (hw.services s hs).name _ (by decide)⟩
  · exact ⟨snakeCase s.name ++ "_dispatch", by rw [String.append_assoc]; rfl,
      hbase (hw.services s hs).name _ (by decide)⟩

theorem splitExtension_rs (base : String) :
    (Path.splitExtension (base ++ ".rs")).1 = if base = "" then ".rs" else base := by
  split
  · next h => rw [h]; rfl
  · next h =>
    have he := @Path.splitExtension_append base h "rs".toList (by decide)
    exact congrArg Prod.fst he

theorem moduleLine_inj {a b : String} (ha : ∀ c ∈ a.toList, Text.isIdentifierRest c = true)
    (hb : ∀ c ∈ b.toList, Text.isIdentifierRest c = true)
    (h : escape (Path.splitExtension (a ++ ".rs")).1 = escape (Path.splitExtension (b ++ ".rs")).1) :
    a = b := by
  have hash : ∀ {base : String}, (∀ c ∈ base.toList, Text.isIdentifierRest c = true) →
      '#' ∉ (Path.splitExtension (base ++ ".rs")).1.toList := fun {base} hbase => by
    rw [splitExtension_rs]
    split
    · decide
    · exact fun hm => absurd (hbase _ hm) (by decide)
  have dot : ∀ {base : String}, (∀ c ∈ base.toList, Text.isIdentifierRest c = true) →
      base ≠ ".rs" := by
    rintro _ hbase rfl
    exact absurd (hbase '.' (by decide)) (by decide)
  have hs := (escape_inj (hash ha) (hash hb)).1 h
  rw [splitExtension_rs, splitExtension_rs] at hs
  split at hs <;> split at hs
  · next ha hb => rw [ha, hb]
  · exact absurd hs.symm (dot hb)
  · exact absurd hs (dot ha)
  · exact hs

theorem mem_support_of_mem_main (h : [dir, file] ∈ rustFiling.main d o) :
    [dir, "mod.rs"] ∈ rustFiling.support d o := by
  simp only [mem_main_rust, List.cons.injEq, and_true] at h
  rcases h with ⟨ho, m, hm, rfl, -⟩ | ⟨ho, s, hs, ⟨rfl, -⟩ | ⟨rfl, -⟩ | ⟨rfl, -⟩⟩
  · simp [rustFiling, ho, List.ne_nil_of_mem hm]
  all_goals simp [rustFiling, ho, List.ne_nil_of_mem hs]

theorem ne_index (hn : (rustFiling.all d o).Nodup) (h : [dir, file] ∈ rustFiling.main d o) :
    file ≠ "mod.rs" := by
  rintro rfl
  exact (List.disjoint_of_nodup_append hn) h (mem_support_of_mem_main h)

theorem eq_of_mem_support (h : [dir, file] ∈ rustFiling.support d o) : file = "mod.rs" := by
  simp only [rustFiling, List.mem_append, List.mem_ite_nil_right, List.mem_singleton,
    List.cons.injEq] at h
  grind

theorem moduleLine?_eq (hw : d.WellFormed last) (hd : dir ∈ folders)
    (hm : [dir, file] ∈ rustFiling.main d o) {u : SourceUnit} (hp : u.path = ofNames [dir, file]) :
    moduleLine? u = some (escape (Path.splitExtension file).1 ++ ";") := by
  have hf : IsName file := (shallow_rust.main hw.slashFree _ hm).isName file (by simp)
  rw [moduleLine?, hp, Path.stem?_ofNames_pair (isName_folder hd) hf]
  rfl

variable (hw : d.WellFormed last) (h : Filed rustFiling rust d o units)

include hw h

theorem mem_listedIn (hd : dir ∈ folders) {u : SourceUnit} : u ∈ listedIn dir units ↔
    u ∈ units ∧ ∃ file, [dir, file] ∈ rustFiling.main d o ∧ u.path = ofNames [dir, file] := by
  have hshelved := shallow_rust.all (o := o) hw.slashFree
  have hdir := isName_folder hd
  rw [listedIn, List.mem_filter, decide_eq_true_iff]
  refine and_congr_right fun hu => ?_
  constructor
  · rintro ⟨hparent, hindex⟩
    obtain ⟨names, hn, he⟩ := h.exists_names hu
    have hdiverges := congrArg (Option.map Path.parts) (he ▸ hparent)
    obtain ⟨file, rfl⟩ := (parent?_eq_iff hdir (hshelved names hn)).1 hdiverges
    refine ⟨file, (List.mem_append.1 hn).resolve_right fun hs => hindex ?_, he⟩
    rw [he, eq_of_mem_support hs]
  · rintro ⟨file, hm, he⟩
    have hf : IsName file := (hshelved _ (List.mem_append_left _ hm)).isName file (by simp)
    refine ⟨he ▸ Path.parent?_ofNames_pair hdir hf, fun hi => ?_⟩
    have hs := List.mem_append_right (rustFiling.main d o) (mem_support_of_mem_main hm)
    have hne : ¬ (ofNames [dir, file]).same (ofNames [dir, "mod.rs"]) = false := by
      rw [← he, hi, Path.same, BEq.rfl]
      decide
    rw [same_ofNames_iff (hshelved _ (List.mem_append_left _ hm)) (hshelved _ hs)] at hne
    exact hne (by simpa using ne_index h.names hm)

theorem perm_moduleLines (hd : dir ∈ folders) :
    ((modulesIn dir (rust.mainUnits d o)).map fun m => some (m ++ ";")).Perm
      ((listedIn dir units).map moduleLine?) := by
  have hsome : Function.Injective fun m : String => some (m ++ ";") := fun a b he =>
    (String.append_left_inj ";").1 (Option.some.inj he)
  refine (List.perm_ext_iff_of_nodup ?lines ?units).2 fun line => ?mem
  case lines => exact (nodup_modulesIn dir _).map hsome
  case units =>
    refine List.Nodup.map_on (fun u hu u' hu' he => ?_) (h.nodup.of_map.filter _)
    obtain ⟨hmem, file, hm, hp⟩ := (mem_listedIn hw h hd).1 hu
    obtain ⟨hmem', file', hm', hp'⟩ := (mem_listedIn hw h hd).1 hu'
    rw [moduleLine?_eq hw hd hm hp, moduleLine?_eq hw hd hm' hp'] at he
    obtain ⟨base, rfl, hbase⟩ := exists_base hw hm
    obtain ⟨base', rfl, hbase'⟩ := exists_base hw hm'
    obtain rfl := moduleLine_inj hbase hbase' (hsome he)
    exact h.eq_of_path hmem hmem' (hp.trans hp'.symm)
  case mem =>
    have hmodules := fun {y} => mem_modulesIn (y := y) (isName_folder hd)
      (holds_rust.main hw.slashFree o) (shallow_rust.main hw.slashFree)
    simp only [List.mem_map, hmodules, mem_listedIn hw h hd]
    constructor
    · rintro ⟨_, ⟨file, hm, rfl⟩, rfl⟩
      obtain ⟨u, hu, hp⟩ := h.exists_unit (List.mem_append_left _ hm)
      exact ⟨u, ⟨hu, file, hm, hp⟩, moduleLine?_eq hw hd hm hp⟩
    · rintro ⟨u, ⟨hu, file, hm, hp⟩, rfl⟩
      exact ⟨_, ⟨file, hm, rfl⟩, (moduleLine?_eq hw hd hm hp).symm⟩

end

section

variable {d : Definition} {o : Options} {units : List SourceUnit} {dir : String} {last : Nat}
  (hw : d.WellFormed last)

include hw

theorem newline_notMem_clientExport {s : Schema.Service} (hs : s ∈ d.services) :
    '\n' ∉ (clientExport s).toList := by
  have hi := (hw.services s hs).name
  have hm : '\n' ∉ (moduleName s.name).toList := fun hm =>
    absurd (isNameChar_moduleName hi _ hm) (by decide)
  simp [clientExport, hm, newline_notMem_of_isIdentifier hi]

theorem newline_notMem_serverExports {s : Schema.Service} (hs : s ∈ d.services) :
    ∀ e ∈ serverExports s, '\n' ∉ e.toList := by
  have hi := (hw.services s hs).name
  have hm : '\n' ∉ (snakeCase s.name).toList := fun hm =>
    absurd (Text.lowered_of_mem_snakeCase hi hm).1 (by decide)
  simp [serverExports, hm, newline_notMem_of_isIdentifier hi]

theorem newline_notMem_modulesIn (hd : dir ∈ folders) :
    ∀ m ∈ modulesIn dir (rust.mainUnits d o), '\n' ∉ m.toList := by
  intro m hm
  obtain ⟨file, hmain, rfl⟩ := (mem_modulesIn (isName_folder hd)
    (holds_rust.main hw.slashFree o) (shallow_rust.main hw.slashFree)).1 hm
  obtain ⟨base, rfl, hbase⟩ := exists_base hw hmain
  have hstem : '\n' ∉ (Path.splitExtension (base ++ ".rs")).1.toList := by
    rw [splitExtension_rs]
    split
    · decide
    · exact fun hm => absurd (hbase _ hm) (by decide)
  rw [escape]
  split
  · simpa using hstem
  · exact hstem

theorem exists_index_mem_support (hd : dir ∈ folders) {main : List SourceUnit}
    (hm : (modulesIn dir main).isEmpty = false) : ∃ exports, (∀ e ∈ exports, '\n' ∉ e.toList) ∧
      index dir (modulesIn dir main) exports ∈ support (rust.context d o) main := by
  simp only [folders, List.mem_cons, List.not_mem_nil, or_false] at hd
  rcases hd with rfl | rfl | rfl
  · exact ⟨[], List.forall_mem_nil _, by simp [support, hm]⟩
  · exact ⟨d.services.map clientExport,
      List.forall_mem_map.2 fun s hs => newline_notMem_clientExport hw hs,
      by simp [support, hm, Language.context]⟩
  · exact ⟨d.services.flatMap serverExports,
      List.forall_mem_flatMap.2 fun s hs => newline_notMem_serverExports hw hs,
      by simp [support, hm, Language.context]⟩

omit hw in
theorem exists_mem_main_of_support {file : String} (h : [dir, file] ∈ rustFiling.support d o) :
    ∃ file, [dir, file] ∈ rustFiling.main d o := by
  simp only [rustFiling, List.mem_append, List.mem_ite_nil_right, List.mem_singleton,
    List.cons.injEq, Bool.and_eq_true, Bool.not_eq_true',
    List.isEmpty_eq_false_iff_exists_mem] at h
  simp only [mem_main_rust]
  rcases h with ((⟨⟨ho, m, hm⟩, rfl, -⟩ | ⟨⟨ho, s, hs⟩, rfl, -⟩) | ⟨⟨ho, s, hs⟩, rfl, -⟩) | h
  · exact ⟨_, .inl ⟨ho, m, hm, rfl⟩⟩
  · exact ⟨_, .inr ⟨ho, s, hs, .inl rfl⟩⟩
  · exact ⟨_, .inr ⟨ho, s, hs, .inr (.inl rfl)⟩⟩
  · cases h.2

theorem exists_mem_main (h : Filed rustFiling rust d o units) (hd : dir ∈ folders)
    {u : SourceUnit} (hu : u ∈ units) (hp : u.path.parent? = some ⟨dir⟩) :
    ∃ file, [dir, file] ∈ rustFiling.main d o := by
  obtain ⟨names, hn, he⟩ := h.exists_names hu
  obtain ⟨file, rfl⟩ := (parent?_eq_iff (isName_folder hd) (shallow_rust.all hw.slashFree _ hn)).1
    (congrArg (Option.map Path.parts) (he ▸ hp))
  rcases List.mem_append.1 hn with hm | hs
  · exact ⟨file, hm⟩
  · exact exists_mem_main_of_support hs

theorem exists_index (h : Filed rustFiling rust d o units) (hd : dir ∈ folders)
    (hm : ∃ file, [dir, file] ∈ rustFiling.main d o) :
    ∃ u ∈ units, u.path = ofNames [dir, "mod.rs"] ∧
      behind "mod " u.contents = (modulesIn dir (rust.mainUnits d o)).map (· ++ ";") := by
  have hdir := isName_folder hd
  obtain ⟨exports, he, hi⟩ := exists_index_mem_support (o := o) hw hd
    ((isEmpty_modulesIn hdir (holds_rust.main hw.slashFree o)
      (shallow_rust.main hw.slashFree)).2 hm)
  exact ⟨_, h.perm.symm.subset (List.mem_append_right _ hi),
    path_inDirectory (.folder hdir (by decide)) _,
    behind_index (newline_notMem_modulesIn hw hd) he⟩

theorem newline_notMem_mapped : '\n' ∉ (mapping.namespaceName d.namespaceName).toList :=
  newline_notMem_mapParts hw (by decide) fun hp hm =>
    absurd (isNameChar_moduleName hp _ hm) (by decide)

theorem exists_root (hn : '\n' ∉ o.namespaceName.toList) (main : List SourceUnit) :
    ∃ code, .ofCode "mod.rs" code ∈ support (rust.context d o) main ∧
      Lists "pub mod " code (["types;"] ++
        (if !(modulesIn "serialization" main).isEmpty then ["serialization;"] else []) ++
        (if main.any fun u => u.path.same ⟨"registry.rs"⟩ then ["registry;"] else []) ++
        (if !(modulesIn "client" main).isEmpty then ["client;"] else []) ++
        (if !(modulesIn "server" main).isEmpty then ["server;"] else [])) := by
  refine ⟨_, List.mem_append_right _ (List.mem_singleton_self _), ?_⟩
  have hspace : '\n' ∉ (rust.context d o).namespaceName.toList :=
    newline_notMem_context (newline_notMem_mapped hw) hn
  have opening : Lists "pub mod " (opening (rust.context d o)) [] :=
    (Lists.banner hw (by decide) (by decide)).append .blank
  have title : Lists "pub mod " (.one (if (rust.context d o).namespaceName.isEmpty
      then "//! Generated protocol"
      else "//! Generated protocol `" ++ (rust.context d o).namespaceName ++ "`")) [] := by
    split
    · exact .whole (by decide) (by decide)
    · rw [String.append_assoc]
      exact .line (by decide) (by decide) (by simp [hspace])
  have entry : ∀ name ∈ ["types;", "serialization;", "registry;", "client;", "server;"],
      Lists "pub mod " (.one ("pub mod " ++ name)) [name] := fun name hm => by
    have hall : ∀ name ∈ ["types;", "serialization;", "registry;", "client;", "server;"],
      '\n' ∉ name.toList := by decide
    exact .entry (by decide) (by decide) (hall name hm)
  have use : ∀ name ∈ ["types::*;", "registry::register_all;"],
      Lists "pub mod " (.one ("pub use " ++ name)) [] := fun name hm => by
    have hall : ∀ name ∈ ["types::*;", "registry::register_all;"], '\n' ∉ name.toList := by decide
    exact .line (by decide) (by decide) (hall name hm)
  have root (serialization registry client server : Bool) :=
    (((((((((opening.append title).append .blank).append
      (entry "types;" (by decide))).append
      (.onlyIf serialization (entry "serialization;" (by decide)))).append
      (.onlyIf registry (entry "registry;" (by decide)))).append
      (.onlyIf client (entry "client;" (by decide)))).append
      (.onlyIf server (entry "server;" (by decide)))).append .blank).append
      (use "types::*;" (by decide))).append
      (.onlyIf_nil registry (use "registry::register_all;" (by decide)))
  exact (root _ _ _ _).of_eq (by simp)

theorem exists_mem_main_iff (h : Filed rustFiling rust d o units) (hd : dir ∈ folders) :
    (∃ u ∈ units, u.path.parent? = some ⟨dir⟩) ↔ ∃ file, [dir, file] ∈ rustFiling.main d o := by
  constructor
  · rintro ⟨u, hu, hp⟩
    exact exists_mem_main hw h hd hu hp
  · rintro ⟨file, hm⟩
    obtain ⟨u, hu, hp⟩ := h.exists_unit (List.mem_append_left _ hm)
    have hf : IsName file := (shallow_rust.main hw.slashFree _ hm).isName file (by simp)
    exact ⟨u, hu, hp ▸ Path.parent?_ofNames_pair (isName_folder hd) hf⟩

theorem indexed (h : Filed rustFiling rust d o units) (hd : dir ∈ folders)
    (hu : ∃ u ∈ units, u.path.parent? = some ⟨dir⟩) : Indexed dir units := by
  obtain ⟨u, hu, hp, hb⟩ := exists_index hw h hd ((exists_mem_main_iff hw h hd).1 hu)
  have hlines := perm_moduleLines hw h hd
  have hn : ((modulesIn dir (rust.mainUnits d o)).map (· ++ ";")).Nodup :=
    (nodup_modulesIn dir _).map fun a b he => (String.append_left_inj ";").1 he
  refine ⟨u, hu, hp, hb ▸ hn, ?_⟩
  rwa [hb, List.map_map]

theorem rooted (h : Filed rustFiling rust d o units) (hn : '\n' ∉ o.namespaceName.toList) :
    Rooted units := by
  obtain ⟨code, hc, hl⟩ := exists_root hw hn (rust.mainUnits d o)
  refine ⟨_, h.perm.symm.subset (List.mem_append_right _ hc), path_ofCode _ _, ?_⟩
  have hempty : ∀ dir ∈ folders, (!(modulesIn dir (rust.mainUnits d o)).isEmpty) = true ↔
      ∃ v ∈ units, v.path.parent? = some ⟨dir⟩ := fun dir hd => by
    rw [Bool.not_eq_true', isEmpty_modulesIn (isName_folder hd) (holds_rust.main hw.slashFree o)
      (shallow_rust.main hw.slashFree), exists_mem_main_iff hw h hd]
  rw [SourceUnit.ofCode, hl.behind]
  generalize (rust.mainUnits d o).any _ = registry
  constructor
  · cases !(modulesIn "serialization" (rust.mainUnits d o)).isEmpty <;> cases registry <;>
      cases !(modulesIn "client" (rust.mainUnits d o)).isEmpty <;>
      cases !(modulesIn "server" (rust.mainUnits d o)).isEmpty <;> decide
  · intro dir hd
    rw [← hempty dir hd]
    simp only [folders, List.mem_cons, List.not_mem_nil, or_false] at hd
    rcases hd with rfl | rfl | rfl <;> cases registry <;> simp

end

end Rust

namespace Cpp

/-- There is a build file, which lists the other units, in increasing order. -/
def Built (units : List SourceUnit) : Prop :=
  ∃ u ∈ units, u.path = ofNames ["CMakeLists.txt"] ∧
    (behind (sourceDir ++ "/") u.contents).Pairwise (· < ·) ∧
    (behind (sourceDir ++ "/") u.contents).Perm
      ((units.filter fun v => v.path ≠ ofNames ["CMakeLists.txt"]).map (·.path.text))

section

variable {d : Definition} {o : Options} {last : Nat}

theorem newline_notMem_libraryName (hw : d.WellFormed last) :
    '\n' ∉ (libraryName (cpp.context d o)).toList := by
  have hs : '\n' ∉ (snakeCase d.namespaceName).toList := newline_notMem_snakeCase fun c hc => by
    rcases hw.namespaceName with h | h
    · simp [h] at hc
    · exact (Text.isTerm_of_isDottedName h).wordChar c hc
  rw [libraryName, Language.context]
  dsimp only
  split
  · decide
  · simp [hs]

theorem newline_notMem_of_mem_main (hw : d.WellFormed last) {names : List String}
    (h : names ∈ cppFiling.main d o) : '\n' ∉ (ofNames names).text.toList := by
  have hsnake : ∀ {name : String}, isIdentifier name.toList = true →
      '\n' ∉ (snakeCase name).toList := fun hi hm =>
    absurd (Text.lowered_of_mem_snakeCase hi hm).1 (by decide)
  have hall : ∀ n ∈ names, '\n' ∉ n.toList := by
    rcases Filing.mem_main.1 h with rfl | h | h
    · decide
    · obtain ⟨-, ⟨m, hm, rfl⟩ | ⟨-, rfl⟩⟩ := Filing.mem_messageUnits.1 h
      · simp [cppFiling, hsnake (hw.messages m hm).name]
      · decide
    · obtain ⟨-, s, hs, h⟩ := Filing.mem_serviceUnits.1 h
      have hname := hsnake (hw.services s hs).name
      simp only [Filing.service, cppFiling, List.mem_cons, List.not_mem_nil, or_false] at h
      rcases h with rfl | rfl | rfl <;> simp [hname]
  exact newline_notMem_intercalate (by decide) hall

theorem headerName_eq {u : SourceUnit} {names : List String} (h : ∀ n ∈ names, IsName n)
    (hp : u.path = ofNames names) : headerName u = u.path.text := by
  rw [headerName, hp, Path.parts_ofNames h, List.map_map]
  exact congrArg _ (List.map_id _)

theorem headerName_of_mem_main (hw : d.WellFormed last) {u : SourceUnit}
    (hu : u ∈ cpp.mainUnits d o) : headerName u = u.path.text ∧ '\n' ∉ u.path.text.toList := by
  have hp := holds_cpp.main hw.slashFree o ▸ List.mem_map_of_mem (f := SourceUnit.path) hu
  obtain ⟨names, hn, he⟩ := List.mem_map.1 hp
  refine ⟨headerName_eq (shallow_cpp.main hw.slashFree names hn).isName he.symm, ?_⟩
  rw [← he]
  exact newline_notMem_of_mem_main hw hn

theorem lists_library (hw : d.WellFormed last) {start rest : String}
    (hs : Diverges (sourceDir ++ "/") start ∧ Flush start) (hr : '\n' ∉ rest.toList) :
    Lists (sourceDir ++ "/") (.one (start ++ libraryName (cpp.context d o) ++ rest)) [] := by
  rw [String.append_assoc]
  exact .line hs.1 hs.2 (by simp [newline_notMem_libraryName hw, hr])

theorem behind_buildFile (hw : d.WellFormed last) {main : List SourceUnit}
    (hm : ∀ u ∈ main, '\n' ∉ (headerName u).toList) :
    behind (sourceDir ++ "/") (buildFile (cpp.context d o) main).contents =
      (main.map headerName).mergeSort fun a b => !decide (b < a) := by
  have opening : Lists (sourceDir ++ "/") (.lines ((cpp.context d o).banner "#")) [] :=
    .banner hw (by decide) (by decide)
  have version : Lists (sourceDir ++ "/") (.one "cmake_minimum_required(VERSION 3.16)") [] :=
    .whole (by decide) (by decide)
  have library : Lists (sourceDir ++ "/")
      (.one ("add_library(" ++ libraryName (cpp.context d o) ++ " INTERFACE)")) [] :=
    lists_library hw (by decide) (by decide)
  have headers : Lists (sourceDir ++ "/")
      (.each ((main.map headerName).mergeSort fun a b => !decide (b < a))
        fun h => .one (sourceDir ++ "/" ++ h))
      (((main.map headerName).mergeSort fun a b => !decide (b < a)).map id) :=
    .each fun h hh => by
      obtain ⟨u, hu, rfl⟩ := List.mem_map.1 (List.mem_mergeSort.1 hh)
      exact .entry (by decide) (by decide) (hm u hu)
  have sources : Lists (sourceDir ++ "/")
      (.one ("target_sources(" ++ libraryName (cpp.context d o) ++ " INTERFACE")) [] :=
    lists_library hw (by decide) (by decide)
  have closing : Lists (sourceDir ++ "/") (.one ")") [] :=
    .whole (by decide) (by decide)
  have directories : Lists (sourceDir ++ "/") (.one ("target_include_directories(" ++
      libraryName (cpp.context d o) ++ " INTERFACE " ++ sourceDir ++ ")")) [] := by
    rw [String.append_assoc, String.append_assoc]
    exact lists_library hw (by decide) (by decide)
  have libraries : Lists (sourceDir ++ "/") (.one ("target_link_libraries(" ++
      libraryName (cpp.context d o) ++ " INTERFACE pdlkit::core)")) [] :=
    lists_library hw (by decide) (by decide)
  have features : Lists (sourceDir ++ "/") (.one ("target_compile_features(" ++
      libraryName (cpp.context d o) ++ " INTERFACE cxx_std_17)")) [] :=
    lists_library hw (by decide) (by decide)
  have all := ((((((((((opening.append .blank).append version).append .blank).append
    library).append .blank).append (.within sources closing headers)).append
    .blank).append directories).append libraries).append features)
  have h := all.behind
  simp only [List.nil_append, List.append_nil, List.map_id] at h
  rw [← h, buildFile, SourceUnit.ofCode]

theorem pairwise_mergeSort_of_nodup {texts : List String} (h : texts.Nodup) :
    (texts.mergeSort fun a b => !decide (b < a)).Pairwise (· < ·) := by
  have hle : ∀ a b : String, (!decide (b < a)) = true ↔ a ≤ b := fun a b => by
    rw [Bool.not_eq_true', decide_eq_false_iff_not, String.not_lt]
  have hsorted : (texts.mergeSort fun a b => !decide (b < a)).Pairwise
      fun a b => (!decide (b < a)) = true := by
    refine List.pairwise_mergeSort (fun a b c hab hbc => ?_) (fun a b => ?_) texts
    · rw [hle] at hab hbc ⊢
      exact String.le_trans hab hbc
    · rw [Bool.or_eq_true, hle, hle]
      exact String.le_total a b
  have hdistinct := (List.mergeSort_perm texts fun a b => !decide (b < a)).nodup_iff.2 h
  refine (hsorted.and hdistinct).imp fun {a b} hab => ?_
  exact String.not_le.1 fun hba => hab.2 (String.le_antisymm ((hle a b).1 hab.1) hba)

theorem path_buildFile (cx : Context) (main : List SourceUnit) :
    (buildFile cx main).path = ofNames ["CMakeLists.txt"] := path_ofCode _ _

variable {units : List SourceUnit}

theorem nodup_main_buildFile (h : Filed cppFiling cpp d o units) :
    ((cpp.mainUnits d o).map (·.path)).Nodup ∧
      ∀ u ∈ cpp.mainUnits d o, u.path ≠ ofNames ["CMakeLists.txt"] := by
  have hall := (h.perm.map (·.path)).nodup_iff.1 h.nodup
  rw [List.map_append, List.nodup_append'] at hall
  obtain ⟨hmain, -, hapart⟩ := hall
  refine ⟨hmain, fun u hu he => ?_⟩
  have hbuild : u.path ∈ (cpp.support (cpp.context d o) (cpp.mainUnits d o)).map (·.path) := by
    rw [he, ← path_buildFile (cpp.context d o) (cpp.mainUnits d o)]
    exact List.mem_map_of_mem (List.mem_singleton_self _)
  exact List.disjoint_left.1 hapart (List.mem_map_of_mem hu) hbuild

theorem perm_main (h : Filed cppFiling cpp d o units) :
    (units.filter fun v => v.path ≠ ofNames ["CMakeLists.txt"]).Perm (cpp.mainUnits d o) := by
  have hmain : (cpp.mainUnits d o).filter (fun v => v.path ≠ ofNames ["CMakeLists.txt"]) =
      cpp.mainUnits d o := List.filter_eq_self.2 fun u hu =>
    decide_eq_true ((nodup_main_buildFile h).2 u hu)
  have hsupport : (cpp.support (cpp.context d o) (cpp.mainUnits d o)).filter
      (fun v => v.path ≠ ofNames ["CMakeLists.txt"]) = [] :=
    List.filter_eq_nil_iff.2 (List.forall_mem_singleton.2 (by simp [path_buildFile]))
  have hfilter := h.perm.filter fun v => v.path ≠ ofNames ["CMakeLists.txt"]
  rwa [List.filter_append, hmain, hsupport, List.append_nil] at hfilter

theorem built (hw : d.WellFormed last) (h : Filed cppFiling cpp d o units) : Built units := by
  have hheader := fun u (hu : u ∈ cpp.mainUnits d o) => (headerName_of_mem_main hw hu).1
  have hflat : ∀ u ∈ cpp.mainUnits d o, '\n' ∉ (headerName u).toList := fun u hu => by
    rw [hheader u hu]
    exact (headerName_of_mem_main hw hu).2
  have htexts : ((cpp.mainUnits d o).map (·.path.text)).Nodup := by
    have hinj : Function.Injective Files.Path.text := fun a b he => congrArg Files.Path.mk he
    have hmap := (nodup_main_buildFile h).1.map hinj
    rwa [List.map_map] at hmap
  refine ⟨_, h.perm.symm.subset (List.mem_append_right _ (List.mem_singleton_self _)),
    path_buildFile _ _, ?_⟩
  rw [behind_buildFile hw hflat, List.map_congr_left hheader]
  exact ⟨pairwise_mergeSort_of_nodup htexts,
    (List.mergeSort_perm _ _).trans ((perm_main h).symm.map _)⟩

end

end Cpp

def filings : List (Language × Filing) :=
  [(rust, rustFiling), (cSharp, cSharpFiling), (cpp, cppFiling)]

theorem map_filings : filings.map Prod.fst = all := rfl

theorem filings_keyed {l : Language} {f : Filing} (h : (l, f) ∈ filings) :
    f.Complete l ∧ f.Grows ∧ ∃ key taken, f.Keyed key taken := by
  simp only [filings, List.mem_cons, Prod.mk.injEq, List.not_mem_nil, or_false] at h
  rcases h with ⟨rfl, rfl⟩ | ⟨rfl, rfl⟩ | ⟨rfl, rfl⟩
  · exact ⟨complete_rust, grows_rust, _, _, keyed_rust⟩
  · exact ⟨complete_cSharp, grows_cSharp, _, _, keyed_cSharp⟩
  · exact ⟨complete_cpp, grows_cpp, _, _, keyed_cpp⟩

/-- What is rendered of any text is in increasing order of the paths, which are those that the
options ask for, and no option but the namespace has a part in what is in a unit, unless it supports
others. The index of a folder lists the other units in it, and the root lists the folders that there
are units in, as long as the namespace is on one line. The build file lists all other units. -/
theorem render_listed (source : String) (o : Options) :
    let d := (Schema.readSource source).definition
    (∀ l f, (l, f) ∈ filings → ∀ units, render l d o = .ok units →
      (units.Pairwise fun a b => b.path.le a.path = false) ∧
      (units.map (·.path)).Perm ((f.all d o).map ofNames) ∧
      ∀ o' units', o'.namespaceName = o.namespaceName → render l d o' = .ok units' →
        ∀ u ∈ units, ∀ u' ∈ units', u.path = u'.path → u.path ∉ (f.support d o).map ofNames →
          u.contents = u'.contents) ∧
    (∀ units, render rust d o = .ok units →
      (∀ dir ∈ Rust.folders, (∃ u ∈ units, u.path.parent? = some ⟨dir⟩) →
        Rust.Indexed dir units) ∧
      ('\n' ∉ o.namespaceName.toList → Rust.Rooted units)) ∧
    ∀ units, render cpp d o = .ok units → Cpp.Built units := by
  intro d
  have hw := Schema.wellFormed_readSource source
  have hd : d.SlashFree := hw.slashFree
  refine ⟨fun l f hl units h => ?_, fun units h => ?_, fun units h => ?_⟩
  · obtain ⟨hf, hg, key, taken, hk⟩ := filings_keyed hl
    have hfiled := filed_of_render hf hd h
    refine ⟨hfiled.increasing, hfiled.paths, fun o' units' hn h' u hu u' hu' hp hs => ?_⟩
    rw [hfiled.eq_of_path_options hf hk hg hd (filed_of_render hf hd h') hn hu hu' hp hs]
  · have hfiled := filed_of_render complete_rust hd h
    exact ⟨fun dir hdir hu => Rust.indexed hw hfiled hdir hu, Rust.rooted hw hfiled⟩
  · exact Cpp.built hw (filed_of_render complete_cpp hd h)

theorem render_listed_get : ∃ units, render rust (Rust.soleService "Get").definition {} = .ok units ∧
    (units.map (·.path)).Perm ([["types.rs"], ["serialization", "m.rs"], ["registry.rs"],
      ["client", "s.rs"], ["server", "s_service.rs"], ["server", "s_dispatch.rs"],
      ["serialization", "mod.rs"], ["client", "mod.rs"], ["server", "mod.rs"],
      ["mod.rs"]].map ofNames) ∧ Rust.Rooted units := by
  obtain ⟨units, h⟩ := @Rust.exists_render_soleService "Get" (by decide)
  obtain ⟨hall, hrust, -⟩ := render_listed
    ("namespace t\nmessage M \x7b \x7d\nservice S \x7b rpc Get(M) returns (M); \x7d") {}
  have hpaths := (hall rust rustFiling (by simp [filings]) units h).2.1
  have hnames : rustFiling.all (Rust.soleService "Get").definition {} =
      [["types.rs"], ["serialization", "m.rs"], ["registry.rs"], ["client", "s.rs"],
        ["server", "s_service.rs"], ["server", "s_dispatch.rs"], ["serialization", "mod.rs"],
        ["client", "mod.rs"], ["server", "mod.rs"], ["mod.rs"]] := by decide +kernel
  exact ⟨units, h, hnames ▸ hpaths, (hrust units h).2 (by decide)⟩

end WireProtocol.Target
