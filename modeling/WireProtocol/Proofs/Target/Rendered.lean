import WireProtocol.Proofs.Target.Acceptance

namespace WireProtocol.Target

open Files (Path)
open Files.Path (IsName ofNames)
open Schema (Definition)

/-- The units are those of the language, each at a path of its own, where the filing says. -/
structure Filed (f : Filing) (l : Language) (d : Definition) (o : Options)
    (units : List SourceUnit) : Prop where
  perm : units.Perm (l.mainUnits d o ++ l.support (l.context d o) (l.mainUnits d o))
  paths : (units.map (·.path)).Perm ((f.all d o).map ofNames)
  nodup : (units.map (·.path)).Nodup
  names : (f.all d o).Nodup
  increasing : units.Pairwise fun a b => b.path.le a.path = false

section

variable {f : Filing} {l : Language} {d : Definition} {o : Options} {units : List SourceUnit}

theorem filed_of_render (hf : f.Complete l) (hd : d.SlashFree) (h : render l d o = .ok units) :
    Filed f l d o units := by
  obtain ⟨rfl, hs⟩ := units_of_render h
  have hp : (l.units d o).Perm (l.mainUnits d o ++ l.support (l.context d o) (l.mainUnits d o)) :=
    List.mergeSort_perm _ _
  refine ⟨hp, hf.paths hd o ▸ hp.map _, ?_, ((exists_render_iff hf hd).1 ⟨_, h⟩).2.2, ?_⟩
  · refine List.pairwise_map.2 (hs.imp fun {a b} hab he => ?_)
    rw [Path.same, he, BEq.rfl] at hab
    cases hab
  · refine ((pairwise_units l d o).and hs).imp fun {a b} hab => ?_
    rw [Bool.eq_false_iff]
    intro hba
    have hsame := hab.2
    rw [Path.same_of_le hab.1 hba] at hsame
    cases hsame

namespace Filed

variable (h : Filed f l d o units)

include h

theorem eq_of_path {u u' : SourceUnit} (hu : u ∈ units) (hu' : u' ∈ units)
    (hp : u.path = u'.path) : u = u' := List.inj_on_of_nodup_map h.nodup hu hu' hp

theorem exists_names {u : SourceUnit} (hu : u ∈ units) :
    ∃ names ∈ f.all d o, u.path = ofNames names := by
  obtain ⟨names, hn, he⟩ := List.mem_map.1 (h.paths.subset (List.mem_map_of_mem hu))
  exact ⟨names, hn, he.symm⟩

theorem exists_unit {names : List String} (hn : names ∈ f.all d o) :
    ∃ u ∈ units, u.path = ofNames names := by
  obtain ⟨u, hu, he⟩ := List.mem_map.1 (h.paths.symm.subset (List.mem_map_of_mem hn))
  exact ⟨u, hu, he⟩

end Filed

end

namespace Options

structure Within (o o' : Options) : Prop where
  namespaceName : o.namespaceName = o'.namespaceName
  serialization : o.serialization = true → o'.serialization = true
  clientServer : o.clientServer = true → o'.clientServer = true
  factories : o.factories = true → o'.factories = true

def join (o o' : Options) : Options :=
  { o with
    serialization := o.serialization || o'.serialization
    clientServer := o.clientServer || o'.clientServer
    factories := o.factories || o'.factories }

variable {o o' : Options}

theorem within_join_left : o.Within (o.join o') := by constructor <;> simp +contextual [join]

theorem within_join_right (h : o'.namespaceName = o.namespaceName) : o'.Within (o.join o') := by
  constructor <;> simp +contextual [join, h]

end Options

section

variable {f : Filing} {l : Language} {d : Definition} {o o' : Options}

theorem mainUnits_subset (h : o.Within o') : l.mainUnits d o ⊆ l.mainUnits d o' := by
  have hcx : l.context d o = l.context d o' := by rw [Language.context, h.namespaceName]; rfl
  have hs := h.serialization
  have hc := h.clientServer
  have hf := h.factories
  intro u hu
  simp only [Language.mainUnits, List.mem_append, List.mem_ite_nil_right, hcx] at hu ⊢
  exact hu.imp (.imp_right (.imp hs (.imp_right (.imp_left hf)))) (.imp_left hc)

theorem FilesApart.join {key : String → String} {taken : List String}
    (h : FilesApart key taken d o) (h' : FilesApart key taken d o') :
    FilesApart key taken d (o.join o') := by
  simp only [FilesApart, Options.join, Bool.or_eq_true]
  exact ⟨fun ho => ho.elim h.1 h'.1, fun ho => ho.elim h.2 h'.2⟩

theorem nodup_map_ofNames {paths : List (List String)} (hs : ∀ names ∈ paths, Shelved names)
    (hn : paths.Nodup) : (paths.map ofNames).Nodup := by
  refine List.Nodup.map_on (fun names hm names' hm' he => ?_) hn
  by_contra hne
  have hsame := (same_ofNames_iff (hs names hm) (hs names' hm')).2 hne
  rw [he, Path.same, BEq.rfl] at hsame
  cases hsame

def Filing.Grows (f : Filing) : Prop :=
  ∀ {d : Definition} {o o' : Options}, o.Within o' → f.support d o ⊆ f.support d o'

theorem Filed.eq_of_path_options {key : String → String} {taken : List String}
    (hf : f.Complete l) (hk : f.Keyed key taken) (hg : f.Grows) (hd : d.SlashFree)
    {units units' : List SourceUnit} (h : Filed f l d o units) (h' : Filed f l d o' units')
    (hn : o'.namespaceName = o.namespaceName) {u u' : SourceUnit} (hu : u ∈ units)
    (hu' : u' ∈ units') (hp : u.path = u'.path)
    (hs : u.path ∉ (f.support d o).map ofNames) : u = u' := by
  have hall : (f.all d (o.join o')).Nodup :=
    hk.nodup_all_iff.2 ((hk.nodup_all_iff.1 h.names).join (hk.nodup_all_iff.1 h'.names))
  -- All units of both stand at different paths when they are rendered together.
  have hpaths := nodup_map_ofNames (hf.shallow.all hd) hall
  rw [← hf.paths hd, List.map_append, List.nodup_append', hf.support hd] at hpaths
  obtain ⟨hmain, -, hapart⟩ := hpaths
  have hu : u ∈ l.mainUnits d (o.join o') := by
    refine mainUnits_subset Options.within_join_left ?_
    refine (List.mem_append.1 (h.perm.subset hu)).resolve_right fun hm => hs ?_
    exact hf.support hd o ▸ List.mem_map_of_mem hm
  rcases List.mem_append.1 (h'.perm.subset hu') with hu' | hu'
  · exact List.inj_on_of_nodup_map hmain hu
      (mainUnits_subset (Options.within_join_right hn) hu') hp
  · have hm : u'.path ∈ (f.support d (o.join o')).map ofNames :=
      List.map_subset _ (hg (Options.within_join_right hn))
        (hf.support hd o' ▸ List.mem_map_of_mem hu')
    exact absurd (hp ▸ hm) (List.disjoint_left.1 hapart (List.mem_map_of_mem hu))

end

theorem grows_rust : rustFiling.Grows := by
  intro d o o' h names hn
  have hs := h.serialization
  have hc := h.clientServer
  simp only [rustFiling, List.mem_append, List.mem_ite_nil_right, Bool.and_eq_true] at hn ⊢
  tauto

theorem grows_cSharp : cSharpFiling.Grows := fun _ => List.Subset.refl _

theorem grows_cpp : cppFiling.Grows := fun _ => List.Subset.refl _

end WireProtocol.Target
