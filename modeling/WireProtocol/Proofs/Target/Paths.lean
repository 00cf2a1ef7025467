import WireProtocol.Proofs.Schema.WellFormed
import WireProtocol.Proofs.Target.Filing

namespace WireProtocol.Target

open Files (Path)
open Schema (Definition)

theorem isName_of_lowered {name s : String} (h : String.ofList (name.toList.map Char.toLower) = s)
    (hs : Path.IsName s) : Path.IsName name where
  solid hm := by
    rw [← h] at hs
    exact hs.solid (by simpa using ⟨'/', hm, by decide⟩)
  part := by
    have hne : ∀ t : String, String.ofList (t.toList.map Char.toLower) ≠ s → name ≠ t := by
      rintro _ ht rfl
      exact ht h
    rw [Path.Part.ofText?, if_neg (not_or.2 ⟨hne "" ?_, hne "." ?_⟩), if_neg (hne ".." ?_)]
    all_goals
      rintro rfl
      exact absurd hs.part (by decide)

theorem of_ofName? {name : String} {l : Language} (h : ofName? name = some l) :
    Path.IsName name ∧ l ∈ all := by
  rw [ofName?] at h
  split at h
  case h_9 => cases h
  all_goals
    cases h
    exact ⟨isName_of_lowered ‹_› (by decide), by simp [all]⟩

variable {l : Language} {d : Definition} {o : Options}

theorem plain_of_mem_units (hl : l ∈ all) (hd : d.SlashFree) (o : Options) :
    ∀ u ∈ l.units d o, u.path.Plain := by
  intro u hu
  obtain ⟨f, hf⟩ := exists_complete hl
  rw [Language.units, List.mem_mergeSort] at hu
  have hp := List.mem_map_of_mem (f := (·.path)) hu
  rw [hf.paths hd] at hp
  obtain ⟨names, hn, he⟩ := List.mem_map.1 hp
  exact he ▸ (hf.shallow.all hd names hn).plain

variable {units : List SourceUnit}

theorem pairwise_of_repeatedPath? (h : units.Pairwise fun a b => a.path.le b.path = true)
    (hr : repeatedPath? units = none) : units.Pairwise fun a b => a.path.same b.path = false := by
  induction units with
  | nil => exact .nil
  | cons a rest ih =>
    obtain ⟨ha, hrest⟩ := List.pairwise_cons.1 h
    cases rest with
    | nil => exact List.pairwise_singleton _ _
    | cons b rest =>
      rw [repeatedPath?] at hr
      split at hr
      · cases hr
      · next hs =>
        refine List.pairwise_cons.2 ⟨fun c hc => ?_, ih hrest hr⟩
        rcases List.mem_cons.1 hc with rfl | hc
        · exact Bool.eq_false_iff.2 hs
        · rw [Bool.eq_false_iff]
          -- What comes later and is the same as the first encloses the second.
          intro hac
          have hbc := (List.pairwise_cons.1 hrest).1 c hc
          have hba : b.path.le a.path = true := by
            rwa [Path.le, beq_iff_eq.1 hac]
          exact hs (Path.same_of_le (ha b List.mem_cons_self) hba)

theorem pairwise_units (l : Language) (d : Definition) (o : Options) :
    (l.units d o).Pairwise fun a b => a.path.le b.path = true := by
  exact List.pairwise_mergeSort (fun a b c : SourceUnit => Path.le_trans a.path b.path c.path)
    (fun a b => Path.le_or_le a.path b.path) _

theorem units_of_render (h : render l d o = .ok units) :
    units = l.units d o ∧ units.Pairwise fun a b => a.path.same b.path = false := by
  rw [render] at h
  split at h
  · cases h
  · split at h
    · cases h
    · dsimp only at h
      split at h
      · cases h
      · next hr =>
        cases h
        exact ⟨rfl, pairwise_of_repeatedPath? (pairwise_units l d o) hr⟩

theorem render_of_pairwise (hv : Schema.Diagnostic.summary? d.validate = none)
    (hc : l.clash? d = none)
    (hu : units = l.mainUnits d o ++ l.support (l.context d o) (l.mainUnits d o))
    (hs : units.Pairwise fun a b => a.path.le b.path = true) (hr : repeatedPath? units = none) :
    render l d o = .ok units := by
  have h : l.units d o = units := by
    rw [Language.units, ← hu]
    exact List.mergeSort_of_pairwise hs
  rw [render, hv, hc]
  dsimp only
  rw [h, hr]

theorem plain_of_render (hl : l ∈ all) (hd : d.SlashFree) (h : render l d o = .ok units) :
    ∀ u ∈ units, u.path.Plain := by
  obtain ⟨rfl, -⟩ := units_of_render h
  exact plain_of_mem_units hl hd o

end WireProtocol.Target

namespace WireProtocol.Schema

theorem Definition.WellFormed.slashFree {d : Definition} {last : Nat} (h : d.WellFormed last) :
    d.SlashFree where
  messages m hm := Text.slash_notMem_of_isIdentifier (h.messages m hm).name
  services s hs := Text.slash_notMem_of_isIdentifier (h.services s hs).name

end WireProtocol.Schema
