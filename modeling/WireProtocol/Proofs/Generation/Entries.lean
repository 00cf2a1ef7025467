import WireProtocol.Proofs.Generation.Units

/-! Generating for several languages, one after the other. Each path that is told of holds in the
end what the last entry that told of it has rendered, since no path of another spelling leads
there. -/

namespace WireProtocol.Generation

open Files (Path Place Tree)
open Files.Tree (Changes)
open Schema (Definition)
open Target (SourceUnit)

variable {s s' : Scene}

structure LanguageEntry where
  name : String
  options : Target.Options

/-- The units of an entry, and the directory they go to. -/
structure Rendering where
  directory : Path
  units : List SourceUnit

namespace Rendering

def path (r : Rendering) (u : SourceUnit) : Path := r.directory.join u.path

def lines (r : Rendering) : List String := r.units.map fun u => (r.path u).text

/-- This is what comes of the definition for the entry. -/
structure Of (d : Definition) (e : LanguageEntry) (r : Rendering) : Prop where
  directory : r.directory = e.options.outputDir
  units : ∃ l, Target.ofName? e.name = some l ∧ Target.render l d e.options = .ok r.units

/-- The last of the renderings with this line. -/
def Last (rs : List Rendering) (line : String) (r : Rendering) : Prop :=
  ∃ before after, rs = before ++ r :: after ∧ line ∈ r.lines ∧ ∀ q ∈ after, line ∉ q.lines

structure Below (base : Path) (r : Rendering) : Prop where
  path : ∀ u ∈ r.units, ∃ q : Path, q.Plain ∧ r.path u = base.join q
  apart : r.units.Pairwise fun u v => Apart (r.path u) (r.path v)

end Rendering

def LanguageEntry.In (base : Path) (e : LanguageEntry) : Prop :=
  e.options.outputDir = base ∨ e.options.outputDir = base.join ⟨e.name⟩

theorem LanguageEntry.In.below {base : Path} {e : LanguageEntry} (he : e.In base) {d : Definition}
    (hd : d.SlashFree) {r : Rendering} (hr : r.Of d e) : r.Below base := by
  obtain ⟨l, hl, hu⟩ := hr.units
  obtain ⟨hn, hm⟩ := Target.of_ofName? hl
  have hp := Target.plain_of_render hm hd hu
  refine ⟨fun u hm => ?_, (Target.units_of_render hu).2.imp_of_mem fun {u v} hu hv h =>
    apart_join (hp u hu) (hp v hv) h r.directory⟩
  rw [Rendering.path, hr.directory]
  rcases he with he | he
  · exact ⟨u.path, hp u hm, by rw [he]⟩
  · have hname := Path.Plain.of_isName hn
    exact ⟨Path.join ⟨e.name⟩ u.path, hname.join (hp u hm), by rw [he, hname.join_assoc (hp u hm)]⟩

theorem quiet_noteMissingRegistry {l : Target.Language} {o : Target.Options}
    {rendered : Except Target.Refusal α} {r : Except Error Unit}
    (h : Ends (noteMissingRegistry l o rendered) s r s') : Quiet s s' := by
  unfold noteMissingRegistry at h
  split at h
  · exact quiet_pure h
  · split at h
    · exact quiet_pure h
    · exact quiet_pure h
    · exact (quiet_note h).2

theorem ends_sayEach {units : List SourceUnit} {text : SourceUnit → String} {r : Except Error Unit}
    (h : Ends (units.forM fun u => say (text u)) s r s') :
    r = .ok () ∧ s'.tree = s.tree ∧ s'.journal.lines = s.journal.lines ++ units.map text := by
  induction units generalizing s with
  | nil =>
    obtain ⟨rfl, rfl⟩ := h.unique (ends_pure () s)
    exact ⟨rfl, rfl, by simp⟩
  | cons u units ih =>
    rcases h.bind_cases with ⟨e, he, -⟩ | ⟨_, s₁, hu, hrest⟩
    · cases (he.unique (ends_say (text u) s)).1
    · obtain ⟨-, rfl⟩ := hu.unique (ends_say (text u) s)
      obtain ⟨hr, ht, hl⟩ := ih hrest
      exact ⟨hr, ht, by simp [hl]⟩

structure Rendering.Written (r : Rendering) (s s' : Scene) : Prop where
  lines : s'.journal.lines = s.journal.lines ++ r.lines
  changes : Changes (Holds s'.tree r.directory r.units) s.tree s'.tree
  held : (r.units.Pairwise fun u v => Apart (r.path u) (r.path v)) →
    ∀ u ∈ r.units, s'.tree.read (r.path u) = .ok (Utf8.encode u.contents)

theorem exists_of_generate {d : Definition} {e : LanguageEntry}
    (h : Ends (generate e.name d e.options) s (.ok ()) s') :
    ∃ r : Rendering, r.Of d e ∧ r.Written s s' := by
  rw [generate] at h
  split at h
  · cases (h.unique (ends_throw _ s)).1
  · next l hl =>
    obtain ⟨_, s₁, hnote, h⟩ := Ends.exists_of_bind h
    have hq := quiet_noteMissingRegistry hnote
    split at h
    · cases (h.unique (ends_throw _ s₁)).1
    · next units hu =>
      obtain ⟨_, s₂, hw, h⟩ := Ends.exists_of_bind h
      obtain ⟨_, s₃, hn, h⟩ := Ends.exists_of_bind h
      obtain ⟨-, hq'⟩ := quiet_note hn
      obtain ⟨-, ht, hl'⟩ := ends_sayEach h
      obtain ⟨hj, hc⟩ := changes_writeUnits hw
      refine ⟨⟨e.options.outputDir, units⟩, ⟨rfl, l, hl, hu⟩, ?_, ?_, fun ha => ?_⟩
      · rw [hl', hq'.lines, hj, hq.lines]
        rfl
      · rwa [ht, hq'.tree, ← hq.tree]
      · rw [ht, hq'.tree]
        exact read_of_writeUnits hw ha

theorem exists_ends_generate (name : String) {d : Definition} {o : Target.Options}
    {l : Target.Language} {units : List SourceUnit} (hl : Target.ofName? name = some l)
    (hr : Target.render l d o = .ok units) (ho : o.serialization = true)
    (hw : Ends (units.forM (writeUnit o.outputDir)) s (.ok ()) s') :
    ∃ s'', Ends (generate name d o) s (.ok ()) s'' := by
  have hn : (noteMissingRegistry l o (.ok units) : Job (StateM Tree) Unit) = pure () := by
    unfold noteMissingRegistry
    exact if_pos (by rw [ho, Bool.true_or])
  rw [generate, hl]
  dsimp only
  rw [hr, hn]
  obtain ⟨r, s'', hs⟩ := Ends.exists_ends
    (units.forM fun u => (say (o.outputDir.join u.path).text : Job (StateM Tree) Unit))
    ⟨s'.journal.note .info (l.name ++ s!": wrote {units.length} files to " ++ o.outputDir.text),
      s'.tree⟩
  obtain ⟨rfl, -⟩ := ends_sayEach hs
  exact ⟨s'', (ends_pure () s).bind_ok (hw.bind_ok ((ends_note _ _ s').bind_ok hs))⟩

theorem Rendering.exists_of_mem_lines {r : Rendering} {line : String} (h : line ∈ r.lines) :
    ∃ u ∈ r.units, (⟨line⟩ : Path) = r.path u := by
  obtain ⟨u, hu, rfl⟩ := List.mem_map.1 h
  exact ⟨u, hu, rfl⟩

theorem Rendering.Below.line_eq {base : Path} {q r : Rendering} (hq : q.Below base)
    (hr : r.Below base) {line other : String} (hl : line ∈ q.lines) (ho : other ∈ r.lines)
    {t : Tree} {place : Place} (h : t.placeOf ⟨line⟩ = .ok place)
    (h' : t.placeOf ⟨other⟩ = .ok place) : line = other := by
  obtain ⟨u, hu, hlu⟩ := exists_of_mem_lines hl
  obtain ⟨v, hv, hov⟩ := exists_of_mem_lines ho
  obtain ⟨p, hp, hup⟩ := hq.path u hu
  obtain ⟨p', hp', hvp⟩ := hr.path v hv
  rw [hlu, hup] at h
  rw [hov, hvp] at h'
  have he := Files.Tree.eq_of_placeOf_join hp hp' h h'
  exact congrArg Path.text (hlu.trans (hup.trans (he ▸ hvp.symm.trans hov.symm)))

structure Delivered (rs : List Rendering) (s s' : Scene) : Prop where
  lines : s'.journal.lines = s.journal.lines ++ rs.flatMap Rendering.lines
  changes : Changes
    (fun place => ∃ line ∈ rs.flatMap Rendering.lines, s'.tree.placeOf ⟨line⟩ = .ok place)
    s.tree s'.tree
  held : ∀ line ∈ rs.flatMap Rendering.lines, ∃ r, Rendering.Last rs line r ∧
    ∀ u ∈ r.units, (r.path u).text = line → s'.tree.read ⟨line⟩ = .ok (Utf8.encode u.contents)

namespace Delivered

theorem nil (s : Scene) : Delivered [] s s :=
  ⟨by simp, .refl _ _, by simp⟩

theorem cons {base : Path} {r : Rendering} {rs : List Rendering} {s s₁ s' : Scene}
    (hb : ∀ q ∈ r :: rs, q.Below base) (h : r.Written s s₁) (hd : Delivered rs s₁ s') :
    Delivered (r :: rs) s s' where
  lines := by rw [hd.lines, h.lines, List.flatMap_cons, List.append_assoc]
  changes := by
    refine (h.changes.mono fun place hp => ?_).trans (hd.changes.mono fun place hp => ?_)
    · obtain ⟨u, hu, hp⟩ := hp
      refine ⟨(r.path u).text, ?_, hd.changes.placeOf hp⟩
      exact List.mem_append_left _ (List.mem_map_of_mem hu)
    · obtain ⟨line, hl, hp⟩ := hp
      exact ⟨line, List.mem_append_right _ hl, hp⟩
  held line hl := by
    by_cases hlate : line ∈ rs.flatMap Rendering.lines
    · obtain ⟨q, ⟨before, after, rfl, hq⟩, hheld⟩ := hd.held line hlate
      exact ⟨q, ⟨r :: before, after, rfl, hq⟩, hheld⟩
    · have hr : line ∈ r.lines := (List.mem_append.1 hl).resolve_right hlate
      refine ⟨r, ⟨[], rs, rfl, hr, fun q hq hm => hlate (List.mem_flatMap.2 ⟨q, hq, hm⟩)⟩, ?_⟩
      rintro u hu rfl
      have hbr := hb r List.mem_cons_self
      refine hd.changes.read (h.held hbr.apart u hu) fun place hp => ?_
      -- Nothing that came later has the place, or else it would have the line.
      rintro ⟨other, ho, hp'⟩
      obtain ⟨q, hq, ho'⟩ := List.mem_flatMap.1 ho
      have he := hbr.line_eq (hb q (List.mem_cons_of_mem _ hq)) hr ho' hp hp'
      exact hlate (he ▸ ho)

end Delivered

theorem exists_of_generateEntries {base : Path} {d : Definition} (hd : d.SlashFree)
    {entries : List LanguageEntry} (hb : ∀ e ∈ entries, e.In base)
    (h : Ends (entries.forM fun e => generate e.name d e.options) s (.ok ()) s') :
    ∃ rs, List.Forall₂ (Rendering.Of d) entries rs ∧ (∀ r ∈ rs, r.Below base) ∧
      Delivered rs s s' := by
  induction entries generalizing s with
  | nil =>
    obtain ⟨-, rfl⟩ := h.unique (ends_pure () s)
    exact ⟨[], .nil, List.forall_mem_nil _, .nil _⟩
  | cons e entries ih =>
    rw [List.forall_mem_cons] at hb
    obtain ⟨_, s₁, he, hrest⟩ := h.exists_of_bind
    obtain ⟨r, hr, hw⟩ := exists_of_generate he
    obtain ⟨rs, hrs, hbelow, hdel⟩ := ih hb.2 hrest
    have hbelow' := List.forall_mem_cons.2 ⟨hb.1.below hd hr, hbelow⟩
    exact ⟨r :: rs, .cons hr hrs, hbelow', hdel.cons hbelow' hw⟩

end WireProtocol.Generation
