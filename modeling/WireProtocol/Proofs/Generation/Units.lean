import WireProtocol.Proofs.Generation.Job
import WireProtocol.Proofs.Schema.SnapshotForm
import WireProtocol.Proofs.Target.Paths

namespace WireProtocol.Generation

open Files (FileSystem Path Place Tree)
open Files.Tree (Changes)
open Target (SourceUnit)

variable {s s' : Scene}

theorem ends_makeDirectories {p : Path} {r : Except Error Unit}
    (h : Ends (ask (FileSystem.createDirectories p)) s r s') (P : Place → Prop) :
    s'.journal = s.journal ∧ Changes P s.tree s'.tree := by
  have hr : Ends (ask (FileSystem.createDirectories p)) s _
      ⟨s.journal, (s.tree.createDirectories p.ancestors).2⟩ := ends_ask rfl
  obtain ⟨-, rfl⟩ := h.unique hr
  exact ⟨rfl, Files.Tree.changes_createDirectories _ _ P⟩

theorem run_write (p : Path) (bytes : List UInt8) (s : Scene) :
    ((FileSystem.write p bytes : StateT Journal (StateM Tree) _).run s.journal).run s.tree =
      match s.tree.write p bytes with
      | .ok t => ((.ok (), s.journal), t)
      | .error fault => ((.error fault, s.journal), s.tree) := by
  change (fun x : Except Files.Fault Unit × Tree => ((x.1, s.journal), x.2))
    (match s.tree.write p bytes with
      | .ok t => (.ok (), t)
      | .error fault => (.error fault, s.tree)) = _
  cases s.tree.write p bytes <;> rfl

theorem ends_write {p : Path} {bytes : List UInt8} {r : Except Error Unit}
    (h : Ends (ask (FileSystem.write p bytes)) s r s') :
    s'.journal = s.journal ∧ ((∃ e, r = .error e) ∧ s'.tree = s.tree ∨
      r = .ok () ∧ s.tree.write p bytes = .ok s'.tree) := by
  have hr := run_write p bytes s
  cases hw : s.tree.write p bytes with
  | ok t =>
    rw [hw] at hr
    have hr : Ends (ask (FileSystem.write p bytes)) s _ ⟨s.journal, t⟩ := ends_ask hr
    obtain ⟨rfl, rfl⟩ := h.unique hr
    exact ⟨rfl, .inr ⟨rfl, rfl⟩⟩
  | error fault =>
    rw [hw] at hr
    have hr : Ends (ask (FileSystem.write p bytes)) s _ s := ends_ask hr
    obtain ⟨rfl, rfl⟩ := h.unique hr
    exact ⟨rfl, .inl ⟨⟨_, rfl⟩, rfl⟩⟩

structure Wrote (p : Path) (bytes : List UInt8) (s : Scene) (r : Except Error Unit) (s' : Scene) :
    Prop where
  journal : s'.journal = s.journal
  changes : Changes (s'.tree.placeOf p = .ok ·) s.tree s'.tree
  held : r = .ok () → s'.tree.read p = .ok bytes

theorem wrote_write {p : Path} {bytes : List UInt8} {r : Except Error Unit}
    (h : Ends (ask (FileSystem.write p bytes)) s r s') : Wrote p bytes s r s' := by
  obtain ⟨hj, ⟨⟨e, rfl⟩, ht⟩ | ⟨rfl, hw⟩⟩ := ends_write h
  · exact ⟨hj, ht ▸ .refl _ _, fun he => by cases he⟩
  · exact ⟨hj, Files.Tree.changes_write hw, fun _ => Files.Tree.read_of_write hw⟩

theorem wrote_writeUnit {directory : Path} {u : SourceUnit} {r : Except Error Unit}
    (h : Ends (writeUnit directory u) s r s') :
    Wrote (directory.join u.path) (Utf8.encode u.contents) s r s' := by
  rw [writeUnit] at h
  dsimp only at h
  split at h
  · rcases h.bind_cases with ⟨e, he, rfl⟩ | ⟨_, s₁, hd, hw⟩
    · obtain ⟨hj, hc⟩ := ends_makeDirectories he _
      exact ⟨hj, hc, fun he => by cases he⟩
    · obtain ⟨hj, hc⟩ := ends_makeDirectories hd _
      have hw := wrote_write hw
      exact ⟨hw.journal.trans hj, hc.trans hw.changes, hw.held⟩
  · exact wrote_write h

def Holds (t : Tree) (directory : Path) (units : List SourceUnit) (place : Place) : Prop :=
  ∃ u ∈ units, t.placeOf (directory.join u.path) = .ok place

theorem changes_writeUnits {directory : Path} {units : List SourceUnit} {r : Except Error Unit}
    (h : Ends (units.forM (writeUnit directory)) s r s') :
    s'.journal = s.journal ∧ Changes (Holds s'.tree directory units) s.tree s'.tree := by
  induction units generalizing s with
  | nil =>
    obtain ⟨rfl, rfl⟩ := h.unique (ends_pure () s)
    exact ⟨rfl, .refl _ _⟩
  | cons u units ih =>
    rcases h.bind_cases with ⟨e, he, -⟩ | ⟨_, s₁, hu, hrest⟩
    · have hw := wrote_writeUnit he
      exact ⟨hw.journal, hw.changes.mono fun place hp => ⟨u, List.mem_cons_self, hp⟩⟩
    · have hw := wrote_writeUnit hu
      obtain ⟨hj, hc⟩ := ih hrest
      refine ⟨hj.trans hw.journal, (hw.changes.mono fun place hp => ?_).trans (hc.mono ?_)⟩
      · exact ⟨u, List.mem_cons_self, hc.placeOf hp⟩
      · exact fun place ⟨v, hv, hp⟩ => ⟨v, List.mem_cons_of_mem _ hv, hp⟩

/-- The two never name one place. -/
def Apart (p q : Path) : Prop :=
  ∀ (t : Tree) (place : Place), t.placeOf p = .ok place → t.placeOf q ≠ .ok place

theorem read_of_writeUnits {directory : Path} {units : List SourceUnit}
    (h : Ends (units.forM (writeUnit directory)) s (.ok ()) s')
    (ha : units.Pairwise fun u v => Apart (directory.join u.path) (directory.join v.path)) :
    ∀ u ∈ units, s'.tree.read (directory.join u.path) = .ok (Utf8.encode u.contents) := by
  induction units generalizing s with
  | nil => exact List.forall_mem_nil _
  | cons u units ih =>
    obtain ⟨hu, ha⟩ := List.pairwise_cons.1 ha
    obtain ⟨_, s₁, hw, hrest⟩ := h.exists_of_bind
    refine List.forall_mem_cons.2 ⟨?_, ih hrest ha⟩
    refine (changes_writeUnits hrest).2.read ((wrote_writeUnit hw).held rfl) fun place hp => ?_
    rintro ⟨v, hv, hq⟩
    exact hu v hv s'.tree place hp hq

theorem apart_join {p q : Path} (hp : p.Plain) (hq : q.Plain) (hpq : p.same q = false)
    (base : Path) : Apart (base.join p) (base.join q) := by
  intro t place h h'
  rw [Files.Tree.eq_of_placeOf_join hp hq h h', Path.same, beq_self_eq_true] at hpq
  cases hpq

/-- Units that lie in their directory: their paths lead down only, and to write them, all or some,
changes no file but below it. -/
structure Contained (directory : Path) (units : List SourceUnit) : Prop where
  relative : ∀ u ∈ units, u.path.isAbsolute = false
  downward : ∀ u ∈ units, .parent ∉ u.path.parts
  below : ∀ {s r s'}, Ends (units.forM (writeUnit directory)) s r s' →
    ∀ place, s'.tree.file? place ≠ s.tree.file? place → ∃ home names,
      s'.tree.walk directory directory.steps = .ok home ∧ names ≠ [] ∧ place = home ++ names

theorem contained_of_plain {units : List SourceUnit} (h : ∀ u ∈ units, u.path.Plain)
    (directory : Path) : Contained directory units where
  relative u hu := (h u hu).isAbsolute
  downward u hu hm := by
    obtain ⟨_, he⟩ := (h u hu).exists_of_mem_parts _ hm
    cases he
  below {s r s'} he place hp := by
    obtain ⟨-, hc⟩ := changes_writeUnits he
    obtain ⟨u, hu, hq⟩ := of_not_not fun hn => hp (hc.file hn)
    obtain ⟨names, hn, hs, hu⟩ := h u hu
    rw [hu] at hq
    obtain ⟨home, hw, rfl⟩ := Files.Tree.exists_of_placeOf_join hn hs hq
    exact ⟨home, names, hw, hn, rfl⟩

open Target (all render)

/-- What is rendered of a source text lies in the directory for it, and so does what is rendered of
any definition without slashes in its names. -/
theorem render_contained {l : Target.Language} (hl : l ∈ all) (o : Target.Options) :
    (∀ source units, render l (Schema.readSource source).definition o = .ok units →
      Contained o.outputDir units) ∧
    ∀ d units, d.SlashFree → render l d o = .ok units → Contained o.outputDir units := by
  have h : ∀ d units, d.SlashFree → render l d o = .ok units → Contained o.outputDir units :=
    fun d units hd hr => contained_of_plain (Target.plain_of_render hl hd hr) o.outputDir
  exact ⟨fun source units => h _ units (Schema.wellFormed_readSource source).slashFree, h⟩

def pointDefinition : Schema.Definition :=
  (Schema.readSource "message Point \x7b\n\x7d").definition

def unchecked (name : String) : Schema.Definition where
  namespaceName := "n"
  messages := [{ name, fields := [], typeTag := Wire.Tag.ofName ("n." ++ name), line := 1 }]

theorem render_contained_point :
    (∃ units, render Target.cSharp pointDefinition {} = .ok units ∧
      units.map (·.path.text) =
        ["Messages.cs", "Serialization/PointSerializer.cs", "Serialization/SerializerRegistry.cs"] ∧
      Contained ⟨"./generated"⟩ units) ∧
    ∃ units, render Target.cSharp (unchecked "..") {} = .ok units ∧
      units.map (·.path.text) =
        ["Messages.cs", "Serialization/..Serializer.cs", "Serialization/SerializerRegistry.cs"] ∧
      Contained ⟨"./generated"⟩ units := by
  have contained := render_contained (l := Target.cSharp) (by simp [all]) {}
  have point := Target.render_of_pairwise (l := Target.cSharp) (o := {}) (d := pointDefinition)
    (by decide +kernel) (by decide +kernel) rfl (by decide +kernel) (by decide +kernel)
  have dots := Target.render_of_pairwise (l := Target.cSharp) (o := {}) (d := unchecked "..")
    (by decide +kernel) (by decide +kernel) rfl (by decide +kernel) (by decide +kernel)
  exact ⟨⟨_, point, by decide +kernel, contained.1 _ _ point⟩,
    _, dots, by decide +kernel, contained.2 _ _ ⟨by decide, by decide⟩ dots⟩

/-- A snapshot may hold names that are none. What is rendered of it can lead out of the directory
that it is for. -/
theorem render_strayed :
    Schema.Snapshot.decode (Schema.Snapshot.encode (unchecked "../../Point")) =
        .ok (unchecked "../../Point") ∧
      ∃ units, render Target.cSharp (unchecked "../../Point") {} = .ok units ∧
        ∃ u ∈ units, .parent ∈ u.path.parts ∧
          ∃ t : Tree,
            t.placeOf (Path.join ⟨"./generated"⟩ u.path) = .ok ["PointSerializer.cs"] := by
  have read := Schema.Snapshot.decode_encode_inMemory (d := unchecked "../../Point")
    ⟨by decide, by decide +kernel⟩
  have rendered := Target.render_of_pairwise (l := Target.cSharp) (o := {})
    (d := unchecked "../../Point") (by decide +kernel) (by decide +kernel) rfl (by decide +kernel)
    (by decide +kernel)
  let t : Tree :=
    { entries := [(["generated"], .directory), (["generated", "Serialization"], .directory)] }
  exact ⟨read, _, rendered, _, List.mem_cons_of_mem _ List.mem_cons_self, by decide +kernel, t,
    by decide +kernel⟩

end WireProtocol.Generation
