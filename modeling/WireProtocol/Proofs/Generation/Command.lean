import WireProtocol.Proofs.Generation.Entries

namespace WireProtocol.Generation

open Files (Path Place Tree)
open Files.Tree (Changes)
open Schema (Definition)

variable {s s' : Scene}

structure Plan where
  schema : Path
  entries : List LanguageEntry

namespace Arguments

/-- What the arguments ask for, or the file that they name for it. -/
inductive Asks (a : Arguments) (t : Tree) : Plan → Prop
  | schema {file : Path} (hc : a.config? = none) (hs : a.schema? = some file) :
    a.Asks t ⟨file, a.targets.map fun l => ⟨l, a.options l⟩⟩
  | run {file : Path} {r : Run} (hc : a.config? = some file) (hr : Finds t (readRun file) r) :
    a.Asks t ⟨r.schema, r.enabled.map fun l => ⟨l.name, r.options l⟩⟩

def saved? (a : Arguments) : Option Path := if a.config?.isSome then none else a.snapshot?

theorem Asks.exists_base {a : Arguments} {t : Tree} {p : Plan} (h : a.Asks t p) :
    ∃ base, ∀ e ∈ p.entries, e.In base := by
  cases h with
  | schema hc hs =>
    refine ⟨a.output, List.forall_mem_map.2 fun l _ => ?_⟩
    rw [LanguageEntry.In, options]
    dsimp only
    split
    · exact .inr rfl
    · exact .inl rfl
  | @run file r hc hr => exact ⟨r.outputRoot, List.forall_mem_map.2 fun l _ => .inr rfl⟩

end Arguments

theorem quiet_noteValid {file : Path} {r : Except Error Unit} (h : Ends (noteValid file) s r s') :
    Quiet s s' := (quiet_note h).2

structure Saved (snapshot? : Option Path) (s s' : Scene) : Prop where
  lines : s'.journal.lines = s.journal.lines
  changes : Changes (fun place => ∃ file, snapshot? = some file ∧ s'.tree.placeOf file = .ok place)
    s.tree s'.tree
  entry : ∀ place, s'.tree.entry? place ≠ s.tree.entry? place →
    ∃ file, snapshot? = some file ∧ s'.tree.placeOf file = .ok place

theorem saved_of_quiet (snapshot? : Option Path) (h : Quiet s s') : Saved snapshot? s s' where
  lines := h.lines
  changes := h.tree ▸ .refl _ _
  entry _ hp := absurd (h.tree ▸ rfl) hp

theorem Saved.of_quiet {snapshot? : Option Path} {s'' : Scene} (h : Quiet s s')
    (h' : Saved snapshot? s' s'') : Saved snapshot? s s'' where
  lines := h'.lines.trans h.lines
  changes := h.tree ▸ h'.changes
  entry place hp := h'.entry place (h.tree.symm ▸ hp)

theorem saved_saveSnapshot {d : Definition} {snapshot? : Option Path} {r : Except Error Unit}
    (h : Ends (snapshot?.forM (saveSnapshot d)) s r s') : Saved snapshot? s s' := by
  cases snapshot? with
  | none => exact saved_of_quiet none (quiet_pure h)
  | some file =>
    rcases Ends.bind_cases h with ⟨e, he, -⟩ | ⟨_, s₁, hw, hnote⟩
    · obtain ⟨hj, ⟨-, ht⟩ | ⟨he, -⟩⟩ := ends_write he
      · exact saved_of_quiet _ ⟨congrArg Journal.lines hj, ht⟩
      · cases he
    · obtain ⟨-, hq⟩ := quiet_note hnote
      obtain ⟨hj, ⟨⟨e, he⟩, -⟩ | ⟨-, hw⟩⟩ := ends_write hw
      · cases he
      · rw [← hq.tree] at hw
        refine ⟨by rw [hq.lines, hj], ?_, fun place hp => ⟨file, rfl, ?_⟩⟩
        · exact (Files.Tree.changes_write hw).mono fun place hp => ⟨file, rfl, hp⟩
        · exact of_not_not fun hn => hp (Files.Tree.entry?_of_write hw hn)

theorem generateSchema_cases {a : Arguments} {file : Path} {r : Except Error Unit}
    (h : Ends (generateSchema a file) s r s') :
    (∃ e, r = .error e) ∧ Quiet s s' ∨
      ∃ reading s₁ s₂, Finds s.tree (readSchema file) reading ∧ reading.Clean ∧ Quiet s s₁ ∧
        Saved a.snapshot? s₁ s₂ ∧ ((∃ e, r = .error e) ∧ s' = s₂ ∨
          Ends (if a.checksOnly then noteValid file
            else a.targets.forM fun l => generate l reading.definition (a.options l)) s₂ r s') := by
  rcases Ends.bind_cases h with ⟨e, he, rfl⟩ | ⟨d, s₁, hcheck, hrest⟩
  · exact .inl ⟨⟨e, rfl⟩, (ends_checkedSchema he).1⟩
  · obtain ⟨hq, hclean⟩ := ends_checkedSchema hcheck
    obtain ⟨reading, hf, hc, rfl⟩ := hclean d rfl
    rcases Ends.bind_cases hrest with ⟨e, he, rfl⟩ | ⟨_, s₂, hs, hend⟩
    · exact .inr ⟨reading, s₁, s', hf, hc, hq, saved_saveSnapshot he, .inl ⟨⟨e, rfl⟩, rfl⟩⟩
    · exact .inr ⟨reading, s₁, s₂, hf, hc, hq, saved_saveSnapshot hs, .inr hend⟩

theorem generateRun_cases {a : Arguments} {file : Path} {r : Except Error Unit}
    (h : Ends (generateRun a file) s r s') :
    (∃ e, r = .error e) ∧ Quiet s s' ∨
      ∃ run reading s₁, Finds s.tree (readRun file) run ∧
        Finds s.tree (readSchema run.schema) reading ∧ reading.Clean ∧ Quiet s s₁ ∧
        Ends (if a.checksOnly then noteValid run.schema
          else run.enabled.forM fun l => generate l.name reading.definition (run.options l))
          s₁ r s' := by
  rcases Ends.bind_cases h with ⟨e, he, rfl⟩ | ⟨run, s₀, hrun, hrest⟩
  · obtain rfl := (looks_readRun file).eq he
    exact .inl ⟨⟨e, rfl⟩, .refl s'⟩
  · have hfr := (looks_readRun file).finds hrun
    obtain rfl := (looks_readRun file).eq hrun
    rcases Ends.bind_cases hrest with ⟨e, he, rfl⟩ | ⟨d, s₁, hcheck, hend⟩
    · exact .inl ⟨⟨e, rfl⟩, (ends_checkedSchema he).1⟩
    · obtain ⟨hq, hclean⟩ := ends_checkedSchema hcheck
      obtain ⟨reading, hf, hc, rfl⟩ := hclean d rfl
      exact .inr ⟨run, reading, s₁, hfr, hf, hc, hq, hend⟩

theorem perform_cases {a : Arguments} {r : Except Error Unit} (h : Ends (perform a) s r s') :
    (∃ e, r = .error e) ∧ Quiet s s' ∨
      ∃ p reading s₁ s₂, a.Asks s.tree p ∧ Finds s.tree (readSchema p.schema) reading ∧
        reading.Clean ∧ Quiet s s₁ ∧ Saved a.saved? s₁ s₂ ∧ ((∃ e, r = .error e) ∧ s' = s₂ ∨
          Ends (if a.checksOnly then noteValid p.schema
            else p.entries.forM fun e => generate e.name reading.definition e.options)
            s₂ r s') := by
  cases hc : a.config? with
  | some file =>
    simp only [perform, hc] at h
    obtain he | ⟨run, reading, s₁, hrun, hf, hclean, hq, hend⟩ := generateRun_cases h
    · exact .inl he
    · refine .inr ⟨_, reading, s₁, s₁, .run hc hrun, hf, hclean, hq, saved_of_quiet _ (.refl s₁),
        .inr ?_⟩
      simpa only [List.forM_eq_forM, List.forM_map] using hend
  | none =>
    cases hs : a.schema? with
    | none =>
      simp only [perform, hc, hs] at h
      obtain ⟨rfl, rfl⟩ := h.unique (ends_throw _ s)
      exact .inl ⟨⟨_, rfl⟩, .refl s'⟩
    | some file =>
      simp only [perform, hc, hs] at h
      obtain he | ⟨reading, s₁, s₂, hf, hclean, hq, hsaved, hend⟩ := generateSchema_cases h
      · exact .inl he
      · have hsaved' : a.saved? = a.snapshot? := by simp [Arguments.saved?, hc]
        refine .inr ⟨_, reading, s₁, s₂, .schema hc hs, hf, hclean, hq, hsaved' ▸ hsaved, ?_⟩
        simpa only [List.forM_eq_forM, List.forM_map] using hend

theorem exists_text_of_finds {t : Tree} {file : Path} {reading : Schema.Reading}
    (h : Finds t (readSchema file) reading) (hf : isSnapshot file = false) :
    ∃ text, reading = Schema.readSource text := by
  rw [readSchema, hf] at h
  obtain ⟨text, s₁, -, hp⟩ := Ends.exists_of_bind h
  cases (hp.unique (ends_pure _ s₁)).1
  exact ⟨text, rfl⟩

def Result.ofEnd (journal : Journal) : Except Error Unit → Result
  | .ok _ => ⟨0, journal⟩
  | .error e => ⟨1, journal.note .error e.message⟩

theorem run_command {arguments : List String} {a : Arguments}
    (ha : Arguments.ofList arguments = .ok a) {t : Tree} {r : Except Error Unit} {s : Scene}
    (h : Ends (perform a) ⟨{}, t⟩ r s) :
    (command arguments : StateM Tree Result).run t = (.ofEnd s.journal r, s.tree) := by
  have hp : StateT.run ((perform a : Job (StateM Tree) Unit).run {}) t =
      ((r, s.journal), s.tree) := h
  rw [command, ha]
  dsimp only
  rw [StateT.run_bind, hp]
  cases r <;> rfl

section

variable {a : Arguments} {r : Except Error Unit}

theorem idle_of_unclean (h : Ends (perform a) s r s')
    (hn : ∀ p reading, a.Asks s.tree p → Finds s.tree (readSchema p.schema) reading →
      ¬ reading.Clean) : (∃ e, r = .error e) ∧ s'.tree = s.tree := by
  obtain ⟨he, hq⟩ | ⟨p, reading, _, _, hp, hf, hc, -⟩ := perform_cases h
  · exact ⟨he, hq.tree⟩
  · exact absurd hc (hn p reading hp hf)

theorem entry?_of_checksOnly (h : Ends (perform a) s r s') (hc : a.checksOnly = true) :
    ∀ place, s'.tree.entry? place ≠ s.tree.entry? place →
      ∃ file, a.saved? = some file ∧ s'.tree.placeOf file = .ok place := by
  intro place hp
  obtain ⟨-, hq⟩ | ⟨p, reading, s₁, s₂, -, -, -, hq, hs, hend⟩ := perform_cases h
  · exact absurd (by rw [hq.tree]) hp
  · have ht : s'.tree = s₂.tree := by
      rcases hend with ⟨-, rfl⟩ | hend
      · rfl
      · rw [if_pos hc] at hend
        exact (quiet_noteValid hend).tree
    rw [ht] at hp ⊢
    exact hs.entry place (hq.tree ▸ hp)

theorem exists_of_perform (h : Ends (perform a) s (.ok ()) s') (hc : a.checksOnly = false) :
    ∃ p reading, a.Asks s.tree p ∧ Finds s.tree (readSchema p.schema) reading ∧ reading.Clean ∧
      (isSnapshot p.schema = false → ∃ rs s₁,
        List.Forall₂ (Rendering.Of reading.definition) p.entries rs ∧ Saved a.saved? s s₁ ∧
          Delivered rs s₁ s') := by
  obtain ⟨⟨e, he⟩, -⟩ | ⟨p, reading, s₁, s₂, hp, hf, hclean, hq, hs, ⟨⟨e, he⟩, -⟩ | hend⟩ :=
    perform_cases h
  · cases he
  · cases he
  · refine ⟨p, reading, hp, hf, hclean, fun hsource => ?_⟩
    obtain ⟨text, rfl⟩ := exists_text_of_finds hf hsource
    obtain ⟨base, hb⟩ := hp.exists_base
    rw [if_neg (by simp [hc])] at hend
    obtain ⟨rs, hrs, -, hd⟩ :=
      exists_of_generateEntries (Schema.wellFormed_readSource text).slashFree hb hend
    exact ⟨rs, s₂, hrs, hs.of_quiet hq, hd⟩

end

/-- The command says and does what it was asked for: nothing changes unless the schema is read
without an error; a check writes the snapshot at most; and after code was generated from a source
text, each line of the output names a file that holds the unit of the last entry for it, and no
other file has changed but the snapshot. -/
theorem command_accountable {arguments : List String} {a : Arguments}
    (ha : Arguments.ofList arguments = .ok a) {t t' : Tree} {result : Result}
    (h : (command arguments : StateM Tree Result).run t = (result, t')) :
    ((∀ p reading, a.Asks t p → Finds t (readSchema p.schema) reading → ¬ reading.Clean) →
      result.exit = 1 ∧ t' = t) ∧
    (a.checksOnly = true → ∀ place, t'.entry? place ≠ t.entry? place →
      ∃ file, a.saved? = some file ∧ t'.placeOf file = .ok place) ∧
    (a.checksOnly = false → result.exit = 0 →
      ∃ p reading, a.Asks t p ∧ Finds t (readSchema p.schema) reading ∧ reading.Clean ∧
        (isSnapshot p.schema = false → ∃ rs,
          List.Forall₂ (Rendering.Of reading.definition) p.entries rs ∧
          result.journal.lines = rs.flatMap Rendering.lines ∧
          (∀ line ∈ result.journal.lines, ∃ r, Rendering.Last rs line r ∧
            ∀ u ∈ r.units, (r.path u).text = line →
              t'.read ⟨line⟩ = .ok (Utf8.encode u.contents)) ∧
          ∀ place, t'.file? place ≠ t.file? place →
            (∃ line ∈ result.journal.lines, t'.placeOf ⟨line⟩ = .ok place) ∨
            ∃ file, a.saved? = some file ∧ t'.placeOf file = .ok place)) := by
  obtain ⟨r, s', he⟩ := Ends.exists_ends (perform a) ⟨{}, t⟩
  cases h.symm.trans (run_command ha he)
  refine ⟨fun hn => ?_, entry?_of_checksOnly he, fun hc hx => ?_⟩
  · obtain ⟨⟨e, rfl⟩, ht⟩ := idle_of_unclean he hn
    exact ⟨rfl, ht⟩
  · cases r with
    | error e => cases hx
    | ok u =>
      obtain ⟨p, reading, hp, hf, hclean, hgen⟩ := exists_of_perform he hc
      refine ⟨p, reading, hp, hf, hclean, fun hsource => ?_⟩
      obtain ⟨rs, s₁, hrs, hs, hd⟩ := hgen hsource
      have hl : (Result.ofEnd s'.journal (.ok u)).journal.lines = rs.flatMap Rendering.lines := by
        rw [Result.ofEnd, hd.lines, hs.lines, List.nil_append]
      refine ⟨rs, hrs, hl, hl ▸ hd.held, fun place hplace => of_not_not fun hn => hplace ?_⟩
      rw [not_or, hl] at hn
      have hsaved : s₁.tree.file? place = t.file? place := hs.changes.file fun ⟨file, hfile, ho⟩ =>
        hn.2 ⟨file, hfile, hd.changes.placeOf ho⟩
      exact (hd.changes.file hn.1).trans hsaved

def pointTree : Tree where
  entries := [(["point.pdl"], .file (Utf8.encode "message Point \x7b\n\x7d"))]

def pointArguments : Arguments where
  schema? := some ⟨"point.pdl"⟩
  languages := ["cs"]
  output? := some ⟨"out"⟩

theorem render_point : Target.render Target.cSharp pointDefinition (pointArguments.options "cs") =
    .ok (Target.cSharp.mainUnits pointDefinition (pointArguments.options "cs")) :=
  Target.render_of_pairwise (by decide +kernel) (by decide +kernel) (List.append_nil _).symm
    (by decide +kernel) (by decide +kernel)

theorem exists_ends_point : ∃ s, Ends (perform pointArguments) ⟨{}, pointTree⟩ (.ok ()) s := by
  have checked : Ends (checkedSchema ⟨"point.pdl"⟩) ⟨{}, pointTree⟩ (.ok pointDefinition)
      ⟨{ notes := [(.warning, "point.pdl: warning: schema declares no namespace")] },
        pointTree⟩ := by
    decide +kernel
  obtain ⟨r, s, written⟩ := Ends.exists_ends
    ((Target.cSharp.mainUnits pointDefinition (pointArguments.options "cs")).forM
      (writeUnit ⟨"out"⟩))
    ⟨{ notes := [(.warning, "point.pdl: warning: schema declares no namespace")] }, pointTree⟩
  have writable : r = .ok () := by
    have := congrArg (·.1.1) written
    exact this.symm.trans (by decide +kernel)
  obtain ⟨s', generated⟩ := exists_ends_generate "cs" rfl render_point rfl
    (writable ▸ written)
  exact ⟨s', checked.bind_ok ((ends_pure () _).bind_ok (generated.bind_ok (ends_pure () s')))⟩

theorem lines_point {reading : Schema.Reading}
    (hf : Finds pointTree (readSchema ⟨"point.pdl"⟩) reading) {r : Rendering}
    (hr : r.Of reading.definition ⟨"cs", pointArguments.options "cs"⟩) :
    r.lines = ["out/Messages.cs", "out/Serialization/PointSerializer.cs",
      "out/Serialization/SerializerRegistry.cs"] := by
  have found : Finds pointTree (readSchema ⟨"point.pdl"⟩) ⟨pointDefinition, []⟩ := by decide +kernel
  cases (hf.unique found).1
  obtain ⟨l, hl, hu⟩ := hr.units
  cases hl
  have he := Except.ok.inj (hu.symm.trans render_point)
  simp only [Rendering.lines, Rendering.path, hr.directory, he]
  decide +kernel

theorem command_accountable_point :
    (∃ result t',
      (command ["point.pdl", "-l", "cs", "-o", "out"] : StateM Tree Result).run pointTree =
        (result, t') ∧
      result.journal.lines = ["out/Messages.cs", "out/Serialization/PointSerializer.cs",
        "out/Serialization/SerializerRegistry.cs"] ∧
      ∀ line ∈ result.journal.lines, ∃ bytes, t'.read ⟨line⟩ = .ok bytes) ∧
    (∃ result t',
      (command ["point.pdl", "--check", "--snapshot", "point.pdlc"] : StateM Tree Result).run
        pointTree = (result, t') ∧
      ∀ place, t'.entry? place ≠ pointTree.entry? place → t'.placeOf ⟨"point.pdlc"⟩ = .ok place) ∧
    ∃ result t', (command ["plane.pdl"] : StateM Tree Result).run pointTree = (result, t') ∧
      result.exit = 1 ∧ t' = pointTree := by
  refine ⟨?_, ?_, ?_⟩
  · have ha : Arguments.ofList ["point.pdl", "-l", "cs", "-o", "out"] = .ok pointArguments := by
      decide +kernel
    obtain ⟨s, hs⟩ := exists_ends_point
    have h := run_command ha hs
    refine ⟨_, _, h, ?_⟩
    obtain ⟨p, reading, hp, hf, -, hgen⟩ := (command_accountable ha h).2.2 rfl rfl
    cases hp with
    | run hc _ => cases hc
    | schema hc hs =>
      cases hs
      obtain ⟨rs, hrs, hl, hheld, -⟩ := hgen (by decide +kernel)
      obtain _ | ⟨hr, hnil⟩ := hrs
      cases hnil
      refine ⟨hl.trans ?_, fun line hline => ?_⟩
      · rw [List.flatMap_singleton, lines_point hf hr]
      · obtain ⟨r, ⟨_, _, _, hm, -⟩, hu⟩ := hheld line hline
        obtain ⟨u, hu', he⟩ := List.mem_map.1 hm
        exact ⟨_, hu u hu' he⟩
  · have ha : Arguments.ofList ["point.pdl", "--check", "--snapshot", "point.pdlc"] = .ok
        { schema? := some ⟨"point.pdl"⟩, snapshot? := some ⟨"point.pdlc"⟩,
          checksOnly := true } := by
      decide +kernel
    refine ⟨_, _, rfl, fun place hp => ?_⟩
    obtain ⟨file, hfile, ho⟩ := (command_accountable ha rfl).2.1 rfl place hp
    cases hfile
    exact ho
  · have ha : Arguments.ofList ["plane.pdl"] = .ok { schema? := some ⟨"plane.pdl"⟩ } := by
      decide +kernel
    refine ⟨_, _, rfl, (command_accountable ha rfl).1 fun p reading hp hf => ?_⟩
    cases hp with
    | run hc _ => cases hc
    | schema hc hs =>
      cases hs
      have missing : Ends (readSchema ⟨"plane.pdl"⟩) ⟨{}, pointTree⟩ (.error (.files .notFound))
          ⟨{}, pointTree⟩ := by decide +kernel
      cases (hf.unique missing).1

end WireProtocol.Generation
