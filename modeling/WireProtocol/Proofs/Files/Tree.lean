import WireProtocol.Files.Tree
import WireProtocol.Proofs.Files.Path

namespace WireProtocol.Files

theorem bind_eq_ok_iff {x : Except ε α} {f : α → Except ε β} {b : β} :
    x >>= f = .ok b ↔ ∃ a, x = .ok a ∧ f a = .ok b := by
  cases x with
  | error e => simp [bind, Except.bind]
  | ok a => simp [bind, Except.bind]

namespace Tree

variable {t t' t'' : Tree} {place : Place} {p : Path}

def file? (t : Tree) (place : Place) : Option (List UInt8) :=
  match t.entry? place with
  | some (.file bytes) => some bytes
  | _ => none

theorem file?_eq_some_iff {bytes : List UInt8} :
    t.file? place = some bytes ↔ t.entry? place = some (.file bytes) := by
  rw [file?]
  split <;> simp_all

theorem entry?_put_self (hn : place ≠ []) (e : Entry) :
    Tree.entry? (t.put place e) place = some e := by
  unfold entry?
  rw [if_neg hn]
  exact List.lookup_cons_self

theorem entry?_put_of_ne {other : Place} (hne : other ≠ place) (e : Entry) :
    Tree.entry? (t.put place e) other = t.entry? other := by
  have hf : ∀ l : List (Place × Entry),
      (l.filter (·.1 != place)).lookup other = l.lookup other := by
    intro l
    induction l with
    | nil => rfl
    | cons x l ih =>
      by_cases hx : x.1 = place
      · rw [List.filter_cons_of_neg (by simp [hx]), ih, List.lookup_cons,
          show (other == x.1) = false by simpa [hx] using hne]
      · rw [List.filter_cons_of_pos (by simp [hx]), List.lookup_cons, List.lookup_cons, ih]
  unfold entry?
  congr 1
  rw [put, List.lookup_cons, show (other == place) = false by simpa using hne]
  exact hf _

def placeOf (t : Tree) (p : Path) : Except Fault Place := do
  match ← t.locate p with
  | .directory _ => .error .isADirectory
  | .name directory s => within directory s

theorem placeOf_eq_ok_iff :
    t.placeOf p = .ok place ↔ ∃ directory s, t.locate p = .ok (.name directory s) ∧
      within directory s = .ok place := by
  rw [placeOf, bind_eq_ok_iff]
  constructor
  · rintro ⟨e, he, h⟩
    cases e with
    | name directory s => exact ⟨directory, s, he, h⟩
    | directory _ => cases h
  · rintro ⟨directory, s, he, h⟩
    exact ⟨_, he, h⟩

theorem within_eq_ok_iff {directory : Place} {s : String} :
    within directory s = .ok place ↔ ¬ maxName < s.utf8ByteSize ∧ place = directory ++ [s] := by
  rw [within]
  split <;> simp_all [eq_comm]

theorem ne_nil_of_placeOf (h : t.placeOf p = .ok place) : place ≠ [] := by
  obtain ⟨directory, s, -, h⟩ := placeOf_eq_ok_iff.1 h
  simp [(within_eq_ok_iff.1 h).2]

theorem read_eq_ok_iff {bytes : List UInt8} :
    t.read p = .ok bytes ↔ ∃ place, t.placeOf p = .ok place ∧ p.endsInSlash = false ∧
      t.file? place = some bytes := by
  constructor
  · intro h
    obtain ⟨e, hl, h⟩ := bind_eq_ok_iff.1 h
    cases e with
    | directory _ => cases h
    | name directory s =>
      obtain ⟨place, hw, h⟩ := bind_eq_ok_iff.1 h
      refine ⟨place, placeOf_eq_ok_iff.2 ⟨_, _, hl, hw⟩, ?_⟩
      split at h
      · cases h
      · cases h
      · next he =>
        split at h
        · cases h
        · next hs =>
          cases h
          exact ⟨Bool.eq_false_iff.2 hs, file?_eq_some_iff.2 he⟩
  · rintro ⟨place, h, hs, he⟩
    obtain ⟨directory, s, hl, hw⟩ := placeOf_eq_ok_iff.1 h
    refine bind_eq_ok_iff.2 ⟨_, hl, bind_eq_ok_iff.2 ⟨_, hw, ?_⟩⟩
    simp [file?_eq_some_iff.1 he, hs]

theorem exists_of_write_eq_ok {bytes : List UInt8} (h : t.write p bytes = .ok t') :
    ∃ place, t.placeOf p = .ok place ∧ p.endsInSlash = false ∧ t.entry? place ≠ some .directory ∧
      t' = t.put place (.file bytes) := by
  obtain ⟨e, hl, h⟩ := bind_eq_ok_iff.1 h
  cases e with
  | directory _ => cases h
  | name directory s =>
    dsimp only at h
    split at h
    · cases h
    · next hs =>
      obtain ⟨place, hw, h⟩ := bind_eq_ok_iff.1 h
      refine ⟨place, placeOf_eq_ok_iff.2 ⟨_, _, hl, hw⟩, Bool.eq_false_iff.2 hs, ?_⟩
      split at h
      · cases h
      · next hd =>
        cases h
        exact ⟨hd, rfl⟩

/-- No directory goes, and no file changes but at some of the places. -/
structure Changes (places : Place → Prop) (t t' : Tree) : Prop where
  home : t'.home = t.home
  directory : ∀ {place}, t.entry? place = some .directory → t'.entry? place = some .directory
  file : ∀ {place}, ¬ places place → t'.file? place = t.file? place

namespace Changes

variable {P Q : Place → Prop}

theorem refl (P : Place → Prop) (t : Tree) : Changes P t t := ⟨rfl, id, fun _ => rfl⟩

theorem trans (h : Changes P t t') (h' : Changes P t' t'') : Changes P t t'' where
  home := h'.home.trans h.home
  directory hd := h'.directory (h.directory hd)
  file hp := (h'.file hp).trans (h.file hp)

theorem mono (h : Changes P t t') (hpq : ∀ place, P place → Q place) : Changes Q t t' where
  home := h.home
  directory := h.directory
  file hq := h.file fun hp => hq (hpq _ hp)

theorem enter (h : Changes P t t') {part : Path.Part} {next : Place}
    (he : t.enter place part = .ok next) : t'.enter place part = .ok next := by
  cases part with
  | name s =>
    obtain ⟨q, hw, he⟩ := bind_eq_ok_iff.1 he
    refine bind_eq_ok_iff.2 ⟨q, hw, ?_⟩
    split at he
    · next hd =>
      rw [h.directory hd]
      exact he
    · cases he
    · cases he
  | _ => exact he

theorem walk (h : Changes P t t') {steps : List Path.Part} (hw : t.walk p steps = .ok place) :
    t'.walk p steps = .ok place := by
  rw [Tree.walk] at hw ⊢
  rw [h.home]
  generalize (if p.isAbsolute then [] else t.home) = start at hw ⊢
  induction steps generalizing start with
  | nil => exact hw
  | cons part steps ih =>
    rw [List.foldlM_cons] at hw ⊢
    obtain ⟨next, he, hw⟩ := bind_eq_ok_iff.1 hw
    exact bind_eq_ok_iff.2 ⟨next, h.enter he, ih next hw⟩

theorem locate (h : Changes P t t') {e : End} (hl : t.locate p = .ok e) : t'.locate p = .ok e := by
  obtain ⟨_, hc, hl⟩ := bind_eq_ok_iff.1 hl
  refine bind_eq_ok_iff.2 ⟨_, hc, ?_⟩
  split at hl
  · obtain ⟨q, hw, hl⟩ := bind_eq_ok_iff.1 hl
    exact bind_eq_ok_iff.2 ⟨q, h.walk hw, hl⟩
  · obtain ⟨q, hw, hl⟩ := bind_eq_ok_iff.1 hl
    exact bind_eq_ok_iff.2 ⟨q, h.walk hw, hl⟩

theorem placeOf (h : Changes P t t') (hp : t.placeOf p = .ok place) : t'.placeOf p = .ok place := by
  obtain ⟨directory, s, hl, hw⟩ := placeOf_eq_ok_iff.1 hp
  exact placeOf_eq_ok_iff.2 ⟨directory, s, h.locate hl, hw⟩

end Changes

theorem changes_put (hn : place ≠ []) (hd : t.entry? place ≠ some .directory) (e : Entry) :
    Changes (· = place) t (t.put place e) where
  home := rfl
  directory {other} ho := by
    have hne : other ≠ place := by
      rintro rfl
      exact hd ho
    rwa [entry?_put_of_ne hne]
  file {other} ho := by rw [file?, file?, entry?_put_of_ne ho]

theorem changes_put_directory (hn : place ≠ []) (he : t.entry? place = none) (P : Place → Prop) :
    Changes P t (t.put place .directory) :=
  have hc := changes_put hn (by simp [he]) .directory
  { hc with
    file := fun {other} _ => by
      by_cases ho : other = place
      · rw [file?, file?, ho, entry?_put_self hn, he]
      · exact hc.file ho }

theorem changes_write {bytes : List UInt8} (h : t.write p bytes = .ok t') :
    Changes (t'.placeOf p = .ok ·) t t' := by
  obtain ⟨place, hp, -, hd, rfl⟩ := exists_of_write_eq_ok h
  have hc := changes_put (ne_nil_of_placeOf hp) hd (.file bytes)
  refine hc.mono ?_
  rintro _ rfl
  exact hc.placeOf hp

theorem entry?_of_write {bytes : List UInt8} (h : t.write p bytes = .ok t')
    (hn : t'.placeOf p ≠ .ok place) : t'.entry? place = t.entry? place := by
  have hc := changes_write h
  obtain ⟨q, hp, -, hd, rfl⟩ := exists_of_write_eq_ok h
  refine entry?_put_of_ne ?_ _
  rintro rfl
  exact hn (hc.placeOf hp)

theorem read_of_write {bytes : List UInt8} (h : t.write p bytes = .ok t') :
    t'.read p = .ok bytes := by
  obtain ⟨place, hp, hs, hd, rfl⟩ := exists_of_write_eq_ok h
  have hn := ne_nil_of_placeOf hp
  exact read_eq_ok_iff.2 ⟨place, (changes_put hn hd _).placeOf hp, hs,
    file?_eq_some_iff.2 (entry?_put_self hn _)⟩

theorem changes_createDirectory (h : t.createDirectory p = .ok t') (P : Place → Prop) :
    Changes P t t' := by
  obtain ⟨e, -, h⟩ := bind_eq_ok_iff.1 h
  cases e with
  | directory _ => cases h
  | name directory s =>
    obtain ⟨place, hw, h⟩ := bind_eq_ok_iff.1 h
    split at h
    · cases h
    · next he =>
      cases h
      exact changes_put_directory (by simp [(within_eq_ok_iff.1 hw).2]) he P

theorem changes_ensureDirectory (h : t.ensureDirectory p = .ok t') (P : Place → Prop) :
    Changes P t t' := by
  rw [ensureDirectory] at h
  split at h
  · split at h
    · cases h
      exact .refl P t
    · cases h
  · exact changes_createDirectory h P

theorem changes_createDirectories (ps : List Path) (t : Tree) (P : Place → Prop) :
    Changes P t (t.createDirectories ps).2 := by
  fun_induction createDirectories t ps with
  | case1 => exact .refl P t
  | case2 p above t' h => exact changes_ensureDirectory h P
  | case3 p above h e t' ha ih => simpa [ha] using ih
  | case4 p above h u t' ha t'' h' ih =>
    rw [ha] at ih
    exact ih.trans (changes_ensureDirectory h' P)
  | case5 p above h u t' ha e h' ih => simpa [ha] using ih
  | case6 => exact .refl P t

theorem Changes.read {P : Place → Prop} (h : Changes P t t') {bytes : List UInt8}
    (hr : t.read p = .ok bytes) (hp : ∀ place, t'.placeOf p = .ok place → ¬ P place) :
    t'.read p = .ok bytes := by
  obtain ⟨place, ho, hs, hf⟩ := read_eq_ok_iff.1 hr
  have ho' := h.placeOf ho
  exact read_eq_ok_iff.2 ⟨place, ho', hs, (h.file (hp place ho')).trans hf⟩

theorem foldlM_enter_names {names : List String} {start : Place}
    (h : (names.map Path.Part.name).foldlM t.enter start = .ok place) : place = start ++ names := by
  induction names generalizing start with
  | nil =>
    cases h
    exact (List.append_nil _).symm
  | cons name names ih =>
    rw [List.map_cons, List.foldlM_cons] at h
    obtain ⟨next, he, h⟩ := bind_eq_ok_iff.1 h
    obtain ⟨q, hw, he⟩ := bind_eq_ok_iff.1 he
    have hq := (within_eq_ok_iff.1 hw).2
    split at he
    · cases he
      rw [ih h, hq, List.append_assoc, List.singleton_append]
    · cases he
    · cases he

theorem exists_of_placeOf_join {names : List String} (hn : names ≠ [])
    (h : ∀ n ∈ names, Path.IsName n) (hp : t.placeOf (p.join (.ofNames names)) = .ok place) :
    ∃ directory, t.walk p p.steps = .ok directory ∧ place = directory ++ names := by
  obtain ⟨before, last, rfl⟩ : ∃ before last, names = before ++ [last] :=
    ⟨_, _, (List.dropLast_append_getLast hn).symm⟩
  have ha := Path.not_isAbsolute_ofNames h
  have hs : (p.join (.ofNames (before ++ [last]))).steps =
      (p.steps ++ before.map .name) ++ [.name last] := by
    rw [Path.steps_join ha, Path.steps_ofNames hn h, List.map_append, List.append_assoc]
    rfl
  obtain ⟨directory, s, hl, hw⟩ := placeOf_eq_ok_iff.1 hp
  obtain ⟨_, -, hl⟩ := bind_eq_ok_iff.1 hl
  simp only [hs, List.getLast?_concat, List.dropLast_concat] at hl
  obtain ⟨q, hq, hl⟩ := bind_eq_ok_iff.1 hl
  cases hl
  rw [walk, Path.isAbsolute_join ha, List.foldlM_append] at hq
  obtain ⟨start, hd, hq⟩ := bind_eq_ok_iff.1 hq
  refine ⟨start, hd, ?_⟩
  rw [(within_eq_ok_iff.1 hw).2, foldlM_enter_names hq, List.append_assoc]

theorem eq_of_placeOf_join {base q : Path} (hp : p.Plain) (hq : q.Plain)
    (h : t.placeOf (base.join p) = .ok place) (h' : t.placeOf (base.join q) = .ok place) :
    p = q := by
  obtain ⟨names, hn, hs, rfl⟩ := hp
  obtain ⟨names', hn', hs', rfl⟩ := hq
  obtain ⟨directory, hd, rfl⟩ := exists_of_placeOf_join hn hs h
  obtain ⟨directory', hd', he⟩ := exists_of_placeOf_join hn' hs' h'
  cases hd.symm.trans hd'
  rw [List.append_cancel_left he]

end Tree

end WireProtocol.Files
