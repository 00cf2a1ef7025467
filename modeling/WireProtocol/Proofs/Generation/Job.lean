import WireProtocol.Generation.Command
import WireProtocol.Proofs.Files.Tree

namespace WireProtocol.Generation

open Files (Path Place Tree)
open Schema (Definition Diagnostic)

structure Scene where
  journal : Journal := {}
  tree : Tree

/-- How the job ends that is started in the first scene. -/
def Ends (x : Job (StateM Tree) α) (s : Scene) (r : Except Error α) (s' : Scene) : Prop :=
  (x.run.run s.journal).run s.tree = ((r, s'.journal), s'.tree)

instance [DecidableEq α] (x : Job (StateM Tree) α) (s : Scene) (r : Except Error α) (s' : Scene) :
    Decidable (Ends x s r s') :=
  inferInstanceAs (Decidable ((_ : (Except Error α × Journal) × Tree) = _))

namespace Ends

variable {s s' s'' : Scene}

theorem exists_ends (x : Job (StateM Tree) α) (s : Scene) : ∃ r s', Ends x s r s' :=
  ⟨_, ⟨_, _⟩, rfl⟩

theorem unique {x : Job (StateM Tree) α} {r r' : Except Error α} (h : Ends x s r s')
    (h' : Ends x s r' s'') : r = r' ∧ s' = s'' := by
  cases s'
  cases s''
  cases h.symm.trans h'
  exact ⟨rfl, rfl⟩

theorem bind_ok {x : Job (StateM Tree) α} {f : α → Job (StateM Tree) β} {a : α} {r : Except Error β}
    (h : Ends x s (.ok a) s') (hf : Ends (f a) s' r s'') : Ends (x >>= f) s r s'' := by
  simp only [Ends, ExceptT.run_bind, StateT.run_bind] at h hf ⊢
  rw [h]
  exact hf

theorem bind_error {x : Job (StateM Tree) α} {f : α → Job (StateM Tree) β} {e : Error}
    (h : Ends x s (.error e) s') : Ends (x >>= f) s (.error e) s' := by
  simp only [Ends, ExceptT.run_bind, StateT.run_bind] at h ⊢
  rw [h]
  rfl

theorem bind_cases {x : Job (StateM Tree) α} {f : α → Job (StateM Tree) β} {r : Except Error β}
    (h : Ends (x >>= f) s r s') :
    (∃ e, Ends x s (.error e) s' ∧ r = .error e) ∨
      ∃ a s₁, Ends x s (.ok a) s₁ ∧ Ends (f a) s₁ r s' := by
  obtain ⟨q, s₁, hx⟩ := exists_ends x s
  cases q with
  | error e =>
    obtain ⟨rfl, rfl⟩ := h.unique (bind_error hx)
    exact .inl ⟨e, hx, rfl⟩
  | ok a =>
    obtain ⟨q, s₂, hf⟩ := exists_ends (f a) s₁
    obtain ⟨rfl, rfl⟩ := h.unique (bind_ok hx hf)
    exact .inr ⟨a, s₁, hx, hf⟩

theorem exists_of_bind {x : Job (StateM Tree) α} {f : α → Job (StateM Tree) β} {b : β}
    (h : Ends (x >>= f) s (.ok b) s') : ∃ a s₁, Ends x s (.ok a) s₁ ∧ Ends (f a) s₁ (.ok b) s' :=
  h.bind_cases.resolve_left fun ⟨_, _, he⟩ => by cases he

end Ends

variable {s s' : Scene}

theorem ends_pure (a : α) (s : Scene) : Ends (pure a) s (.ok a) s := rfl

theorem ends_throw (e : Error) (s : Scene) :
    Ends (throw e : Job (StateM Tree) α) s (.error e) s := rfl

theorem ends_say (line : String) (s : Scene) :
    Ends (say line) s (.ok ())
      ⟨{ s.journal with lines := s.journal.lines ++ [line] }, s.tree⟩ := rfl

theorem ends_note (level : Level) (text : String) (s : Scene) :
    Ends (note level text) s (.ok ()) ⟨s.journal.note level text, s.tree⟩ := rfl

theorem ends_ask {answer : StateT Journal (StateM Tree) (Except Files.Fault α)}
    {v : Except Files.Fault α}
    (h : (answer.run s.journal).run s.tree = ((v, s'.journal), s'.tree)) :
    Ends (ask answer) s (v.mapError .files) s' := by
  have hl : Ends (monadLift answer : Job (StateM Tree) (Except Files.Fault α)) s (.ok v) s' := by
    change ((Except.ok <$> answer).run s.journal).run s.tree = _
    rw [StateT.run_map, StateT.run_map, h]
    rfl
  refine hl.bind_ok ?_
  cases v with
  | ok a => exact ends_pure a s'
  | error e => exact ends_throw (.files e) s'

def Looks (x : Job (StateM Tree) α) : Prop :=
  ∃ f : Tree → Except Error α, ∀ s, Ends x s (f s.tree) s

namespace Looks

theorem pure (a : α) : Looks (Pure.pure a) := ⟨fun _ => .ok a, ends_pure a⟩

theorem throw (e : Error) : Looks (MonadExcept.throw e : Job (StateM Tree) α) :=
  ⟨fun _ => .error e, ends_throw e⟩

theorem bind {x : Job (StateM Tree) α} {f : α → Job (StateM Tree) β} (hx : Looks x)
    (hf : ∀ a, Looks (f a)) : Looks (x >>= f) := by
  obtain ⟨g, hg⟩ := hx
  choose k hk using hf
  refine ⟨fun t => (g t).bind fun a => k a t, fun s => ?_⟩
  have hs := hg s
  dsimp only
  cases hr : g s.tree with
  | ok a =>
    rw [hr] at hs
    exact hs.bind_ok (hk a s)
  | error e =>
    rw [hr] at hs
    exact hs.bind_error

theorem eq {x : Job (StateM Tree) α} (hx : Looks x) {r : Except Error α} (h : Ends x s r s') :
    s' = s := by
  obtain ⟨f, hf⟩ := hx
  exact (h.unique (hf s)).2

end Looks

/-- The job finds this in the files. -/
def Finds (t : Tree) (x : Job (StateM Tree) α) (a : α) : Prop := Ends x ⟨{}, t⟩ (.ok a) ⟨{}, t⟩

instance [DecidableEq α] (t : Tree) (x : Job (StateM Tree) α) (a : α) : Decidable (Finds t x a) :=
  inferInstanceAs (Decidable (Ends ..))

theorem Looks.finds {x : Job (StateM Tree) α} (hx : Looks x) {a : α} (h : Ends x s (.ok a) s') :
    Finds s.tree x a := by
  obtain ⟨f, hf⟩ := hx
  have hr := (h.unique (hf s)).1
  rw [Finds, hr]
  exact hf ⟨{}, s.tree⟩

theorem looks_readBytes (file : Path) : Looks (readBytes file) :=
  ⟨fun t => (t.read file).mapError .files, fun _ => ends_ask rfl⟩

theorem looks_readText (file : Path) : Looks (readText file) := by
  refine (looks_readBytes file).bind fun bytes => ?_
  cases Files.textOf bytes with
  | ok text => exact .pure text
  | error fault => exact .throw (.files fault)

theorem looks_readSchema (file : Path) : Looks (readSchema file) := by
  rw [readSchema]
  split
  · refine (looks_readBytes file).bind fun bytes => ?_
    cases Schema.Snapshot.decode bytes with
    | ok d => exact .pure _
    | error fault => exact .throw (.snapshot fault)
  · exact (looks_readText file).bind fun text => .pure _

theorem looks_readRun (file : Path) : Looks (readRun file) := by
  refine (looks_readText file).bind fun text => ?_
  cases Text.Json.ofText? text >>= Run.ofJson? with
  | some r => exact .pure _
  | none => exact .throw (.malformedRun file)

structure Quiet (s s' : Scene) : Prop where
  lines : s'.journal.lines = s.journal.lines
  tree : s'.tree = s.tree

theorem Quiet.refl (s : Scene) : Quiet s s := ⟨rfl, rfl⟩

theorem Quiet.trans {s'' : Scene} (h : Quiet s s') (h' : Quiet s' s'') : Quiet s s'' :=
  ⟨h'.lines.trans h.lines, h'.tree.trans h.tree⟩

theorem quiet_pure {a : α} {r : Except Error α} (h : Ends (pure a) s r s') : Quiet s s' := by
  obtain ⟨-, rfl⟩ := h.unique (ends_pure a s)
  exact .refl _

theorem quiet_note {level : Level} {text : String} {r : Except Error Unit}
    (h : Ends (note level text) s r s') : r = .ok () ∧ Quiet s s' := by
  obtain ⟨rfl, rfl⟩ := h.unique (ends_note level text s)
  exact ⟨rfl, rfl, rfl⟩

theorem quiet_noteDiagnostics {file : Path} {ds : List Diagnostic} {r : Except Error Unit}
    (h : Ends (ds.forM (noteDiagnostic file)) s r s') : r = .ok () ∧ Quiet s s' := by
  induction ds generalizing s with
  | nil =>
    obtain ⟨rfl, rfl⟩ := h.unique (ends_pure () s)
    exact ⟨rfl, rfl, rfl⟩
  | cons d ds ih =>
    rcases h.bind_cases with ⟨e, he, rfl⟩ | ⟨_, s₁, hn, h⟩
    · cases (quiet_note he).1
    · obtain ⟨hr, hq⟩ := ih h
      exact ⟨hr, (quiet_note hn).2.trans hq⟩

end WireProtocol.Generation

namespace WireProtocol.Schema

def Reading.Clean (reading : Reading) : Prop :=
  ∀ d ∈ reading.diagnostics ++ reading.definition.validate, d.isError = false

end WireProtocol.Schema

namespace WireProtocol.Generation

variable {s s' : Scene}

open Files (Path Tree)
open Schema (Definition)

theorem ends_checkedSchema {file : Path} {r : Except Error Definition}
    (h : Ends (checkedSchema file) s r s') :
    Quiet s s' ∧ ∀ d, r = .ok d → ∃ reading, Finds s.tree (readSchema file) reading ∧
      reading.Clean ∧ d = reading.definition := by
  rcases h.bind_cases with ⟨e, he, rfl⟩ | ⟨reading, s₁, hl, hrest⟩
  · obtain rfl := (looks_readSchema file).eq he
    exact ⟨⟨rfl, rfl⟩, fun _ hd => by cases hd⟩
  · have hf := (looks_readSchema file).finds hl
    obtain rfl := (looks_readSchema file).eq hl
    rcases Ends.bind_cases hrest with ⟨e, he, -⟩ | ⟨_, s₂, hn, hend⟩
    · cases (quiet_noteDiagnostics he).1
    · obtain ⟨-, hq⟩ := quiet_noteDiagnostics hn
      split at hend
      · next hz =>
        obtain ⟨rfl, rfl⟩ := hend.unique (ends_pure _ s₂)
        refine ⟨hq, fun d hd => ⟨reading, hf, ?_, by cases hd; rfl⟩⟩
        intro d hd
        rw [List.length_eq_zero_iff, List.filter_eq_nil_iff] at hz
        exact Bool.eq_false_iff.2 (hz d hd)
      · obtain ⟨rfl, rfl⟩ := hend.unique (ends_throw _ s₂)
        exact ⟨hq, fun _ hd => by cases hd⟩

end WireProtocol.Generation
