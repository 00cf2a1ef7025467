import Mathlib.Data.List.AList
import WireProtocol.Proofs.Wire.Registration

namespace WireProtocol.Wire

variable {ι : Type} {F : Family ι}

inductive Registration {ι : Type} (F : Family ι)
  | record (i : ι)
  | custom (h : Handler F)

variable [DecidableEq ι]

namespace Registration

def handler : Registration F → Handler F
  | record i => .record F i
  | custom h => h

def apply (g : Registry F) : Registration F → Except Error (Registry F)
  | record i => g.registerRecord i
  | custom h => g.register h

def run (g : Registry F) (c : Registration F) : Except Error Unit × Registry F :=
  match c.apply g with
  | .ok g' => (.ok (), g')
  | .error e => (.error e, g)

theorem apply_eq (g : Registry F) (c : Registration F) : c.apply g = g.register c.handler := by
  cases c <;> rfl

end Registration

def Registry.after (g : Registry F) (calls : List (Registration F)) : Registry F :=
  calls.foldl (fun g c => (c.run g).2) g

structure Tables {ι : Type} (F : Family ι) where
  byTag : AList fun _ : Int32 => Handler F := ∅
  byType : AList fun _ : ObjectType ι => Handler F := ∅

namespace Tables

def insert (t : Tables F) (h : Handler F) : Tables F :=
  ⟨t.byTag.insert h.tag h, t.byType.insert h.type h⟩

def new : Tables F := Registry.builtIns.foldl insert {}

def run (t : Tables F) (h : Handler F) : Except Error Unit × Tables F :=
  if Tag.isReserved h.tag then (.error (.reservedTag h.tag), t)
  else
    match t.byTag.lookup h.tag with
    | some existing =>
      if existing.type = h.type then (.ok (), t)
      else (.error (.duplicateTag h.tag existing.name), t)
    | none =>
      match t.byType.lookup h.type with
      | some existing => (.error (.typeTaken existing.name existing.tag), t)
      | none => (.ok (), t.insert h)

def after (t : Tables F) (calls : List (Registration F)) : Tables F :=
  calls.foldl (fun t c => (t.run c.handler).2) t

structure Shows (t : Tables F) (g : Registry F) : Prop where
  byTag : ∀ tag, t.byTag.lookup tag = g.byTag? tag
  byType : ∀ type, t.byType.lookup type = g.byType? type
  sizeByTag : t.byTag.entries.length = g.size
  sizeByType : t.byType.entries.length = g.size

end Tables

/-- What one table holds under a key has that key, and the other table holds it under the other. -/
structure Tables.Inverse (t : Tables F) : Prop where
  byTag {tag : Int32} {h : Handler F} (hl : t.byTag.lookup tag = some h) :
    h.tag = tag ∧ t.byType.lookup h.type = some h
  byType {type : ObjectType ι} {h : Handler F} (hl : t.byType.lookup type = some h) :
    h.type = type ∧ t.byTag.lookup h.tag = some h

structure Tables.Within (t t' : Tables F) : Prop where
  byTag {tag : Int32} {h : Handler F} (hl : t.byTag.lookup tag = some h) :
    t'.byTag.lookup tag = some h
  byType {type : ObjectType ι} {h : Handler F} (hl : t.byType.lookup type = some h) :
    t'.byType.lookup type = some h

namespace Registry

variable {g : Registry F} {h : Handler F}

omit [DecidableEq ι] in
theorem types_new : ((new : Registry F).handlers.map (·.type)).Nodup := by
  simp [new, builtIns, Handler.scalar, Handler.bytes]

omit [DecidableEq ι] in
theorem byTag?_append (g : Registry F) (h : Handler F) (tag : Int32) :
    byTag? ⟨g.handlers ++ [h]⟩ tag = (g.byTag? tag).or (if h.tag = tag then some h else none) := by
  simp [byTag?, List.find?_append, List.find?_singleton]

omit [DecidableEq ι] in
theorem byTag?_eq_none_iff {tag : Int32} :
    g.byTag? tag = none ↔ tag ∉ g.handlers.map (·.tag) := by
  simp [byTag?]

theorem byType?_eq_none_iff {type : ObjectType ι} :
    g.byType? type = none ↔ type ∉ g.handlers.map (·.type) := by
  simp [byType?]

theorem byType?_append (g : Registry F) (h : Handler F) (type : ObjectType ι) :
    byType? ⟨g.handlers ++ [h]⟩ type =
      (g.byType? type).or (if h.type = type then some h else none) := by
  simp [byType?, List.find?_append, List.find?_singleton]

end Registry

namespace Tables

variable {t : Tables F} {g : Registry F} {h : Handler F}

theorem Shows.insert (hs : t.Shows g) (ht : g.byTag? h.tag = none) (hT : g.byType? h.type = none) :
    (t.insert h).Shows ⟨g.handlers ++ [h]⟩ where
  byTag tag := by
    rw [Registry.byTag?_append, ← hs.byTag]
    by_cases he : h.tag = tag
    · subst he
      simp [Tables.insert, hs.byTag, ht]
    · simp [Tables.insert, he, AList.lookup_insert_ne (Ne.symm he)]
  byType type := by
    rw [Registry.byType?_append, ← hs.byType]
    by_cases he : h.type = type
    · subst he
      simp [Tables.insert, hs.byType, hT]
    · simp [Tables.insert, he, AList.lookup_insert_ne (Ne.symm he)]
  sizeByTag := by
    have hn : h.tag ∉ t.byTag := AList.lookup_eq_none.1 ((hs.byTag _).trans ht)
    rw [Tables.insert, AList.entries_insert_of_notMem hn, List.length_cons, hs.sizeByTag]
    simp [Registry.size]
  sizeByType := by
    have hn : h.type ∉ t.byType := AList.lookup_eq_none.1 ((hs.byType _).trans hT)
    rw [Tables.insert, AList.entries_insert_of_notMem hn, List.length_cons, hs.sizeByType]
    simp [Registry.size]

theorem Shows.insertAll (hs : t.Shows g) {added : List (Handler F)}
    (ht : ((g.handlers ++ added).map (·.tag)).Nodup)
    (hT : ((g.handlers ++ added).map (·.type)).Nodup) :
    (added.foldl Tables.insert t).Shows ⟨g.handlers ++ added⟩ := by
  induction added generalizing t g with
  | nil => simpa using hs
  | cons h added ih =>
    have hi := hs.insert (Registry.byTag?_eq_none_iff.2 (notMem_map_of_nodup ht))
      (Registry.byType?_eq_none_iff.2 (notMem_map_of_nodup hT))
    rw [List.append_cons] at ht hT ⊢
    exact ih hi ht hT

theorem shows_new : (new : Tables F).Shows .new := by
  have hs : (⟨∅, ∅⟩ : Tables F).Shows ⟨[]⟩ := ⟨fun _ => rfl, fun _ => rfl, rfl, rfl⟩
  exact hs.insertAll Registry.tagged_new.tags Registry.types_new

theorem Shows.run (hs : t.Shows g) (c : Registration F) :
    (t.run c.handler).1 = (c.run g).1 ∧ (t.run c.handler).2.Shows (c.run g).2 := by
  rw [Tables.run, Registration.run, Registration.apply_eq, Registry.register, hs.byTag, hs.byType]
  cases hr : Tag.isReserved c.handler.tag with
  | true => exact ⟨rfl, hs⟩
  | false =>
    cases ht : g.byTag? c.handler.tag with
    | some existing =>
      by_cases he : existing.type = c.handler.type
      · simp [he, hs]
      · simp [he, hs]
    | none =>
      cases hT : g.byType? c.handler.type with
      | some existing => exact ⟨rfl, hs⟩
      | none => exact ⟨rfl, hs.insert ht hT⟩

theorem Shows.after (hs : t.Shows g) (calls : List (Registration F)) :
    (t.after calls).Shows (g.after calls) := by
  induction calls generalizing t g with
  | nil => exact hs
  | cons c calls ih => exact ih (hs.run c).2

end Tables

namespace Registry

structure Keyed (g : Registry F) : Prop extends g.Tagged where
  types : (g.handlers.map (·.type)).Nodup
  standard : ∀ h ∈ builtIns, h ∈ g.handlers
  reserved : ∀ h ∈ g.handlers, h ∈ builtIns ∨ Tag.isReserved h.tag = false

variable {g : Registry F} {h : Handler F}

omit [DecidableEq ι] in
theorem keyed_new : (new : Registry F).Keyed where
  toTagged := tagged_new
  types := types_new
  standard _ hm := hm
  reserved _ hm := .inl hm

theorem Keyed.register (hg : g.Keyed) {g' : Registry F} (hr : g.register h = .ok g') :
    g'.Keyed := by
  have ht := hg.toTagged.register hr
  rcases register_cases hr with ⟨rfl, -⟩ | ⟨hres, -, hT, rfl⟩
  · exact hg
  · exact ⟨ht, nodup_map_concat hg.types hT, fun b hb => List.mem_append_left _ (hg.standard b hb),
      List.forall_mem_append.2 ⟨hg.reserved, List.forall_mem_singleton.2 (.inr hres)⟩⟩

theorem Keyed.run (hg : g.Keyed) (c : Registration F) : (c.run g).2.Keyed := by
  rw [Registration.run, Registration.apply_eq]
  split
  · next hr => exact hg.register hr
  · exact hg

theorem Keyed.after (hg : g.Keyed) (calls : List (Registration F)) : (g.after calls).Keyed := by
  induction calls generalizing g with
  | nil => exact hg
  | cons c calls ih => exact ih (hg.run c)

omit [DecidableEq ι] in
theorem Keyed.byTag?_eq_some_iff (hg : g.Keyed) {tag : Int32} :
    g.byTag? tag = some h ↔ h ∈ g.handlers ∧ h.tag = tag :=
  find?_eq_some_iff_of_nodup hg.tags

theorem Keyed.byType?_eq_some_iff (hg : g.Keyed) {type : ObjectType ι} :
    g.byType? type = some h ↔ h ∈ g.handlers ∧ h.type = type :=
  find?_eq_some_iff_of_nodup hg.types

theorem run_cases (g : Registry F) (c : Registration F) :
    (c.run g).2 = g ∨ (∀ h ∈ g.handlers, h.tag ≠ c.handler.tag) ∧
      c.run g = (.ok (), ⟨g.handlers ++ [c.handler]⟩) := by
  rw [Registration.run, Registration.apply_eq]
  split
  · next hr =>
    rcases register_cases hr with ⟨rfl, -⟩ | ⟨-, ht, -, rfl⟩
    · exact .inl rfl
    · exact .inr ⟨ht, rfl⟩
  · exact .inl rfl

theorem prefix_run (g : Registry F) (c : Registration F) :
    g.handlers <+: (c.run g).2.handlers := by
  rcases g.run_cases c with hr | ⟨-, hr⟩
  · simp only [hr, List.prefix_rfl]
  · simp only [hr, List.prefix_append]

theorem prefix_after (g : Registry F) (calls : List (Registration F)) :
    g.handlers <+: (g.after calls).handlers := by
  induction calls generalizing g with
  | nil => exact List.prefix_rfl
  | cons c calls ih => exact (g.prefix_run c).trans (ih _)

theorem run_unchanged {c : Registration F}
    (h : (∃ e, (c.run g).1 = .error e) ∨ ∃ h ∈ g.handlers, h.tag = c.handler.tag) :
    (c.run g).2 = g := by
  rcases g.run_cases c with hr | ⟨hn, hr⟩
  · exact hr
  · rcases h with ⟨e, he⟩ | ⟨h, hm, ht⟩
    · rw [hr] at he
      cases he
    · exact absurd ht (hn h hm)

end Registry

namespace Tables

variable {t : Tables F} {g : Registry F}

theorem Shows.inverse (hs : t.Shows g) (hg : g.Keyed) : t.Inverse where
  byTag hl := by
    rw [hs.byTag, hg.byTag?_eq_some_iff] at hl
    exact ⟨hl.2, by rw [hs.byType, hg.byType?_eq_some_iff]; exact ⟨hl.1, rfl⟩⟩
  byType hl := by
    rw [hs.byType, hg.byType?_eq_some_iff] at hl
    exact ⟨hl.2, by rw [hs.byTag, hg.byTag?_eq_some_iff]; exact ⟨hl.1, rfl⟩⟩

theorem Shows.within {t' : Tables F} {g' : Registry F} (hs : t.Shows g) (hs' : t'.Shows g')
    (hp : g.handlers <+: g'.handlers) : t.Within t' where
  byTag hl := by
    rw [hs.byTag] at hl
    exact (hs'.byTag _).trans (hp.find?_eq_some hl)
  byType hl := by
    rw [hs.byType] at hl
    exact (hs'.byType _).trans (hp.find?_eq_some hl)

theorem run_cases (t : Tables F) (h : Handler F) :
    (t.run h).2 = t ∨ t.byTag.lookup h.tag = none ∧ t.run h = (.ok (), t.insert h) := by
  rw [Tables.run]
  split
  · exact .inl rfl
  · split
    · split <;> exact .inl rfl
    · next ht =>
      split
      · exact .inl rfl
      · exact .inr ⟨ht, rfl⟩

theorem run_unchanged {h : Handler F}
    (hu : (∃ e, (t.run h).1 = .error e) ∨ ∃ h', t.byTag.lookup h.tag = some h') :
    (t.run h).2 = t := by
  rcases t.run_cases h with hr | ⟨hn, hr⟩
  · exact hr
  · rcases hu with ⟨e, he⟩ | ⟨h', hl⟩
    · rw [hr] at he
      cases he
    · rw [hn] at hl
      cases hl

end Tables

/-- However handlers are added to the first registry, by tag and by type the same handlers are found,
each under its own tag and its own type only. The built-in handlers stay, no other one has a reserved
tag, and none is ever replaced or removed. A call that is refused, or that comes with a tag and a type
registered together before, changes nothing. -/
theorem Registry.new_after_inverse (calls : List (Registration F)) :
    let g := (new : Registry F).after calls
    let t := (Tables.new : Tables F).after calls
    t.Shows g ∧ t.Inverse ∧ g.Keyed ∧ (∀ more, t.Within (t.after more)) ∧
      ∀ c : Registration F, (t.run c.handler).1 = (c.run g).1 ∧
        ((∃ e, (c.run g).1 = .error e) ∨
            (∃ h ∈ g.handlers, h.tag = c.handler.tag ∧ h.type = c.handler.type) →
          (c.run g).2 = g ∧ (t.run c.handler).2 = t) := by
  intro g t
  have hs : t.Shows g := Tables.shows_new.after calls
  have hg : g.Keyed := keyed_new.after calls
  refine ⟨hs, hs.inverse hg, hg, fun more => hs.within (hs.after more) (g.prefix_after more),
    fun c => ⟨(hs.run c).1, ?_⟩⟩
  rintro (⟨e, he⟩ | ⟨h, hm, ht, -⟩)
  · exact ⟨run_unchanged (.inl ⟨e, he⟩), Tables.run_unchanged (.inl ⟨e, (hs.run c).1.trans he⟩)⟩
  · have hl := (hs.byTag _).trans (hg.byTag?_eq_some_iff.2 ⟨hm, ht⟩)
    exact ⟨run_unchanged (.inr ⟨h, hm, ht⟩), Tables.run_unchanged (.inr ⟨h, hl⟩)⟩

end WireProtocol.Wire
