import WireProtocol.Proofs.Schema.Tags

namespace WireProtocol.Wire

variable {ι : Type} {F : Family ι}

namespace Handler

def key (h : Handler F) : Int32 × ObjectType ι := (h.tag, h.type)

/-- The two are for the same type under the same tag, or have neither in common. -/
def Agrees (h h' : Handler F) : Prop := h.tag = h'.tag ↔ h.type = h'.type

theorem Agrees.refl (h : Handler F) : h.Agrees h := iff_of_true rfl rfl

theorem Agrees.symm {h h' : Handler F} (ha : h.Agrees h') : h'.Agrees h := by
  rwa [Agrees, eq_comm, @eq_comm _ h'.type]

theorem pairwise_agrees_iff {hs : List (Handler F)} :
    hs.Pairwise Agrees ↔ ∀ h ∈ hs, ∀ h' ∈ hs, h.Agrees h' := by
  have : Std.Symm (Agrees (F := F)) := ⟨fun _ _ => Agrees.symm⟩
  exact ⟨fun hp _ hm _ hm' => hp.forall_of_forall (fun h _ => .refl h) hm hm',
    List.pairwise_of_forall_mem_list⟩

/-- Handlers that can all be registered. -/
structure Compatible (hs : List (Handler F)) : Prop where
  tags : ∀ h ∈ hs, h.tag ≠ -1 ∧ ¬ (0 ≤ h.tag ∧ h.tag ≤ 15)
  types : ∀ h ∈ hs, ∀ b ∈ Registry.builtIns (F := F), h.type ≠ b.type
  agree : ∀ h ∈ hs, ∀ h' ∈ hs, h.tag = h'.tag ↔ h.type = h'.type

theorem Compatible.perm {hs hs' : List (Handler F)} (hp : hs.Perm hs') (h : Compatible hs) :
    Compatible hs' where
  tags x hx := h.tags x (hp.mem_iff.2 hx)
  types x hx := h.types x (hp.mem_iff.2 hx)
  agree x hx y hy := h.agree x (hp.mem_iff.2 hx) y (hp.mem_iff.2 hy)

end Handler

namespace Registry

variable [DecidableEq ι] {g g' : Registry F} {h : Handler F}

def answers (g : Registry F) : List (Registration F) → List (Except Error Unit)
  | [] => []
  | c :: calls => (c.run g).1 :: (c.run g).2.answers calls

def AcceptsAll (g : Registry F) (calls : List (Registration F)) : Prop :=
  ∀ a ∈ g.answers calls, a = .ok ()

theorem exists_register_iff (hg : g.Keyed) :
    (∃ g', g.register h = .ok g') ↔
      Tag.isReserved h.tag = false ∧ ∀ h' ∈ g.handlers, h'.Agrees h := by
  constructor
  · rintro ⟨g', hr⟩
    rcases register_cases hr with ⟨-, b, hb, ht, hT⟩ | ⟨hres, ht, hT, -⟩
    · refine ⟨?_, fun h' hm => ⟨fun ht' => ?_, fun hT' => ?_⟩⟩
      · by_contra hres
        rw [register, if_pos (Bool.not_eq_false _ ▸ hres)] at hr
        cases hr
      · rw [List.inj_on_of_nodup_map hg.tags hm hb (ht'.trans ht.symm), hT]
      · rw [List.inj_on_of_nodup_map hg.types hm hb (hT'.trans hT.symm), ht]
    · exact ⟨hres, fun h' hm => iff_of_false (ht h' hm) (hT h' hm)⟩
  · rintro ⟨hres, ha⟩
    rw [register, if_neg (by simp [hres])]
    cases ht : g.byTag? h.tag with
    | some b =>
      obtain ⟨hm, htag⟩ := hg.byTag?_eq_some_iff.1 ht
      exact ⟨g, if_pos ((ha b hm).1 htag)⟩
    | none =>
      cases hT : g.byType? h.type with
      | some b =>
        obtain ⟨hm, htype⟩ := hg.byType?_eq_some_iff.1 hT
        exact absurd (List.mem_map.2 ⟨b, hm, (ha b hm).2 htype⟩) (byTag?_eq_none_iff.1 ht)
      | none => exact ⟨_, rfl⟩

theorem mem_keys_register (hr : g.register h = .ok g') {k : Int32 × ObjectType ι} :
    k ∈ g'.handlers.map Handler.key ↔ k ∈ g.handlers.map Handler.key ∨ k = h.key := by
  rcases register_cases hr with ⟨rfl, b, hb, ht, hT⟩ | ⟨-, -, -, rfl⟩
  · have hk : h.key ∈ g'.handlers.map Handler.key :=
      List.mem_map.2 ⟨b, hb, Prod.ext ht hT⟩
    exact ⟨.inl, fun hm => hm.elim id fun he => he ▸ hk⟩
  · rw [List.map_append, List.mem_append, List.map_singleton, List.mem_singleton]

theorem run_eq_ok_iff {c : Registration F} :
    c.run g = (.ok (), g') ↔ g.register c.handler = .ok g' := by
  rw [Registration.run, Registration.apply_eq]
  split
  · next hr => simp [hr]
  · next hr => simp [hr]

theorem exists_register_of_run {c : Registration F} (h : (c.run g).1 = .ok ()) :
    g.register c.handler = .ok (c.run g).2 :=
  run_eq_ok_iff.1 (Prod.ext h rfl)

theorem acceptsAll_cons {c : Registration F} {calls : List (Registration F)} :
    g.AcceptsAll (c :: calls) ↔ (c.run g).1 = .ok () ∧ (c.run g).2.AcceptsAll calls := by
  rw [AcceptsAll, answers, List.forall_mem_cons]
  rfl

omit [DecidableEq ι] in
theorem forall_agrees_iff (hs : List (Handler F)) :
    (∀ h' ∈ hs, h'.Agrees h) ↔ ∀ k ∈ hs.map Handler.key, k.1 = h.tag ↔ k.2 = h.type := by
  rw [List.forall_mem_map]
  rfl

theorem run_fst_eq_ok_iff (hg : g.Keyed) {c : Registration F} :
    (c.run g).1 = .ok () ↔
      Tag.isReserved c.handler.tag = false ∧ ∀ h' ∈ g.handlers, h'.Agrees c.handler := by
  rw [← exists_register_iff hg]
  exact ⟨fun h => ⟨_, exists_register_of_run h⟩,
    fun ⟨_, h⟩ => congrArg Prod.fst (run_eq_ok_iff.2 h)⟩

theorem forall_agrees_run_iff {c : Registration F} (hr : (c.run g).1 = .ok ()) :
    (∀ h' ∈ (c.run g).2.handlers, h'.Agrees h) ↔
      (∀ h' ∈ g.handlers, h'.Agrees h) ∧ c.handler.Agrees h := by
  simp only [forall_agrees_iff, mem_keys_register (exists_register_of_run hr), or_imp, forall_and,
    forall_eq]
  rfl

theorem acceptsAll_iff (hg : g.Keyed) (calls : List (Registration F)) :
    g.AcceptsAll calls ↔
      (∀ h ∈ calls.map (·.handler), Tag.isReserved h.tag = false) ∧
      (∀ h ∈ calls.map (·.handler), ∀ h' ∈ g.handlers, h'.Agrees h) ∧
      (calls.map (·.handler)).Pairwise Handler.Agrees := by
  induction calls generalizing g with
  | nil => simp [AcceptsAll, answers]
  | cons c calls ih =>
    rw [acceptsAll_cons, ih (hg.run c)]
    simp only [List.map_cons, List.forall_mem_cons, List.pairwise_cons]
    constructor
    · rintro ⟨hr, hres, ha, hp⟩
      simp only [forall_agrees_run_iff hr] at ha
      obtain ⟨hres', ha'⟩ := (run_fst_eq_ok_iff hg).1 hr
      exact ⟨⟨hres', hres⟩, ⟨ha', fun h hm => (ha h hm).1⟩, fun h hm => (ha h hm).2, hp⟩
    · rintro ⟨⟨hres', hres⟩, ⟨ha', ha⟩, hc, hp⟩
      have hr := (run_fst_eq_ok_iff hg).2 ⟨hres', ha'⟩
      simp only [forall_agrees_run_iff hr]
      exact ⟨hr, hres, fun h hm => ⟨ha h hm, hc h hm⟩, hp⟩

theorem mem_keys_after {calls : List (Registration F)} (h : g.AcceptsAll calls)
    {k : Int32 × ObjectType ι} :
    k ∈ (g.after calls).handlers.map Handler.key ↔
      k ∈ g.handlers.map Handler.key ∨ ∃ c ∈ calls, k = c.handler.key := by
  induction calls generalizing g with
  | nil => simp [after]
  | cons c calls ih =>
    obtain ⟨hr, h⟩ := acceptsAll_cons.1 h
    have hk : (g.after (c :: calls)) = (c.run g).2.after calls := rfl
    rw [hk, ih h, mem_keys_register (exists_register_of_run hr), or_assoc]
    simp only [List.exists_mem_cons_iff]

omit [DecidableEq ι] in
theorem agrees_builtIn_iff (hres : Tag.isReserved h.tag = false) {b : Handler F}
    (hb : b ∈ builtIns) : b.Agrees h ↔ h.type ≠ b.type := by
  have ht : b.tag ≠ h.tag := fun he => by
    have hr := isReserved_of_mem_builtIns b hb
    rw [he, hres] at hr
    cases hr
  rw [Handler.Agrees, iff_false_left ht, ne_eq, @eq_comm _ h.type]

omit [DecidableEq ι] in
theorem not_reserved_iff :
    Tag.isReserved h.tag = false ↔ h.tag ≠ -1 ∧ ¬ (0 ≤ h.tag ∧ h.tag ≤ 15) := by
  rw [← Bool.not_eq_true, Tag.isReserved_iff, not_or]

theorem new_acceptsAll_iff (calls : List (Registration F)) :
    (new : Registry F).AcceptsAll calls ↔ Handler.Compatible (calls.map (·.handler)) := by
  rw [acceptsAll_iff keyed_new, Handler.pairwise_agrees_iff]
  constructor
  · rintro ⟨hres, ha, hp⟩
    exact ⟨fun h hm => not_reserved_iff.1 (hres h hm),
      fun h hm b hb => (agrees_builtIn_iff (hres h hm) hb).1 (ha h hm b hb), hp⟩
  · rintro ⟨htags, htypes, hp⟩
    have hres (h) (hm : h ∈ calls.map (·.handler)) := not_reserved_iff.2 (htags h hm)
    exact ⟨hres, fun h hm b hb => (agrees_builtIn_iff (hres h hm) hb).2 (htypes h hm b hb), hp⟩

omit [DecidableEq ι] in
theorem Keyed.nodup_keys (hg : g.Keyed) : (g.handlers.map Handler.key).Nodup := by
  have ht : (g.handlers.map Handler.key).map Prod.fst = g.handlers.map (·.tag) := List.map_map
  exact List.Nodup.of_map Prod.fst (ht ▸ hg.tags)

omit [DecidableEq ι] in
theorem Keyed.type_byTag?_eq_some_iff (hg : g.Keyed) {tag : Int32} {type : ObjectType ι} :
    (g.byTag? tag).map (·.type) = some type ↔ (tag, type) ∈ g.handlers.map Handler.key := by
  simp only [Option.map_eq_some_iff, hg.byTag?_eq_some_iff, List.mem_map, Handler.key,
    Prod.mk.injEq, and_assoc]

theorem Keyed.tag_byType?_eq_some_iff (hg : g.Keyed) {tag : Int32} {type : ObjectType ι} :
    (g.byType? type).map (·.tag) = some tag ↔ (tag, type) ∈ g.handlers.map Handler.key := by
  simp only [Option.map_eq_some_iff, hg.byType?_eq_some_iff, List.mem_map, Handler.key,
    Prod.mk.injEq, and_assoc, and_comm (a := _ = type)]

theorem Keyed.alike (hg : g.Keyed) (hg' : g'.Keyed)
    (hk : ∀ k, k ∈ g.handlers.map Handler.key ↔ k ∈ g'.handlers.map Handler.key) :
    (∀ tag, (g.byTag? tag).map (·.type) = (g'.byTag? tag).map (·.type)) ∧
      (∀ type, (g.byType? type).map (·.tag) = (g'.byType? type).map (·.tag)) ∧
      g.size = g'.size := by
  refine ⟨fun tag => Option.ext fun type => ?_, fun type => Option.ext fun tag => ?_, ?_⟩
  · rw [hg.type_byTag?_eq_some_iff, hg'.type_byTag?_eq_some_iff, hk]
  · rw [hg.tag_byType?_eq_some_iff, hg'.tag_byType?_eq_some_iff, hk]
  · have hp := (List.perm_ext_iff_of_nodup hg.nodup_keys hg'.nodup_keys).2 hk
    simpa [size] using hp.length_eq

/-- From the first registry on, all calls are accepted exactly when no tag is reserved, no type is
that of a built-in handler, and handlers with one tag are those with one type. So it is for every
order of the calls; and when they are accepted, every order leads to the same types by tag, the same
tags by type and the same size. -/
theorem acceptsAll_perm (calls : List (Registration F)) :
    ((new : Registry F).AcceptsAll calls ↔ Handler.Compatible (calls.map (·.handler))) ∧
    ∀ calls', calls.Perm calls' →
      (Handler.Compatible (calls.map (·.handler)) ↔ Handler.Compatible (calls'.map (·.handler))) ∧
      ((new : Registry F).AcceptsAll calls ↔ (new : Registry F).AcceptsAll calls') ∧
      ((new : Registry F).AcceptsAll calls →
        let g := (new : Registry F).after calls
        let g' := (new : Registry F).after calls'
        (∀ tag, (g.byTag? tag).map (·.type) = (g'.byTag? tag).map (·.type)) ∧
        (∀ type, (g.byType? type).map (·.tag) = (g'.byType? type).map (·.tag)) ∧
        g.size = g'.size) := by
  refine ⟨new_acceptsAll_iff calls, fun calls' hp => ?_⟩
  have hc : Handler.Compatible (calls.map (·.handler)) ↔
      Handler.Compatible (calls'.map (·.handler)) :=
    ⟨.perm (hp.map _), .perm (hp.symm.map _)⟩
  have ha : (new : Registry F).AcceptsAll calls ↔ (new : Registry F).AcceptsAll calls' := by
    rw [new_acceptsAll_iff, new_acceptsAll_iff, hc]
  refine ⟨hc, ha, fun h => (keyed_new.after calls).alike (keyed_new.after calls') fun k => ?_⟩
  rw [mem_keys_after h, mem_keys_after (ha.1 h)]
  simp only [hp.mem_iff]

def counter (name : String) (tag : Int32) : Handler chain where
  tag := tag
  name := name
  type := .foreign name
  write
    | .foreign _ value => Write.i32 value
    | _ => Handler.mismatch name
  read := .foreign name <$> Read.i32

theorem acceptsAll_perm_twice :
    let apples : Registration chain := .custom (counter "Apples" 101)
    let g := (new : Registry chain).after [.record (), apples, apples]
    [apples, .record (), apples].Perm [.record (), apples, apples] ∧
      (new : Registry chain).AcceptsAll [apples, .record (), apples] ∧
      (new : Registry chain).AcceptsAll [.record (), apples, apples] ∧
      (g.byTag? 101).map (·.type) = some (.foreign "Apples") ∧ g.size = 11 := by
  intro apples g
  have hp : [apples, .record (), apples].Perm [.record (), apples, apples] := .swap _ _ _
  obtain ⟨hc, h⟩ := acceptsAll_perm [apples, .record (), apples]
  have ha : (new : Registry chain).AcceptsAll [apples, .record (), apples] :=
    hc.2 ⟨by decide, by decide, by decide⟩
  obtain ⟨-, hi, hg⟩ := h _ hp
  obtain ⟨ht, -, hs⟩ := hg ha
  exact ⟨hp, ha, hi.1 ha, (ht 101).symm.trans rfl, hs.symm.trans rfl⟩

end Registry

end WireProtocol.Wire
