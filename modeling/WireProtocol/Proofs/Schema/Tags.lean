import WireProtocol.Proofs.Schema.Validation
import WireProtocol.Proofs.Wire.Tables
import WireProtocol.Schema.Family

namespace WireProtocol.Wire.Registry

variable {ι : Type} {F : Family ι} [DecidableEq ι] {g : Registry F}

theorem register_eq_ok_iff {g' : Registry F} {h : Handler F}
    (hT : h.type ∉ g.handlers.map (·.type)) :
    g.register h = .ok g' ↔
      Tag.isReserved h.tag = false ∧ h.tag ∉ g.handlers.map (·.tag) ∧
        g' = ⟨g.handlers ++ [h]⟩ := by
  constructor
  · intro hr
    rcases register_cases hr with ⟨-, h', hm, -, hT'⟩ | ⟨hres, ht, -, rfl⟩
    · exact absurd (List.mem_map.2 ⟨h', hm, hT'⟩) hT
    · exact ⟨hres, by simpa using ht, rfl⟩
  · rintro ⟨hres, ht, rfl⟩
    rw [register, if_neg (by simp [hres]), byTag?_eq_none_iff.2 ht, byType?_eq_none_iff.2 hT]

theorem registerRecords_eq_ok_iff {g' : Registry F} {is : List ι} (hg : g.Tagged)
    (hT : ((g.handlers ++ is.map (Handler.record F)).map (·.type)).Nodup) :
    g.registerRecords is = (g', .ok ()) ↔
      (∀ i ∈ is, Tag.isReserved (F i).tag = false) ∧
        ((g.handlers ++ is.map (Handler.record F)).map (·.tag)).Nodup ∧
        g' = ⟨g.handlers ++ is.map (Handler.record F)⟩ := by
  induction is generalizing g with
  | nil =>
    rw [List.map_nil, List.append_nil, registerRecords, Prod.mk.injEq, and_iff_left rfl]
    simp [hg.tags, @eq_comm _ g]
  | cons i is ih =>
    have hi (g₁ : Registry F) : g.register (.record F i) = .ok g₁ ↔ _ :=
      register_eq_ok_iff (notMem_map_of_nodup hT)
    rw [registerRecords, registerRecord, List.forall_mem_cons]
    split
    · next g₁ hr =>
      obtain ⟨hres, -, rfl⟩ := (hi _).1 hr
      have he : g.handlers ++ (i :: is).map (Handler.record F) =
        g.handlers ++ [.record F i] ++ is.map (Handler.record F) := by simp
      rw [he] at hT ⊢
      rw [ih (hg.register hr) hT]
      exact and_congr_left' (and_iff_right hres).symm
    · next e hr =>
      -- The first record is refused, so one of its conditions fails, and no later record mends it.
      simp only [Prod.mk.injEq, reduceCtorEq, and_false, false_iff]
      rintro ⟨⟨hres, -⟩, ht, -⟩
      rw [(hi _).2 ⟨hres, notMem_map_of_nodup ht, rfl⟩] at hr
      cases hr

theorem Keyed.registerRecords (hg : g.Keyed) (is : List ι) : (g.registerRecords is).1.Keyed := by
  induction is generalizing g with
  | nil => exact hg
  | cons i is ih =>
    rw [Registry.registerRecords]
    split
    · next hr => exact ih (hg.register hr)
    · exact hg

omit [DecidableEq ι] in
theorem isReserved_of_mem_builtIns :
    ∀ h ∈ (builtIns : List (Handler F)), Tag.isReserved h.tag = true := by
  simp [builtIns, Handler.scalar, Handler.bytes, Tag.isReserved_iff]

theorem nodup_types_new {is : List ι} (h : is.Nodup) :
    (((new : Registry F).handlers ++ is.map (Handler.record F)).map (·.type)).Nodup := by
  rw [List.map_append, List.nodup_append, List.map_map]
  refine ⟨types_new, h.map fun i j hij => ObjectType.record.inj hij, ?_⟩
  simp [new, builtIns, Handler.scalar, Handler.bytes, Handler.record]

theorem nodup_tags_new_iff {is : List ι} (h : ∀ i ∈ is, Tag.isReserved (F i).tag = false) :
    (((new : Registry F).handlers ++ is.map (Handler.record F)).map (·.tag)).Nodup ↔
      (is.map fun i => (F i).tag).Nodup := by
  rw [List.map_append, List.nodup_append, List.map_map, and_iff_right tagged_new.tags]
  refine and_iff_left fun tag htag tag' htag' heq => ?_
  obtain ⟨b, hb, rfl⟩ := List.mem_map.1 htag
  obtain ⟨i, hi, rfl⟩ := List.mem_map.1 htag'
  have hres := isReserved_of_mem_builtIns b hb
  rw [heq] at hres
  exact absurd hres (by simp [Handler.record, h i hi])

theorem registerRecords_new_eq_ok_iff {g' : Registry F} {is : List ι} (h : is.Nodup) :
    (new : Registry F).registerRecords is = (g', .ok ()) ↔
      ((∀ i ∈ is, Tag.isReserved (F i).tag = false) ∧ (is.map fun i => (F i).tag).Nodup) ∧
        g' = ⟨builtIns ++ is.map (Handler.record F)⟩ := by
  rw [registerRecords_eq_ok_iff tagged_new (nodup_types_new h), ← and_assoc]
  exact and_congr_left' (and_congr_right nodup_tags_new_iff)

end WireProtocol.Wire.Registry

namespace WireProtocol.Schema.Definition

open Wire

theorem separated_iff_nodup {ms : List Message} (hn : (ms.map (·.name)).Nodup) :
    Separated ms ↔ (ms.map (·.typeTag)).Nodup := by
  constructor
  · intro hs
    refine List.Nodup.map_on (fun m hm m' hm' ht => ?_) hn.of_map
    exact List.inj_on_of_nodup_map hn hm hm' (hs m hm m' hm' ht)
  · intro ht m hm m' hm' h
    rw [List.inj_on_of_nodup_map ht hm hm' h]

theorem family_tag {d : Definition} (hn : (d.messages.map (·.name)).Nodup) {m : Message}
    (hm : m ∈ d.messages) : (d.family m.name).tag = m.typeTag := by
  have hf : d.message? m.name = some m := (find?_eq_some_iff_of_nodup hn).2 ⟨hm, rfl⟩
  rw [family, hf]

/-- When the messages of a definition have names of their own, and are registered with a type each,
validation finds no error in their tags exactly when the registry takes them all. Then every message
is found by its tag, and all built-in handlers are still there. -/
theorem registerRecords_ok_iff {ι : Type} [DecidableEq ι] {F : Family ι} {type : Message → ι}
    (d : Definition) (hn : (d.messages.map (·.name)).Nodup) (hT : (d.messages.map type).Nodup)
    (ht : ∀ m ∈ d.messages, (F (type m)).tag = m.typeTag) :
    let r := (Registry.new : Registry F).registerRecords (d.messages.map type)
    (r.2 = .ok () ↔ ¬ Faulty d.checkTags) ∧
      (r.2 = .ok () →
        r.1.size = 9 + d.messages.length ∧
        (∀ m ∈ d.messages, r.1.byTag? m.typeTag = some (.record F (type m))) ∧
        ∀ h ∈ Registry.builtIns, r.1.byTag? h.tag = some h ∧ r.1.byType? h.type = some h) := by
  intro r
  have htags : ((d.messages.map type).map fun i => (F i).tag) = d.messages.map (·.typeTag) := by
    simpa using ht
  have hres : (∀ i ∈ d.messages.map type, Tag.isReserved (F i).tag = false) ↔
      ∀ m ∈ d.messages, Tag.isReserved m.typeTag = false := by
    rw [List.forall_mem_map]
    exact forall₂_congr fun m hm => by rw [ht m hm]
  have hr (g : Registry F) : r = (g, .ok ()) ↔
      ¬ Faulty d.checkTags ∧ g = ⟨Registry.builtIns ++ (d.messages.map type).map (.record F)⟩ := by
    rw [d.not_faulty_checkTags, separated_iff_nodup hn, ← hres, ← htags]
    exact Registry.registerRecords_new_eq_ok_iff hT
  have hk : r.1.Keyed := Registry.keyed_new.registerRecords (d.messages.map type)
  refine ⟨⟨fun ho => ((hr r.1).1 (Prod.ext rfl ho)).1, fun hf => ?_⟩, fun ho => ?_⟩
  · rw [(hr _).2 ⟨hf, rfl⟩]
  · have hg := ((hr r.1).1 (Prod.ext rfl ho)).2
    refine ⟨?_, fun m hm => ?_, fun h hm => ?_⟩
    · simp [hg, Registry.size, Registry.builtIns]
      omega
    · rw [hk.byTag?_eq_some_iff, ← ht m hm]
      refine ⟨?_, rfl⟩
      rw [hg]
      exact List.mem_append_right _ (List.mem_map_of_mem (List.mem_map_of_mem hm))
    · have hm := hk.standard h hm
      exact ⟨hk.byTag?_eq_some_iff.2 ⟨hm, rfl⟩, hk.byType?_eq_some_iff.2 ⟨hm, rfl⟩⟩

theorem registerRecords_ok_iff_pair :
    let d : Definition := { messages := [⟨"Point", [], 100, 1⟩, ⟨"Line", [], 101, 2⟩] }
    let r := (Registry.new : Registry d.family).registerRecords ["Point", "Line"]
    ¬ Faulty d.checkTags ∧ r.2 = .ok () ∧ r.1.size = 11 ∧
      r.1.byTag? 101 = some (.record d.family "Line") := by
  intro d r
  have hn : (d.messages.map (·.name)).Nodup := by decide
  obtain ⟨hr, hg⟩ := registerRecords_ok_iff d hn hn fun m hm => family_tag hn hm
  have hf : ¬ Faulty d.checkTags := d.not_faulty_checkTags.2 ⟨by decide, (separated_iff_nodup hn).2 (by decide)⟩
  have ho : r.2 = .ok () := hr.2 hf
  obtain ⟨hs, ht, -⟩ := hg ho
  exact ⟨hf, ho, hs, ht ⟨"Line", [], 101, 2⟩ (by decide)⟩

end WireProtocol.Schema.Definition
