import WireProtocol.Proofs.Wire.RegistrationOrder

namespace WireProtocol.Wire

variable {α β ι : Type} {F : Family ι}

section

variable {ε σ : Type} {m : EStateM ε σ α} {s s' : σ}

theorem bind_eq_ok_iff {f : α → EStateM ε σ β} {b : β} :
    (m >>= f) s = .ok b s' ↔ ∃ a t, m s = .ok a t ∧ f a t = .ok b s' :=
  ⟨exists_of_bind_eq_ok, fun ⟨_, _, h, h'⟩ => (bind_of_ok h).trans h'⟩

theorem pure_eq_ok_iff {a b : α} :
    (pure a : EStateM ε σ α) s = .ok b s' ↔ b = a ∧ s' = s := by
  constructor
  · intro h
    cases h
    exact ⟨rfl, rfl⟩
  · rintro ⟨rfl, rfl⟩
    rfl

theorem map_eq_ok_iff {f : α → β} {b : β} :
    (f <$> m) s = .ok b s' ↔ ∃ a, m s = .ok a s' ∧ b = f a := by
  rw [map_eq_pure_bind, bind_eq_ok_iff]
  simp only [pure_eq_ok_iff]
  constructor
  · rintro ⟨a, t, h, hb, rfl⟩
    exact ⟨a, h, hb⟩
  · rintro ⟨a, h, hb⟩
    exact ⟨a, s', h, hb, rfl⟩

theorem throw_ne_ok {e : ε} {b : α} : (throw e : EStateM ε σ α) s ≠ .ok b s' := nofun

end

theorem Layout.readNested?_eq_ok_iff {layout : Layout ι} {message : Read α} {s s' : Reader}
    {a? : Option α} :
    layout.readNested? message s = .ok a? s' ↔ ∃ tag t, Read.i32 s = .ok tag t ∧
      (tag = Tag.null ∧ a? = none ∧ s' = t ∨
        tag ≠ Tag.null ∧ tag = layout.tag ∧ ∃ a, message t = .ok a s' ∧ a? = some a) := by
  rw [readNested?, bind_eq_ok_iff]
  refine exists₂_congr fun tag t => and_congr_right fun _ => ?_
  by_cases hn : tag = Tag.null
  · simp [hn, pure_eq_ok_iff]
  by_cases ht : tag = layout.tag
  · subst ht
    simp [hn, map_eq_ok_iff]
  · simp [hn, ht, throw_ne_ok]

namespace Registry

variable {g : Registry F}

theorem readObject?_eq_ok_iff {s s' : Reader} {o? : Option (Object F)} :
    g.readObject? s = .ok o? s' ↔ ∃ tag t, Read.i32 s = .ok tag t ∧
      (tag = Tag.null ∧ o? = none ∧ s' = t ∨
        tag ≠ Tag.null ∧ ∃ h, g.byTag? tag = some h ∧
          ∃ o, h.read t = .ok o s' ∧ o? = some o) := by
  rw [readObject?, bind_eq_ok_iff]
  refine exists₂_congr fun tag t => and_congr_right fun _ => ?_
  by_cases hn : tag = Tag.null
  · simp [hn, pure_eq_ok_iff]
  cases hf : g.byTag? tag with
  | none => simp [hn, throw_ne_ok]
  | some h => simp [hn, map_eq_ok_iff]

variable [DecidableEq ι]

theorem readObjectOf?_eq_ok_iff {type : ObjectType ι} {s s' : Reader} {o? : Option (Object F)} :
    g.readObjectOf? type s = .ok o? s' ↔
      g.readObject? s = .ok o? s' ∧ ∀ o ∈ o?, o.type = type := by
  rw [readObjectOf?, bind_eq_ok_iff]
  constructor
  · rintro ⟨a?, t, hr, h⟩
    cases a? with
    | none =>
      obtain ⟨rfl, rfl⟩ := pure_eq_ok_iff.1 h
      exact ⟨hr, nofun⟩
    | some o =>
      dsimp only at h
      split at h
      · next ht =>
        obtain ⟨rfl, rfl⟩ := pure_eq_ok_iff.1 h
        refine ⟨hr, ?_⟩
        rintro _ ⟨⟩
        exact ht
      · exact absurd h throw_ne_ok
  · rintro ⟨hr, ht⟩
    refine ⟨o?, s', hr, ?_⟩
    cases o? with
    | none => rfl
    | some o => exact congrFun (if_pos (ht o rfl)) s'

end Registry

variable [DecidableEq ι]

namespace Handler

omit [DecidableEq ι] in
theorem type_ne_record_of_mem_builtIns {h : Handler F} (hm : h ∈ Registry.builtIns) (i : ι) :
    h.type ≠ .record i := by
  suffices ht : ∀ h ∈ (Registry.builtIns : List (Handler F)), h.type ≠ .record i from ht h hm
  simp [Registry.builtIns, scalar, bytes]

theorem Standard.type_read {h : Handler F} (hs : h.Standard) {s s' : Reader} {o : Object F}
    (hr : h.read s = .ok o s') : o.type = h.type := by
  cases hs with
  | scalar | bytes | record =>
    obtain ⟨_, -, rfl⟩ := map_eq_ok_iff.1 hr
    rfl

def HandMade (h : Handler F) : Prop := ¬ (h ∈ Registry.builtIns ∨ ∃ i, h = .record F i)

/-- The handler has the tag of a record, or handles its type: it is found under the type, or reads
an object of it. -/
inductive Claims (h : Handler F) (i : ι) : Prop
  | tag (ht : h.tag = (F i).tag)
  | type (hT : h.type = .record i)
  | read {s s' : Reader} {o : Object F} (hr : h.read s = .ok o s') (ho : o.type = .record i)

end Handler

namespace Registry

variable {g : Registry F} {i : ι} {h : Handler F}

def Unclaimed (g : Registry F) (i : ι) : Prop := ∀ h ∈ g.handlers, h.HandMade → ¬ h.Claims i

theorem Unclaimed.eq_record (hu : g.Unclaimed i) (hm : h ∈ g.handlers) (hT : h.type = .record i) :
    h = .record F i := by
  by_cases hb : h ∈ builtIns ∨ ∃ j, h = .record F j
  · rcases hb with hb | ⟨j, rfl⟩
    · exact absurd hT (Handler.type_ne_record_of_mem_builtIns hb i)
    · cases hT
      rfl
  · exact absurd (.type hT) (hu h hm hb)

theorem Unclaimed.type_read_ne (hu : g.Unclaimed i) (hm : h ∈ g.handlers) (ht : h.tag ≠ (F i).tag)
    {s s' : Reader} {o : Object F} (hr : h.read s = .ok o s') : o.type ≠ .record i := by
  intro ho
  by_cases hb : h ∈ builtIns ∨ ∃ j, h = .record F j
  · rcases hb with hb | ⟨j, rfl⟩
    · have hT := (standard_new h hb).type_read hr
      exact Handler.type_ne_record_of_mem_builtIns hb i (hT.symm.trans ho)
    · have hT := (Handler.Standard.record j).type_read hr
      cases hT.symm.trans ho
      exact ht rfl
  · exact hu h hm hb (.read hr ho)

theorem writeObject?_record (hf : g.byType? (.record i) = some (.record F i))
    (r? : Option (Record F i)) :
    g.writeObject? (r?.map (.record i)) = Record.writeNested? r? := by
  cases r? with
  | none => rfl
  | some r =>
    simp only [Option.map_some, writeObject?, Object.type, hf, Record.writeNested?, Handler.record,
      dif_pos]

theorem readObjectOf?_record_iff (hg : g.Keyed) (hu : g.Unclaimed i)
    (hf : g.byTag? (F i).tag = some (.record F i)) {s s' : Reader} {o? : Option (Object F)} :
    g.readObjectOf? (.record i) s = .ok o? s' ↔
      ∃ r? : Option (Record F i), o? = r?.map (.record i) ∧
        Record.readNested? i s = .ok r? s' := by
  rw [readObjectOf?_eq_ok_iff, readObject?_eq_ok_iff]
  simp only [Record.readNested?, Layout.readNested?_eq_ok_iff]
  constructor
  · rintro ⟨⟨tag, t, hi, ⟨hn, rfl, rfl⟩ | ⟨hn, h, hh, o, hr, rfl⟩⟩, ho⟩
    · exact ⟨none, rfl, tag, s', hi, .inl ⟨hn, rfl, rfl⟩⟩
    · obtain ⟨hm, rfl⟩ := hg.byTag?_eq_some_iff.1 hh
      have ht : h.tag = (F i).tag := by
        by_contra ht
        exact hu.type_read_ne hm ht hr (ho o rfl)
      rw [ht, hf] at hh
      cases hh
      obtain ⟨r, hread, rfl⟩ := map_eq_ok_iff.1 hr
      exact ⟨some r, rfl, _, t, hi, .inr ⟨hn, ht, r, hread, rfl⟩⟩
  · rintro ⟨r?, rfl, tag, t, hi, ⟨hn, rfl, rfl⟩ | ⟨hn, rfl, r, hr, rfl⟩⟩
    · exact ⟨⟨tag, s', hi, .inl ⟨hn, rfl, rfl⟩⟩, nofun⟩
    · refine ⟨⟨_, t, hi, .inr ⟨hn, _, hf, .record i r, map_of_ok hr, rfl⟩⟩, ?_⟩
      rintro _ ⟨⟩
      rfl

/-- However a registry comes about, once a record has been registered and as long as no handler that
is made by hand claims it, the record is written as an object just as it is written in a field, and
read as an object just as it is read in a field: from the same bytes, and with the same left.

A handler is registered as the encoder and decoder of one type. One that reads objects of another
type breaks this contract, so `Claims.read` rules out no handler that keeps to it. -/
theorem record_slots_agree {before : List (Registration F)} {i : ι}
    (hr : ((Registration.record i).run ((new : Registry F).after before)).1 = .ok ())
    (later : List (Registration F)) :
    let g := (new : Registry F).after (before ++ .record i :: later)
    g.Unclaimed i →
      (∀ r? : Option (Record F i), g.writeObject? (r?.map (.record i)) = Record.writeNested? r?) ∧
      ∀ s o? s', g.readObjectOf? (.record i) s = .ok o? s' ↔
        ∃ r? : Option (Record F i), o? = r?.map (.record i) ∧
          Record.readNested? i s = .ok r? s' := by
  intro g hu
  have hg : g.Keyed := keyed_new.after _
  obtain ⟨h, hm, hk⟩ : ∃ h ∈ g.handlers, h.key = (Handler.record F i).key := by
    have hp : ((Registration.record i).run ((new : Registry F).after before)).2.handlers <+:
        g.handlers := by
      simp only [g, after, List.foldl_append, List.foldl_cons]
      exact prefix_after _ later
    have hk := (mem_keys_register (exists_register_of_run hr)).2 (.inr rfl)
    obtain ⟨h, hm, hk⟩ := List.mem_map.1 hk
    exact ⟨h, hp.subset hm, hk⟩
  obtain rfl := hu.eq_record hm (congrArg Prod.snd hk)
  refine ⟨writeObject?_record (hg.byType?_eq_some_iff.2 ⟨hm, rfl⟩), fun s o? s' => ?_⟩
  exact readObjectOf?_record_iff hg hu (hg.byTag?_eq_some_iff.2 ⟨hm, rfl⟩)

theorem not_claims_counter (name : String) {tag : Int32} (ht : tag ≠ 100) :
    ¬ (counter name tag).Claims () := by
  rintro (ht' | hT | ⟨hr, ho⟩)
  · exact ht ht'
  · cases hT
  · obtain ⟨v, -, rfl⟩ := map_eq_ok_iff.1 hr
    cases ho

theorem record_slots_agree_counters :
    let before : List (Registration chain) := [.custom (counter "Apples" 101)]
    let later : List (Registration chain) := [.custom (counter "Pears" 102)]
    let g := (new : Registry chain).after (before ++ .record () :: later)
    ((Registration.record ()).run ((new : Registry chain).after before)).1 = .ok () ∧
      g.Unclaimed () ∧
      (∀ r : Record chain (), g.writeObject? (some (.record () r)) = Record.writeNested? (some r)) ∧
      g.readObjectOf? (.record ()) (.new [100, 0, 0, 0, 1, 0, 0, 0, 7, 0, 0, 0, 9]) =
        .ok (some (.record () (.mk (.single ⟨7⟩ (.absent .nil))))) ⟨12, [9], none⟩ := by
  intro before later g
  have hr : ((Registration.record ()).run ((new : Registry chain).after before)).1 = .ok () := rfl
  have hu : g.Unclaimed () := by
    intro h hm hh
    have hg : g.handlers =
      builtIns ++ [counter "Apples" 101, .record chain (), counter "Pears" 102] := rfl
    simp only [hg, List.mem_append, List.mem_cons, List.not_mem_nil, or_false] at hm
    rcases hm with hb | rfl | rfl | rfl
    · exact absurd (.inl hb) hh
    · exact not_claims_counter "Apples" (by decide)
    · exact absurd (.inr ⟨(), rfl⟩) hh
    · exact not_claims_counter "Pears" (by decide)
  obtain ⟨hw, hread⟩ := record_slots_agree hr later hu
  exact ⟨hr, hu, fun r => hw (some r), (hread _ _ _).2 ⟨some _, rfl, rfl⟩⟩

end Registry

end WireProtocol.Wire
