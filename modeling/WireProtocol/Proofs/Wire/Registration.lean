import Mathlib.Data.List.Nodup
import WireProtocol.Proofs.Wire.Pooling
import WireProtocol.Proofs.Wire.RoundTrip
import WireProtocol.Wire.Registry

namespace WireProtocol.Wire

variable {ι : Type} {F : Family ι}

def Object.norm : Object F → Object F
  | scalar s v => .scalar s v
  | bytes b => .bytes b
  | record i r => .record i r.norm
  | foreign name value => .foreign name value

@[simp] theorem Object.type_norm (o : Object F) : o.norm.type = o.type := by cases o <;> rfl

/-- What a handler writes it reads back, and the pool has no part in it. -/
structure Handler.Faithful (h : Handler F) : Prop where
  dependsOn_write : ∀ o, DependsOn Writer.view (h.write o)
  dependsOn_read : DependsOn Reader.view h.read
  settles : ∀ o, Write.Settles (h.write o) fun bytes => Read.Takes h.read bytes o.norm

/-- The pool has no part in what the handler does. -/
structure Handler.Oblivious (h : Handler F) : Prop where
  dependsOn_write : ∀ o, DependsOn Writer.view (h.write o)
  dependsOn_read : DependsOn Reader.view h.read

theorem Handler.Faithful.oblivious {h : Handler F} (hf : h.Faithful) : h.Oblivious :=
  ⟨hf.dependsOn_write, hf.dependsOn_read⟩

namespace Handler

theorem settles_mismatch (name : String) (P : List UInt8 → Prop) :
    Write.Settles (mismatch name) P := .inr ⟨_, .throw _⟩

variable [DecidableEq ι]

theorem faithful_scalar (s : Scalar) (tag : Int32) : (scalar (F := F) s tag).Faithful where
  dependsOn_write := (Standard.scalar s tag).write Write.closed_dependsOn
  dependsOn_read := (Standard.scalar s tag).read Read.closed_dependsOn Record.dependsOn_read
  settles o := by
    cases o with
    | scalar t v =>
      by_cases h : t = s
      · subst h
        simp only [scalar, dif_pos]
        exact (t.settles_write v).mono fun _ h => h.map _
      · simp only [scalar, dif_neg h]
        exact settles_mismatch _ _
    | _ => exact settles_mismatch _ _

theorem faithful_bytes (tag : Int32) : (bytes (F := F) tag).Faithful where
  dependsOn_write := (Standard.bytes tag).write Write.closed_dependsOn
  dependsOn_read := (Standard.bytes tag).read Read.closed_dependsOn Record.dependsOn_read
  settles o := by
    cases o with
    | bytes b =>
      refine (Write.checks_bytes? b).settles fun fits => ?_
      exact (Read.takes_bytes?_some (fits _ List.mem_cons_self)).map fun b? : Option (List UInt8) =>
        Object.bytes (b?.getD [])
    | _ => exact settles_mismatch _ _

theorem faithful_record (hF : ∀ i, (F i).tag ≠ Tag.null) (i : ι) : (record F i).Faithful where
  dependsOn_write := (Standard.record i).write Write.closed_dependsOn
  dependsOn_read := (Standard.record i).read Read.closed_dependsOn Record.dependsOn_read
  settles o := by
    cases o with
    | record j r =>
      by_cases h : j = i
      · subst h
        simp only [record, dif_pos]
        exact (r.settles_write hF).mono fun _ h => h.map _
      · simp only [record, dif_neg h]
        exact settles_mismatch _ _
    | _ => exact settles_mismatch _ _

end Handler

section Keys

variable {α β : Type} {l : List α} {a : α} {key : α → β}

theorem nodup_map_concat (hl : (l.map key).Nodup) (ha : ∀ b ∈ l, key b ≠ key a) :
    ((l ++ [a]).map key).Nodup := by
  rw [List.map_append, List.map_singleton, List.nodup_append]
  exact ⟨hl, List.nodup_singleton _, by simpa using ha⟩

theorem notMem_map_of_nodup {right : List α} (h : ((l ++ a :: right).map key).Nodup) :
    key a ∉ l.map key := by
  rw [List.map_append, List.map_cons, List.nodup_middle] at h
  exact fun hm => h.notMem (List.mem_append_left _ hm)

theorem find?_eq_some_iff_of_nodup [BEq β] [LawfulBEq β] (hl : (l.map key).Nodup) {k : β} :
    l.find? (key · == k) = some a ↔ a ∈ l ∧ key a = k := by
  constructor
  · intro hf
    exact ⟨List.mem_of_find?_eq_some hf, by simpa using List.find?_some hf⟩
  · rintro ⟨hm, rfl⟩
    have hs : (l.find? (key · == key a)).isSome := List.find?_isSome.2 ⟨a, hm, beq_self_eq_true _⟩
    obtain ⟨b, hf⟩ := Option.isSome_iff_exists.1 hs
    have hk : key b = key a := by simpa using List.find?_some hf
    rw [hf, List.inj_on_of_nodup_map hl (List.mem_of_find?_eq_some hf) hm hk]

end Keys

namespace Registry

structure Tagged (g : Registry F) : Prop where
  tags : (g.handlers.map (·.tag)).Nodup
  notNull : ∀ h ∈ g.handlers, h.tag ≠ Tag.null

structure Sound (g : Registry F) : Prop where
  faithful : ∀ h ∈ g.handlers, h.Faithful
  tags : (g.handlers.map (·.tag)).Nodup
  notNull : ∀ h ∈ g.handlers, h.tag ≠ Tag.null

def Oblivious (g : Registry F) : Prop := ∀ h ∈ g.handlers, h.Oblivious

theorem Sound.oblivious {g : Registry F} (hg : g.Sound) : g.Oblivious :=
  fun h hm => (hg.faithful h hm).oblivious

theorem Sound.tagged {g : Registry F} (hg : g.Sound) : g.Tagged := ⟨hg.tags, hg.notNull⟩

theorem Tagged.byTag?_eq {g : Registry F} (hg : g.Tagged) {h : Handler F} (hm : h ∈ g.handlers) :
    g.byTag? h.tag = some h :=
  (find?_eq_some_iff_of_nodup hg.tags).2 ⟨hm, rfl⟩

theorem tagged_new : (new : Registry F).Tagged where
  tags := by
    simp [new, builtIns, Handler.scalar, Handler.bytes]
  notNull := by
    simp [new, builtIns, Handler.scalar, Handler.bytes, Tag.null]

variable [DecidableEq ι]

theorem standard_new : ∀ h ∈ (new : Registry F).handlers, h.Standard := by
  have hs (s : Scalar) (tag : Int32) := Handler.Standard.scalar (F := F) s tag
  simp [new, builtIns, hs, Handler.Standard.bytes]

theorem sound_new : (new : Registry F).Sound where
  faithful := by
    simp [new, builtIns, Handler.faithful_scalar, Handler.faithful_bytes]
  tags := tagged_new.tags
  notNull := tagged_new.notNull

theorem register_cases {g g' : Registry F} {h : Handler F} (hr : g.register h = .ok g') :
    (g' = g ∧ ∃ h' ∈ g.handlers, h'.tag = h.tag ∧ h'.type = h.type) ∨
      Tag.isReserved h.tag = false ∧ (∀ h' ∈ g.handlers, h'.tag ≠ h.tag) ∧
        (∀ h' ∈ g.handlers, h'.type ≠ h.type) ∧ g' = ⟨g.handlers ++ [h]⟩ := by
  rw [register] at hr
  split at hr
  · cases hr
  next hres =>
  split at hr
  · next h' ht =>
    split at hr
    · next hT =>
      exact .inl ⟨(Except.ok.inj hr).symm, h', List.mem_of_find?_eq_some ht,
        by simpa using List.find?_some ht, hT⟩
    · cases hr
  · next hn =>
    split at hr
    · cases hr
    · next hN =>
      refine .inr ⟨Bool.not_eq_true _ ▸ hres, fun h' hm => ?_, fun h' hm => ?_,
        (Except.ok.inj hr).symm⟩
      · simpa using List.find?_eq_none.1 hn h' hm
      · simpa using List.find?_eq_none.1 hN h' hm

theorem forall_handlers_register {P : Handler F → Prop} {g g' : Registry F} {h : Handler F}
    (hg : ∀ h ∈ g.handlers, P h) (hh : P h) (hr : g.register h = .ok g') :
    ∀ h ∈ g'.handlers, P h := by
  rcases register_cases hr with ⟨rfl, -⟩ | ⟨-, -, -, rfl⟩
  · exact hg
  · exact List.forall_mem_append.2 ⟨hg, List.forall_mem_singleton.2 hh⟩

theorem Tagged.register {g g' : Registry F} {h : Handler F} (hg : g.Tagged)
    (hr : g.register h = .ok g') : g'.Tagged := by
  rcases register_cases hr with ⟨rfl, -⟩ | ⟨hres, hne, -, rfl⟩
  · exact hg
  · refine ⟨nodup_map_concat hg.tags hne, ?_⟩
    refine List.forall_mem_append.2 ⟨hg.notNull, List.forall_mem_singleton.2 fun hnull => ?_⟩
    rw [hnull] at hres
    exact absurd hres (by decide)

theorem Sound.register {g g' : Registry F} {h : Handler F} (hg : g.Sound) (hh : h.Faithful)
    (hr : g.register h = .ok g') : g'.Sound where
  faithful := forall_handlers_register hg.faithful hh hr
  tags := (hg.tagged.register hr).tags
  notNull := (hg.tagged.register hr).notNull

/-- The registries that come from the first one by registering records. -/
inductive Reachable : Registry F → Prop
  | new : Reachable new
  | registerRecord {g g' : Registry F} {i : ι} (h : Reachable g)
    (hr : g.registerRecord i = .ok g') : Reachable g'

theorem Reachable.sound (hF : ∀ i, (F i).tag ≠ Tag.null) {g : Registry F} (h : Reachable g) :
    g.Sound := by
  induction h with
  | new => exact sound_new
  | registerRecord _ hr ih => exact ih.register (Handler.faithful_record hF _) hr

variable {g : Registry F}

omit [DecidableEq ι] in
theorem dependsOn_readObject? (hg : g.Oblivious) : DependsOn Reader.view g.readObject? :=
  closed_readObject? Read.closed_dependsOn fun h hm => (hg h hm).dependsOn_read

theorem dependsOn_writeObject? (hg : g.Oblivious) (o? : Option (Object F)) :
    DependsOn Writer.view (g.writeObject? o?) :=
  closed_writeObject? Write.closed_dependsOn (fun h hm => (hg h hm).dependsOn_write) o?

theorem settles_writeObject? (hg : g.Sound) (o? : Option (Object F)) :
    Write.Settles (g.writeObject? o?) fun bytes =>
      Read.Takes g.readObject? bytes (o?.map Object.norm) := by
  cases o? with
  | none =>
    apply (Write.puts_i32 Tag.null).settles
    exact (Read.takes_i32 Tag.null).bind_pure (by simp)
  | some o =>
    rw [writeObject?]
    split
    · exact .inr ⟨_, .throw _⟩
    · next h hf =>
      have hm := List.mem_of_find?_eq_some hf
      have ho := (hg.faithful h hm).settles o
      apply ((Write.puts_i32 h.tag).settles rfl).bind ho
      rintro _ right rfl hr
      apply (Read.takes_i32 h.tag).bind
      rw [if_neg (hg.notNull h hm), hg.tagged.byTag?_eq hm]
      exact hr.map some

end Registry

end WireProtocol.Wire
