import WireProtocol.Proofs.Wire.Registration

namespace WireProtocol.Wire

inductive Kind (ι : Type)
  | u8 | u32 | i32 | i64 | single | double | bool | length | text? | bytes?
  | scalar (s : Scalar)
  | scalars (s : Scalar)
  | record (i : ι)
  | record? (i : ι)
  | records (i : ι)
  | object?
  deriving DecidableEq, Repr

variable {ι : Type} {F : Family ι}

namespace Kind

abbrev Value (F : Family ι) : Kind ι → Type
  | u8 => UInt8
  | u32 => UInt32
  | i32 => Int32
  | i64 => Int64
  | single => Single
  | double => Double
  | bool => Bool
  | length => Nat
  | text? => Option String
  | bytes? => Option (List UInt8)
  | scalar s => s.Value
  | scalars s => List s.Value
  | record i => Record F i
  | record? i => Option (Record F i)
  | records i => Records F i
  | object? => Option (Object F)

def norm : (k : Kind ι) → k.Value F → k.Value F
  | record _, r => Record.norm r
  | record? _, r? => Option.map Record.norm r?
  | records _, rs => Records.norm rs
  | object?, o? => Option.map Object.norm o?
  | u8, x | u32, x | i32, x | i64, x | single, x | double, x | bool, x | length, x | text?, x
  | bytes?, x | scalar _, x | scalars _, x => x

def read (g : Registry F) : (k : Kind ι) → Read (k.Value F)
  | u8 => Read.u8
  | u32 => Read.u32
  | i32 => Read.i32
  | i64 => Read.i64
  | single => Single.mk <$> Read.u32
  | double => Double.mk <$> Read.u64
  | bool => Read.bool
  | length => Read.length
  | text? => Read.text?
  | bytes? => Read.bytes?
  | scalar s => s.read
  | scalars s => s.readMany
  | record i => Record.read i
  | record? i => Record.readNested? i
  | records i => Records.read i
  | object? => g.readObject?

variable [DecidableEq ι]

def write (g : Registry F) : (k : Kind ι) → k.Value F → Write
  | u8, x => Write.u8 x
  | u32, x => Write.u32 x
  | i32, x => Write.i32 x
  | i64, x => Write.i64 x
  | single, x => Write.u32 (Single.bits x)
  | double, x => Write.u64 (Double.bits x)
  | bool, x => Write.bool x
  | length, n => Write.length n
  | text?, s? => Write.text? s?
  | bytes?, b? => Write.bytes? b?
  | scalar s, v => s.write v
  | scalars s, vs => s.writeMany vs
  | record _, r => Record.write r
  | record? _, r? => Record.writeNested? r?
  | records _, rs => Records.write rs
  | object?, o? => g.writeObject? o?

end Kind

structure Step (F : Family ι) where
  kind : Kind ι
  value : kind.Value F

namespace Step

def norm (s : Step F) : Step F := ⟨s.kind, s.kind.norm s.value⟩

def write [DecidableEq ι] (g : Registry F) (s : Step F) : Write := s.kind.write g s.value

/-- A reader goes through the steps in order; it is not told the values. -/
def readAll (g : Registry F) : List (Kind ι) → Read (List (Step F))
  | [] => return []
  | k :: rest => return ⟨k, ← k.read g⟩ :: (← readAll g rest)

end Step

theorem Write.Settles.exists_of_ok {m : Write} {P : List UInt8 → Prop} {w w' : Writer}
    (hm : Settles m P) (h : m w = .ok () w') : ∃ bytes, w'.bytes = w.bytes ++ bytes ∧ P bytes := by
  rcases hm with ⟨bytes, hm, hp⟩ | ⟨e, hm⟩
  · obtain ⟨pool, hm⟩ := hm w.bytes w.pool
    rw [hm] at h
    cases h
    exact ⟨bytes, rfl, hp⟩
  · obtain ⟨w'', hm⟩ := hm w
    rw [hm] at h
    cases h

theorem Scalar.settles_writeMany (s : Scalar) (vs : List s.Value) :
    Write.Settles (s.writeMany vs) fun bytes => Read.Takes s.readMany bytes vs := by
  apply (s.checks_writeMany vs).settles
  intro fits
  obtain ⟨hn, hs⟩ := List.forall_mem_cons.1 fits
  have hv : ∀ v ∈ vs, Read.Takes s.read (s.bytes v) (id v) := fun v hv =>
    (ScalarForm.value v fun n hn => hs n (List.mem_flatMap.2 ⟨v, hv, hn⟩)).takes_read
  have ht := Read.takes_times vs hv
  rw [List.map_id] at ht
  exact (Read.takes_length hn).bind ht

section

variable (hF : ∀ i, (F i).tag ≠ Tag.null) {i : ι}

include hF

theorem Record.settles_writeNested? (r? : Option (Record F i)) :
    Write.Settles (Record.writeNested? r?) fun bytes =>
      Read.Takes (Record.readNested? i) bytes (r?.map Record.norm) := by
  cases r? with
  | none => exact (Write.puts_i32 Tag.null).settles ((F i).takes_readNested?_none _)
  | some r =>
    apply ((Write.puts_i32 (F i).tag).settles rfl).bind (r.settles_write hF)
    rintro _ right rfl hr
    exact Layout.takes_readNested?_some (hF i) hr

theorem Records.settles_write (rs : Records F i) :
    Write.Settles rs.write fun bytes => Read.Takes (Records.read i) bytes rs.norm := by
  apply ((Write.checks_length rs.length).bind rs.checks_writeAll).settles
  intro fits
  obtain ⟨hn, hs⟩ := List.forall_mem_cons.1 fits
  obtain ⟨f, -, hb, hv⟩ := rs.exists_canonical hs
  rw [← hb, ← hv]
  have ht := f.takes_times hF
  have hr := ht.bind_pure (f := fun l => (pure (Records.ofList l) : Read (Records F i)))
    (by rw [Records.ofList_toList])
  exact (Read.takes_length hn).bind hr

end

variable [DecidableEq ι] {g : Registry F}

theorem Kind.settles_write (hF : ∀ i, (F i).tag ≠ Tag.null) (hg : g.Sound) (k : Kind ι)
    (v : k.Value F) :
    Write.Settles (k.write g v) fun bytes => Read.Takes (k.read g) bytes (k.norm v) := by
  cases k with
  | u8 => exact (Write.puts_u8 v).settles (Read.takes_u8 v)
  | u32 => exact (Write.puts_u32 v).settles (Read.takes_u32 v)
  | i32 => exact (Write.puts_i32 v).settles (Read.takes_i32 v)
  | i64 => exact (Write.puts_i64 v).settles (Read.takes_i64 v)
  | single => exact (Write.puts_u32 _).settles ((Read.takes_u32 (Single.bits v)).map Single.mk)
  | double => exact (Write.puts_u64 _).settles ((Read.takes_u64 (Double.bits v)).map Double.mk)
  | bool => exact (Write.puts_bool v).settles (Read.takes_bool v)
  | length =>
    exact (Write.checks_length v).settles fun fits => Read.takes_length (fits v List.mem_cons_self)
  | text? =>
    cases v with
    | none => exact (Write.puts_i32 (-1)).settles Read.takes_text?_none
    | some s =>
      exact (Write.checks_text? s).settles fun fits =>
        Read.takes_text?_some (fits _ List.mem_cons_self)
  | bytes? =>
    cases v with
    | none => exact (Write.puts_i32 (-1)).settles Read.takes_bytes?_none
    | some b =>
      exact (Write.checks_bytes? b).settles fun fits =>
        Read.takes_bytes?_some (fits _ List.mem_cons_self)
  | scalar s => exact s.settles_write v
  | scalars s => exact s.settles_writeMany v
  | record i => exact Record.settles_write hF v
  | record? i => exact Record.settles_writeNested? hF v
  | records i => exact Records.settles_write hF v
  | object? => exact Registry.settles_writeObject? hg v

theorem Step.settles_each (hF : ∀ i, (F i).tag ≠ Tag.null) (hg : g.Sound) (steps : List (Step F)) :
    Write.Settles (Write.each (write g) steps) fun bytes =>
      Read.Takes (readAll g (steps.map kind)) bytes (steps.map norm) := by
  induction steps with
  | nil => exact Write.Puts.pure.settles (.pure [])
  | cons s steps ih =>
    apply (s.kind.settles_write hF hg s.value).bind ih
    intro left right hl hr
    exact hl.bind (hr.bind_pure rfl)

/-- Steps that a writer has taken leave bytes of which a reader, in the same steps, takes all and
nothing else, and has the values again. -/
theorem Registry.Reachable.readAll_each (hF : ∀ i, (F i).tag ≠ Tag.null) (hg : g.Reachable)
    {steps : List (Step F)} {w w' : Writer} (h : Write.each (Step.write g) steps w = .ok () w') :
    ∃ bytes, w'.bytes = w.bytes ++ bytes ∧ ∀ position rest pool, ∃ pool',
      Step.readAll g (steps.map Step.kind) ⟨position, bytes ++ rest, pool⟩ =
        .ok (steps.map Step.norm) ⟨position + bytes.length, rest, pool'⟩ := by
  obtain ⟨bytes, hb, ht⟩ := (Step.settles_each hF (hg.sound hF) steps).exists_of_ok h
  exact ⟨bytes, hb, ht.whole⟩

def mixedSteps : List (Step chain) :=
  [⟨.text?, none⟩, ⟨.text?, some ""⟩, ⟨.i32, -1⟩, ⟨.record? (), none⟩,
    ⟨.object?, some (.record () (.mk (.single ⟨0x80000000⟩ (.absent .nil))))⟩, ⟨.bytes?, some []⟩]

theorem readAll_each_mixed :
    let g : Registry chain := ⟨Registry.builtIns ++ [.record chain ()]⟩
    g.Reachable ∧ ∃ w', Write.each (Step.write g) mixedSteps .new = .ok () w' ∧ ∃ pool',
      Step.readAll g (mixedSteps.map Step.kind) (.new w'.bytes) =
        .ok [⟨.text?, none⟩, ⟨.text?, some ""⟩, ⟨.i32, -1⟩, ⟨.record? (), none⟩,
          ⟨.object?, some (.record () (.mk (.single ⟨0⟩ (.absent .nil))))⟩, ⟨.bytes?, some []⟩]
          ⟨w'.bytes.length, [], pool'⟩ := by
  intro g
  have hg : g.Reachable := .registerRecord (i := ()) .new rfl
  have hw : Write.each (Step.write g) mixedSteps .new = .ok () ⟨_, _⟩ := rfl
  refine ⟨hg, _, hw, ?_⟩
  obtain ⟨bytes, hb, hr⟩ := hg.readAll_each tag_chain hw
  obtain ⟨pool', hr⟩ := hr 0 [] none
  refine ⟨pool', ?_⟩
  rw [List.append_nil, Nat.zero_add] at hr
  rw [hb]
  exact hr

end WireProtocol.Wire
