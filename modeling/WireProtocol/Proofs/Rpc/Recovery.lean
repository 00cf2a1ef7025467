import WireProtocol.Proofs.Rpc.Session

namespace WireProtocol.Wire

variable {ι : Type} {F : Family ι}

def Error.Short (e : Error) : Prop := (Utf8.encode e.message).length < 2 ^ 30

theorem Error.short_lengthTooLarge {n : Nat} (h : n < 2 ^ 64) :
    Error.Short (.encode (.lengthTooLarge n)) := by
  have hn := Utf8.length_encode_toString_le h
  have hk : (Utf8.encode "Encode error: ").length = 14 := by decide
  have hl : (Utf8.encode "length ").length = 7 := by decide
  have hr : (Utf8.encode " exceeds i32::MAX").length = 17 := by decide
  have ht : Error.message (.encode (.lengthTooLarge n)) =
    "Encode error: " ++ ("length " ++ toString n ++ " exceeds i32::MAX") := rfl
  rw [Error.Short, ht]
  simp only [Utf8.length_encode_append]
  omega

def Object.lengths : Object F → List Nat
  | scalar s v => s.lengths v
  | bytes b => [b.length]
  | record _ r => r.lengths
  | foreign .. => []

/-- Nothing in the object is longer than a machine can count, and its type is shown by a name of
reasonable length. -/
structure Object.InMemory (o : Object F) : Prop where
  lengths : ∀ n ∈ o.lengths, n < 2 ^ 64
  name : (Utf8.encode (o.type.name F)).length < 2 ^ 29

/-- What the handler writes without failing it reads to the last byte, and of a failure it tells in
few words. It need not clean up after a failure. -/
structure Handler.Reliable (h : Handler F) : Prop where
  reads : ∀ {o w w'}, o.type = h.type → h.write o w = .ok () w' →
    ∃ bytes, w'.bytes = w.bytes ++ bytes ∧
      ∀ position pool, ∃ o' r, h.read ⟨position, bytes, pool⟩ = .ok o' r ∧ r.isEmpty = true
  short : ∀ {o w e w'}, o.type = h.type → o.InMemory → h.write o w = .error e w' → e.Short

namespace Handler

variable [DecidableEq ι]

theorem Standard.checks {h : Handler F} (hs : h.Standard) {o : Object F} (ht : o.type = h.type) :
    ∃ bytes, Write.Checks (h.write o) o.lengths bytes := by
  cases hs with
  | scalar s tag =>
    cases o with
    | scalar t v =>
      cases ht
      refine ⟨s.bytes v, ?_⟩
      simp only [Handler.scalar, dif_pos]
      exact s.checks_write v
    | _ => cases ht
  | bytes tag =>
    cases o with
    | bytes b => exact ⟨_, Write.checks_bytes? b⟩
    | _ => cases ht
  | record i =>
    cases o with
    | record j r =>
      cases ht
      refine ⟨r.bytes, ?_⟩
      simp only [Handler.record, dif_pos]
      exact r.checks_write
    | _ => cases ht

theorem Standard.reliable {h : Handler F} (hs : h.Standard) (hf : h.Faithful) : h.Reliable where
  reads {o w w'} _ hw := by
    rcases hf.settles o with ⟨bytes, hp, ht⟩ | ⟨e, he⟩
    · obtain ⟨pool', hp⟩ := hp w.bytes w.pool
      rw [hp] at hw
      cases hw
      refine ⟨bytes, rfl, fun position pool => ?_⟩
      obtain ⟨pool'', hr⟩ := ht.whole.alone position pool
      exact ⟨_, _, hr, rfl⟩
    · obtain ⟨w'', he⟩ := he w
      rw [he] at hw
      cases hw
  short ht ho hw := by
    obtain ⟨bytes, hc⟩ := hs.checks ht
    obtain ⟨n, hn, rfl⟩ := hc.exists_of_error hw
    exact Error.short_lengthTooLarge (ho.lengths n hn)

end Handler

namespace Registry

variable [DecidableEq ι]

/-- The registries that come from the first one by registering handlers for which `P` holds. -/
inductive Assembled (P : Handler F → Prop) : Registry F → Prop
  | new : Assembled P new
  | register {g g' : Registry F} {h : Handler F} (hg : Assembled P g) (hh : P h)
    (hr : g.register h = .ok g') : Assembled P g'

variable {P : Handler F → Prop} {g : Registry F}

theorem Assembled.tagged (hg : g.Assembled P) : g.Tagged := by
  induction hg with
  | new => exact tagged_new
  | register _ _ hr ih => exact ih.register hr

theorem Assembled.reliable (hg : g.Assembled Handler.Reliable) : ∀ h ∈ g.handlers, h.Reliable := by
  induction hg with
  | new => exact fun h hm => (standard_new h hm).reliable (sound_new.faithful h hm)
  | register _ hh hr ih => exact forall_handlers_register ih hh hr

theorem byType?_eq_some {type : ObjectType ι} {h : Handler F} (hf : g.byType? type = some h) :
    h ∈ g.handlers ∧ type = h.type :=
  ⟨List.mem_of_find?_eq_some hf, (of_decide_eq_true (g.handlers.find?_some hf)).symm⟩

theorem Assembled.exists_read (hg : g.Assembled Handler.Reliable) {o? : Option (Object F)}
    {w w' : Writer} (hw : g.writeObject? o? w = .ok () w') :
    ∃ bytes, w'.bytes = w.bytes ++ bytes ∧ ∀ position pool, ∃ o'? r,
      g.readObject? ⟨position, bytes, pool⟩ = .ok o'? r ∧ r.isEmpty = true := by
  cases o? with
  | none =>
    cases hw
    refine ⟨_, rfl, fun position pool => ?_⟩
    obtain ⟨pool', hr⟩ := (Read.takes_i32 Tag.null).whole.alone position pool
    refine ⟨none, ⟨position + 4, [], pool'⟩, ?_, rfl⟩
    rw [readObject?, bind_of_ok hr, if_pos rfl]
    rfl
  | some o =>
    cases hf : g.byType? o.type with
    | none =>
      simp only [writeObject?, hf] at hw
      cases hw
    | some h =>
      simp only [writeObject?, hf] at hw
      obtain ⟨hm, ht⟩ := byType?_eq_some hf
      obtain ⟨_, w₁, hi, hw⟩ := exists_of_bind_eq_ok hw
      cases hi
      obtain ⟨bytes, hb, hr⟩ := (hg.reliable h hm).reads ht hw
      refine ⟨LittleEndian.ofUInt32 h.tag.toUInt32 ++ bytes, ?_, fun position pool => ?_⟩
      · rw [hb, List.append_assoc]
      · obtain ⟨pool', htag⟩ := (Read.takes_i32 h.tag).whole position bytes pool
        obtain ⟨o', r, hr, he⟩ := hr _ pool'
        refine ⟨some o', r, ?_, he⟩
        rw [readObject?, bind_of_ok htag, if_neg (hg.tagged.notNull h hm), hg.tagged.byTag?_eq hm]
        exact map_of_ok hr

theorem Assembled.short (hg : g.Assembled Handler.Reliable) {o? : Option (Object F)} {w w' : Writer}
    {e : Error} (ho : ∀ o ∈ o?, o.InMemory) (hw : g.writeObject? o? w = .error e w') : e.Short := by
  cases o? with
  | none => cases hw
  | some o =>
    have ho := ho o rfl
    cases hf : g.byType? o.type with
    | none =>
      simp only [writeObject?, hf] at hw
      cases hw
      have hk : (Utf8.encode "No handler registered for type ").length = 31 := by decide
      have ht : Error.message (.unregisteredType (o.type.name F)) =
        "No handler registered for type " ++ o.type.name F := rfl
      have hn := ho.name
      rw [Error.Short, ht, Utf8.length_encode_append]
      omega
    | some h =>
      simp only [writeObject?, hf] at hw
      obtain ⟨hm, ht⟩ := byType?_eq_some hf
      -- The tag is written before the handler fails, so the failure is the handler's.
      exact (hg.reliable h hm).short (w := ⟨_, _⟩) ht ho hw

end Registry

end WireProtocol.Wire

namespace WireProtocol.Rpc

open Wire

variable {ι : Type} {F : Family ι}

def Response.InMemory : Response F → Prop
  | ok object? => ∀ o ∈ object?, o.InMemory
  | err f => (Utf8.encode f.message).length < 2 ^ 64

def Response.Reads (g : Registry F) (bytes : List UInt8) (response : Response F) : Prop :=
  ∀ pool, ∃ r, Response.read g (.new bytes pool) = .ok response r ∧ r.isEmpty = true

theorem Failure.reads_bytes (g : Registry F) {f : Failure}
    (h : (Utf8.encode f.message).length ≤ maxLength) : Response.Reads g f.bytes (.err f) := by
  intro pool
  obtain ⟨pool', hr⟩ := (Response.accepts_err (g := g) (Failure.takes_read h).whole).alone 0 pool
  exact ⟨_, hr, rfl⟩

variable [DecidableEq ι]

namespace Response

variable {g : Registry F} {response : Response F} {w w' : Writer}

theorem exists_reads (hg : g.Assembled Handler.Reliable) (hb : w.bytes = [])
    (hw : response.write g w = .ok () w') (pool : Option Pool) :
    ∃ response' r, Response.read g (.new w'.bytes pool) = .ok response' r ∧ r.isEmpty = true := by
  cases response with
  | ok object? =>
    obtain ⟨_, w₁, hs, hw⟩ := exists_of_bind_eq_ok hw
    cases hs
    obtain ⟨bytes, hbytes, hr⟩ := hg.exists_read (w := ⟨w.bytes ++ [okStatus], w.pool⟩) hw
    obtain ⟨pool', hs⟩ := (accepts_ofWire (Read.takes_u8 okStatus).whole) 0 bytes pool
    obtain ⟨o'?, r, hr, he⟩ := hr _ pool'
    refine ⟨.ok o'?, r, ?_, he⟩
    rw [hbytes, hb, List.nil_append, Reader.new, Response.read, bind_of_ok hs, if_pos rfl,
      bind_of_ok (ofWire_of_ok hr)]
    rfl
  | err f =>
    obtain ⟨fits, hbytes⟩ := f.checks_write.of_ok hw
    rw [hbytes, hb, List.nil_append]
    exact ⟨_, f.reads_bytes g (fits _ List.mem_cons_self) pool⟩

theorem short_of_error (hg : g.Assembled Handler.Reliable) (hm : response.InMemory) {e : Wire.Error}
    (hw : response.write g w = .error e w') : e.Short := by
  cases response with
  | ok object? => exact hg.short (w := ⟨_, _⟩) hm hw
  | err f =>
    obtain ⟨n, hn, rfl⟩ := f.checks_write.exists_of_error hw
    rw [List.mem_singleton] at hn
    exact Error.short_lengthTooLarge (hn ▸ hm)

end Response

def Failure.ofError (e : Wire.Error) : Failure :=
  ⟨.internal, "cannot encode response: " ++ e.message⟩

theorem Failure.length_ofError {e : Wire.Error} (h : e.Short) :
    (Utf8.encode (Failure.ofError e).message).length ≤ maxLength := by
  have hp : (Utf8.encode "cannot encode response: ").length = 24 := by decide
  simp only [Error.Short] at h
  simp only [Failure.ofError, Utf8.length_encode_append, maxLength]
  omega

namespace Host

variable {host : Host F}

def attempt (host : Host F) (pool : Option Pool) (payload : List UInt8) :
    EStateM.Result Wire.Error Writer Unit :=
  let (answer, r) := host.answer (.new payload pool)
  answer.response.write host.registry (.new r.pool)

theorem process_of_ok {pool : Option Pool} {payload : List UInt8} {w : Writer}
    (h : host.attempt pool payload = .ok () w) : (host.process pool payload).1 = w.bytes := by
  simp only [attempt] at h
  simp only [process, respond, h]

theorem process_of_error {pool : Option Pool} {payload : List UInt8} {e : Wire.Error} {w : Writer}
    (h : host.attempt pool payload = .error e w) (he : e.Short) :
    (host.process pool payload).1 = (Failure.ofError e).bytes := by
  simp only [attempt] at h
  have hp := (Failure.ofError e).checks_write.puts
    (List.forall_mem_singleton.2 (Failure.length_ofError he))
  obtain ⟨pool', hw⟩ := hp [] w.pool
  have hw : Failure.write ⟨.internal, s!"cannot encode response: {e.message}"⟩ w.clear =
    .ok () ⟨(Failure.ofError e).bytes, pool'⟩ := hw
  simp only [process, respond, h, hw]

/-- Whatever a peer sends, it gets a response that it can read to the last byte. When the answer of
the method cannot be written, the response is a failure that says so, and what was written of the
answer is not part of it. -/
theorem process_reads (hg : host.registry.Assembled Handler.Reliable) {pool : Option Pool}
    {payload : List UInt8} (hm : (host.answer (.new payload pool)).1.response.InMemory) :
    (∀ pool', ∃ response r, Response.read host.registry (.new (host.process pool payload).1 pool') =
      .ok response r ∧ r.isEmpty = true) ∧
    (∀ w, host.attempt pool payload = .ok () w → (host.process pool payload).1 = w.bytes) ∧
    ∀ e w, host.attempt pool payload = .error e w →
      (host.process pool payload).1 = (Failure.ofError e).bytes ∧
        Response.Reads host.registry (host.process pool payload).1 (.err (Failure.ofError e)) := by
  have failed : ∀ e w, host.attempt pool payload = .error e w →
      (host.process pool payload).1 = (Failure.ofError e).bytes ∧
        Response.Reads host.registry (host.process pool payload).1 (.err (Failure.ofError e)) := by
    intro e w h
    have he := Response.short_of_error hg hm h
    have hp := process_of_error h he
    exact ⟨hp, hp ▸ Failure.reads_bytes _ (Failure.length_ofError he)⟩
  refine ⟨fun pool' => ?_, fun w => process_of_ok, failed⟩
  cases h : host.attempt pool payload with
  | ok _ w =>
    rw [process_of_ok h]
    exact Response.exists_reads hg rfl h pool'
  | error e w => exact ⟨_, (failed e w h).2 pool'⟩

end Host

def gauge : Handler chain where
  tag := 100
  name := "Gauge"
  type := .foreign "Gauge"
  write
    | .foreign _ value => do
      Write.i32 value
      if value < 0 then throw (.encode (.refused "below zero"))
    | _ => Handler.mismatch "Gauge"
  read := .foreign "Gauge" <$> Read.i32

theorem reliable_gauge : gauge.Reliable where
  reads {o w w'} ht hw := by
    cases o with
    | foreign name value =>
      obtain ⟨_, w₁, hi, hw⟩ := exists_of_bind_eq_ok hw
      cases hi
      split at hw
      · cases hw
      cases hw
      refine ⟨_, rfl, fun position pool => ?_⟩
      obtain ⟨pool', hr⟩ := (Read.takes_i32 value).whole.alone position pool
      exact ⟨_, _, map_of_ok hr, rfl⟩
    | _ => cases ht
  short {o w e w'} ht _ hw := by
    cases o with
    | foreign name value =>
      have hw : (if value < 0 then throw (.encode (.refused "below zero")) else pure () : Write)
        ⟨w.bytes ++ LittleEndian.ofUInt32 value.toUInt32, w.pool⟩ = .error e w' := hw
      split at hw
      · cases hw
        exact (by decide : (Utf8.encode "Encode error: below zero").length < 2 ^ 30)
      · cases hw
    | _ => cases ht

def meter : Host chain where
  registry := ⟨Registry.builtIns ++ [gauge]⟩
  dispatcher := ⟨[⟨"Meter", [⟨"Read", fun _ => .reply (some (.foreign "Gauge" (-1))), false⟩]⟩]⟩

def reading : List UInt8 := [10, 0, 0, 0] ++ Utf8.encode "Meter.Read" ++ [255, 255, 255, 255]

theorem process_reads_meter :
    meter.registry.Assembled Handler.Reliable ∧
      (meter.answer (.new reading)).1.response.InMemory ∧
      ∃ w, meter.attempt none reading = .error (.encode (.refused "below zero")) w ∧
        w.bytes ≠ [] ∧
        (meter.process none reading).1 =
          (Failure.ofError (.encode (.refused "below zero"))).bytes := by
  have hg : meter.registry.Assembled Handler.Reliable := .register .new reliable_gauge rfl
  have ha : (meter.answer (.new reading)).1.response = .ok (some (.foreign "Gauge" (-1))) := rfl
  have hm : (meter.answer (.new reading)).1.response.InMemory := by
    rw [ha]
    rintro o ⟨⟩
    exact ⟨fun n hn => (List.not_mem_nil hn).elim, by decide⟩
  have he : meter.attempt none reading = .error (.encode (.refused "below zero"))
      ⟨[0, 100, 0, 0, 0, 255, 255, 255, 255], none⟩ := rfl
  exact ⟨hg, hm, _, he, by decide, ((Host.process_reads hg hm).2.2 _ _ he).1⟩

end WireProtocol.Rpc
