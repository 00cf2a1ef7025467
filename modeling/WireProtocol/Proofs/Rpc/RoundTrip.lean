import WireProtocol.Proofs.Rpc.Recovery
import WireProtocol.Proofs.Rpc.Transparency
import WireProtocol.Proofs.Wire.Lending
import WireProtocol.Proofs.Wire.Steps

namespace WireProtocol.Wire

variable {ι : Type} {F : Family ι}

namespace Write

variable {m : Write} {P : List UInt8 → Prop} {lengths : List Nat} {bytes : List UInt8}
  {w w' : Writer}

theorem Settles.exists_puts (hm : Settles m P) (h : m w = .ok () w') :
    ∃ bytes, Puts m bytes ∧ P bytes := by
  rcases hm with hp | ⟨e, he⟩
  · exact hp
  · obtain ⟨w'', he⟩ := he w
    cases he.symm.trans h

theorem Checks.exists_ok_iff (hm : Checks m lengths bytes) (w : Writer) :
    (∃ w', m w = .ok () w') ↔ ∀ n ∈ lengths, n ≤ maxLength := by
  constructor
  · rintro ⟨w', h⟩
    exact (hm.of_ok h).1
  · intro fits
    obtain ⟨pool, h⟩ := hm.puts fits w.bytes w.pool
    exact ⟨_, h⟩

end Write

namespace Registry

variable [DecidableEq ι] {g : Registry F} {o? : Option (Object F)}

theorem contains_of_writeObject? {w w' : Writer} (h : g.writeObject? o? w = .ok () w') :
    ∀ o ∈ o?, g.contains o.type = true := by
  rintro o rfl
  rw [contains]
  cases hf : g.byType? o.type with
  | none =>
    simp only [writeObject?, hf] at h
    cases h
  | some handler => rfl

theorem Reachable.checks_writeObject? (hg : g.Reachable)
    (ho : ∀ o ∈ o?, g.contains o.type = true) :
    ∃ bytes, Write.Checks (g.writeObject? o?) (o?.elim [] Object.lengths) bytes := by
  cases o? with
  | none => exact ⟨_, (Write.puts_i32 Tag.null).checks⟩
  | some o =>
    obtain ⟨h, hf⟩ := Option.isSome_iff_exists.1 (ho o rfl)
    obtain ⟨hm, ht⟩ := byType?_eq_some hf
    obtain ⟨bytes, hc⟩ := (hg.standard h hm).checks ht
    simp only [writeObject?, hf]
    exact ⟨_, (Write.puts_i32 h.tag).checks.bind hc⟩

theorem Reachable.exists_ok_iff (hg : g.Reachable) {m : Write} {lengths : List Nat}
    {left : List UInt8} (hm : Write.Checks m lengths left) (w : Writer) :
    (∃ w', (m >>= fun _ => g.writeObject? o?) w = .ok () w') ↔
      (∀ o ∈ o?, g.contains o.type = true) ∧
        ∀ n ∈ lengths ++ o?.elim [] Object.lengths, n ≤ maxLength := by
  constructor
  · rintro ⟨w', h⟩
    obtain ⟨_, w₁, -, ho⟩ := exists_of_bind_eq_ok h
    have registered := contains_of_writeObject? ho
    obtain ⟨bytes, hc⟩ := hg.checks_writeObject? registered
    exact ⟨registered, ((hm.bind hc).of_ok h).1⟩
  · rintro ⟨registered, fits⟩
    obtain ⟨bytes, hc⟩ := hg.checks_writeObject? registered
    exact ((hm.bind hc).exists_ok_iff w).2 fits

end Registry

end WireProtocol.Wire

namespace WireProtocol.Rpc

open Wire

variable {ι : Type} {F : Family ι}

def Request.lengths (r : Request F) : List Nat :=
  (Utf8.encode r.key).length :: r.object?.elim [] Object.lengths

namespace Response

def object? : Response F → Option (Object F)
  | ok object? => object?
  | err _ => none

def lengths : Response F → List Nat
  | ok object? => object?.elim [] Object.lengths
  | err f => [(Utf8.encode f.message).length]

end Response

variable [DecidableEq ι] {g : Registry F}

theorem Request.encodable_iff (hg : g.Reachable) (r : Request F) :
    r.Encodable g ↔
      (∀ o ∈ r.object?, g.contains o.type = true) ∧ ∀ n ∈ r.lengths, n ≤ maxLength :=
  hg.exists_ok_iff (Write.checks_text? r.key) .new

theorem Response.encodable_iff (hg : g.Reachable) (response : Response F) :
    response.Encodable g ↔
      (∀ o ∈ response.object?, g.contains o.type = true) ∧
        ∀ n ∈ response.lengths, n ≤ maxLength := by
  cases response with
  | ok object? => exact hg.exists_ok_iff (Write.puts_u8 okStatus).checks .new
  | err f =>
    refine (f.checks_write.exists_ok_iff .new).trans ⟨fun fits => ⟨?_, fits⟩, And.right⟩
    rintro o ⟨⟩

theorem Request.exists_accepts (hg : g.Sound) {r : Request F} (h : r.Encodable g) :
    ∃ left right, Write.Puts (r.write g) (left ++ right) ∧ Accepts Request.readKey left r.key ∧
      Accepts g.readObject? right r.norm.object? := by
  obtain ⟨w, h⟩ := h
  obtain ⟨_, hp, left, right, rfl, hk, ho⟩ := (r.settles_write hg).exists_puts h
  exact ⟨left, right, hp, hk, ho⟩

theorem Response.exists_accepts (hg : g.Sound) {response : Response F} (h : response.Encodable g) :
    ∃ bytes, Write.Puts (response.write g) bytes ∧
      Accepts (Response.read g) bytes response.norm := by
  obtain ⟨w, h⟩ := h
  exact (response.settles_write hg).exists_puts h

theorem Response.norm_eq_of_write (hg : g.Sound) {response response' : Response F}
    {before : List UInt8} {pool pool' : Option Pool} {w w' : Writer}
    (h : response.write g ⟨before, pool⟩ = .ok () w)
    (h' : response'.write g ⟨before, pool'⟩ = .ok () w') (hw : w.bytes = w'.bytes) :
    response.norm = response'.norm := by
  obtain ⟨bytes, hb, hr⟩ := (response.settles_write hg).exists_of_ok h
  obtain ⟨bytes', hb', hr'⟩ := (response'.settles_write hg).exists_of_ok h'
  have shared : bytes = bytes' := List.append_cancel_left (hb.symm.trans (hw.trans hb'))
  subst shared
  obtain ⟨_, hr⟩ := hr.alone 0 none
  obtain ⟨_, hr'⟩ := hr'.alone 0 none
  exact (EStateM.Result.ok.inj (hr.symm.trans hr')).1

/-- A request or a response can be encoded when its object, if there is one, is of a registered type
and none of its lengths is too large. Its bytes are then read as they were written, up to the zeros
of records, to the last of them and no further, whatever comes next and with any pool. No answer
looks like a failure. -/
theorem envelopes_read_back (hF : ∀ i, (F i).tag ≠ Tag.null) (hg : g.Reachable) :
    (∀ r : Request F,
      (r.Encodable g ↔
        (∀ o ∈ r.object?, g.contains o.type = true) ∧ ∀ n ∈ r.lengths, n ≤ maxLength) ∧
      (r.Encodable g → ∃ bytes, Write.Puts (r.write g) bytes ∧
        ∀ position rest pool, ∃ middle pool',
          Request.readKey ⟨position, bytes ++ rest, pool⟩ = .ok r.key middle ∧
          g.readObject? middle =
            .ok (r.object?.map Object.norm) ⟨position + bytes.length, rest, pool'⟩)) ∧
    (∀ response : Response F,
      (response.Encodable g ↔
        (∀ o ∈ response.object?, g.contains o.type = true) ∧
          ∀ n ∈ response.lengths, n ≤ maxLength) ∧
      (response.Encodable g → ∃ bytes, Write.Puts (response.write g) bytes ∧
        ∀ position rest pool, ∃ pool',
          Response.read g ⟨position, bytes ++ rest, pool⟩ =
            .ok response.norm ⟨position + bytes.length, rest, pool'⟩)) ∧
    ∀ object? f before pool pool' w w',
      (Response.ok object?).write g ⟨before, pool⟩ = .ok () w →
      (Response.err f).write g ⟨before, pool'⟩ = .ok () w' → w.bytes ≠ w'.bytes := by
  have sound := hg.sound hF
  refine ⟨fun r => ⟨r.encodable_iff hg, fun hr => ?_⟩,
    fun response => ⟨response.encodable_iff hg, Response.exists_accepts sound⟩, ?_⟩
  · obtain ⟨left, right, hp, hk, ho⟩ := Request.exists_accepts sound hr
    refine ⟨left ++ right, hp, fun position rest pool => ?_⟩
    obtain ⟨middle, hk⟩ := hk position (right ++ rest) pool
    obtain ⟨pool', ho⟩ := ho (position + left.length) rest middle
    refine ⟨_, pool', by rw [List.append_assoc]; exact hk, ?_⟩
    rw [ho, List.length_append, Nat.add_assoc]
    rfl
  · intro object? f before pool pool' w w' h h' hw
    cases Response.norm_eq_of_write sound h h' hw

theorem envelopes_read_back_relay :
    let r : Request chain :=
      ⟨"Chain.Echo", some (.record () (.mk (.single ⟨0x80000000⟩ (.absent .nil))))⟩
    let response : Response chain := .err ⟨.badRequest, "no link"⟩
    relay.registry.Reachable ∧
      (∀ o ∈ r.object?, relay.registry.contains o.type = true) ∧
      (∀ n ∈ r.lengths, n ≤ maxLength) ∧ (∀ n ∈ response.lengths, n ≤ maxLength) ∧
      (∃ bytes, Write.Puts (r.write relay.registry) bytes ∧
        ∀ position rest pool, ∃ middle pool',
          Request.readKey ⟨position, bytes ++ rest, pool⟩ = .ok "Chain.Echo" middle ∧
          relay.registry.readObject? middle =
            .ok (some (.record () (.mk (.single ⟨0⟩ (.absent .nil)))))
              ⟨position + bytes.length, rest, pool'⟩) ∧
      ∃ bytes, Write.Puts (response.write relay.registry) bytes ∧
        ∀ position rest pool, ∃ pool',
          Response.read relay.registry ⟨position, bytes ++ rest, pool⟩ =
            .ok (.err ⟨.badRequest, "no link"⟩) ⟨position + bytes.length, rest, pool'⟩ := by
  intro r response
  obtain ⟨requests, responses, -⟩ := envelopes_read_back tag_chain reachable_relay
  have registered : ∀ o ∈ r.object?, relay.registry.contains o.type = true := by
    rintro o ⟨⟩
    rfl
  have fits : ∀ n ∈ r.lengths, n ≤ maxLength := by decide
  have fits' : ∀ n ∈ response.lengths, n ≤ maxLength := by decide
  refine ⟨reachable_relay, registered, fits, fits', ?_, ?_⟩
  · exact (requests r).2 ((requests r).1.2 ⟨registered, fits⟩)
  · refine (responses response).2 ((responses response).1.2 ⟨?_, fits'⟩)
    rintro o ⟨⟩

end WireProtocol.Rpc
