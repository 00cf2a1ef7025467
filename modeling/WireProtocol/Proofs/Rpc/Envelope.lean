import WireProtocol.Proofs.Wire.Registration
import WireProtocol.Rpc.Response

namespace WireProtocol.Rpc

open Wire

variable {α ι : Type} {F : Family ι}

def Request.norm (r : Request F) : Request F := { r with object? := r.object?.map Object.norm }

def Response.norm : Response F → Response F
  | ok object? => .ok (object?.map Object.norm)
  | err f => .err f

theorem ofWire_of_ok {m : Read α} {r r' : Reader} {a : α} (h : m r = .ok a r') :
    ofWire m r = .ok a r' := by
  simp [ofWire, EStateM.adaptExcept, h]

theorem ofWire_of_error {m : Read α} {r r' : Reader} {e : Wire.Error} (h : m r = .error e r') :
    ofWire m r = .error (.wire e) r' := by
  simp [ofWire, EStateM.adaptExcept, h]

theorem accepts_ofWire {m : Read α} {bytes : List UInt8} {a : α} (h : Accepts m bytes a) :
    Accepts (ofWire m) bytes a :=
  fun position rest pool =>
    let ⟨pool', he⟩ := h position rest pool
    ⟨pool', ofWire_of_ok he⟩

theorem dependsOn_ofWire {m : Read α} (h : DependsOn Reader.view m) :
    DependsOn Reader.view (ofWire m) := by
  intro r r' hv
  rcases seen_cases (h r r' hv) with ⟨a, t, t', hr, hr', ht⟩ | ⟨e, t, t', hr, hr', ht⟩
  · rw [ofWire_of_ok hr, ofWire_of_ok hr']
    exact congrArg (EStateM.Result.ok a) ht
  · rw [ofWire_of_error hr, ofWire_of_error hr']
    exact congrArg (EStateM.Result.error (Error.wire e)) ht

theorem dependsOn_readKey : DependsOn Reader.view Request.readKey := by
  refine (dependsOn_ofWire Read.closed_dependsOn.text?).bind fun key? => ?_
  cases key? with
  | none => exact .throw _
  | some key => exact .pure key

theorem Failure.dependsOn_read : DependsOn Reader.view Failure.read :=
  Read.closed_dependsOn.i32.bind fun _ => Read.closed_dependsOn.text?.bind fun _ => .pure _

theorem Failure.dependsOn_write (f : Failure) : DependsOn Writer.view f.write :=
  (Write.dependsOn_put _).bind fun _ => (Write.dependsOn_put _).bind fun _ =>
    Write.closed_dependsOn.bytes? _

theorem settles_text (s : String) :
    Write.Settles (Write.text? (some s)) fun bytes => Accepts Read.text? bytes (some s) :=
  (Write.checks_text? s).settles fun fits =>
    (Read.takes_text?_some (fits _ List.mem_cons_self)).whole

def Failure.body (f : Failure) : List UInt8 :=
  LittleEndian.ofUInt32 f.code.toInt32.toUInt32 ++
    (LittleEndian.ofUInt32 (UInt32.ofNat (Utf8.encode f.message).length) ++ Utf8.encode f.message)

def Failure.bytes (f : Failure) : List UInt8 := [Response.errStatus] ++ f.body

theorem Failure.checks_write (f : Failure) :
    Write.Checks f.write [(Utf8.encode f.message).length] f.bytes :=
  (Write.puts_u8 _).checks.bind ((Write.puts_i32 _).checks.bind (Write.checks_text? f.message))

theorem Failure.takes_read {f : Failure} (h : (Utf8.encode f.message).length ≤ maxLength) :
    Read.Takes Failure.read f.body f := by
  apply (Read.takes_i32 f.code.toInt32).bind
  apply (Read.takes_text?_some h).bind_pure
  rw [ErrorCode.ofInt32_toInt32]
  rfl

theorem Failure.settles_write (f : Failure) :
    Write.Settles f.write fun bytes =>
      ∃ rest, bytes = [Response.errStatus] ++ rest ∧ Accepts Failure.read rest f :=
  f.checks_write.settles fun fits =>
    ⟨f.body, rfl, (Failure.takes_read (fits _ List.mem_cons_self)).whole⟩

variable {g : Registry F}

theorem Response.dependsOn_read (hg : g.Oblivious) : DependsOn Reader.view (Response.read g) := by
  refine (dependsOn_ofWire Read.closed_dependsOn.u8).bind fun status => .ite ?_ (.ite ?_ (.throw _))
  · exact (dependsOn_ofWire (Registry.dependsOn_readObject? hg)).bind fun _ => .pure _
  · exact (dependsOn_ofWire Failure.dependsOn_read).bind fun _ => .pure _

theorem Response.accepts_err {rest : List UInt8} {f : Failure} (h : Accepts Failure.read rest f) :
    Accepts (Response.read g) ([errStatus] ++ rest) (.err f) :=
  (accepts_ofWire (Read.takes_u8 errStatus).whole).bind ((accepts_ofWire h).bind_pure rfl)

variable [DecidableEq ι]

theorem Request.dependsOn_write (hg : g.Oblivious) (r : Request F) :
    DependsOn Writer.view (r.write g) :=
  (Write.closed_dependsOn.bytes? _).bind fun _ => Registry.dependsOn_writeObject? hg _

theorem Response.dependsOn_write (hg : g.Oblivious) (response : Response F) :
    DependsOn Writer.view (response.write g) := by
  cases response with
  | ok object? => exact (Write.dependsOn_put _).bind fun _ => Registry.dependsOn_writeObject? hg _
  | err f => exact f.dependsOn_write

theorem Request.settles_write (hg : g.Sound) (r : Request F) :
    Write.Settles (r.write g) fun bytes =>
      ∃ left right, bytes = left ++ right ∧ Accepts Request.readKey left r.key ∧
        Accepts g.readObject? right r.norm.object? := by
  refine (settles_text r.key).bind (Registry.settles_writeObject? hg r.object?) ?_
  exact fun left right hl hr => ⟨left, right, rfl, (accepts_ofWire hl).bind_pure rfl, hr.whole⟩

theorem Response.settles_write (hg : g.Sound) (response : Response F) :
    Write.Settles (response.write g) fun bytes =>
      Accepts (Response.read g) bytes response.norm := by
  cases response with
  | ok object? =>
    refine ((Write.puts_u8 okStatus).settles rfl).bind (Registry.settles_writeObject? hg object?) ?_
    rintro _ right rfl hr
    have hs := accepts_ofWire (Read.takes_u8 okStatus).whole
    exact hs.bind ((accepts_ofWire hr.whole).bind_pure rfl)
  | err f =>
    apply (f.settles_write).mono
    rintro _ ⟨rest, rfl, hr⟩
    exact accepts_err hr

def Request.Encodable (g : Registry F) (r : Request F) : Prop := ∃ w, r.write g .new = .ok () w

def Response.Encodable (g : Registry F) (response : Response F) : Prop :=
  ∃ w, response.write g .new = .ok () w

end WireProtocol.Rpc
