import WireProtocol.Proofs.Rpc.Recovery
import WireProtocol.Proofs.Rpc.Transparency

namespace WireProtocol.Rpc

open Wire

namespace Frame

variable {max : Nat} {stream tail : List UInt8} {payloads : List (List UInt8)}

/-- The stream is the frames of the payloads, none of them too long to be read, and a tail. -/
structure Leads (max : Nat) (stream : List UInt8) (payloads : List (List UInt8))
    (tail : List UInt8) : Prop where
  stream_eq : stream = payloads.flatMap frame ++ tail
  short : ∀ payload ∈ payloads, payload.length < 2 ^ 32 ∧ payload.length ≤ max

/-- No run of frames at the front of the stream goes further. -/
structure Longest (max : Nat) (stream : List UInt8) (payloads : List (List UInt8))
    (tail : List UInt8) : Prop extends Leads max stream payloads tail where
  longest : ∀ payloads' tail', Leads max stream payloads' tail' → payloads' <+: payloads

theorem Leads.nil (max : Nat) (stream : List UInt8) : Leads max stream [] stream where
  stream_eq := rfl
  short _ hp := (List.not_mem_nil hp).elim

theorem leads_cons {payload : List UInt8} :
    Leads max stream (payload :: payloads) tail ↔
      (payload.length < 2 ^ 32 ∧ payload.length ≤ max) ∧
        ∃ rest, stream = frame payload ++ rest ∧ Leads max rest payloads tail := by
  constructor
  · rintro ⟨rfl, hs⟩
    rw [List.forall_mem_cons] at hs
    exact ⟨hs.1, _, by rw [List.flatMap_cons, List.append_assoc], rfl, hs.2⟩
  · rintro ⟨hp, rest, rfl, rfl, hs⟩
    refine ⟨?_, List.forall_mem_cons.2 ⟨hp, hs⟩⟩
    rw [List.flatMap_cons, List.append_assoc]

theorem Leads.longest {e : Error} {rest : List UInt8} (h : Leads max stream payloads tail)
    (he : read max tail = .error e rest) : Longest max stream payloads tail where
  toLeads := h
  longest payloads' tail' h' := by
    induction payloads' generalizing stream payloads with
    | nil => exact List.nil_prefix
    | cons payload' rest' ih =>
      obtain ⟨⟨hl', hm'⟩, stream', rfl, hrest'⟩ := leads_cons.1 h'
      have hr' := read_frame hl' hm' stream'
      cases payloads with
      | nil =>
        rw [h.stream_eq] at hr'
        cases he.symm.trans hr'
      | cons payload payloads =>
        obtain ⟨⟨hl, hm⟩, stream'', hs, hrest⟩ := leads_cons.1 h
        rw [hs, read_frame hl hm] at hr'
        cases hr'
        exact List.cons_prefix_cons.2 ⟨rfl, ih hrest hrest'⟩

theorem Longest.unique {payloads' : List (List UInt8)} {tail' : List UInt8}
    (h : Longest max stream payloads tail) (h' : Longest max stream payloads' tail') :
    payloads = payloads' ∧ tail = tail' := by
  have hp : payloads = payloads' := by
    apply (h'.longest _ _ h.toLeads).eq_of_length_le
    exact (h.longest _ _ h'.toLeads).length_le
  subst hp
  exact ⟨rfl, List.append_cancel_left (h.stream_eq.symm.trans h'.stream_eq)⟩

theorem longest_readAll (max : Nat) (stream : List UInt8) :
    ∃ tail rest, Longest max stream (readAll max stream).1 tail ∧
      read max tail = .error (readAll max stream).2 rest := by
  suffices h : ∃ tail rest, Leads max stream (readAll max stream).1 tail ∧
      read max tail = .error (readAll max stream).2 rest by
    obtain ⟨tail, rest, h, he⟩ := h
    exact ⟨tail, rest, h.longest he, he⟩
  fun_induction readAll max stream with
  | case1 stream payload rest hr payloads e hp ih =>
    obtain ⟨rfl, hs⟩ := exists_frame_of_read hr
    rw [hp] at ih
    obtain ⟨tail, rest', h, he⟩ := ih
    exact ⟨tail, rest', leads_cons.2 ⟨hs, rest, rfl, h⟩, he⟩
  | case2 stream e rest he => exact ⟨stream, rest, .nil max stream, he⟩

end Frame

def Failure.oversized (length max : Nat) : Failure :=
  .badRequest (Error.payloadTooLarge length max).message

theorem Failure.length_oversized {length max : Nat} (h : length < 2 ^ 32) (hm : max < length) :
    (Utf8.encode (Failure.oversized length max).message).length ≤ maxLength := by
  have hn := Utf8.length_encode_toString_le (n := length) (by omega)
  have hx := Utf8.length_encode_toString_le (n := max) (by omega)
  have h₁ : (Utf8.encode "Protocol error: ").length = 16 := by decide
  have h₂ : (Utf8.encode "Payload too large: ").length = 19 := by decide
  have h₃ : (Utf8.encode " bytes (max ").length = 12 := by decide
  have h₄ : (Utf8.encode ")").length = 1 := by decide
  have ht : (Failure.oversized length max).message =
    "Protocol error: " ++
      ("Payload too large: " ++ toString length ++ " bytes (max " ++ toString max ++ ")") := rfl
  rw [ht]
  simp only [Utf8.length_encode_append, maxLength]
  omega

theorem Failure.frame_eq {f : Failure} (h : (Utf8.encode f.message).length ≤ maxLength) :
    f.frame = Frame.frame f.bytes := by
  obtain ⟨pool, hw⟩ := f.checks_write.puts (List.forall_mem_singleton.2 h) [] none
  have hw : f.write .new = .ok () ⟨f.bytes, pool⟩ := hw
  have hl : f.bytes.length < 2 ^ 32 := by
    simp only [Failure.bytes, Failure.body, List.length_append, List.length_singleton,
      LittleEndian.length_ofUInt32]
    simp only [maxLength] at h
    omega
  simp only [Failure.frame, hw, Frame.encode_eq_ok hl]

variable {ι : Type} [DecidableEq ι] {F : Family ι}

/-- What a session sends for a stream is what it would send for each frame of the longest run alone,
one after the other. If a header of a frame that is too long comes behind the run, one failure that
says so follows, and with it the session ends in an error. In all other cases it ends in order. -/
theorem Host.serve_stream {host : Host F} (hg : host.registry.Oblivious) (pool : Option Pool)
    (stream : List UInt8) :
    ∃ payloads tail, Frame.Longest host.maxFrame stream payloads tail ∧
      ((∀ payload ∈ payloads, host.Answers payload) →
        (∀ payload ∈ payloads, ∀ pool₁, ∃ pool₂,
          host.serve false pool₁ (Frame.frame payload) =
            ⟨Frame.frame (host.reply payload), none, false, pool₂⟩) ∧
        (∀ n, Frame.announced? tail = some n → host.maxFrame < n →
          Response.Reads host.registry (Failure.oversized n host.maxFrame).bytes
            (.err (Failure.oversized n host.maxFrame)) ∧
          ∃ pool', host.serve false pool stream =
            ⟨(payloads.flatMap fun payload => Frame.frame (host.reply payload)) ++
              Frame.frame (Failure.oversized n host.maxFrame).bytes,
              some (.payloadTooLarge n host.maxFrame), false, pool'⟩) ∧
        ((∀ n, Frame.announced? tail = some n → n ≤ host.maxFrame) →
          ∃ pool', host.serve false pool stream =
            ⟨payloads.flatMap fun payload => Frame.frame (host.reply payload),
              none, false, pool'⟩)) := by
  obtain ⟨tail, rest, hlongest, he⟩ := Frame.longest_readAll host.maxFrame stream
  refine ⟨_, tail, hlongest, fun ha => ?_⟩
  obtain ⟨pool', hs⟩ := servePayloads_eq hg (Frame.readAll host.maxFrame stream).2 pool ha
  have hs : host.serve false pool stream = _ := hs
  refine ⟨fun payload hp pool₁ => ?_, fun n hn hm => ⟨?_, pool', ?_⟩, fun hn => ⟨pool', ?_⟩⟩
  · obtain ⟨hl, hm⟩ := hlongest.short payload hp
    exact serve_frame hg pool₁ hl hm (ha payload hp)
  · exact Failure.reads_bytes _ (Failure.length_oversized (Frame.lt_of_announced? hn) hm)
  · rcases Frame.cases_of_read_error he with ⟨n', hn', -, hending⟩ | ⟨hn', -⟩
    · obtain rfl := Option.some.inj (hn.symm.trans hn')
      have hl := Failure.length_oversized (Frame.lt_of_announced? hn) hm
      rw [hs, hending, ← Failure.frame_eq hl]
      rfl
    · exact absurd hm (Nat.not_lt.2 (hn' n hn))
  · rcases Frame.cases_of_read_error he with ⟨n', hn', hm', -⟩ | ⟨-, hending⟩
    · exact absurd hm' (Nat.not_lt.2 (hn n' hn'))
    · rw [hs, hending]
      simp [servePayloads]

def asked : List (List UInt8) :=
  [[], [10, 0, 0, 0] ++ Utf8.encode "Chain.Tail" ++ [255, 255, 255, 255]]

def mixed : List UInt8 := asked.flatMap Frame.frame ++ [65, 0, 0, 0, 7]

theorem longest_mixed : Frame.Longest relay.maxFrame mixed asked [65, 0, 0, 0, 7] := by
  have hr : Frame.read relay.maxFrame [65, 0, 0, 0, 7] = .error (.payloadTooLarge 65 64) [7] := rfl
  exact Frame.Leads.longest ⟨rfl, by decide⟩ hr

theorem answers_asked : ∀ payload ∈ asked, relay.Answers payload := by
  refine List.forall_mem_cons.2 ⟨⟨?_, ?_⟩, List.forall_mem_singleton.2 ⟨?_, ?_⟩⟩
  · decide
  · rfl
  · decide
  · rfl

theorem serve_stream_mixed :
    relay.registry.Oblivious ∧ (∀ payload ∈ asked, relay.Answers payload) ∧
      ∃ pool, relay.serve false none mixed =
        ⟨Frame.frame
            (Failure.bytes ⟨.badRequest, "Unexpected end of input: needed 4 bytes, 0 remaining"⟩) ++
          (Frame.frame
            (Failure.bytes ⟨.unknownMethod, "service `Chain` has no method `Tail`"⟩) ++
          Frame.frame (Failure.oversized 65 64).bytes),
          some (.payloadTooLarge 65 64), false, pool⟩ := by
  have hg : relay.registry.Oblivious := (reachable_relay.sound tag_chain).oblivious
  refine ⟨hg, answers_asked, ?_⟩
  obtain ⟨payloads, tail, hlongest, h⟩ := Host.serve_stream hg none mixed
  obtain ⟨rfl, rfl⟩ := longest_mixed.unique hlongest
  exact ((h answers_asked).2.1 65 rfl (by decide)).2

end WireProtocol.Rpc
