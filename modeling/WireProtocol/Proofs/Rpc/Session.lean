import WireProtocol.Proofs.Rpc.Envelope
import WireProtocol.Proofs.Rpc.Frame
import WireProtocol.Rpc.Session

namespace WireProtocol.Rpc

open Wire

variable {ι : Type} [DecidableEq ι] {F : Family ι} {host : Host F}

namespace Host

omit [DecidableEq ι] in
theorem answer_congr (hg : host.registry.Oblivious) {r r' : Reader} (hv : r.view = r'.view) :
    (host.answer r).1 = (host.answer r').1 := by
  simp only [answer]
  rcases seen_cases (dependsOn_readKey r r' hv) with
    ⟨key, t, t', hr, hr', ht⟩ | ⟨e, t, t', hr, hr', _⟩
  · rcases seen_cases (Registry.dependsOn_readObject? hg t t' ht) with
      ⟨o?, u, u', hu, hu', _⟩ | ⟨e, u, u', hu, hu', _⟩
    · rw [hr, hr']
      simp only [hu, hu']
    · rw [hr, hr']
      simp only [hu, hu']
  · rw [hr, hr']

theorem respond_congr (hg : host.registry.Oblivious) (response : Response F) {w w' : Writer}
    (hv : w.view = w'.view) :
    (host.respond response w).bytes = (host.respond response w').bytes := by
  simp only [respond]
  rcases seen_cases (response.dependsOn_write hg w w' hv) with
    ⟨_, t, t', ht, ht', htv⟩ | ⟨e, t, t', ht, ht', _⟩
  · rw [ht, ht']
    exact htv
  · rw [ht, ht']
    dsimp only
    rcases seen_cases (Failure.dependsOn_write ⟨.internal, s!"cannot encode response: {e.message}"⟩
      t.clear t'.clear rfl) with ⟨_, u, u', hu, hu', huv⟩ | ⟨_, u, u', hu, hu', huv⟩
    · rw [hu, hu']
      exact huv
    · rw [hu, hu']
      exact huv

def reply (host : Host F) (payload : List UInt8) : List UInt8 := (host.process none payload).1

theorem process_eq (hg : host.registry.Oblivious) (pool : Option Pool) (payload : List UInt8) :
    ∃ pool', host.process pool payload =
      (host.reply payload, (host.answer (.new payload)).1.stops, pool') := by
  have ha : (host.answer (.new payload pool)).1 = (host.answer (.new payload)).1 :=
    answer_congr hg rfl
  refine ⟨_, Prod.ext ?_ (Prod.ext ?_ rfl)⟩
  · simp only [reply, process, ha]
    exact respond_congr hg _ rfl
  · simp only [process, ha]

theorem answer_of_write (hg : host.registry.Sound) {r : Request F} {w : Writer}
    (h : r.write host.registry .new = .ok () w) :
    (host.answer (.new w.bytes)).1 =
      ⟨host.dispatcher.call r.norm, host.dispatcher.stops r.key⟩ := by
  obtain ⟨left, right, hb, hk, ho⟩ := (r.settles_write hg).of_ok h
  obtain ⟨pool, hk⟩ := hk 0 right none
  obtain ⟨pool', ho⟩ := ho.alone (0 + left.length) pool
  rw [hb, answer, Reader.new, hk]
  simp only [ho]
  rfl

theorem respond_of_write {response : Response F} {w : Writer}
    (h : response.write host.registry .new = .ok () w) : host.respond response .new = w := by
  rw [respond, h]

theorem reply_of_write (hg : host.registry.Sound) {r : Request F} {w w' : Writer}
    (h : r.write host.registry .new = .ok () w)
    (h' : (host.dispatcher.call r.norm).write host.registry .new = .ok () w') :
    host.reply w.bytes = w'.bytes := by
  simp only [reply, process, answer_of_write hg h]
  rw [← respond_of_write h']
  exact respond_congr hg.oblivious _ rfl

structure Answers (host : Host F) (payload : List UInt8) : Prop where
  fits : (host.reply payload).length < 2 ^ 32
  goesOn : (host.answer (.new payload)).1.stops = false

theorem servePayloads_cons (hg : host.registry.Oblivious) (ending : Error) (pool : Option Pool)
    {payload : List UInt8} (h : host.Answers payload) (rest : List (List UInt8)) :
    ∃ pool', host.servePayloads ending false pool (payload :: rest) =
      { host.servePayloads ending false pool' rest with
        sent := Frame.frame (host.reply payload) ++
          (host.servePayloads ending false pool' rest).sent } := by
  obtain ⟨pool', hp⟩ := process_eq hg pool payload
  rw [h.goesOn] at hp
  refine ⟨pool', ?_⟩
  rw [servePayloads, hp]
  simp only [Bool.false_eq_true, if_false, Frame.encode_eq_ok h.fits]

theorem servePayloads_eq (hg : host.registry.Oblivious) (ending : Error) (pool : Option Pool)
    {payloads : List (List UInt8)} (h : ∀ payload ∈ payloads, host.Answers payload) :
    ∃ pool', host.servePayloads ending false pool payloads =
      { host.servePayloads ending false pool' [] with
        sent := (payloads.flatMap fun payload => Frame.frame (host.reply payload)) ++
          (host.servePayloads ending false pool' []).sent } := by
  induction payloads generalizing pool with
  | nil => exact ⟨pool, rfl⟩
  | cons payload rest ih =>
    rw [List.forall_mem_cons] at h
    obtain ⟨pool₁, hc⟩ := servePayloads_cons hg ending pool h.1 rest
    obtain ⟨pool₂, hr⟩ := ih pool₁ h.2
    refine ⟨pool₂, ?_⟩
    rw [hc, hr, List.flatMap_cons, List.append_assoc]

theorem serve_frame (hg : host.registry.Oblivious) (pool : Option Pool) {payload : List UInt8}
    (h : payload.length < 2 ^ 32) (hm : payload.length ≤ host.maxFrame) (ha : host.Answers payload) :
    ∃ pool', host.serve false pool (Frame.frame payload) =
      ⟨Frame.frame (host.reply payload), none, false, pool'⟩ := by
  have hr := Frame.readAll_frame h hm []
  rw [List.append_nil, Frame.readAll_nil] at hr
  obtain ⟨pool', hs⟩ := servePayloads_cons hg .endOfStream pool ha []
  refine ⟨pool', ?_⟩
  simp only [serve, hr, hs, servePayloads]
  simp

end Host

end WireProtocol.Rpc
