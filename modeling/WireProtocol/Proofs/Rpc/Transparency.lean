import WireProtocol.Proofs.Rpc.Calls
import WireProtocol.Proofs.Text

namespace WireProtocol.Rpc

open Wire

variable {ι : Type} {F : Family ι}

theorem Request.splitKey?_dot {service : String} (h : '.' ∉ service.toList) (method : String) :
    splitKey? (service ++ "." ++ method) = some (service, method) := by
  have hk : (service ++ "." ++ method).toList = service.toList ++ '.' :: method.toList := by
    simp [String.toList_append]
  have hs : ∀ c ∈ service.toList, (c == '.') = false := fun c hc => by
    rw [beq_eq_false_iff_ne]
    exact fun he => h (he ▸ hc)
  rw [splitKey?, hk, Text.cutAt?_append hs rfl]
  simp

namespace Dispatcher

variable {d : Dispatcher F} {service method : String}

theorem method_of_service (h : '.' ∉ service.toList) {svc : Service F}
    (hs : d.service? service = some svc) :
    d.method (service ++ "." ++ method) =
      match svc.method? method with
      | none => .error ⟨.unknownMethod, s!"service `{service}` has no method `{method}`"⟩
      | some m => .ok m := by
  cases hm : svc.method? method <;> simp only [Dispatcher.method, Request.splitKey?_dot h, hs, hm]

theorem method_of_no_service (h : '.' ∉ service.toList) (hs : d.service? service = none) :
    d.method (service ++ "." ++ method) =
      .error ⟨.unknownService, s!"unknown service `{service}`"⟩ := by
  simp only [Dispatcher.method, Request.splitKey?_dot h, hs]

end Dispatcher

variable [DecidableEq ι]

theorem Method.run_typed (name label : String) {type : ObjectType ι} (run : Object F → Outcome F)
    {x : Object F} (h : x.type = type) : (Method.typed name type label run).run (some x) = run x :=
  if_pos h

/-- In any sequence of calls whose frames pass, each call comes to what it comes to on any other
session. A call of a typed method gives what the method gives for the request as it is read: the
object as it is read back, the failure, or the text of the crash. A call of what is not there gives
the failure that says so. -/
theorem Server.calls_transparent (hF : ∀ i, (F i).tag ≠ Tag.null) {host : Host F}
    (hg : host.registry.Reachable) {maxFrame : Nat} {s : Server F} {i : Nat} {c : Client F}
    (h : Server.Idle host maxFrame s i c) {requests : List (Request F)}
    (hp : ∀ r ∈ requests, host.Passes maxFrame r) :
    (∀ (j : Nat) r, requests[j]? = some r → ∀ s' i' c', Server.Idle host maxFrame s' i' c' →
      (s.calls i c requests).1[j]? = some (s'.call i' c' r).1) ∧
    ∀ (j : Nat) (service method : String) (x : Object F),
      requests[j]? = some ⟨service ++ "." ++ method, some x⟩ →
      '.' ∉ service.toList →
      Request.Encodable host.registry ⟨service ++ "." ++ method, some x⟩ →
      (host.dispatcher.call ⟨service ++ "." ++ method, some x.norm⟩).Encodable host.registry →
      ∃ result, (s.calls i c requests).1[j]? = some result ∧ ∀ expected,
        (∀ svc, host.dispatcher.service? service = some svc →
          (∀ name type label run, svc.method? method = some (.typed name type label run) →
            x.type = type →
            (∀ y, run x.norm = .reply (some y) → y.type = expected →
              result.bind (Response.expect expected) = .ok y.norm) ∧
            (∀ f, run x.norm = .failure f →
              result.bind (Response.expect expected) = .error (.remote f)) ∧
            ∀ text?, run x.norm = .crash text? →
              result.bind (Response.expect expected) =
                .error (.remote ⟨.handlerFailed, text?.getD "handler panicked"⟩)) ∧
          (svc.method? method = none →
            result.bind (Response.expect expected) = .error
              (.remote ⟨.unknownMethod, s!"service `{service}` has no method `{method}`"⟩))) ∧
        (host.dispatcher.service? service = none →
          result.bind (Response.expect expected) = .error
            (.remote ⟨.unknownService, s!"unknown service `{service}`"⟩)) := by
  have hc := h.calls (hg.sound hF) hp
  refine ⟨fun j r hj s' i' c' h' => ?_, fun j service method x hj hdot hx hy => ?_⟩
  · obtain ⟨_, _, hr, -⟩ := h'.call (hg.sound hF) (hp r (List.mem_of_getElem? hj))
    rw [hc, List.getElem?_map, hj, hr]
    rfl
  have ho := Host.outcome_eq (hg.sound hF) hx hy
  refine ⟨_, by rw [hc, List.getElem?_map, hj]; rfl, fun expected => ⟨fun svc hs => ⟨?_, ?_⟩, ?_⟩⟩
  · rintro name _ label run hm rfl
    have hrun : host.dispatcher.call ⟨service ++ "." ++ method, some x.norm⟩ =
        (run x.norm).response := by
      simp only [Dispatcher.call, Dispatcher.method_of_service hdot hs, hm,
        Method.run_typed name label run x.type_norm]
    rw [ho, Request.norm, Option.map_some, hrun]
    refine ⟨fun y hy ht => ?_, fun f hf => ?_, fun text? hcrash => ?_⟩
    · rw [hy]
      exact if_pos (y.type_norm.trans ht)
    · rw [hf]
      rfl
    · rw [hcrash]
      rfl
  · intro hm
    rw [ho]
    simp only [Request.norm, Dispatcher.call, Dispatcher.method_of_service hdot hs, hm]
    rfl
  · intro hs
    rw [ho]
    simp only [Request.norm, Dispatcher.call, Dispatcher.method_of_no_service hdot hs]
    rfl

def relay : Host chain where
  registry := ⟨Registry.builtIns ++ [.record chain ()]⟩
  dispatcher := ⟨[⟨"Chain", [.typed "Echo" (.record ()) "Link" fun o => .reply (some o)]⟩]⟩
  maxFrame := 64

theorem reachable_relay : relay.registry.Reachable := .registerRecord (i := ()) .new rfl

def relayed : List (Request chain) :=
  [⟨"Chain.Tail", none⟩,
    ⟨"Chain" ++ "." ++ "Echo", some (.record () (.mk (.single ⟨0x80000000⟩ (.absent .nil))))⟩]

theorem passes_relayed : ∀ r ∈ relayed, relay.Passes 64 r := by
  have hg := reachable_relay.sound tag_chain
  refine List.forall_mem_cons.2 ⟨?_, List.forall_mem_singleton.2 ?_⟩
  · exact Host.passes_of_write hg (w := ⟨_, _⟩) rfl rfl (by decide) (by decide) rfl
  · exact Host.passes_of_write hg (w := ⟨_, _⟩) rfl rfl (by decide) (by decide) rfl

theorem calls_transparent_relay :
    let s : Server chain := Server.connect { host := relay, maxSessions := 1 }
    let c : Client chain := { registry := relay.registry, maxFrame := 64 }
    Server.Idle relay 64 s 0 c ∧ relay.registry.Reachable ∧ (∀ r ∈ relayed, relay.Passes 64 r) ∧
      ∃ result, (s.calls 0 c relayed).1[1]? = some result ∧
        result.bind (Response.expect (.record ())) =
          .ok (.record () (.mk (.single ⟨0⟩ (.absent .nil)))) := by
  intro s c
  have idle : Server.Idle relay 64 s 0 c :=
    Server.idle_connect (s := { host := relay, maxSessions := 1 }) (c := c) rfl (by decide) rfl rfl
  refine ⟨idle, reachable_relay, passes_relayed, ?_⟩
  obtain ⟨result, hr, h⟩ :=
    (Server.calls_transparent tag_chain reachable_relay idle passes_relayed).2 1 "Chain" "Echo" _
      rfl (by decide) ⟨_, rfl⟩ ⟨_, rfl⟩
  refine ⟨result, hr, ?_⟩
  exact (((h (.record ())).1 _ rfl).1 _ _ _ _ rfl rfl).1 _ rfl rfl

end WireProtocol.Rpc
