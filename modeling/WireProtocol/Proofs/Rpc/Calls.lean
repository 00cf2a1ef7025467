import WireProtocol.Proofs.Rpc.Session
import WireProtocol.Rpc.Server

namespace WireProtocol.Rpc

open Wire

variable {ι : Type} [DecidableEq ι] {F : Family ι}

def Response.ofPayload (g : Registry F) (key : String) (payload : List UInt8) :
    Except Error (Response F) :=
  match Response.read g (.new payload) with
  | .error e _ => .error e
  | .ok response r => if r.isEmpty then .ok response else .error (.trailingBytes r.remaining key)

/-- What a call comes to without any other and without pools. -/
def Host.outcome (host : Host F) (r : Request F) : Except Error (Response F) :=
  match r.write host.registry .new with
  | .error e _ => .error (.wire e)
  | .ok _ w => Response.ofPayload host.registry r.key (host.reply w.bytes)

/-- Both frames of the call are read by the other side, and the method does not stop the server. -/
structure Host.Passes (host : Host F) (maxFrame : Nat) (r : Request F) : Prop where
  request : ∀ w, r.write host.registry .new = .ok () w →
    w.bytes.length < 2 ^ 32 ∧ w.bytes.length ≤ host.maxFrame
  response : ∀ w, r.write host.registry .new = .ok () w →
    (host.reply w.bytes).length < 2 ^ 32 ∧ (host.reply w.bytes).length ≤ maxFrame
  goesOn : host.dispatcher.stops r.key = false

theorem Response.ofPayload_of_write {g : Registry F} (hg : g.Sound) {response : Response F}
    {w : Writer} (h : response.write g .new = .ok () w) (key : String) :
    Response.ofPayload g key w.bytes = .ok response.norm := by
  obtain ⟨pool, hr⟩ := ((response.settles_write hg).of_ok h).alone 0 none
  rw [Response.ofPayload, Reader.new, hr]
  rfl

theorem Host.outcome_eq {host : Host F} (hg : host.registry.Sound) {r : Request F}
    (h : r.Encodable host.registry) (h' : (host.dispatcher.call r.norm).Encodable host.registry) :
    host.outcome r = .ok (host.dispatcher.call r.norm).norm := by
  obtain ⟨w, h⟩ := h
  obtain ⟨w', h'⟩ := h'
  simp only [Host.outcome, h, Host.reply_of_write hg h h']
  exact Response.ofPayload_of_write hg h' r.key

theorem Host.passes_of_write {host : Host F} (hg : host.registry.Sound) {maxFrame : Nat}
    {r : Request F} {w w' : Writer} (h : r.write host.registry .new = .ok () w)
    (h' : (host.dispatcher.call r.norm).write host.registry .new = .ok () w')
    (hl : w.bytes.length < 2 ^ 32 ∧ w.bytes.length ≤ host.maxFrame)
    (hl' : w'.bytes.length < 2 ^ 32 ∧ w'.bytes.length ≤ maxFrame)
    (hs : host.dispatcher.stops r.key = false) : host.Passes maxFrame r where
  request v hv := by
    rw [h] at hv
    cases hv
    exact hl
  response v hv := by
    rw [h] at hv
    cases hv
    rw [Host.reply_of_write hg h h']
    exact hl'
  goesOn := hs

namespace Client

variable {c : Client F}

theorem send_of_ok (hg : c.registry.Oblivious) {r : Request F} {w : Writer}
    (hw : r.write c.registry .new = .ok () w) (hl : w.bytes.length < 2 ^ 32) :
    ∃ pool, send r c = .ok (Frame.frame w.bytes)
      { c with pool := pool, sent := c.sent ++ Frame.frame w.bytes } := by
  rcases seen_cases (r.dependsOn_write hg (.new c.pool) .new rfl) with
    ⟨_, t, t', ht, ht', hv⟩ | ⟨e, t, t', _, ht', _⟩
  · rw [hw] at ht'
    cases ht'
    have hb : t.bytes = w.bytes := hv
    exact ⟨t.pool, by simp only [send, ht, hb, Frame.encode_eq_ok hl]⟩
  · rw [hw] at ht'
    cases ht'

theorem send_of_error (hg : c.registry.Oblivious) {r : Request F} {w : Writer} {e : Wire.Error}
    (hw : r.write c.registry .new = .error e w) :
    ∃ pool, send r c = .error (.wire e) { c with pool := pool } := by
  rcases seen_cases (r.dependsOn_write hg (.new c.pool) .new rfl) with
    ⟨_, t, t', _, ht', _⟩ | ⟨e', t, t', ht, ht', _⟩
  · rw [hw] at ht'
    cases ht'
  · rw [hw] at ht'
    cases ht'
    exact ⟨t.pool, by simp only [send, ht]⟩

omit [DecidableEq ι] in
theorem receive_of_fits {payload : List UInt8} (h : payload.length < 2 ^ 32)
    (hm : payload.length ≤ c.maxFrame) (hi : c.inbox = Frame.frame payload) (key : String) :
    receive key c =
      match Response.read c.registry (.new payload c.pool) with
      | .error e r => .error e { c with inbox := [], pool := r.pool }
      | .ok response r =>
        if r.isEmpty then .ok response { c with inbox := [], pool := r.pool }
        else .error (.trailingBytes r.remaining key) { c with inbox := [], pool := r.pool } := by
  have hr := Frame.read_frame h hm []
  rw [List.append_nil] at hr
  cases hs : Response.read c.registry (.new payload c.pool) with
  | error e r => simp only [receive, hi, hr, hs]
  | ok response r => simp only [receive, hi, hr, hs]

omit [DecidableEq ι] in
theorem receive_of_lt {payload : List UInt8} (h : payload.length < 2 ^ 32)
    (hm : c.maxFrame < payload.length) (hi : c.inbox = Frame.frame payload) (key : String) :
    receive key c =
      .error (.payloadTooLarge payload.length c.maxFrame) { c with inbox := payload } := by
  have hr := Frame.read_frame_of_lt h hm []
  rw [List.append_nil, List.append_nil] at hr
  simp only [receive, hi, hr]

omit [DecidableEq ι] in
theorem receive_frame (hg : c.registry.Oblivious) {payload : List UInt8}
    (h : payload.length < 2 ^ 32) (hm : payload.length ≤ c.maxFrame)
    (hi : c.inbox = Frame.frame payload) (key : String) :
    ∃ pool, receive key c =
      match Response.ofPayload c.registry key payload with
      | .ok response => .ok response { c with inbox := [], pool := pool }
      | .error e => .error e { c with inbox := [], pool := pool } := by
  rw [receive_of_fits h hm hi, Response.ofPayload]
  rcases seen_cases (Response.dependsOn_read hg (.new payload c.pool) (.new payload) rfl) with
    ⟨response, t, t', ht, ht', hv⟩ | ⟨e, t, t', ht, ht', _⟩
  · have hrest : t.rest = t'.rest := congrArg Prod.snd hv
    simp only [ht, ht', Reader.isEmpty, Reader.remaining, hrest]
    refine ⟨t.pool, ?_⟩
    split <;> simp_all
  · simp only [ht, ht']
    exact ⟨t.pool, rfl⟩

end Client

namespace Server

def calls (s : Server F) (i : Nat) (c : Client F) :
    List (Request F) → List (Except Error (Response F)) × Client F × Server F
  | [] => ([], c, s)
  | r :: rest =>
    let (result, c, s) := s.call i c r
    let (results, c, s) := calls s i c rest
    (result :: results, c, s)

/-- Session `i` is open and waits for a request, and nothing waits for the client. -/
structure Idle (host : Host F) (maxFrame : Nat) (s : Server F) (i : Nat) (c : Client F) : Prop where
  serves : s.host = host
  running : s.stopped = false
  opened : s.sessions[i]? = some true
  registry : c.registry = host.registry
  limit : c.maxFrame = maxFrame
  inbox : c.inbox = []

variable {host : Host F} {maxFrame : Nat} {s : Server F} {i : Nat} {c : Client F}

omit [DecidableEq ι] in
theorem idle_connect (hs : s.stopped = false) (hm : s.openSessions < s.maxSessions)
    (hr : c.registry = s.host.registry) (hi : c.inbox = []) :
    Idle s.host c.maxFrame s.connect s.sessions.length c where
  serves := rfl
  running := hs
  opened := by simp [connect, hs, hm]
  registry := hr
  limit := rfl
  inbox := hi

theorem Idle.exchange (hg : host.registry.Sound) (h : Idle host maxFrame s i c) {r : Request F}
    {w : Writer} (hp : host.Passes maxFrame r) (hw : r.write host.registry .new = .ok () w) :
    ∃ s', s.exchange i (Frame.frame w.bytes) = (Frame.frame (host.reply w.bytes), s') ∧
      Idle host maxFrame s' i c := by
  have ha : host.Answers w.bytes := ⟨(hp.response w hw).1, by
    rw [Host.answer_of_write hg hw]
    exact hp.goesOn⟩
  obtain ⟨hl, hm⟩ := hp.request w hw
  obtain ⟨pool, hserve⟩ := Host.serve_frame hg.oblivious s.pool hl hm ha
  have hi : i < s.sessions.length := (List.getElem?_eq_some_iff.1 h.opened).1
  refine ⟨{ s with pool := pool, stopped := false, sessions := s.sessions.set i true }, ?_, ?_⟩
  · simp [Server.exchange, h.opened, h.serves, h.running, hserve]
  · exact ⟨h.serves, rfl, by simp [hi], h.registry, h.limit, h.inbox⟩

theorem Idle.call (hg : host.registry.Sound) (h : Idle host maxFrame s i c) {r : Request F}
    (hp : host.Passes maxFrame r) :
    ∃ c' s', s.call i c r = (host.outcome r, c', s') ∧ Idle host maxFrame s' i c' := by
  have hgc : c.registry.Oblivious := h.registry ▸ hg.oblivious
  cases hw : r.write host.registry .new with
  | error e w =>
    obtain ⟨pool, hs⟩ := Client.send_of_error hgc (h.registry ▸ hw)
    refine ⟨{ c with pool := pool }, s, ?_, ?_⟩
    · simp only [Server.call, hs, Host.outcome, hw]
    · exact ⟨h.serves, h.running, h.opened, h.registry, h.limit, h.inbox⟩
  | ok _ w =>
    obtain ⟨pool, hs⟩ := Client.send_of_ok hgc (h.registry ▸ hw) (hp.request w hw).1
    obtain ⟨s', hx, h'⟩ := h.exchange hg hp hw
    obtain ⟨hl, hm⟩ := hp.response w hw
    obtain ⟨pool', hr⟩ := Client.receive_frame
      (c := { c with
        pool := pool
        sent := c.sent ++ Frame.frame w.bytes
        inbox := Frame.frame (host.reply w.bytes) })
      hgc hl (h.limit ▸ hm) rfl r.key
    refine ⟨{ c with
      pool := pool'
      sent := c.sent ++ Frame.frame w.bytes
      inbox := [] }, s', ?_, ?_⟩
    · simp only [h.registry] at hr
      simp only [Server.call, hs, hx, Client.deliver, h.inbox, List.nil_append, h.registry, hr,
        Host.outcome, hw]
      cases Response.ofPayload host.registry r.key (host.reply w.bytes) <;> rfl
    · exact ⟨h'.serves, h'.running, h'.opened, h'.registry, h'.limit, rfl⟩

theorem Idle.calls (hg : host.registry.Sound) (h : Idle host maxFrame s i c)
    {requests : List (Request F)} (hp : ∀ r ∈ requests, host.Passes maxFrame r) :
    (s.calls i c requests).1 = requests.map host.outcome := by
  induction requests generalizing s c with
  | nil => rfl
  | cons r rest ih =>
    rw [List.forall_mem_cons] at hp
    obtain ⟨c', s', hc, h'⟩ := h.call hg hp.1
    rw [Server.calls, hc, List.map_cons, ← ih h' hp.2]

end Server

end WireProtocol.Rpc
