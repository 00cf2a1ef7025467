import WireProtocol.Proofs.Rpc.Transparency

/-! Calls to a peer that answers each request with one frame. The responses carry nothing that says
which request they belong to, so all rests on what a call leaves in the inbox: nothing, whether it
succeeds or fails, unless the frame was too long to be read. -/

namespace WireProtocol.Rpc

open Wire

variable {ι : Type} [DecidableEq ι] {F : Family ι}

namespace Client

/-- One call of a peer that answers the request, if there is one, with the frame of a payload. -/
def turn (r : Request F) (answer : List UInt8) : Exchange F (Response F) := fun c =>
  match send r c with
  | .error e c => .error e c
  | .ok _ c => receive r.key (c.deliver (Frame.frame answer))

def turns (c : Client F) : List (Request F × List UInt8) → List (Except Error (Response F))
  | [] => []
  | (r, answer) :: rest =>
    match turn r answer c with
    | .error e c => .error e :: turns c rest
    | .ok response c => .ok response :: turns c rest

structure Settled (c c' : Client F) : Prop where
  registry : c'.registry = c.registry
  limit : c'.maxFrame = c.maxFrame
  inbox : c'.inbox = []

variable {c : Client F} {r : Request F} {answer : List UInt8}

theorem send_cases (r : Request F) (hi : c.inbox = []) :
    ∃ c', ((∃ frame, send r c = .ok frame c') ∨ ∃ e, send r c = .error e c') ∧ Settled c c' := by
  simp only [send]
  split
  · exact ⟨_, .inr ⟨_, rfl⟩, rfl, rfl, hi⟩
  · split
    · exact ⟨_, .inl ⟨_, rfl⟩, rfl, rfl, hi⟩
    · exact ⟨_, .inr ⟨_, rfl⟩, rfl, rfl, hi⟩

/-- The client reads the response from this payload, and no byte of it is left. -/
def Owns (c : Client F) (answer : List UInt8) (response : Response F) : Prop :=
  answer.length ≤ c.maxFrame ∧
    ∃ pool rest, Response.read c.registry (.new answer pool) = .ok response rest ∧
      rest.isEmpty = true

theorem turn_cases (r : Request F) (hi : c.inbox = []) (ha : answer.length < 2 ^ 32) :
    (∃ e c', turn r answer c = .error e c' ∧ Settled c c') ∨
    (∃ response c', turn r answer c = .ok response c' ∧ Settled c c' ∧ c.Owns answer response) ∨
    ∃ c', turn r answer c = .error (.payloadTooLarge answer.length c.maxFrame) c' ∧
      c.maxFrame < answer.length ∧ c'.inbox = answer := by
  obtain ⟨c', ⟨frame, hs⟩ | ⟨e, hs⟩, h⟩ := send_cases r hi
  · have ht : turn r answer c = receive r.key (deliver (Frame.frame answer) c') := by
      simp only [turn, hs]
    have hb : (deliver (Frame.frame answer) c').inbox = Frame.frame answer := by
      rw [deliver, h.inbox, List.nil_append]
    rcases Nat.lt_or_ge c'.maxFrame answer.length with hm | hm
    · rw [receive_of_lt (c := deliver (Frame.frame answer) c') ha hm hb] at ht
      exact .inr (.inr ⟨_, h.limit ▸ ht, h.limit ▸ hm, rfl⟩)
    rw [receive_of_fits (c := deliver (Frame.frame answer) c') ha hm hb] at ht
    split at ht
    · exact .inl ⟨_, _, ht, h.registry, h.limit, rfl⟩
    next response rest hr =>
    split at ht
    · next he =>
      have hown : c.Owns answer response :=
        ⟨h.limit ▸ hm, c'.pool, rest, h.registry ▸ hr, he⟩
      exact .inr (.inl ⟨_, _, ht, ⟨h.registry, h.limit, rfl⟩, hown⟩)
    · exact .inl ⟨_, _, ht, h.registry, h.limit, rfl⟩
  · exact .inl ⟨e, c', by simp only [turn, hs], h⟩

theorem turns_cons (r : Request F) (hi : c.inbox = []) (ha : answer.length < 2 ^ 32)
    (rest : List (Request F × List UInt8)) :
    ∃ result c', c.turns ((r, answer) :: rest) = result :: c'.turns rest ∧
      (∀ response, result = .ok response → c.Owns answer response) ∧
      (Settled c c' ∨ result = .error (.payloadTooLarge answer.length c.maxFrame)) := by
  rcases turn_cases r hi ha with ⟨e, c', ht, h⟩ | ⟨own, c', ht, h, hown⟩ | ⟨c', ht, -⟩
  · refine ⟨.error e, c', by simp only [turns, ht], fun response hr => ?_, .inl h⟩
    cases hr
  · refine ⟨.ok own, c', by simp only [turns, ht], fun response hr => ?_, .inl h⟩
    cases hr
    exact hown
  · refine ⟨_, c', by simp only [turns, ht], fun response hr => ?_, .inr rfl⟩
    cases hr

/-- As long as no frame was too long, what a call returns is read from the answer to it, whatever
became of the calls before. -/
theorem turns_own {c : Client F} (hi : c.inbox = []) {calls : List (Request F × List UInt8)}
    (ha : ∀ call ∈ calls, call.2.length < 2 ^ 32) {j : Nat} {r : Request F} {answer : List UInt8}
    (hj : calls[j]? = some (r, answer)) {response : Response F}
    (hr : (c.turns calls)[j]? = some (.ok response))
    (hfits : ∀ k < j, ∀ n max, (c.turns calls)[k]? ≠ some (.error (.payloadTooLarge n max))) :
    c.Owns answer response := by
  induction calls generalizing c j with
  | nil => cases hj
  | cons call calls ih =>
    rw [List.forall_mem_cons] at ha
    obtain ⟨result, c', ht, hown, hsettled⟩ := turns_cons call.1 hi ha.1 calls
    rw [ht] at hr hfits
    cases j with
    | zero =>
      cases hj
      exact hown response (Option.some.inj hr)
    | succ j =>
      rcases hsettled with h | rfl
      · rw [Owns, ← h.registry, ← h.limit]
        exact ih h.inbox ha.2 hj hr fun k hk => hfits (k + 1) (Nat.succ_lt_succ hk)
      · exact absurd rfl (hfits 0 (Nat.succ_pos j) _ _)

end Client

def terse : Client chain where
  registry := relay.registry
  maxFrame := 10

theorem turns_own_terse :
    let calls : List (Request chain × List UInt8) :=
      [(⟨"S.M", none⟩, [0, 255, 255, 255, 255, 9]), (⟨"S.M", none⟩, [0, 255, 255, 255, 255])]
    terse.inbox = [] ∧
      terse.turns calls = [.error (.trailingBytes 1 "S.M"), .ok (.ok none)] ∧
      terse.Owns [0, 255, 255, 255, 255] (.ok none) := by
  intro calls
  have hc : calls[1]? = some (⟨"S.M", none⟩, [0, 255, 255, 255, 255]) := rfl
  have hr : terse.turns calls = [.error (.trailingBytes 1 "S.M"), .ok (.ok none)] := rfl
  refine ⟨rfl, hr, Client.turns_own rfl ?_ hc (by rw [hr]; rfl) fun k hk n max => ?_⟩
  · simp [calls]
  · obtain rfl : k = 0 := Nat.lt_one_iff.1 hk
    rw [hr]
    exact nofun

/-- The first answer is too long, and begins like a frame with the null object; the second call
returns this object, though the answer to it is a failure. -/
theorem turns_astray :
    let calls : List (Request chain × List UInt8) :=
      [(⟨"S.M", none⟩, [5, 0, 0, 0, 0, 255, 255, 255, 255, 0, 0]),
        (⟨"S.M", none⟩, [1, 3, 0, 0, 0, 255, 255, 255, 255])]
    terse.turns calls = [.error (.payloadTooLarge 11 10), .ok (.ok none)] ∧
      ¬ terse.Owns [1, 3, 0, 0, 0, 255, 255, 255, 255] (.ok none) := by
  refine ⟨rfl, ?_⟩
  rintro ⟨-, pool, rest, hr, -⟩
  have he : Response.read terse.registry (.new [1, 3, 0, 0, 0, 255, 255, 255, 255] pool) =
    .ok (.err ⟨.badRequest, ""⟩) ⟨9, [], pool⟩ := rfl
  cases he.symm.trans hr

end WireProtocol.Rpc
