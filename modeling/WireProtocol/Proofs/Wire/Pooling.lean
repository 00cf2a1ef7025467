import WireProtocol.Proofs.Wire.Closure
import WireProtocol.Proofs.Wire.Writing

namespace WireProtocol.Wire

variable {ε σ τ α β ι : Type}

def seen (view : σ → τ) : EStateM.Result ε σ α → EStateM.Result ε τ α
  | .ok a s => .ok a (view s)
  | .error e s => .error e (view s)

theorem seen_cases {view : σ → τ} {x y : EStateM.Result ε σ α} (h : seen view x = seen view y) :
    (∃ a s s', x = .ok a s ∧ y = .ok a s' ∧ view s = view s') ∨
      ∃ e s s', x = .error e s ∧ y = .error e s' ∧ view s = view s' := by
  cases x with
  | ok a s =>
    cases y with
    | ok a' s' =>
      obtain ⟨rfl, hs⟩ := EStateM.Result.ok.inj h
      exact .inl ⟨a, s, s', rfl, rfl, hs⟩
    | error e s' => cases h
  | error e s =>
    cases y with
    | ok a s' => cases h
    | error e' s' =>
      obtain ⟨rfl, hs⟩ := EStateM.Result.error.inj h
      exact .inr ⟨e, s, s', rfl, rfl, hs⟩

/-- States that look the same lead to results that look the same. -/
def DependsOn (view : σ → τ) (m : EStateM ε σ α) : Prop :=
  ∀ s s', view s = view s' → seen view (m s) = seen view (m s')

def Reader.view (r : Reader) : Nat × List UInt8 := (r.position, r.rest)

def Writer.view (w : Writer) : List UInt8 := w.bytes

namespace DependsOn

variable {view : σ → τ} {m m' : EStateM ε σ α}

theorem pure (a : α) : DependsOn view (Pure.pure a : EStateM ε σ α) := by
  intro s s' h
  exact congrArg (EStateM.Result.ok a) h

theorem throw (e : ε) : DependsOn view (throw e : EStateM ε σ α) := by
  intro s s' h
  exact congrArg (EStateM.Result.error e) h

theorem bind {f : α → EStateM ε σ β} (hm : DependsOn view m) (hf : ∀ a, DependsOn view (f a)) :
    DependsOn view (m >>= f) := by
  intro s s' h
  rcases seen_cases (hm s s' h) with ⟨a, t, t', hr, hr', ht⟩ | ⟨e, t, t', hr, hr', ht⟩
  · rw [bind_of_ok hr, bind_of_ok hr']
    exact hf a t t' ht
  · rw [bind_of_error hr, bind_of_error hr']
    exact congrArg (EStateM.Result.error e) ht

theorem ite {p : Prop} [Decidable p] (h : DependsOn view m) (h' : DependsOn view m') :
    DependsOn view (if p then m else m') := by
  split
  · exact h
  · exact h'

end DependsOn

namespace Read

theorem dependsOn_take (n : Nat) : DependsOn Reader.view (take n) := by
  intro r r' h
  obtain ⟨hp, hr⟩ := Prod.mk.inj h
  simp only [take, hr]
  split
  · simp [seen, Reader.view, hp]
  · simp [seen, Reader.view, hp, hr]

theorem dependsOn_fillWords (done : List UInt32) (n : Nat) :
    DependsOn Reader.view (fillWords done n) :=
  fillWords_of (P := DependsOn Reader.view) .pure .bind (dependsOn_take 4) done n

theorem seen_withMask (width : Nat) (use : Mask → Read α) (r : Reader) :
    seen Reader.view (withMask width use r) =
      seen Reader.view ((fillWords [] width >>= fun words => use ⟨words⟩)
        { r with pool := (Pool.lend r.pool width).2 }) := by
  simp only [withMask, Bind.bind, EStateM.bind]
  cases fillWords [] width { r with pool := (Pool.lend r.pool width).2 } with
  | error e t => rfl
  | ok words t =>
    dsimp only
    cases use ⟨words⟩ t <;> rfl

theorem dependsOn_withMask {width : Nat} {use : Mask → Read α}
    (h : ∀ mask, DependsOn Reader.view (use mask)) :
    DependsOn Reader.view (withMask width use) := by
  intro r r' hv
  rw [seen_withMask, seen_withMask]
  exact ((dependsOn_fillWords [] width).bind fun words => h ⟨words⟩) _ _ hv

theorem closed_dependsOn : Closed (DependsOn Reader.view) where
  pure := .pure
  throw := .throw
  bind := .bind
  take := dependsOn_take
  withMask _ _ := dependsOn_withMask

end Read

theorem Record.dependsOn_read {F : Family ι} (i : ι) :
    DependsOn Reader.view (Record.read (F := F) i) := by
  intro r r' hv
  have hl : r.rest.length = r'.rest.length := congrArg List.length (Prod.mk.inj hv).2
  simp only [Record.read, hl]
  exact Read.closed_dependsOn.readWithin _ i r r' hv

namespace Write

theorem dependsOn_put (bytes : List UInt8) : DependsOn Writer.view (put bytes) := by
  intro w w' h
  exact congrArg (fun before => EStateM.Result.ok () (before ++ bytes)) h

theorem seen_withMask (width : Nat) (present : List Bool) (use : Mask → Write) (w : Writer) :
    seen Writer.view (withMask width present use w) =
      seen Writer.view ((do each u32 ((Mask.new width).mark present).words
                            use ((Mask.new width).mark present) : Write)
        { w with pool := (Pool.lend w.pool width).2 }) := by
  simp only [withMask, Pool.lend_fst]
  split <;> next h => rw [h]; rfl

theorem dependsOn_withMask {width : Nat} {present : List Bool} {use : Mask → Write}
    (h : ∀ mask, DependsOn Writer.view (use mask)) :
    DependsOn Writer.view (withMask width present use) := by
  intro w w' hv
  rw [seen_withMask, seen_withMask]
  have hw (words : List UInt32) : DependsOn Writer.view (each u32 words) := by
    induction words with
    | nil => exact .pure _
    | cons word words ih => exact (dependsOn_put _).bind fun _ => ih
  exact ((hw _).bind fun _ => h _) _ _ hv

theorem closed_dependsOn : Closed (DependsOn Writer.view) where
  pure := .pure _
  throw := .throw
  bind hm hf := hm.bind fun _ => hf
  put := dependsOn_put
  withMask _ _ _ := dependsOn_withMask

end Write

end WireProtocol.Wire
