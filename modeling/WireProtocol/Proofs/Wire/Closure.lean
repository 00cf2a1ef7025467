import WireProtocol.Proofs.Wire.Depth
import WireProtocol.Wire.Registry

/-! Properties that pass through reads and writes. What holds of the steps of a read or write, and
of two in a row when it holds of both, holds of reading and writing each scalar and each record, and
each object whose handler does no more than that. -/

namespace WireProtocol.Wire

variable {α ι : Type} {F : Family ι}

inductive Error.OfInput : Error → Prop
  | unexpectedEnd (needed remaining : Nat) : OfInput (.unexpectedEnd needed remaining)
  | decode (fault : DecodeFault) : OfInput (.decode fault)
  | typeMismatch (expected : String) (actual : Actual) : OfInput (.typeMismatch expected actual)

namespace Read

theorem fillWords_of {P : {α : Type} → Read α → Prop}
    (hp : ∀ {α : Type} (a : α), P (Pure.pure a : Read α))
    (hb : ∀ {α β : Type} {m : Read α} {f : α → Read β}, P m → (∀ a, P (f a)) → P (m >>= f))
    (ht : P (take 4)) (done : List UInt32) (n : Nat) : P (fillWords done n) := by
  induction n generalizing done with
  | zero => exact hp _
  | succ n ih => exact hb (hb ht fun _ => hp _) fun word => ih _

/-- The property passes on from the steps of a read to the whole of it, which is refused for nothing
but its bytes. -/
structure Passes (P : {α : Type} → Read α → Prop) : Prop where
  pure {α : Type} (a : α) : P (Pure.pure a : Read α)
  refuse {α : Type} {e : Error} (h : e.OfInput) : P (throw e : Read α)
  bind {α β : Type} {m : Read α} {f : α → Read β} : P m → (∀ a, P (f a)) → P (m >>= f)
  take (n : Nat) : P (take n)
  withMask {α : Type} (width : Nat) {use : Mask → Read α} :
    (∀ mask, P (use mask)) → P (withMask width use)

structure Closed (P : {α : Type} → Read α → Prop) : Prop extends Passes P where
  throw {α : Type} (e : Error) : P (throw e : Read α)
  refuse _ := throw _

namespace Passes

variable {P : {α : Type} → Read α → Prop}

theorem map {α β : Type} (h : Passes P) (f : α → β) {m : Read α} (hm : P m) : P (f <$> m) := by
  rw [map_eq_pure_bind]
  exact h.bind hm fun a => h.pure (f a)

theorem ite {p : Prop} [Decidable p] {m m' : Read α} (hm : P m) (hm' : P m') :
    P (if p then m else m') := by
  split
  · exact hm
  · exact hm'

theorem u8 (h : Passes P) : P u8 := h.bind (h.take 1) fun _ => h.pure _

theorem u32 (h : Passes P) : P u32 := h.bind (h.take 4) fun _ => h.pure _

theorem u64 (h : Passes P) : P u64 := h.bind (h.take 8) fun _ => h.pure _

theorem i32 (h : Passes P) : P i32 := h.bind h.u32 fun _ => h.pure _

theorem i64 (h : Passes P) : P i64 := h.bind h.u64 fun _ => h.pure _

theorem bool (h : Passes P) : P bool := by
  apply h.bind h.u8
  intro b
  split
  · exact h.pure _
  · exact h.pure _
  · exact h.refuse (.decode _)

theorem length (h : Passes P) : P length :=
  h.bind h.i32 fun _ => ite (h.refuse (.decode _)) (h.pure _)

theorem bytes? (h : Passes P) : P bytes? :=
  h.bind h.i32 fun _ =>
    ite (h.pure _) (ite (h.refuse (.decode _)) (h.bind (h.take _) fun _ => h.pure _))

theorem text? (h : Passes P) : P text? := by
  apply h.bind h.bytes?
  intro bytes?
  cases bytes? with
  | none => exact h.pure _
  | some bytes =>
    dsimp only
    split
    · exact h.pure _
    · exact h.refuse (.decode _)

theorem times (h : Passes P) {one : Read α} (ho : P one) (n : Nat) : P (times one n) := by
  induction n with
  | zero => exact h.pure _
  | succ n ih => exact h.bind ho fun a => h.bind ih fun as => h.pure _

theorem scalar (h : Passes P) (s : Scalar) : P s.read := by
  cases s with
  | int32 => exact h.i32
  | int64 => exact h.i64
  | float => exact h.map _ h.u32
  | double => exact h.map _ h.u64
  | bool => exact h.bool
  | string => exact h.map _ h.text?
  | vector3 => exact h.bind h.u32 fun _ => h.bind h.u32 fun _ => h.bind h.u32 fun _ => h.pure _
  | dateTime => exact h.map _ h.i64

theorem nested? (h : Passes P) (layout : Layout ι) {message : Read α} (hm : P message) :
    P (layout.readNested? message) :=
  h.bind h.i32 fun _ =>
    ite (h.pure _) (ite (h.bind hm fun _ => h.pure _) (h.refuse (.typeMismatch _ _)))

theorem slots (h : Passes P) {message : (i : ι) → Read (Record F i)} (hm : ∀ i, P (message i))
    (mask : Mask) (k : Nat) (shapes : List (Shape ι)) : P (Slots.read message mask k shapes) := by
  induction shapes generalizing k with
  | nil => exact h.pure _
  | cons shape shapes ih =>
    have hr := ih (k + 1)
    cases shape with
    | single s =>
      rw [Slots.read_single]
      exact h.bind (ite (h.scalar s) (h.pure _)) fun v => h.map _ hr
    | repeated s =>
      rw [Slots.read_repeated]
      refine h.bind (ite ?_ (h.pure _)) fun vs => h.map _ hr
      exact h.bind h.length (h.times (h.scalar s))
    | nested i =>
      rw [Slots.read_nested]
      exact h.bind (ite (h.nested? (F i) (hm i)) (h.pure _)) fun r? => h.map _ hr
    | repeatedNested i =>
      rw [Slots.read_repeatedNested]
      refine h.bind (ite ?_ (h.pure _)) fun rs => h.map _ hr
      exact h.bind h.length (h.times (h.map _ (h.nested? (F i) (hm i))))

theorem readWithin (h : Passes P) (depth : Nat) (i : ι) :
    P (Record.readWithin (F := F) depth i) := by
  induction depth generalizing i with
  | zero => exact h.refuse (.unexpectedEnd _ _)
  | succ depth ih => exact h.withMask _ fun mask => h.map _ (h.slots ih mask 0 _)

end Passes

end Read

namespace Write

structure Closed (P : Write → Prop) : Prop where
  pure : P (pure ())
  throw (e : Error) : P (throw e)
  bind {m : Write} {f : Unit → Write} : P m → P (f ()) → P (m >>= f)
  put (bytes : List UInt8) : P (put bytes)
  withMask (width : Nat) (present : List Bool) {use : Mask → Write} :
    (∀ mask, P (use mask)) → P (withMask width present use)

namespace Closed

variable {P : Write → Prop}

theorem ite {p : Prop} [Decidable p] {m m' : Write} (hm : P m) (hm' : P m') :
    P (if p then m else m') := by
  split
  · exact hm
  · exact hm'

theorem length (h : Closed P) (n : Nat) : P (length n) := by
  rw [Write.length]
  exact ite (h.put _) (h.throw _)

theorem bytes? (h : Closed P) (bytes? : Option (List UInt8)) : P (Write.bytes? bytes?) := by
  cases bytes? with
  | none => exact h.put _
  | some bytes => exact h.bind (h.length _) (h.put _)

theorem each (h : Closed P) {one : α → Write} (ho : ∀ a, P (one a)) (as : List α) :
    P (each one as) := by
  induction as with
  | nil => exact h.pure
  | cons a as ih => exact h.bind (ho a) ih

theorem scalar (h : Closed P) (s : Scalar) (v : s.Value) : P (s.write v) := by
  cases s with
  | string => exact h.bytes? (some (Utf8.encode v))
  | vector3 => exact h.bind (h.put _) (h.bind (h.put _) (h.put _))
  | _ => exact h.put _

theorem present (h : Closed P) {p : Prop} [Decidable p] {m : Write} (hm : P m) {f : Unit → Write}
    (hf : P (f ())) : P (if p then m >>= f else f ()) :=
  ite (h.bind hm hf) hf

mutual

theorem record (h : Closed P) : {i : ι} → (r : Record F i) → P r.write
  | _, .mk slots => by
    rw [Record.write]
    exact h.withMask _ _ fun mask => h.slots mask 0 slots

theorem slots (h : Closed P) (mask : Mask) : (k : Nat) → {shapes : List (Shape ι)} →
    (slots : Slots F shapes) → P (slots.write mask k)
  | _, _, .nil => h.pure
  | k, _, .single (s := s) v rest => by
    rw [Slots.write]
    exact h.present (h.scalar s v) (h.slots mask (k + 1) rest)
  | k, _, .repeated (s := s) vs rest => by
    rw [Slots.write]
    exact h.present (h.bind (h.length _) (h.each (h.scalar s) vs)) (h.slots mask (k + 1) rest)
  | k, _, .absent rest => by
    rw [Slots.write]
    exact h.present (h.put _) (h.slots mask (k + 1) rest)
  | k, _, .nested r rest => by
    rw [Slots.write]
    have hr := h.slots mask (k + 1) rest
    exact ite (h.bind (h.put _) (h.bind (h.record r) hr)) hr
  | k, _, .repeatedNested rs rest => by
    rw [Slots.write]
    have hr := h.slots mask (k + 1) rest
    exact ite (h.bind (h.length _) (h.bind (h.records rs) hr)) hr

theorem records (h : Closed P) : {i : ι} → (rs : Records F i) → P rs.writeAll
  | _, .nil => h.pure
  | _, .cons r rs => h.bind (h.put _) (h.bind (h.record r) (h.records rs))

end

end Closed

end Write

namespace Handler

variable [DecidableEq ι]

inductive Standard : Handler F → Prop
  | scalar (s : Scalar) (tag : Int32) : Standard (.scalar s tag)
  | bytes (tag : Int32) : Standard (.bytes tag)
  | record (i : ι) : Standard (.record F i)

theorem Standard.write {P : Write → Prop} (hP : Write.Closed P) {h : Handler F} (hs : h.Standard)
    (o : Object F) : P (h.write o) := by
  cases hs with
  | scalar s tag =>
    cases o with
    | scalar t v =>
      by_cases ht : t = s
      · subst ht
        simp only [Handler.scalar, dif_pos]
        exact hP.scalar t v
      · simp only [Handler.scalar, dif_neg ht]
        exact hP.throw _
    | _ => exact hP.throw _
  | bytes tag =>
    cases o with
    | bytes b => exact hP.bytes? (some b)
    | _ => exact hP.throw _
  | record i =>
    cases o with
    | record j r =>
      by_cases hj : j = i
      · subst hj
        simp only [Handler.record, dif_pos]
        exact hP.record r
      · simp only [Handler.record, dif_neg hj]
        exact hP.throw _
    | _ => exact hP.throw _

theorem Standard.read {P : {α : Type} → Read α → Prop} (hP : Read.Closed P)
    (hr : ∀ i, P (Record.read (F := F) i)) {h : Handler F} (hs : h.Standard) : P h.read := by
  cases hs with
  | scalar s tag => exact hP.map _ (hP.scalar s)
  | bytes tag => exact hP.map _ hP.bytes?
  | record i => exact hP.map _ (hr i)

end Handler

namespace Registry

variable {g : Registry F}

theorem closed_readObject? {P : {α : Type} → Read α → Prop} (hP : Read.Closed P)
    (hg : ∀ h ∈ g.handlers, P h.read) : P g.readObject? := by
  refine hP.bind hP.i32 fun tag => Read.Passes.ite (hP.pure _) ?_
  split
  · next h hf => exact hP.map _ (hg h (List.mem_of_find?_eq_some hf))
  · exact hP.throw _

theorem closed_writeObject? [DecidableEq ι] {P : Write → Prop} (hP : Write.Closed P)
    (hg : ∀ h ∈ g.handlers, ∀ o, P (h.write o)) (o? : Option (Object F)) :
    P (g.writeObject? o?) := by
  cases o? with
  | none => exact hP.put _
  | some o =>
    rw [writeObject?]
    split
    · exact hP.throw _
    · next h hf => exact hP.bind (hP.put _) (hg h (List.mem_of_find?_eq_some hf) o)

end Registry

end WireProtocol.Wire
