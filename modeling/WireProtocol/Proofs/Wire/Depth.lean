import WireProtocol.Proofs.Wire.ScalarForm

namespace WireProtocol.Wire

variable {α β ι : Type} {F : Family ι}

namespace Read

def AlikeBelow (n : Nat) (m m' : Read α) : Prop := ∀ r : Reader, r.rest.length < n → m r = m' r

def Consumes (n : Nat) (m : Read α) : Prop := Yields m fun bytes _ => n ≤ bytes.length

namespace Consumes

variable {n : Nat} {m m' : Read α} {f : α → Read β}

theorem pure (a : α) : Consumes 0 (Pure.pure a : Read α) := Yields.pure (Nat.zero_le _)

theorem of_yields {P : List UInt8 → α → Prop} (h : Yields m P) : Consumes 0 m :=
  h.mono fun _ _ _ => Nat.zero_le _

theorem bind (hm : Consumes 0 m) (hf : ∀ a, Consumes 0 (f a)) : Consumes 0 (m >>= f) :=
  Yields.bind hm fun _ a _ => (hf a).mono fun _ _ _ => Nat.zero_le _

theorem map (f : α → β) (hm : Consumes n m) : Consumes n (f <$> m) := Yields.map hm

theorem ite {p : Prop} [Decidable p] (h : Consumes n m) (h' : Consumes n m') :
    Consumes n (if p then m else m') := by
  split
  · exact h
  · exact h'

theorem times (hm : Consumes 0 m) (k : Nat) : Consumes 0 (times m k) := by
  induction k with
  | zero => exact .pure _
  | succ k ih => exact .bind hm fun a => ih.bind fun as => .pure _

theorem i32 : Consumes 4 i32 := yields_i32.mono fun bytes x h => by simp [h]

end Consumes

namespace AlikeBelow

variable {n c : Nat} {m m' : Read α} {f f' : α → Read β}

theorem refl (m : Read α) : AlikeBelow n m m := fun _ _ => rfl

theorem bind (hm : AlikeBelow (n + c) m m') (hc : Consumes c m)
    (hf : ∀ a, AlikeBelow n (f a) (f' a)) : AlikeBelow (n + c) (m >>= f) (m' >>= f') := by
  intro r hr
  have hm' := hm r hr
  cases hr' : m r with
  | error e r' => rw [bind_of_error hr', bind_of_error (hm' ▸ hr')]
  | ok a r' =>
    obtain ⟨bytes, hb, hl⟩ := hc r a r' hr'
    rw [bind_of_ok hr', bind_of_ok (hm' ▸ hr')]
    apply hf a r'
    simp only [hb, List.length_append] at hr
    omega

theorem map (f : α → β) (hm : AlikeBelow n m m') : AlikeBelow n (f <$> m) (f <$> m') := by
  intro r hr
  simp only [Functor.map, EStateM.map, hm r hr]

theorem ite {p : Prop} [Decidable p] {m₁ m₁' m₂ m₂' : Read α} (h₁ : AlikeBelow n m₁ m₁')
    (h₂ : AlikeBelow n m₂ m₂') : AlikeBelow n (if p then m₁ else m₂) (if p then m₁' else m₂') := by
  split
  · exact h₁
  · exact h₂

theorem times (hm : AlikeBelow n m m') (hc : Consumes 0 m) (k : Nat) :
    AlikeBelow n (times m k) (times m' k) := by
  induction k with
  | zero => exact .refl _
  | succ k ih =>
    apply AlikeBelow.bind (c := 0) hm hc
    intro a
    simp only [bind_pure_comp]
    exact ih.map _

theorem withMask {width : Nat} {use use' : Mask → Read α}
    (h : ∀ mask, AlikeBelow n (use mask) (use' mask)) :
    AlikeBelow n (withMask width use) (withMask width use') := by
  intro r hr
  simp only [Read.withMask]
  split
  · rfl
  · next words r₁ hw =>
    obtain ⟨bytes, hb, -⟩ := yields_fillWords [] width _ _ _ hw
    have hl : r₁.rest.length < n := by
      have hb := congrArg List.length hb
      simp only [List.length_append] at hb
      omega
    rw [h ⟨words⟩ r₁ hl]

end AlikeBelow

end Read

def Slots.nest {i : ι} {shapes : List (Shape ι)} :
    Option (Record F i) → Slots F shapes → Slots F (.nested i :: shapes)
  | none, rest => .absent rest
  | some r, rest => .nested r rest

namespace Slots

variable (message : (i : ι) → Read (Record F i)) (mask : Mask) (k : Nat) (shapes : List (Shape ι))

theorem read_single (s : Scalar) :
    Slots.read message mask k (.single s :: shapes) =
      (if mask.contains k then s.read else pure s.zero) >>= fun v =>
        .single v <$> Slots.read message mask (k + 1) shapes := by
  rw [Slots.read]
  split <;> rfl

theorem read_repeated (s : Scalar) :
    Slots.read message mask k (.repeated s :: shapes) =
      (if mask.contains k then s.readMany else pure []) >>= fun vs =>
        .repeated vs <$> Slots.read message mask (k + 1) shapes := by
  rw [Slots.read]
  split <;> rfl

theorem read_nested (i : ι) :
    Slots.read message mask k (.nested i :: shapes) =
      (if mask.contains k then (F i).readNested? (message i) else pure none) >>= fun r? =>
        nest r? <$> Slots.read message mask (k + 1) shapes := by
  rw [Slots.read]
  split <;> (congr 1; funext r?; cases r? <;> rfl)

theorem read_repeatedNested (i : ι) :
    Slots.read message mask k (.repeatedNested i :: shapes) =
      (if mask.contains k then
          Read.length >>= Read.times ((·.getD (.zero i)) <$> (F i).readNested? (message i))
        else pure []) >>= fun rs =>
        .repeatedNested (.ofList rs) <$> Slots.read message mask (k + 1) shapes := by
  rw [Slots.read]
  split
  · rw [bind_assoc]
    rfl
  · rfl

end Slots

section Alike

open Read

variable {n : Nat} {message message' : (i : ι) → Read (Record F i)}

theorem Layout.consumes_readNested? (layout : Layout ι) {m : Read α} (h : Consumes 0 m) :
    Consumes 0 (layout.readNested? m) :=
  Consumes.bind (.of_yields yields_i32) fun _ =>
    .ite (.pure none) (.ite (h.bind fun r => .pure (some r)) (Yields.throw _))

theorem Layout.alikeBelow_readNested? (layout : Layout ι) {m m' : Read α} (h : AlikeBelow n m m')
    (hc : Consumes 0 m) : AlikeBelow (n + 4) (layout.readNested? m) (layout.readNested? m') :=
  AlikeBelow.bind (.refl _) .i32 fun _ =>
    .ite (.refl _) (.ite (AlikeBelow.bind (c := 0) h hc fun _ => .refl _) (.refl _))

theorem Slots.consumes_read (hc : ∀ i, Consumes 0 (message i)) (mask : Mask) (k : Nat)
    (shapes : List (Shape ι)) : Consumes 0 (Slots.read message mask k shapes) := by
  induction shapes generalizing k with
  | nil => exact .pure _
  | cons shape shapes ih =>
    have hr := ih (k + 1)
    cases shape with
    | single s =>
      rw [Slots.read_single]
      exact .bind (.ite (.of_yields s.yields_read) (.pure _)) fun v => hr.map _
    | repeated s =>
      rw [Slots.read_repeated]
      refine .bind (.ite ?_ (.pure _)) fun vs => hr.map _
      exact .bind (.of_yields yields_length) fun n => .times (.of_yields s.yields_read) n
    | nested i =>
      rw [Slots.read_nested]
      exact .bind (.ite ((F i).consumes_readNested? (hc i)) (.pure _)) fun r? => hr.map _
    | repeatedNested i =>
      rw [Slots.read_repeatedNested]
      refine .bind (.ite ?_ (.pure _)) fun rs => hr.map _
      refine .bind (.of_yields yields_length) fun n => .times (.map _ ?_) n
      exact (F i).consumes_readNested? (hc i)

theorem Slots.alikeBelow_read (h : ∀ i, AlikeBelow n (message i) (message' i))
    (hc : ∀ i, Consumes 0 (message i)) (mask : Mask) (k : Nat) (shapes : List (Shape ι)) :
    AlikeBelow (n + 4) (Slots.read message mask k shapes) (Slots.read message' mask k shapes) := by
  induction shapes generalizing k with
  | nil => exact .refl _
  | cons shape shapes ih =>
    have hr := ih (k + 1)
    cases shape with
    | single s =>
      rw [Slots.read_single, Slots.read_single]
      refine AlikeBelow.bind (c := 0) (.refl _) ?_ fun v => hr.map _
      exact .ite (.of_yields s.yields_read) (.pure _)
    | repeated s =>
      rw [Slots.read_repeated, Slots.read_repeated]
      refine AlikeBelow.bind (c := 0) (.refl _) (.ite ?_ (.pure _)) fun vs => hr.map _
      exact .bind (.of_yields yields_length) fun n => .times (.of_yields s.yields_read) n
    | nested i =>
      rw [Slots.read_nested, Slots.read_nested]
      have hn := (F i).alikeBelow_readNested? (h i) (hc i)
      refine AlikeBelow.bind (c := 0) (.ite hn (.refl _)) ?_ fun r? => hr.map _
      exact .ite ((F i).consumes_readNested? (hc i)) (.pure _)
    | repeatedNested i =>
      rw [Slots.read_repeatedNested, Slots.read_repeatedNested]
      have hn := (F i).alikeBelow_readNested? (h i) (hc i)
      have hcn := (F i).consumes_readNested? (hc i)
      refine AlikeBelow.bind (c := 0) (.ite ?_ (.refl _)) (.ite ?_ (.pure _)) fun rs => hr.map _
      · exact AlikeBelow.bind (c := 0) (.refl _) (.of_yields yields_length) fun k =>
          (hn.map _).times (hcn.map _) k
      · exact .bind (.of_yields yields_length) fun k => .times (hcn.map _) k

theorem Record.consumes_readWithin (depth : Nat) (i : ι) :
    Consumes 0 (Record.readWithin (F := F) depth i) := by
  induction depth generalizing i with
  | zero => exact Yields.throw _
  | succ depth ih =>
    apply yields_withMask
    intro mask _
    exact (Consumes.map _ (Slots.consumes_read ih mask 0 _)).mono fun _ _ _ => Nat.zero_le _

theorem Record.readWithin_alike (depth depth' : Nat) (i : ι) {n : Nat} (h : n ≤ 4 * depth)
    (h' : n ≤ 4 * depth') :
    AlikeBelow n (Record.readWithin (F := F) depth i) (Record.readWithin depth' i) := by
  induction depth generalizing depth' i n with
  | zero =>
    intro r hr
    omega
  | succ depth ih =>
    cases depth' with
    | zero =>
      intro r hr
      omega
    | succ depth' =>
      refine AlikeBelow.withMask fun mask => AlikeBelow.map _ ?_
      intro r hr
      have hs := fun i => ih depth' i (n := n - 4) (by omega) (by omega)
      exact Slots.alikeBelow_read hs (Record.consumes_readWithin depth) mask 0 _ r (by omega)

theorem Record.read_eq (i : ι) :
    Record.read (F := F) i = Read.withMask (F i).maskWords fun mask =>
      .mk <$> Slots.read Record.read mask 0 (F i).fields := by
  funext r
  have ha (j : ι) : AlikeBelow (r.rest.length - 3)
      (Record.readWithin (F := F) (r.rest.length / 4) j) (Record.read j) := by
    intro r' hr'
    have hn := Record.readWithin_alike (F := F) (r.rest.length / 4) (r'.rest.length / 4 + 1) j
      (n := r'.rest.length + 1)
    exact hn (by omega) (by omega) r' (by omega)
  have hw : AlikeBelow (r.rest.length - 3 + 4)
      (Record.readWithin (F := F) (r.rest.length / 4 + 1) i)
      (Read.withMask (F i).maskWords fun mask =>
        .mk <$> Slots.read Record.read mask 0 (F i).fields) :=
    AlikeBelow.withMask fun mask =>
      (Slots.alikeBelow_read ha (Record.consumes_readWithin _) mask 0 _).map _
  exact hw r (by omega)

end Alike

end WireProtocol.Wire
