import WireProtocol.Proofs.Bytes
import WireProtocol.Wire.Scalar

/-! What reads accept. `Takes` says which bytes a read takes whatever follows them, and that a part
of them is too little; `Yields` says what the bytes were, once a read has succeeded. Both follow the
way a read is put together. -/

namespace WireProtocol.Wire

variable {α β : Type}

def Mask.bytes (m : Mask) : List UInt8 := m.words.flatMap LittleEndian.ofUInt32

section

variable {ε σ : Type} {m : EStateM ε σ α} {s s' : σ} {a : α} {e : ε}

theorem bind_of_ok {f : α → EStateM ε σ β} (h : m s = .ok a s') : (m >>= f) s = f a s' := by
  simp [bind, EStateM.bind, h]

theorem bind_of_error {f : α → EStateM ε σ β} (h : m s = .error e s') :
    (m >>= f) s = .error e s' := by
  simp [bind, EStateM.bind, h]

theorem exists_of_bind_eq_ok {f : α → EStateM ε σ β} {b : β} (h : (m >>= f) s = .ok b s') :
    ∃ a t, m s = .ok a t ∧ f a t = .ok b s' := by
  cases hm : m s with
  | ok a t =>
    rw [bind_of_ok hm] at h
    exact ⟨a, t, rfl, h⟩
  | error e t =>
    rw [bind_of_error hm] at h
    cases h

theorem map_of_ok {f : α → β} (h : m s = .ok a s') : (f <$> m) s = .ok (f a) s' := by
  simp [Functor.map, EStateM.map, h]

theorem map_of_error {f : α → β} (h : m s = .error e s') : (f <$> m) s = .error e s' := by
  simp [Functor.map, EStateM.map, h]

end

/-- The read takes just these bytes, whatever follows them, and gives the value. -/
def Accepts {ε : Type} (m : EStateM ε Reader α) (bytes : List UInt8) (a : α) : Prop :=
  ∀ position rest pool, ∃ pool',
    m ⟨position, bytes ++ rest, pool⟩ = .ok a ⟨position + bytes.length, rest, pool'⟩

namespace Accepts

variable {ε : Type} {m : EStateM ε Reader α} {left right bytes : List UInt8} {a : α} {b : β}

theorem pure (a : α) : Accepts (Pure.pure a : EStateM ε Reader α) [] a :=
  fun _ _ pool => ⟨pool, rfl⟩

theorem bind {f : α → EStateM ε Reader β} (hm : Accepts m left a) (hf : Accepts (f a) right b) :
    Accepts (m >>= f) (left ++ right) b := by
  intro position rest pool
  obtain ⟨pool', h⟩ := hm position (right ++ rest) pool
  obtain ⟨pool'', h'⟩ := hf (position + left.length) rest pool'
  refine ⟨pool'', ?_⟩
  rw [List.append_assoc, bind_of_ok h, h', List.length_append, Nat.add_assoc]

theorem alone (h : Accepts m bytes a) (position : Nat) (pool : Option Pool) :
    ∃ pool', m ⟨position, bytes, pool⟩ = .ok a ⟨position + bytes.length, [], pool'⟩ := by
  have ha := h position [] pool
  rwa [List.append_nil] at ha

theorem map (f : α → β) (h : Accepts m bytes a) : Accepts (f <$> m) bytes (f a) :=
  fun position rest pool =>
    let ⟨pool', he⟩ := h position rest pool
    ⟨pool', map_of_ok he⟩

theorem bind_pure {f : α → EStateM ε Reader β} (hm : Accepts m bytes a) (hf : f a = Pure.pure b) :
    Accepts (m >>= f) bytes b := by
  have h := hm.bind (f := f) (hf ▸ Accepts.pure b)
  rwa [List.append_nil] at h

end Accepts

namespace Read

/-- The read accepts the bytes, and of less than all of them says that the input ends. -/
structure Takes (m : Read α) (bytes : List UInt8) (a : α) : Prop where
  whole : Accepts m bytes a
  part : ∀ position pool part, part <+: bytes → part ≠ bytes →
    ∃ needed remaining r, m ⟨position, part, pool⟩ = .error (.unexpectedEnd needed remaining) r

namespace Takes

theorem pure (a : α) : Takes (Pure.pure a) [] a where
  whole := .pure a
  part _ _ _ hp hne := absurd (List.prefix_nil.1 hp) hne

theorem bind {m : Read α} {f : α → Read β} {left right : List UInt8} {a : α} {b : β}
    (hm : Takes m left a) (hf : Takes (f a) right b) : Takes (m >>= f) (left ++ right) b where
  whole := hm.whole.bind hf.whole
  part position pool part hp hne := by
    rcases List.prefix_or_prefix_of_prefix hp (List.prefix_append left right) with hl | ⟨tail, rfl⟩
    · by_cases he : part = left
      · -- The first read takes all there is, and the second meets the end at once.
        have hr : right ≠ [] := fun h => hne (by simp [he, h])
        obtain ⟨pool', h⟩ := hm.whole.alone position pool
        obtain ⟨needed, remaining, r, h'⟩ := hf.part _ pool' [] List.nil_prefix hr.symm
        exact ⟨needed, remaining, r, by rw [he, bind_of_ok h, h']⟩
      · obtain ⟨needed, remaining, r, h⟩ := hm.part position pool part hl he
        exact ⟨needed, remaining, r, bind_of_error h⟩
    · have ht : tail <+: right := (List.prefix_append_right_inj left).1 hp
      have htr : tail ≠ right := fun h => hne (by rw [h])
      obtain ⟨pool', h⟩ := hm.whole position tail pool
      obtain ⟨needed, remaining, r, h'⟩ := hf.part _ pool' tail ht htr
      exact ⟨needed, remaining, r, by rw [bind_of_ok h, h']⟩

theorem map {m : Read α} {bytes : List UInt8} {a : α} (f : α → β) (h : Takes m bytes a) :
    Takes (f <$> m) bytes (f a) where
  whole := h.whole.map f
  part position pool part hp hne :=
    let ⟨needed, remaining, r, he⟩ := h.part position pool part hp hne
    ⟨needed, remaining, r, map_of_error he⟩

theorem bind_pure {m : Read α} {f : α → Read β} {bytes : List UInt8} {a : α} {b : β}
    (hm : Takes m bytes a) (hf : f a = Pure.pure b) : Takes (m >>= f) bytes b := by
  have h := hm.bind (f := f) (hf ▸ Takes.pure b)
  rwa [List.append_nil] at h

theorem inj {m : Read α} {x y s t : List UInt8} {a b : α} (hx : Takes m x a) (hy : Takes m y b)
    (h : x ++ s = y ++ t) : x = y ∧ a = b ∧ s = t := by
  obtain ⟨pool, hx⟩ := hx.whole 0 s none
  obtain ⟨pool', hy⟩ := hy.whole 0 t none
  rw [h, hy] at hx
  obtain ⟨rfl, hr⟩ := EStateM.Result.ok.inj hx
  obtain rfl : t = s := congrArg Reader.rest hr
  exact ⟨List.append_cancel_right h, rfl, rfl⟩

end Takes

theorem takes_take (bytes : List UInt8) : Takes (take bytes.length) bytes bytes where
  whole position rest pool := ⟨pool, by simp [take]⟩
  part position pool part hp hne := by
    have hlt : part.length < bytes.length :=
      Nat.lt_of_le_of_ne hp.length_le fun h => hne (hp.eq_of_length h)
    exact ⟨bytes.length, part.length, ⟨position, part, pool⟩, by simp [take, Nat.not_le.2 hlt]⟩

theorem takes_u8 (b : UInt8) : Takes u8 [b] b :=
  (takes_take [b]).bind_pure (by simp [LittleEndian.value])

theorem takes_u32 (x : UInt32) : Takes u32 (LittleEndian.ofUInt32 x) x := by
  have h := takes_take (LittleEndian.ofUInt32 x)
  rw [LittleEndian.length_ofUInt32] at h
  exact h.bind_pure (by simp)

theorem takes_u64 (x : UInt64) : Takes u64 (LittleEndian.ofUInt64 x) x := by
  have h := takes_take (LittleEndian.ofUInt64 x)
  rw [LittleEndian.length_ofUInt64] at h
  exact h.bind_pure (by simp)

theorem takes_i32 (x : Int32) : Takes i32 (LittleEndian.ofUInt32 x.toUInt32) x :=
  (takes_u32 x.toUInt32).bind_pure (by simp)

theorem takes_i64 (x : Int64) : Takes i64 (LittleEndian.ofUInt64 x.toUInt64) x :=
  (takes_u64 x.toUInt64).bind_pure (by simp)

theorem takes_bool (x : Bool) : Takes bool [if x then 1 else 0] x := by
  cases x <;> exact (takes_u8 _).bind_pure rfl

theorem toInt_ofNat {n : Nat} (h : n ≤ maxLength) : (UInt32.ofNat n).toInt32.toInt = n := by
  simp only [maxLength] at h
  have ht : (UInt32.ofNat n).toInt32.toBitVec.toNat = n := by
    simp
    omega
  rw [Int32.toInt, BitVec.toInt_eq_toNat_cond, ht]
  omega

theorem not_ofNat_neg {n : Nat} (h : n ≤ maxLength) : ¬ (UInt32.ofNat n).toInt32 < 0 := by
  rw [Int32.lt_iff_toInt_lt, toInt_ofNat h]
  simp

theorem takes_length {n : Nat} (h : n ≤ maxLength) :
    Takes length (LittleEndian.ofUInt32 (UInt32.ofNat n)) n := by
  apply (takes_i32 (UInt32.ofNat n).toInt32).bind_pure
  rw [if_neg (not_ofNat_neg h), toInt_ofNat h, Int.toNat_natCast]

theorem takes_bytes?_none : Takes bytes? (LittleEndian.ofUInt32 (-1)) none :=
  (takes_i32 (-1)).bind_pure (by simp)

theorem takes_bytes?_some {bytes : List UInt8} (h : bytes.length ≤ maxLength) :
    Takes bytes? (LittleEndian.ofUInt32 (UInt32.ofNat bytes.length) ++ bytes) (some bytes) := by
  apply (takes_i32 (UInt32.ofNat bytes.length).toInt32).bind
  have hn := not_ofNat_neg h
  have hm : (UInt32.ofNat bytes.length).toInt32 ≠ -1 := fun he => hn (by rw [he]; decide)
  rw [if_neg hm, if_neg hn, toInt_ofNat h, Int.toNat_natCast]
  exact (takes_take bytes).bind_pure rfl

theorem takes_text?_none : Takes text? (LittleEndian.ofUInt32 (-1)) none :=
  takes_bytes?_none.bind_pure rfl

theorem takes_text?_some {s : String} (h : (Utf8.encode s).length ≤ maxLength) :
    Takes text? (LittleEndian.ofUInt32 (UInt32.ofNat (Utf8.encode s).length) ++ Utf8.encode s)
      (some s) :=
  (takes_bytes?_some h).bind_pure (by simp)

theorem takes_times {γ : Type} {one : Read α} {bytes : γ → List UInt8} {value : γ → α}
    (cs : List γ) (h : ∀ c ∈ cs, Takes one (bytes c) (value c)) :
    Takes (times one cs.length) (cs.flatMap bytes) (cs.map value) := by
  induction cs with
  | nil => exact .pure []
  | cons c cs ih =>
    have hc := h c List.mem_cons_self
    have hcs := ih fun c hc => h c (List.mem_cons_of_mem _ hc)
    exact hc.bind (hcs.bind_pure rfl)

theorem takes_fillWords (done words : List UInt32) :
    Takes (fillWords done words.length) (words.flatMap LittleEndian.ofUInt32) (done ++ words) := by
  induction words generalizing done with
  | nil =>
    rw [List.append_nil]
    exact .pure done
  | cons word words ih =>
    have hw := ih (done ++ [word])
    rw [List.append_assoc] at hw
    exact (takes_u32 word).bind hw

theorem withMask_of_bind_error {width : Nat} {use : Mask → Read α} {r r' : Reader} {e : Error}
    (h : (fillWords [] width >>= fun words => use ⟨words⟩)
      { r with pool := (Pool.lend r.pool width).2 } = .error e r') :
    ∃ r'', withMask width use r = .error e r'' := by
  simp only [withMask]
  cases hw : fillWords [] width { r with pool := (Pool.lend r.pool width).2 } with
  | error e' r₁ =>
    rw [bind_of_error hw] at h
    cases h
    exact ⟨_, rfl⟩
  | ok words r₁ =>
    rw [bind_of_ok hw] at h
    simp only [h]
    exact ⟨_, rfl⟩

theorem takes_withMask {use : Mask → Read α} {mask : Mask} {bytes : List UInt8} {a : α}
    (h : Takes (use mask) bytes a) :
    Takes (withMask mask.width use) (mask.bytes ++ bytes) a where
  whole position rest pool := by
    obtain ⟨pool₁, hw⟩ := (takes_fillWords [] mask.words).whole position (bytes ++ rest)
      (Pool.lend pool mask.width).2
    obtain ⟨pool₂, hu⟩ := h.whole (position + mask.bytes.length) rest pool₁
    refine ⟨Pool.giveBack pool₂ mask, ?_⟩
    rw [List.append_assoc, List.length_append, ← Nat.add_assoc]
    simp only [withMask, Mask.width, Mask.bytes] at hw hu ⊢
    rw [hw]
    simp only [List.nil_append, hu]
  part position pool part hp hne := by
    have hb := (takes_fillWords [] mask.words).bind (f := fun words => use ⟨words⟩) h
    obtain ⟨needed, remaining, r, he⟩ := hb.part position (Pool.lend pool mask.width).2 part hp hne
    exact ⟨needed, remaining, withMask_of_bind_error he⟩

/-- Once the read has succeeded, what it took stands in this relation to the value. -/
def Yields (m : Read α) (P : List UInt8 → α → Prop) : Prop :=
  ∀ r a r', m r = .ok a r' → ∃ bytes, r.rest = bytes ++ r'.rest ∧ P bytes a

namespace Yields

variable {m : Read α} {f : α → Read β} {P : List UInt8 → α → Prop} {Q : List UInt8 → β → Prop}

theorem pure {a : α} (h : P [] a) : Yields (Pure.pure a) P := by
  intro r b r' hr
  cases hr
  exact ⟨[], rfl, h⟩

theorem throw (e : Error) : Yields (throw e : Read α) P := by
  intro r a r' h
  cases h

theorem mono {P' : List UInt8 → α → Prop} (h : Yields m P)
    (hP : ∀ bytes a, P bytes a → P' bytes a) : Yields m P' := by
  intro r a r' hm
  obtain ⟨bytes, hr, hp⟩ := h r a r' hm
  exact ⟨bytes, hr, hP bytes a hp⟩

theorem bind (hm : Yields m P)
    (hf : ∀ left a, P left a → Yields (f a) fun right => Q (left ++ right)) :
    Yields (m >>= f) Q := by
  intro r b r'' h
  cases hr : m r with
  | error e r' => rw [bind_of_error hr] at h; cases h
  | ok a r' =>
    rw [bind_of_ok hr] at h
    obtain ⟨left, hl, hp⟩ := hm r a r' hr
    obtain ⟨right, hr', hq⟩ := hf left a hp r' b r'' h
    exact ⟨left ++ right, by rw [hl, hr', List.append_assoc], hq⟩

theorem map {g : α → β} (hm : Yields m fun bytes a => Q bytes (g a)) : Yields (g <$> m) Q := by
  intro r b r' h
  cases hr : m r with
  | error e r₁ => rw [map_of_error hr] at h; cases h
  | ok a r₁ =>
    rw [map_of_ok hr] at h
    cases h
    exact hm r a r' hr

theorem image {g : α → β} (hm : Yields m P) :
    Yields (g <$> m) fun bytes b => ∃ a, P bytes a ∧ g a = b :=
  map (hm.mono fun _ a h => ⟨a, h, rfl⟩)

end Yields

theorem yields_take (n : Nat) : Yields (take n) fun bytes a => bytes.length = n ∧ a = bytes := by
  intro r a r' h
  simp only [take] at h
  split at h
  · next hn =>
    cases h
    exact ⟨r.rest.take n, (List.take_append_drop n r.rest).symm, List.length_take_of_le hn, rfl⟩
  · cases h

theorem yields_u8 : Yields u8 fun bytes b => bytes = [b] := by
  apply (yields_take 1).bind
  rintro left a ⟨hl, rfl⟩
  obtain ⟨b, rfl⟩ := List.length_eq_one_iff.1 hl
  exact .pure (by simp [LittleEndian.value])

theorem yields_u32 : Yields u32 fun bytes x => bytes = LittleEndian.ofUInt32 x := by
  apply (yields_take 4).bind
  rintro left a ⟨hl, rfl⟩
  exact .pure (by rw [List.append_nil, LittleEndian.ofUInt32_toUInt32 hl])

theorem yields_u64 : Yields u64 fun bytes x => bytes = LittleEndian.ofUInt64 x := by
  apply (yields_take 8).bind
  rintro left a ⟨hl, rfl⟩
  exact .pure (by rw [List.append_nil, LittleEndian.ofUInt64_toUInt64 hl])

theorem yields_i32 : Yields i32 fun bytes x => bytes = LittleEndian.ofUInt32 x.toUInt32 := by
  apply yields_u32.bind
  rintro left a rfl
  exact .pure (by simp)

theorem yields_i64 : Yields i64 fun bytes x => bytes = LittleEndian.ofUInt64 x.toUInt64 := by
  apply yields_u64.bind
  rintro left a rfl
  exact .pure (by simp)

theorem yields_bool : Yields bool fun bytes x => bytes = [if x then 1 else 0] := by
  apply yields_u8.bind
  rintro left a rfl
  split
  · exact .pure rfl
  · exact .pure rfl
  · exact .throw _

theorem ofNat_toNat_toInt {x : Int32} (h : ¬ x < 0) :
    x.toInt.toNat ≤ maxLength ∧ UInt32.ofNat x.toInt.toNat = x.toUInt32 := by
  have h0 : 0 ≤ x.toInt := by simpa [Int32.lt_iff_toInt_lt] using h
  have hx := x.toInt_lt
  have hn : x.toInt.toNat ≤ maxLength := by
    simp only [maxLength]
    omega
  refine ⟨hn, ?_⟩
  have hi : (UInt32.ofNat x.toInt.toNat).toInt32 = x := by
    rw [← Int32.toInt_inj, toInt_ofNat hn, Int.toNat_of_nonneg h0]
  rw [← hi, UInt32.toUInt32_toInt32, hi]

theorem yields_length :
    Yields length fun bytes n =>
      n ≤ maxLength ∧ bytes = LittleEndian.ofUInt32 (UInt32.ofNat n) := by
  apply yields_i32.bind
  rintro left x rfl
  split
  · exact .throw _
  · next h =>
    obtain ⟨hn, hx⟩ := ofNat_toNat_toInt h
    exact .pure ⟨hn, by rw [List.append_nil, hx]⟩

theorem yields_bytes? :
    Yields bytes? fun bytes b? => match b? with
      | none => bytes = LittleEndian.ofUInt32 (-1)
      | some b => b.length ≤ maxLength ∧
        bytes = LittleEndian.ofUInt32 (UInt32.ofNat b.length) ++ b := by
  apply yields_i32.bind
  rintro left x rfl
  split
  · next h => exact .pure (by rw [h]; rfl)
  · split
    · exact .throw _
    · next h =>
      obtain ⟨hn, hx⟩ := ofNat_toNat_toInt h
      apply (yields_take _).bind
      rintro left a ⟨hl, rfl⟩
      exact .pure ⟨hl ▸ hn, by rw [List.append_nil, hl, hx]⟩

theorem yields_text? :
    Yields text? fun bytes s? => match s? with
      | none => bytes = LittleEndian.ofUInt32 (-1)
      | some s => (Utf8.encode s).length ≤ maxLength ∧
        bytes = LittleEndian.ofUInt32 (UInt32.ofNat (Utf8.encode s).length) ++ Utf8.encode s := by
  refine yields_bytes?.bind ?_
  rintro left b? h
  cases b? with
  | none => exact .pure (by simpa using h)
  | some b =>
    dsimp only
    split
    · next hs =>
      rw [← Utf8.encode_of_decode hs] at h
      exact .pure (by simpa using h)
    · exact .throw _

theorem yields_times {γ : Type} {one : Read α} {bytes : γ → List UInt8} {value : γ → α}
    (h : Yields one fun b a => ∃ c, bytes c = b ∧ value c = a) (n : Nat) :
    Yields (times one n) fun b as =>
      ∃ cs : List γ, cs.length = n ∧ cs.flatMap bytes = b ∧ cs.map value = as := by
  induction n with
  | zero => exact .pure ⟨[], rfl, rfl, rfl⟩
  | succ n ih =>
    apply h.bind
    rintro left a ⟨c, rfl, rfl⟩
    apply ih.bind
    rintro right as ⟨cs, rfl, rfl, rfl⟩
    exact .pure ⟨c :: cs, by simp⟩

theorem yields_fillWords (done : List UInt32) (n : Nat) :
    Yields (fillWords done n) fun b words =>
      ∃ filled : List UInt32, filled.length = n ∧ words = done ++ filled ∧
        b = filled.flatMap LittleEndian.ofUInt32 := by
  induction n generalizing done with
  | zero => exact .pure ⟨[], by simp⟩
  | succ n ih =>
    apply yields_u32.bind
    rintro left word rfl
    apply (ih (done ++ [word])).mono
    rintro right words ⟨filled, rfl, rfl, rfl⟩
    exact ⟨word :: filled, by simp⟩

theorem yields_withMask {width : Nat} {use : Mask → Read α} {Q : List UInt8 → α → Prop}
    (h : ∀ mask : Mask, mask.width = width →
      Yields (use mask) fun bytes => Q (mask.bytes ++ bytes)) : Yields (withMask width use) Q := by
  intro r a r' hr
  simp only [withMask] at hr
  split at hr
  · cases hr
  · next words r₁ hw =>
    obtain ⟨left, hl, _, hf, rfl, rfl⟩ := yields_fillWords [] width _ _ _ hw
    split at hr
    · next r₂ hu =>
      cases hr
      obtain ⟨right, hr₂, hq⟩ := h ⟨words⟩ hf r₁ a r₂ hu
      exact ⟨Mask.bytes ⟨words⟩ ++ right, by rw [List.append_assoc, ← hr₂]; exact hl, hq⟩
    · cases hr

end Read

end WireProtocol.Wire
