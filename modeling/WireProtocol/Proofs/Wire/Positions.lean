import WireProtocol.Proofs.Wire.Lending

namespace WireProtocol.Wire

variable {α β : Type}

theorem ending_seen {ε σ τ : Type} (view : σ → τ) (x : EStateM.Result ε σ α) :
    ending (seen view x) = view (ending x) := by
  cases x <;> rfl

theorem seen_rest {ε : Type} (x : EStateM.Result ε Reader α) :
    seen Reader.rest x = seen Prod.snd (seen Reader.view x) := by
  cases x <;> rfl

namespace Read

/-- How far the read gets, and with what, is told by the bytes that are left. -/
structure Steady (m : Read α) : Prop where
  advances : ∀ r, ∃ n ≤ r.rest.length,
    (ending (m r)).view = (r.position + n, r.rest.drop n)
  dependsOn : DependsOn Reader.rest m

namespace Steady

theorem pure (a : α) : Steady (Pure.pure a : Read α) where
  advances _ := ⟨0, Nat.zero_le _, rfl⟩
  dependsOn := .pure a

theorem throw (e : Error) : Steady (throw e : Read α) where
  advances _ := ⟨0, Nat.zero_le _, rfl⟩
  dependsOn := .throw e

theorem bind {m : Read α} {f : α → Read β} (hm : Steady m) (hf : ∀ a, Steady (f a)) :
    Steady (m >>= f) where
  advances r := by
    obtain ⟨n, hn, hv⟩ := hm.advances r
    cases hr : m r with
    | ok a r₁ =>
      rw [hr] at hv
      obtain ⟨hp, hrest⟩ := Prod.mk.inj hv
      obtain ⟨n', hn', hv'⟩ := (hf a).advances r₁
      simp only [ending] at hp hrest
      rw [hrest, List.length_drop] at hn'
      refine ⟨n + n', by omega, ?_⟩
      rw [bind_of_ok hr, hv', hp, hrest, List.drop_drop, Nat.add_assoc]
    | error e r₁ =>
      rw [hr] at hv
      exact ⟨n, hn, by rwa [bind_of_error hr]⟩
  dependsOn := hm.dependsOn.bind fun a => (hf a).dependsOn

end Steady

theorem steady_take (n : Nat) : Steady (take n) where
  advances r := by
    rw [take]
    split
    · next hn => exact ⟨n, hn, rfl⟩
    · exact ⟨0, Nat.zero_le _, rfl⟩
  dependsOn r r' h := by
    simp only [take, h]
    split
    · rfl
    · exact congrArg (EStateM.Result.error _) h

theorem steady_fillWords (done : List UInt32) (n : Nat) : Steady (fillWords done n) :=
  fillWords_of (P := Steady) .pure .bind (steady_take 4) done n

theorem steady_withMask {width : Nat} {use : Mask → Read α} (h : ∀ mask, Steady (use mask)) :
    Steady (withMask width use) := by
  have hs := (steady_fillWords [] width).bind fun words => h ⟨words⟩
  refine ⟨fun r => ?_, fun r r' hr => ?_⟩
  · obtain ⟨n, hn, hv⟩ := hs.advances { r with pool := (Pool.lend r.pool width).2 }
    have he := congrArg ending (seen_withMask width use r)
    rw [ending_seen, ending_seen] at he
    exact ⟨n, hn, he.trans hv⟩
  · have he (r : Reader) := congrArg (seen Prod.snd) (seen_withMask width use r)
    simp only [← seen_rest] at he
    rw [he r, he r']
    exact hs.dependsOn _ _ hr

theorem closed_steady : Closed Steady where
  pure := .pure
  throw := .throw
  bind := .bind
  take := steady_take
  withMask _ _ := steady_withMask

end Read

theorem bind_eq_error_iff {ε σ : Type} {m : EStateM ε σ α} {f : α → EStateM ε σ β} {s s' : σ}
    {e : ε} : (m >>= f) s = .error e s' ↔
      m s = .error e s' ∨ ∃ a t, m s = .ok a t ∧ f a t = .error e s' := by
  cases hm : m s with
  | ok a t => simp [bind_of_ok hm]
  | error e t => simp [bind_of_error hm]

def Reader.advance (r : Reader) (n : Nat) : Reader :=
  { r with position := r.position + n, rest := r.rest.drop n }

theorem Reader.advance_advance (r : Reader) (n n' : Nat) :
    (r.advance n).advance n' = r.advance (n + n') := by
  simp [advance, Nat.add_assoc]

namespace Read

structure Fixed (m : Read α) (n : Nat) : Prop where
  short : ∀ r, r.rest.length < n → m r = .error (.unexpectedEnd n r.rest.length) r
  full : ∀ r, n ≤ r.rest.length → ∃ a, m r = .ok a (r.advance n)

namespace Fixed

variable {m : Read α} {n : Nat} {r r' : Reader} {e : Error} {a : α}

theorem eq_of_ok (hm : Fixed m n) (h : m r = .ok a r') : n ≤ r.rest.length ∧ r' = r.advance n := by
  rcases Nat.lt_or_ge r.rest.length n with hlt | hle
  · rw [hm.short r hlt] at h
    cases h
  · obtain ⟨a', ha⟩ := hm.full r hle
    rw [ha] at h
    cases h
    exact ⟨hle, rfl⟩

theorem eq_of_error (hm : Fixed m n) (h : m r = .error e r') :
    r.rest.length < n ∧ e = .unexpectedEnd n r.rest.length ∧ r' = r := by
  rcases Nat.lt_or_ge r.rest.length n with hlt | hle
  · rw [hm.short r hlt] at h
    cases h
    exact ⟨hlt, rfl, rfl⟩
  · obtain ⟨a', ha⟩ := hm.full r hle
    rw [ha] at h
    cases h

theorem bind_pure (hm : Fixed m n) (f : α → β) : Fixed (m >>= fun a => Pure.pure (f a)) n where
  short r h := bind_of_error (hm.short r h)
  full r h := by
    obtain ⟨a, ha⟩ := hm.full r h
    exact ⟨f a, by rw [bind_of_ok ha]; rfl⟩

theorem map (hm : Fixed m n) (f : α → β) : Fixed (f <$> m) n := by
  rw [map_eq_pure_bind]
  exact hm.bind_pure f

theorem of_append (hm : Fixed m n) {bytes rest : List UInt8} (ha : Accepts m bytes a)
    (hr : r.rest = bytes ++ rest) : m r = .ok a (r.advance n) := by
  cases r with
  | mk position left pool =>
    obtain rfl : left = bytes ++ rest := hr
    obtain ⟨pool', h⟩ := ha position rest pool
    rw [h, (hm.eq_of_ok h).2]

end Fixed

theorem fixed_take (n : Nat) : Fixed (take n) n where
  short r h := by rw [take, if_neg (Nat.not_le.2 h)]
  full r h := ⟨r.rest.take n, by rw [take, if_pos h]; rfl⟩

theorem fixed_u8 : Fixed u8 1 := (fixed_take 1).bind_pure _

theorem fixed_u32 : Fixed u32 4 := (fixed_take 4).bind_pure _

theorem fixed_u64 : Fixed u64 8 := (fixed_take 8).bind_pure _

theorem fixed_i32 : Fixed i32 4 := fixed_u32.bind_pure _

theorem fixed_i64 : Fixed i64 8 := fixed_u64.bind_pure _

end Read

namespace Reader

inductive Op
  | u8 | u32 | i32 | i64 | single | double | bool | length | bytes? | text?
  deriving DecidableEq, Repr

namespace Op

abbrev Value : Op → Type
  | u8 => UInt8
  | u32 => UInt32
  | i32 => Int32
  | i64 => Int64
  | single => Single
  | double => Double
  | bool => Bool
  | length => Nat
  | bytes? => Option (List UInt8)
  | text? => Option String

def read : (op : Op) → Read op.Value
  | u8 => Read.u8
  | u32 => Read.u32
  | i32 => Read.i32
  | i64 => Read.i64
  | single => Single.mk <$> Read.u32
  | double => Double.mk <$> Read.u64
  | bool => Read.bool
  | length => Read.length
  | bytes? => Read.bytes?
  | text? => Read.text?

theorem steady_read (op : Op) : op.read.Steady := by
  have h := Read.closed_steady.toPasses
  cases op with
  | u8 => exact h.u8
  | u32 => exact h.u32
  | i32 => exact h.i32
  | i64 => exact h.i64
  | single => exact h.map _ h.u32
  | double => exact h.map _ h.u64
  | bool => exact h.bool
  | length => exact h.length
  | bytes? => exact h.bytes?
  | text? => exact h.text?

def head : Op → Nat
  | u8 | bool => 1
  | u32 | i32 | single | length | bytes? | text? => 4
  | i64 | double => 8

def isAnnounced : Op → Bool
  | bytes? | text? => true
  | _ => false

/-- Of these bytes the read takes so many and fails. -/
inductive Fails : Op → List UInt8 → Error → Nat → Prop
  | short {op rest} (h : rest.length < op.head) :
    Fails op rest (.unexpectedEnd op.head rest.length) 0
  | notBool {b rest} (h0 : b ≠ 0) (h1 : b ≠ 1) :
    Fails bool (b :: rest) (.decode (.invalidBool b)) 1
  | negative {n : Int32} {rest} (h : n < 0) :
    Fails length (LittleEndian.ofUInt32 n.toUInt32 ++ rest) (.decode (.negativeLength n)) 4
  | noLength {op rest} (hop : op.isAnnounced) {n : Int32} (h : n < 0) (hn : n ≠ -1) :
    Fails op (LittleEndian.ofUInt32 n.toUInt32 ++ rest) (.decode (.invalidByteLength n)) 4
  | beyond {op rest} (hop : op.isAnnounced) {n : Nat} (h : n ≤ maxLength) (hn : rest.length < n) :
    Fails op (LittleEndian.ofUInt32 (.ofNat n) ++ rest) (.unexpectedEnd n rest.length) 4
  | notText {bytes rest fault} (h : bytes.length ≤ maxLength)
    (hd : Utf8.decode bytes = .error fault) :
    Fails text? (LittleEndian.ofUInt32 (.ofNat bytes.length) ++ bytes ++ rest)
      (.decode (.invalidText fault)) (4 + bytes.length)

variable {op : Op} {r r' : Reader} {e : Error}

theorem fails_of_head {m : Read α} (hm : Read.Fixed m op.head) (h : m r = .error e r') :
    ∃ n, op.Fails r.rest e n ∧ r' = r.advance n := by
  obtain ⟨hl, rfl, rfl⟩ := hm.eq_of_error h
  exact ⟨0, .short hl, rfl⟩

theorem head_of_isAnnounced (hop : op.isAnnounced) : op.head = 4 := by
  cases op <;> first | rfl | cases hop

theorem fails_of_bytes? (hop : op.isAnnounced) (h : Read.bytes? r = .error e r') :
    ∃ n, op.Fails r.rest e n ∧ r' = r.advance n := by
  rcases bind_eq_error_iff.1 h with h | ⟨x, t, hx, h⟩
  · exact fails_of_head (head_of_isAnnounced hop ▸ Read.fixed_i32) h
  obtain ⟨_, hr, rfl⟩ := Read.yields_i32 _ _ _ hx
  obtain ⟨-, rfl⟩ := Read.fixed_i32.eq_of_ok hx
  rw [hr]
  split at h
  · cases h
  next hne =>
  split at h
  · next hneg =>
    cases h
    exact ⟨4, .noLength hop hneg hne, rfl⟩
  · next hpos =>
    obtain ⟨hn, hw⟩ := Read.ofNat_toNat_toInt hpos
    rcases bind_eq_error_iff.1 h with h | ⟨b, t, -, h⟩
    · obtain ⟨hl, rfl, rfl⟩ := (Read.fixed_take _).eq_of_error h
      rw [← hw]
      exact ⟨4, .beyond hop hn hl, rfl⟩
    · cases h

theorem advance_of_bytes? {b : List UInt8} (h : Read.bytes? r = .ok (some b) r') :
    r' = r.advance (4 + b.length) := by
  obtain ⟨x, t, hx, h⟩ := exists_of_bind_eq_ok h
  obtain ⟨-, rfl⟩ := Read.fixed_i32.eq_of_ok hx
  split at h
  · cases h
  split at h
  · cases h
  · obtain ⟨b', t, hb, h⟩ := exists_of_bind_eq_ok h
    obtain ⟨-, rfl⟩ := (Read.fixed_take _).eq_of_ok hb
    obtain ⟨_, -, hl, rfl⟩ := Read.yields_take _ _ _ _ hb
    cases h
    rw [hl, advance_advance]

theorem fails_of_error (h : op.read r = .error e r') :
    ∃ n, op.Fails r.rest e n ∧ r' = r.advance n := by
  cases op with
  | u8 => exact fails_of_head Read.fixed_u8 h
  | u32 => exact fails_of_head Read.fixed_u32 h
  | i32 => exact fails_of_head Read.fixed_i32 h
  | i64 => exact fails_of_head Read.fixed_i64 h
  | single => exact fails_of_head (Read.fixed_u32.map _) h
  | double => exact fails_of_head (Read.fixed_u64.map _) h
  | bool =>
    rcases bind_eq_error_iff.1 h with h | ⟨b, t, hb, h⟩
    · exact fails_of_head Read.fixed_u8 h
    obtain ⟨_, hr, rfl⟩ := Read.yields_u8 _ _ _ hb
    obtain ⟨-, rfl⟩ := Read.fixed_u8.eq_of_ok hb
    rw [hr]
    split at h
    · cases h
    · cases h
    · next h0 h1 =>
      cases h
      exact ⟨1, .notBool h0 h1, rfl⟩
  | length =>
    rcases bind_eq_error_iff.1 h with h | ⟨x, t, hx, h⟩
    · exact fails_of_head Read.fixed_i32 h
    obtain ⟨_, hr, rfl⟩ := Read.yields_i32 _ _ _ hx
    obtain ⟨-, rfl⟩ := Read.fixed_i32.eq_of_ok hx
    rw [hr]
    split at h
    · next hneg =>
      cases h
      exact ⟨4, .negative hneg, rfl⟩
    · cases h
  | bytes? => exact fails_of_bytes? rfl h
  | text? =>
    rcases bind_eq_error_iff.1 h with h | ⟨b?, t, hb, h⟩
    · exact fails_of_bytes? rfl h
    obtain ⟨_, hr, hc⟩ := Read.yields_bytes? _ _ _ hb
    cases b? with
    | none => cases h
    | some b =>
      obtain ⟨hl, rfl⟩ := hc
      cases hd : Utf8.decode b with
      | ok s =>
        simp only [hd] at h
        cases h
      | error fault =>
        simp only [hd] at h
        cases h
        rw [hr]
        exact ⟨4 + b.length, .notText hl hd, advance_of_bytes? hb⟩

theorem rest_advance_word {x : UInt32} {bytes : List UInt8}
    (hr : r.rest = LittleEndian.ofUInt32 x ++ bytes) : (r.advance 4).rest = bytes := by
  rw [advance, hr, List.drop_left' (LittleEndian.length_ofUInt32 x)]

theorem i32_announced {n : Nat} {bytes : List UInt8}
    (hr : r.rest = LittleEndian.ofUInt32 (.ofNat n) ++ bytes) :
    Read.i32 r = .ok (UInt32.ofNat n).toInt32 (r.advance 4) := by
  apply Read.fixed_i32.of_append (Read.takes_i32 _).whole
  rw [hr, UInt32.toUInt32_toInt32]

theorem i32_of_append {n : Int32} {bytes : List UInt8}
    (hr : r.rest = LittleEndian.ofUInt32 n.toUInt32 ++ bytes) :
    Read.i32 r = .ok n (r.advance 4) :=
  Read.fixed_i32.of_append (Read.takes_i32 n).whole hr

theorem bytes?_announced {n : Nat} {bytes : List UInt8} (h : n ≤ maxLength)
    (hr : r.rest = LittleEndian.ofUInt32 (.ofNat n) ++ bytes) :
    Read.bytes? r = (some <$> Read.take n) (r.advance 4) := by
  have hneg := Read.not_ofNat_neg h
  have hne : (UInt32.ofNat n).toInt32 ≠ -1 := fun he => hneg (by rw [he]; decide)
  have hi : Read.bytes? r = _ := bind_of_ok (i32_announced hr)
  rw [hi, if_neg hne, if_neg hneg, Read.toInt_ofNat h, Int.toNat_natCast, map_eq_pure_bind]

theorem read_of_isAnnounced (hop : op.isAnnounced) (h : Read.bytes? r = .error e r') :
    op.read r = .error e r' := by
  cases op with
  | bytes? => exact h
  | text? => exact bind_of_error h
  | _ => cases hop

theorem read_of_short (h : r.rest.length < op.head) :
    op.read r = .error (.unexpectedEnd op.head r.rest.length) r := by
  cases op with
  | u8 => exact Read.fixed_u8.short r h
  | u32 => exact Read.fixed_u32.short r h
  | i32 => exact Read.fixed_i32.short r h
  | i64 => exact Read.fixed_i64.short r h
  | single => exact (Read.fixed_u32.map _).short r h
  | double => exact (Read.fixed_u64.map _).short r h
  | bool => exact bind_of_error (Read.fixed_u8.short r h)
  | length => exact bind_of_error (Read.fixed_i32.short r h)
  | bytes? => exact bind_of_error (Read.fixed_i32.short r h)
  | text? => exact bind_of_error (bind_of_error (Read.fixed_i32.short r h))

theorem read_of_fails {n : Nat} (h : op.Fails r.rest e n) : op.read r = .error e (r.advance n) := by
  generalize hr : r.rest = bytes at h
  cases h with
  | short h =>
    subst hr
    exact read_of_short h
  | notBool h0 h1 =>
    have hu := Read.fixed_u8.of_append (Read.takes_u8 _).whole hr
    refine (bind_of_ok hu).trans ?_
    split
    · exact absurd rfl h0
    · exact absurd rfl h1
    · rfl
  | negative h =>
    refine (bind_of_ok (i32_of_append hr)).trans ?_
    rw [if_pos h]
    rfl
  | noLength hop h hn =>
    apply read_of_isAnnounced hop
    refine (bind_of_ok (i32_of_append hr)).trans ?_
    rw [if_neg hn, if_pos h]
    rfl
  | beyond hop h hn =>
    apply read_of_isAnnounced hop
    have hrest := rest_advance_word hr
    rw [← hrest] at hn ⊢
    exact (bytes?_announced h hr).trans (map_of_error ((Read.fixed_take _).short _ hn))
  | notText h hd =>
    rw [List.append_assoc] at hr
    have ht := (Read.fixed_take _).of_append (Read.takes_take _).whole (rest_advance_word hr)
    have hb := (bytes?_announced h hr).trans (map_of_ok ht)
    refine (bind_of_ok hb).trans ?_
    simp only [hd, advance_advance]
    rfl

theorem read_eq_error_iff :
    op.read r = .error e r' ↔ ∃ n, op.Fails r.rest e n ∧ r' = r.advance n := by
  constructor
  · exact fails_of_error
  · rintro ⟨n, h, rfl⟩
    exact read_of_fails h

end Op

def run (r : Reader) (ops : List Op) : Reader := ops.foldl (fun r op => ending (op.read r)) r

structure Within (r : Reader) (bytes : List UInt8) : Prop where
  position_le : r.position ≤ bytes.length
  rest : r.rest = bytes.drop r.position

theorem Within.step {r : Reader} {bytes : List UInt8} (h : r.Within bytes) (op : Op) :
    (ending (op.read r)).Within bytes := by
  obtain ⟨n, hn, hv⟩ := op.steady_read.advances r
  obtain ⟨hp, hr⟩ := Prod.mk.inj hv
  rw [h.rest, List.length_drop] at hn
  have hle := h.position_le
  refine ⟨by omega, ?_⟩
  rw [hr, hp, h.rest, List.drop_drop]

theorem Within.run {r : Reader} {bytes : List UInt8} (h : r.Within bytes) (ops : List Op) :
    (r.run ops).Within bytes := by
  induction ops generalizing r with
  | nil => exact h
  | cons op ops ih => exact ih (h.step op)

/-- After any reads, failed ones among them, the position and what remains make up the input. The
next read does not go back; what it comes to is the same wherever else these bytes are ahead; and
when it fails it has taken nothing of what was too little, or just the bytes that are wrong. -/
theorem run_steady (bytes : List UInt8) (pool : Option Pool) (ops : List Op) :
    let r := (new bytes pool).run ops
    r.position + r.remaining = bytes.length ∧ r.rest = bytes.drop r.position ∧
    ∀ op : Op,
      r.position ≤ (ending (op.read r)).position ∧
      (∀ r' : Reader, r'.rest = r.rest →
        seen Reader.rest (op.read r') = seen Reader.rest (op.read r)) ∧
      ∀ e r', op.read r = .error e r' ↔ ∃ n, op.Fails r.rest e n ∧ r' = r.advance n := by
  intro r
  have h : r.Within bytes := Within.run (r := new bytes pool) ⟨Nat.zero_le _, rfl⟩ ops
  refine ⟨?_, h.rest, fun op => ⟨?_, fun r' => op.steady_read.dependsOn r' r,
    fun e r' => ?_⟩⟩
  · have hle := h.position_le
    rw [remaining, h.rest, List.length_drop]
    omega
  · obtain ⟨n, -, hv⟩ := op.steady_read.advances r
    rw [(Prod.mk.inj hv).1]
    exact Nat.le_add_right ..
  · exact Op.read_eq_error_iff

def broken : List UInt8 := [2, 0xFE, 0xFF, 0xFF, 0xFF, 3, 0, 0, 0, 0x61, 0xFF, 0x62, 7]

theorem run_steady_broken :
    let r := (new broken).run [.bool, .length, .text?, .i32]
    r.position = 12 ∧ r.remaining = 1 ∧ r.rest = broken.drop 12 ∧
      seen Reader.rest (Op.u8.read ⟨3, [7], none⟩) = seen Reader.rest (Op.u8.read r) ∧
      ∃ n, Op.i32.Fails r.rest (.unexpectedEnd 4 1) n ∧ r = r.advance n := by
  intro r
  have hp : r.position = 12 := rfl
  obtain ⟨sum, rest, next⟩ := run_steady broken none [.bool, .length, .text?, .i32]
  refine ⟨hp, ?_, rest, (next .u8).2.1 _ rfl, ((next .i32).2.2 _ _).1 rfl⟩
  exact Nat.add_left_cancel (n := 12) sum

end Reader

end WireProtocol.Wire
