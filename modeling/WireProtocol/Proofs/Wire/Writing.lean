import WireProtocol.Proofs.Wire.Presence
import WireProtocol.Proofs.Wire.Reading

namespace WireProtocol.Wire

@[simp] theorem Pool.lend_fst (pool? : Option Pool) (width : Nat) :
    (Pool.lend pool? width).1 = .new width := by
  cases pool? with
  | none => rfl
  | some pool =>
    simp only [lend, acquire]
    split
    · next h => rw [h]
    · split
      · next mask h =>
        have hw : mask.width = width := by simpa using List.find?_some h
        rw [← hw]
        exact mask.clear_eq_new
      · rfl

namespace Write

def Puts (m : Write) (bytes : List UInt8) : Prop :=
  ∀ before pool, ∃ pool', m ⟨before, pool⟩ = .ok () ⟨before ++ bytes, pool'⟩

def Fails (m : Write) (e : Error) : Prop := ∀ w, ∃ w', m w = .error e w'

theorem Puts.pure : Puts (pure ()) [] := fun before pool => ⟨pool, by simp; rfl⟩

theorem Puts.bind {m : Write} {f : Unit → Write} {left right : List UInt8} (hm : Puts m left)
    (hf : Puts (f ()) right) : Puts (m >>= f) (left ++ right) := by
  intro before pool
  obtain ⟨pool', h⟩ := hm before pool
  obtain ⟨pool'', h'⟩ := hf (before ++ left) pool'
  exact ⟨pool'', by rw [bind_of_ok h, h', List.append_assoc]⟩

theorem Fails.throw (e : Error) : Fails (throw e) e := fun w => ⟨w, rfl⟩

theorem Fails.bind {m : Write} {e : Error} (f : Unit → Write) (h : Fails m e) :
    Fails (m >>= f) e := by
  intro w
  obtain ⟨w', h⟩ := h w
  exact ⟨w', bind_of_error h⟩

theorem Puts.bind_fails {m : Write} {f : Unit → Write} {bytes : List UInt8} {e : Error}
    (hm : Puts m bytes) (hf : Fails (f ()) e) : Fails (m >>= f) e := by
  intro w
  obtain ⟨pool', h⟩ := hm w.bytes w.pool
  obtain ⟨w', h'⟩ := hf ⟨w.bytes ++ bytes, pool'⟩
  exact ⟨w', by rw [bind_of_ok h, h']⟩

def tooLarge? (lengths : List Nat) : Option Nat := lengths.find? fun n => maxLength < n

theorem tooLarge?_eq_none {lengths : List Nat} :
    tooLarge? lengths = none ↔ ∀ n ∈ lengths, n ≤ maxLength := by
  simp [tooLarge?]

/-- The write looks at the lengths in order; it ends at the first that is too large, and puts the
bytes when there is none. -/
def Checks (m : Write) (lengths : List Nat) (bytes : List UInt8) : Prop :=
  match tooLarge? lengths with
  | none => Puts m bytes
  | some n => Fails m (.encode (.lengthTooLarge n))

theorem Puts.checks {m : Write} {bytes : List UInt8} (h : Puts m bytes) : Checks m [] bytes := h

theorem Checks.bind {m : Write} {f : Unit → Write} {lengths lengths' : List Nat}
    {left right : List UInt8} (hm : Checks m lengths left) (hf : Checks (f ()) lengths' right) :
    Checks (m >>= f) (lengths ++ lengths') (left ++ right) := by
  simp only [Checks, tooLarge?, List.find?_append] at *
  cases hl : lengths.find? fun n => maxLength < n with
  | some n =>
    rw [hl] at hm
    exact hm.bind f
  | none =>
    rw [hl] at hm
    rw [Option.none_or]
    split
    · next hr =>
      rw [hr] at hf
      exact hm.bind hf
    · next n hr =>
      rw [hr] at hf
      exact hm.bind_fails hf

theorem Checks.skip {m : Write} {lengths lengths' : List Nat} {bytes : List UInt8}
    (h : Checks m lengths' bytes) (hl : ∀ n ∈ lengths, n ≤ maxLength) :
    Checks m (lengths ++ lengths') bytes := by
  have hn : lengths.find? (fun n => maxLength < n) = none := tooLarge?_eq_none.2 hl
  simpa only [Checks, tooLarge?, List.find?_append, hn, Option.none_or] using h

theorem Checks.puts {m : Write} {lengths : List Nat} {bytes : List UInt8}
    (h : Checks m lengths bytes) (hl : ∀ n ∈ lengths, n ≤ maxLength) : Puts m bytes := by
  rwa [Checks, tooLarge?_eq_none.2 hl] at h

theorem Checks.of_ok {m : Write} {lengths : List Nat} {bytes : List UInt8} {w w' : Writer}
    (hm : Checks m lengths bytes) (h : m w = .ok () w') :
    (∀ n ∈ lengths, n ≤ maxLength) ∧ w'.bytes = w.bytes ++ bytes := by
  rw [Checks] at hm
  split at hm
  · next hl =>
    obtain ⟨pool, hp⟩ := hm w.bytes w.pool
    rw [hp] at h
    cases h
    exact ⟨tooLarge?_eq_none.1 hl, rfl⟩
  · obtain ⟨w'', hf⟩ := hm w
    rw [hf] at h
    cases h

theorem Checks.exists_of_error {m : Write} {lengths : List Nat} {bytes : List UInt8}
    {w w' : Writer} {e : Error} (hm : Checks m lengths bytes) (h : m w = .error e w') :
    ∃ n ∈ lengths, e = .encode (.lengthTooLarge n) := by
  rw [Checks] at hm
  split at hm
  · obtain ⟨pool, hp⟩ := hm w.bytes w.pool
    rw [hp] at h
    cases h
  · next n hn =>
    obtain ⟨w'', hf⟩ := hm w
    rw [hf] at h
    cases h
    exact ⟨n, List.mem_of_find?_eq_some hn, rfl⟩

def Settles (m : Write) (P : List UInt8 → Prop) : Prop :=
  (∃ bytes, Puts m bytes ∧ P bytes) ∨ ∃ e, Fails m e

theorem Puts.settles {m : Write} {P : List UInt8 → Prop} {bytes : List UInt8} (h : Puts m bytes)
    (hp : P bytes) : Settles m P := .inl ⟨bytes, h, hp⟩

theorem Settles.mono {m : Write} {P Q : List UInt8 → Prop} (h : Settles m P)
    (hQ : ∀ bytes, P bytes → Q bytes) : Settles m Q := by
  rcases h with ⟨bytes, h, hp⟩ | h
  · exact .inl ⟨bytes, h, hQ bytes hp⟩
  · exact .inr h

theorem Checks.settles {m : Write} {P : List UInt8 → Prop} {lengths : List Nat} {bytes : List UInt8}
    (h : Checks m lengths bytes) (hp : (∀ n ∈ lengths, n ≤ maxLength) → P bytes) : Settles m P := by
  rw [Checks] at h
  split at h
  · next hl => exact .inl ⟨bytes, h, hp (tooLarge?_eq_none.1 hl)⟩
  · next n _ => exact .inr ⟨_, h⟩

theorem Settles.bind {m : Write} {f : Unit → Write} {P Q R : List UInt8 → Prop} (hm : Settles m P)
    (hf : Settles (f ()) Q) (hR : ∀ left right, P left → Q right → R (left ++ right)) :
    Settles (m >>= f) R := by
  rcases hm with ⟨left, hm, hp⟩ | ⟨e, hm⟩
  · rcases hf with ⟨right, hf, hq⟩ | ⟨e, hf⟩
    · exact .inl ⟨left ++ right, hm.bind hf, hR left right hp hq⟩
    · exact .inr ⟨e, hm.bind_fails hf⟩
  · exact .inr ⟨e, hm.bind f⟩

theorem Settles.of_ok {m : Write} {P : List UInt8 → Prop} {w : Writer} (hm : Settles m P)
    (h : m .new = .ok () w) : P w.bytes := by
  rcases hm with ⟨bytes, hm, hp⟩ | ⟨e, hm⟩
  · obtain ⟨pool, hm⟩ := hm [] none
    rw [Writer.new, hm] at h
    cases h
    exact hp
  · obtain ⟨w', hm⟩ := hm .new
    rw [hm] at h
    cases h

theorem puts_put (bytes : List UInt8) : Puts (put bytes) bytes := fun _ pool => ⟨pool, rfl⟩

theorem puts_u8 (x : UInt8) : Puts (u8 x) [x] := puts_put _

theorem puts_u32 (x : UInt32) : Puts (u32 x) (LittleEndian.ofUInt32 x) := puts_put _

theorem puts_u64 (x : UInt64) : Puts (u64 x) (LittleEndian.ofUInt64 x) := puts_put _

theorem puts_i32 (x : Int32) : Puts (i32 x) (LittleEndian.ofUInt32 x.toUInt32) := puts_put _

theorem puts_i64 (x : Int64) : Puts (i64 x) (LittleEndian.ofUInt64 x.toUInt64) := puts_put _

theorem puts_bool (x : Bool) : Puts (bool x) [if x then 1 else 0] := puts_put _

theorem checks_length (n : Nat) :
    Checks (length n) [n] (LittleEndian.ofUInt32 (UInt32.ofNat n)) := by
  simp only [Checks, tooLarge?, List.find?_singleton, length]
  by_cases h : n ≤ maxLength
  · simp only [Nat.not_lt.2 h, h, if_true]
    exact puts_u32 _
  · simp only [Nat.not_le.1 h, h, if_false]
    exact .throw _

theorem checks_bytes? (bytes : List UInt8) :
    Checks (bytes? (some bytes)) [bytes.length]
      (LittleEndian.ofUInt32 (UInt32.ofNat bytes.length) ++ bytes) :=
  (checks_length bytes.length).bind (puts_put bytes).checks

theorem checks_text? (s : String) :
    Checks (text? (some s)) [(Utf8.encode s).length]
      (LittleEndian.ofUInt32 (UInt32.ofNat (Utf8.encode s).length) ++ Utf8.encode s) :=
  checks_bytes? _

theorem checks_each {α : Type} {one : α → Write} {lengths : α → List Nat} {bytes : α → List UInt8}
    (h : ∀ a, Checks (one a) (lengths a) (bytes a)) (as : List α) :
    Checks (each one as) (as.flatMap lengths) (as.flatMap bytes) := by
  induction as with
  | nil => exact Puts.pure.checks
  | cons a as ih => exact (h a).bind ih

theorem puts_each {α : Type} {one : α → Write} {bytes : α → List UInt8} (as : List α)
    (h : ∀ a ∈ as, Puts (one a) (bytes a)) : Puts (each one as) (as.flatMap bytes) := by
  induction as with
  | nil => exact .pure
  | cons a as ih =>
    have ha := h a List.mem_cons_self
    exact ha.bind (ih fun a ha => h a (List.mem_cons_of_mem _ ha))

variable {width : Nat} {present : List Bool} {use : Mask → Write}

theorem puts_withMask {bytes : List UInt8}
    (h : Puts (use ((Mask.new width).mark present)) bytes) :
    Puts (withMask width present use) (((Mask.new width).mark present).bytes ++ bytes) := by
  intro before pool
  have hp := puts_each ((Mask.new width).mark present).words fun word _ => puts_u32 word
  have hw := hp.bind (f := fun _ => use ((Mask.new width).mark present)) h
  obtain ⟨pool', hw⟩ := hw before (Pool.lend pool width).2
  refine ⟨Pool.giveBack pool' ((Mask.new width).mark present), ?_⟩
  simp only [withMask, Pool.lend_fst, hw]
  rfl

theorem fails_withMask {e : Error} (h : Fails (use ((Mask.new width).mark present)) e) :
    Fails (withMask width present use) e := by
  intro w
  have hp := puts_each ((Mask.new width).mark present).words fun word _ => puts_u32 word
  have hw := hp.bind_fails (f := fun _ => use ((Mask.new width).mark present)) h
  obtain ⟨w', hw⟩ := hw { w with pool := (Pool.lend w.pool width).2 }
  refine ⟨{ w' with pool := Pool.giveBack w'.pool ((Mask.new width).mark present) }, ?_⟩
  simp only [withMask, Pool.lend_fst, hw]

theorem checks_withMask {lengths : List Nat} {bytes : List UInt8}
    (h : Checks (use ((Mask.new width).mark present)) lengths bytes) :
    Checks (withMask width present use) lengths
      (((Mask.new width).mark present).bytes ++ bytes) := by
  simp only [Checks] at *
  split
  · next hl =>
    rw [hl] at h
    exact puts_withMask h
  · next n hl =>
    rw [hl] at h
    exact fails_withMask h

end Write

end WireProtocol.Wire
