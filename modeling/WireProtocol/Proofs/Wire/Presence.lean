import Mathlib.Data.Nat.Bitwise
import WireProtocol.Wire.Mask

namespace WireProtocol.Wire.Mask

theorem bit_toNat (i : Nat) : (bit i).toNat = 2 ^ (i % 32) := by
  have hi : i % 32 < 32 := Nat.mod_lt i (by decide)
  have hp : 2 ^ (i % 32) < 2 ^ 32 := Nat.pow_lt_pow_right (by decide) hi
  simp only [bit, bitsPerWord, UInt32.toNat_shiftLeft, UInt32.toNat_one, UInt32.toNat_ofNat']
  rw [Nat.mod_eq_of_lt (a := i % 32) (by omega), Nat.mod_eq_of_lt hi, Nat.shiftLeft_eq,
    Nat.one_mul, Nat.mod_eq_of_lt hp]

theorem and_bit_ne_zero (word : UInt32) (i : Nat) :
    (word &&& bit i != 0) = word.toNat.testBit (i % 32) := by
  have h : (word &&& bit i).toNat = (word.toNat.testBit (i % 32)).toNat * 2 ^ (i % 32) := by
    rw [UInt32.toNat_and, bit_toNat, Nat.and_two_pow]
  have hp : 0 < 2 ^ (i % 32) := Nat.two_pow_pos _
  rw [Bool.eq_iff_iff, bne_iff_ne, ne_eq, ← UInt32.toNat_inj, h]
  cases word.toNat.testBit (i % 32) <;> simp

theorem contains_eq (m : Mask) (i : Nat) :
    m.contains i = ((m.words[i / 32]?).getD 0).toNat.testBit (i % 32) := by
  simp only [contains, bitsPerWord]
  cases m.words[i / 32]? with
  | none => simp
  | some word => simpa using and_bit_ne_zero word i

theorem contains_eq_false_of_le {m : Mask} {i : Nat} (h : m.capacity ≤ i) :
    m.contains i = false := by
  have hw : m.words.length ≤ i / 32 := by
    simp only [capacity, bitsPerWord, width] at h
    omega
  rw [contains_eq, List.getElem?_eq_none hw]
  simp

theorem word_ext {a b : UInt32} (h : ∀ j < 32, a.toNat.testBit j = b.toNat.testBit j) : a = b := by
  apply UInt32.toNat_inj.1
  apply Nat.eq_of_testBit_eq
  intro j
  by_cases hj : j < 32
  · exact h j hj
  · have hp : 2 ^ 32 ≤ 2 ^ j := Nat.pow_le_pow_right (by decide) (by omega)
    rw [Nat.testBit_lt_two_pow (Nat.lt_of_lt_of_le a.toNat_lt hp),
      Nat.testBit_lt_two_pow (Nat.lt_of_lt_of_le b.toNat_lt hp)]

theorem ext_contains {m m' : Mask} (hw : m.width = m'.width)
    (h : ∀ i, m.contains i = m'.contains i) : m = m' := by
  cases m with
  | mk words =>
    cases m' with
    | mk words' =>
      simp only [width] at hw
      congr 1
      apply List.ext_getElem hw
      intro n hn hn'
      apply word_ext
      intro j hj
      have hd : (32 * n + j) / 32 = n := by omega
      have hm : (32 * n + j) % 32 = j := by omega
      simpa [contains_eq, hd, hm, hn, hn'] using h (32 * n + j)

@[simp] theorem width_new (width : Nat) : (new width).width = width := by simp [new, Mask.width]

@[simp] theorem width_insert (m : Mask) (i : Nat) : (m.insert i).width = m.width := by
  simp [insert, width]

theorem clear_eq_new (m : Mask) : m.clear = new m.width := by
  simp [clear, new, width, List.map_const']

@[simp] theorem contains_new (width i : Nat) : (new width).contains i = false := by
  rw [contains_eq]
  simp only [new, List.getElem?_replicate]
  split <;> simp

theorem contains_insert {m : Mask} {i : Nat} (hi : i < m.capacity) (k : Nat) :
    (m.insert i).contains k = (decide (k = i) || m.contains k) := by
  have hw : i / 32 < m.words.length := by
    simp only [capacity, bitsPerWord, width] at hi
    omega
  simp only [contains_eq, insert, bitsPerWord, List.getElem?_modify]
  by_cases hk : i / 32 = k / 32
  · -- Both numbers fall into one word, where the places of their bits tell them apart.
    have hs : m.words[k / 32]? = some m.words[i / 32] := by rw [← hk, List.getElem?_eq_getElem hw]
    have he : (i % 32 = k % 32) = (k = i) := propext (by omega)
    simp [hk, hs, bit_toNat, Nat.testBit_two_pow, he, eq_comm, Bool.or_comm]
  · have hne : k ≠ i := fun h => hk (by rw [h])
    simp [hk, hne]

@[simp] theorem width_markFrom (m : Mask) (i : Nat) (present : List Bool) :
    (m.markFrom i present).width = m.width := by
  induction present generalizing m i with
  | nil => rfl
  | cons b rest ih =>
    rw [markFrom, ih]
    cases b <;> simp

@[simp] theorem width_mark (m : Mask) (present : List Bool) : (m.mark present).width = m.width :=
  width_markFrom ..

theorem contains_markFrom (m : Mask) (i : Nat) (present : List Bool)
    (h : i + present.length ≤ m.capacity) (k : Nat) :
    (m.markFrom i present).contains k =
      (m.contains k || (decide (i ≤ k) && (present[k - i]?).getD false)) := by
  induction present generalizing m i with
  | nil => simp [markFrom]
  | cons b rest ih =>
    simp only [List.length_cons] at h
    have hi : i < m.capacity := by omega
    have hc :
        (if b then m.insert i else m).contains k = (m.contains k || (decide (k = i) && b)) := by
      cases b with
      | false => simp
      | true => simpa [Bool.or_comm] using contains_insert hi k
    have hw : (if b then m.insert i else m).capacity = m.capacity := by
      cases b <;> simp [capacity]
    rw [markFrom, ih _ _ (by omega), hc, Bool.or_assoc]
    congr 1
    rcases Nat.lt_trichotomy k i with hlt | rfl | hgt
    · have hne : k ≠ i := by omega
      simp [hne, show ¬ i + 1 ≤ k by omega, show ¬ i ≤ k by omega]
    · simp [show ¬ k + 1 ≤ k by omega]
    · obtain ⟨j, rfl⟩ := Nat.exists_eq_add_of_lt hgt
      have hj : i + j + 1 - i = (i + j + 1 - (i + 1)) + 1 := by omega
      rw [hj, List.getElem?_cons_succ]
      simp [show i + j + 1 ≠ i by omega, show i + 1 ≤ i + j + 1 by omega,
        show i ≤ i + j + 1 by omega]

theorem contains_mark (width : Nat) (present : List Bool) (h : present.length ≤ 32 * width)
    (k : Nat) :
    ((new width).mark present).contains k = (present[k]?).getD false := by
  have hc : (new width).capacity = 32 * width := by simp [capacity, bitsPerWord]
  rw [mark, contains_markFrom _ _ _ (by omega)]
  simp

def Shows (m : Mask) (k : Nat) (present : List Bool) : Prop :=
  ∀ j (b : Bool), present[j]? = some b → m.contains (k + j) = b

theorem shows_nil (m : Mask) (k : Nat) : m.Shows k [] := by
  intro j b h
  simp at h

theorem shows_cons {m : Mask} {k : Nat} {b : Bool} {present : List Bool} :
    m.Shows k (b :: present) ↔ m.contains k = b ∧ m.Shows (k + 1) present := by
  constructor
  · intro h
    refine ⟨h 0 b rfl, fun j c hj => ?_⟩
    rw [Nat.add_assoc, Nat.add_comm 1 j]
    exact h (j + 1) c hj
  · rintro ⟨h0, h⟩ j c hj
    cases j with
    | zero => simpa [h0] using hj
    | succ j =>
      rw [Nat.add_comm j 1, ← Nat.add_assoc]
      exact h j c hj

theorem shows_mark {width : Nat} {present : List Bool} (h : present.length ≤ 32 * width) :
    ((new width).mark present).Shows 0 present := by
  intro j b hj
  rw [Nat.zero_add, contains_mark _ _ h, hj]
  rfl

theorem le_wordsFor (fields : Nat) : fields ≤ 32 * wordsFor fields := by
  simp only [wordsFor, bitsPerWord]
  omega

end WireProtocol.Wire.Mask
