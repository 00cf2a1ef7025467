import Mathlib.Data.Nat.Count
import Mathlib.Data.Option.Basic
import WireProtocol.Proofs.Wire.Presence

namespace WireProtocol.Wire.Mask

theorem wordsFor_le_iff {fields width : Nat} : wordsFor fields ≤ width ↔ fields ≤ 32 * width := by
  simp only [wordsFor, bitsPerWord]
  omega

theorem capacity_eq (m : Mask) : m.capacity = 32 * m.width := rfl

theorem contains_cons_of_lt (word : UInt32) (words : List UInt32) {i : Nat} (hi : i < 32) :
    Mask.contains ⟨word :: words⟩ i = (word &&& bit i != 0) := by
  simp [contains, bitsPerWord, Nat.div_eq_of_lt hi]

theorem contains_cons_add (word : UInt32) (words : List UInt32) (i : Nat) :
    Mask.contains ⟨word :: words⟩ (32 + i) = Mask.contains ⟨words⟩ i := by
  have hd : (32 + i) / 32 = i / 32 + 1 := by omega
  simp [contains_eq, hd]

theorem contains_set {m : Mask} {i : Nat} (hi : i < m.width) (word : UInt32) (k : Nat) :
    Mask.contains ⟨m.words.set i word⟩ k =
      if k / 32 = i then word.toNat.testBit (k % 32) else m.contains k := by
  simp only [contains_eq]
  split
  · next hk => rw [hk, List.getElem?_set_self hi, Option.getD_some]
  · next hk => rw [List.getElem?_set_ne (Ne.symm hk)]

theorem count_eq_natCount (m : Mask) : m.count = Nat.count (m.contains ·) m.capacity := by
  cases m with
  | mk words =>
    induction words with
    | nil => rfl
    | cons word words ih =>
      have hw : ones word = Nat.count (Mask.contains ⟨word :: words⟩ ·) 32 := by
        refine List.countP_congr fun i hi => ?_
        simp [contains_cons_of_lt word words (List.mem_range.1 hi)]
      have hc : Mask.capacity ⟨word :: words⟩ = 32 + Mask.capacity ⟨words⟩ := by
        simp only [capacity_eq, width, List.length_cons]
        omega
      have hs : Mask.count ⟨word :: words⟩ = ones word + Mask.count ⟨words⟩ := rfl
      rw [hs, hc, Nat.count_add, ih, hw]
      simp only [contains_cons_add]

theorem isEmpty_iff (m : Mask) : m.isEmpty = true ↔ m = new m.width := by
  cases m with
  | mk words =>
    simp only [isEmpty, new, width, List.all_eq_true, beq_iff_eq, Mask.mk.injEq]
    rw [List.eq_replicate_iff]
    simp

/-- The mask is so wide, and its members are those of the set. -/
structure Holds (m : Mask) (width : Nat) (s : Finset Nat) : Prop where
  width : m.width = width
  contains : ∀ i, m.contains i = true ↔ i ∈ s

namespace Holds

variable {m : Mask} {width : Nat} {s : Finset Nat}

theorem capacity (h : m.Holds width s) : m.capacity = 32 * width := by
  rw [capacity_eq, h.width]

theorem new (width : Nat) : (new width).Holds width ∅ where
  width := width_new width
  contains i := by simp

theorem insert (h : m.Holds width s) {i : Nat} (hi : i < 32 * width) :
    (m.insert i).Holds width (s ∪ {i}) where
  width := (width_insert m i).trans h.width
  contains k := by
    rw [contains_insert (h.capacity ▸ hi), Bool.or_eq_true, h.contains, decide_eq_true_iff,
      Finset.mem_union, Finset.mem_singleton, or_comm]

theorem clear (h : m.Holds width s) : m.clear.Holds width ∅ := by
  rw [clear_eq_new, h.width]
  exact new width

theorem eq_filter (h : m.Holds width s) :
    s = (Finset.range (32 * width)).filter (m.contains ·) := by
  ext i
  rw [Finset.mem_filter, Finset.mem_range, ← h.contains, iff_and_self]
  intro hi
  refine Nat.lt_of_not_le fun hle => ?_
  rw [contains_eq_false_of_le (h.capacity ▸ hle)] at hi
  cases hi

theorem count (h : m.Holds width s) : m.count = s.card := by
  rw [count_eq_natCount, Nat.count_eq_card_filter_range, h.capacity, ← h.eq_filter]

theorem isEmpty (h : m.Holds width s) : m.isEmpty = true ↔ s = ∅ := by
  rw [isEmpty_iff, h.width, Finset.eq_empty_iff_forall_notMem]
  constructor
  · rintro rfl i hi
    simpa using (h.contains i).2 hi
  · intro hs
    refine ext_contains (by rw [h.width, width_new]) fun i => ?_
    rw [contains_new, ← Bool.not_eq_true, h.contains]
    exact hs i

end Holds

inductive Op
  | insert (i : Nat)
  | insertIf (i : Nat) (present : Bool)
  | clear
  | setWord (i : Nat) (word : UInt32)
  deriving DecidableEq, Repr

def numbersOf (i : Nat) (word : UInt32) : Finset Nat :=
  ((Finset.range 32).filter (word.toNat.testBit ·)).image (32 * i + ·)

theorem mem_numbersOf {i k : Nat} {word : UInt32} :
    k ∈ numbersOf i word ↔ k / 32 = i ∧ word.toNat.testBit (k % 32) = true := by
  simp only [numbersOf, Finset.mem_image, Finset.mem_filter, Finset.mem_range]
  constructor
  · rintro ⟨j, ⟨hj, hb⟩, rfl⟩
    have hd : (32 * i + j) / 32 = i := by omega
    have hm : (32 * i + j) % 32 = j := by omega
    rw [hd, hm]
    exact ⟨rfl, hb⟩
  · rintro ⟨rfl, hb⟩
    exact ⟨k % 32, ⟨Nat.mod_lt k (by decide), hb⟩, Nat.div_add_mod k 32⟩

namespace Op

def onMask? : Op → Mask → Option Mask
  | insert i, m => m.insert? i
  | insertIf i present, m => m.insertIf? i present
  | clear, m => some m.clear
  | setWord i word, m => m.setWord? i word

def insertBelow? (bound i : Nat) (s : Finset Nat) : Option (Finset Nat) :=
  if i < bound then some (s ∪ {i}) else none

def onSet? (width : Nat) : Op → Finset Nat → Option (Finset Nat)
  | insert i, s => insertBelow? (32 * width) i s
  | insertIf i present, s => if present then insertBelow? (32 * width) i s else some s
  | clear, _ => some ∅
  | setWord i word, s =>
    if i < width then some (s.filter (· / 32 ≠ i) ∪ numbersOf i word) else none

end Op

def run (m : Mask) (ops : List Op) : Mask := ops.foldl (fun m op => (op.onMask? m).getD m) m

def runOnSet (width : Nat) (s : Finset Nat) (ops : List Op) : Finset Nat :=
  ops.foldl (fun s op => (op.onSet? width s).getD s) s

namespace Holds

variable {m : Mask} {width : Nat} {s : Finset Nat}

theorem setWord (h : m.Holds width s) {i : Nat} (hi : i < width) (word : UInt32) :
    Mask.Holds ⟨m.words.set i word⟩ width (s.filter (· / 32 ≠ i) ∪ numbersOf i word) where
  width := List.length_set.trans h.width
  contains k := by
    rw [contains_set (h.width.symm ▸ hi), Finset.mem_union, Finset.mem_filter, mem_numbersOf]
    by_cases hk : k / 32 = i
    · simp [hk]
    · simp [hk, h.contains]

theorem insert? (h : m.Holds width s) (i : Nat) :
    Option.Rel (Holds · width) (m.insert? i) (Op.insertBelow? (32 * width) i s) := by
  rw [Mask.insert?, Op.insertBelow?, h.capacity]
  split
  · next hi => exact .some (h.insert hi)
  · exact .none

theorem step (h : m.Holds width s) (op : Op) :
    Option.Rel (Holds · width) (op.onMask? m) (op.onSet? width s) := by
  cases op with
  | insert i => exact h.insert? i
  | insertIf i present =>
    cases present with
    | false => exact .some h
    | true => exact h.insert? i
  | clear => exact .some h.clear
  | setWord i word =>
    simp only [Op.onMask?, Op.onSet?, setWord?, h.width]
    split
    · next hi => exact .some (h.setWord hi word)
    · exact .none

theorem getD (h : m.Holds width s) {m? : Option Mask} {s? : Option (Finset Nat)}
    (hs : Option.Rel (Holds · width) m? s?) : (m?.getD m).Holds width (s?.getD s) := by
  cases hs with
  | some h' => exact h'
  | none => exact h

theorem run (h : m.Holds width s) (ops : List Op) :
    (m.run ops).Holds width (runOnSet width s ops) := by
  induction ops generalizing m s with
  | nil => exact h
  | cons op ops ih => exact ih (h.getD (h.step op))

end Holds

theorem isSome_insert? (m : Mask) (i : Nat) : (m.insert? i).isSome = true ↔ i < 32 * m.width := by
  rw [insert?, capacity_eq]
  split
  · next hi => exact iff_of_true rfl hi
  · next hi => exact iff_of_false Bool.false_ne_true hi

/-- Whatever has been done to a new mask, it is as wide as it was made, and has the members of the
set to which the same was done: no number beyond its words, as many as it counts, and none exactly
when it says that it is empty. What is done next comes to nothing on both, or keeps them in line.
A mask for a number of fields has room for each of them at any time, and no mask with fewer words
has. -/
theorem run_holds :
    (∀ (width : Nat) (ops : List Op),
      let m := (new width).run ops
      let s := runOnSet width ∅ ops
      m.width = width ∧ (∀ i, m.contains i = true ↔ i ∈ s) ∧
      (∀ i, 32 * width ≤ i → m.contains i = false) ∧
      m.count = s.card ∧ (m.isEmpty = true ↔ s = ∅) ∧
      ∀ op : Op, Option.Rel (Holds · width) (op.onMask? m) (op.onSet? width s)) ∧
    ∀ fields : Nat,
      (∀ ops, ∀ i < fields, (((forFields fields).run ops).insert? i).isSome = true) ∧
      ∀ width, (∀ i < fields, ((new width).insert? i).isSome = true) →
        (forFields fields).width ≤ width := by
  refine ⟨fun width ops => ?_, fun fields => ⟨fun ops i hi => ?_, fun width h => ?_⟩⟩
  · have h := (Holds.new width).run ops
    refine ⟨h.width, h.contains, fun i hi => ?_, h.count, h.isEmpty, h.step⟩
    exact contains_eq_false_of_le (h.capacity ▸ hi)
  · have hw : ((forFields fields).run ops).width = wordsFor fields :=
      ((Holds.new _).run ops).width
    rw [isSome_insert?, hw]
    exact Nat.lt_of_lt_of_le hi (le_wordsFor fields)
  · rw [forFields, width_new, wordsFor_le_iff]
    cases fields with
    | zero => exact Nat.zero_le _
    | succ n =>
      have hn := h n (Nat.lt_succ_self n)
      rwa [isSome_insert?, width_new] at hn

def edges : List Op :=
  [.insert 31, .insert 63, .setWord 1 5, .insert 64, .insertIf 3 false, .insertIf 32 true]

theorem run_holds_edges :
    ((new 2).run edges).words = [0x80000000, 5] ∧ runOnSet 2 ∅ edges = {31, 32, 34} ∧
      ((new 2).run edges).count = 3 ∧ ((new 2).run edges).contains 64 = false ∧
      (forFields 33).width ≤ 2 := by
  have hs : runOnSet 2 ∅ edges = {31, 32, 34} := by decide
  obtain ⟨-, -, beyond, count, -⟩ := run_holds.1 2 edges
  refine ⟨by decide, hs, ?_, beyond 64 (by decide), (run_holds.2 33).2 2 (by decide)⟩
  rw [count, hs]
  rfl

end WireProtocol.Wire.Mask
