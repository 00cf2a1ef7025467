import WireProtocol.Wire.Timestamp

namespace WireProtocol.Wire

structure Duration where
  seconds : UInt64
  nanoseconds : Nat
  nanoseconds_lt : nanoseconds < 1000000000
  deriving DecidableEq, Repr

def Duration.toNanoseconds (d : Duration) : Nat :=
  d.seconds.toNat * 1000000000 + d.nanoseconds

namespace Timestamp

theorem countMillis?_cases (n : Nat) :
    (∃ m : Int64, countMillis? n = some m ∧ m.toInt = (n / 1000000 : Nat)) ∨
      countMillis? n = none ∧ Int64.maxValue.toInt < (n / 1000000 : Nat) := by
  by_cases h : (n / 1000000 : Nat) ≤ Int64.maxValue.toInt
  · refine .inl ⟨_, if_pos h, Int64.toInt_ofNat_of_lt ?_⟩
    rw [Int64.toInt_maxValue] at h
    omega
  · exact .inr ⟨if_neg h, Int.not_le.1 h⟩

theorem toInt_neg_of_nonneg {m : Int64} (h : 0 ≤ m.toInt) : (-m).toInt = -m.toInt := by
  have hu := m.toInt_lt
  rw [Int64.toInt_neg, Int.bmod_eq_of_le] <;> omega

theorem toInt_millis_after (n : Nat) :
    (ofNanoseconds n).millis.toInt = min Int64.maxValue.toInt (n / 1000000 : Nat) := by
  rw [ofNanoseconds, if_pos (Int.natCast_nonneg n), Int.natAbs_natCast]
  rcases countMillis?_cases n with ⟨m, hc, hm⟩ | ⟨hc, hn⟩ <;> rw [hc]
  · have hu := m.toInt_le
    rw [Option.getD_some, hm, Int.min_eq_right (hm ▸ hu)]
  · rw [Option.getD_none, Int.min_eq_left (Int.le_of_lt hn)]

theorem toInt_millis_before (n : Nat) :
    (ofNanoseconds (-n)).millis.toInt = max Int64.minValue.toInt (-(n / 1000000 : Nat)) := by
  rcases Nat.eq_zero_or_pos n with rfl | hpos
  · rfl
  rw [ofNanoseconds, if_neg (by omega), Int.natAbs_neg, Int.natAbs_natCast]
  rcases countMillis?_cases n with ⟨m, hc, hm⟩ | ⟨hc, hn⟩ <;> rw [hc]
  · have hl := (-m).minValue_le_toInt
    have hneg : (-m).toInt = -(n / 1000000 : Nat) := by
      rw [toInt_neg_of_nonneg (hm ▸ Int.natCast_nonneg _), hm]
    rw [Option.map_some, Option.getD_some, hneg, Int.max_eq_right (hneg ▸ hl)]
  · rw [Option.map_none, Option.getD_none]
    rw [Int64.toInt_maxValue] at hn
    rw [Int64.toInt_minValue]
    omega

theorem toNanoseconds_eq (t : Timestamp) : t.toNanoseconds = t.millis.toInt * 1000000 := by
  have hs : 0 ≤ t.millis ↔ 0 ≤ t.millis.toInt := by rw [Int64.le_iff_toInt_le, Int64.toInt_zero]
  simp only [toNanoseconds, hs]
  split <;> omega

theorem ofNanoseconds_toNanoseconds (t : Timestamp) : ofNanoseconds t.toNanoseconds = t := by
  have hl := t.millis.minValue_le_toInt
  have hu := t.millis.toInt_le
  have whole (n : Nat) : n * 1000000 / 1000000 = n := Nat.mul_div_cancel n (by decide)
  have hm : (ofNanoseconds t.toNanoseconds).millis.toInt = t.millis.toInt := by
    rw [toNanoseconds_eq]
    obtain ⟨n, hn | hn⟩ := t.millis.toInt.eq_nat_or_neg <;> rw [hn] at hl hu ⊢
    · have h := toInt_millis_after (n * 1000000)
      rw [whole, Int.min_eq_right hu] at h
      exact h
    · have h := toInt_millis_before (n * 1000000)
      rw [whole, Int.max_eq_right hl, Int.natCast_mul, ← Int.neg_mul] at h
      exact h
  exact congrArg mk (Int64.toInt_inj.1 hm)

theorem ofNanoseconds_mono {t t' : Int} (h : t ≤ t') :
    (ofNanoseconds t).millis ≤ (ofNanoseconds t').millis := by
  rw [Int64.le_iff_toInt_le]
  obtain ⟨n, rfl | rfl⟩ := t.eq_nat_or_neg <;> obtain ⟨n', rfl | rfl⟩ := t'.eq_nat_or_neg <;>
    simp only [toInt_millis_after, toInt_millis_before, Int64.toInt_maxValue,
      Int64.toInt_minValue] <;> omega

theorem ofClock?_eq_some_iff {t : Int} {a : Timestamp} :
    ofClock? t = some a ↔ (-clockRange ≤ t ∧ t < clockRange) ∧ ofNanoseconds t = a := by
  simp [ofClock?]

theorem ofClock?_after (n : Nat) :
    ofClock? n = if n < clockRange then some (ofNanoseconds n) else none := by
  have h : -clockRange ≤ n := by
    rw [clockRange]
    omega
  simp only [ofClock?, and_iff_right h]

theorem ofClock?_before (n : Nat) :
    ofClock? (-n) = if n ≤ clockRange then some (ofNanoseconds (-n)) else none := by
  have h : -(n : Int) < clockRange := by
    rw [clockRange]
    omega
  simp only [ofClock?, and_iff_left h, Int.neg_le_neg_iff]

theorem toNanoseconds_mem (t : Timestamp) :
    -clockRange ≤ t.toNanoseconds ∧ t.toNanoseconds < clockRange := by
  have hl := t.millis.le_toInt
  have hu := t.millis.toInt_lt
  rw [clockRange, toNanoseconds_eq]
  omega

/-- A clock that shows a timestamp is read as this timestamp, the first of all not excepted. At any
distance from the epoch that a clock gets to, the milliseconds that have passed in full are read, or
the end of the range; a clock that shows more is never read as less. -/
theorem ofClock?_exact :
    (∀ t : Timestamp, ofClock? t.toNanoseconds = some t) ∧
    (∀ d : Duration, (ofClock? d.toNanoseconds).map (·.millis.toInt) =
      if d.toNanoseconds < clockRange then
        some (min Int64.maxValue.toInt (d.toNanoseconds / 1000000 : Nat))
      else none) ∧
    (∀ d : Duration, (ofClock? (-d.toNanoseconds)).map (·.millis.toInt) =
      if d.toNanoseconds ≤ clockRange then
        some (max Int64.minValue.toInt (-(d.toNanoseconds / 1000000 : Nat)))
      else none) ∧
    ∀ t t' a a', t ≤ t' → ofClock? t = some a → ofClock? t' = some a' → a.millis ≤ a'.millis := by
  refine ⟨fun t => ?_, fun d => ?_, fun d => ?_, fun t t' a a' h ha ha' => ?_⟩
  · exact ofClock?_eq_some_iff.2 ⟨t.toNanoseconds_mem, t.ofNanoseconds_toNanoseconds⟩
  · rw [ofClock?_after, ← toInt_millis_after]
    split <;> rfl
  · rw [ofClock?_before, ← toInt_millis_before]
    split <;> rfl
  · obtain ⟨-, rfl⟩ := ofClock?_eq_some_iff.1 ha
    obtain ⟨-, rfl⟩ := ofClock?_eq_some_iff.1 ha'
    exact ofNanoseconds_mono h

def longest : Duration := ⟨9223372036854775, 808999999, by decide⟩

theorem ofClock?_exact_longest :
    ofClock? (toNanoseconds ⟨Int64.minValue⟩) = some ⟨Int64.minValue⟩ ∧
      (ofClock? longest.toNanoseconds).map (·.millis.toInt) = some 9223372036854775807 ∧
      (ofClock? (-longest.toNanoseconds)).map (·.millis.toInt) = some (-9223372036854775808) ∧
      (ofNanoseconds (-999999)).millis ≤ (ofNanoseconds 999999).millis := by
  obtain ⟨same, after, before, mono⟩ := ofClock?_exact
  exact ⟨same _, (after longest).trans (by decide), (before longest).trans (by decide),
    mono (-999999) 999999 _ _ (by decide) rfl rfl⟩

end Timestamp

end WireProtocol.Wire
