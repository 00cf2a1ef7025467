import Mathlib.Data.List.Basic
import WireProtocol.Proofs.Text
import WireProtocol.Text.NameWords

namespace WireProtocol.Text

theorem lt_of_mem_other {n m : Nat} (hn : 128 ≤ n)
    (hm : m ∈ LetterCase.other LetterCase.loweredLong LetterCase.lowered n) : 96 < m := by
  have hlong : ∀ x ∈ LetterCase.loweredLong, ∀ m ∈ x.2, 96 < m := by decide
  have hshift : ∀ r ∈ LetterCase.lowered, (96 : Int) < r.first + r.shift := by decide +kernel
  rw [LetterCase.other] at hm
  split at hm
  · next ns hl =>
    obtain ⟨before, after, he, -⟩ := List.lookup_eq_some_iff.1 hl
    exact hlong (n, ns) (by simp [he]) m hm
  · split at hm
    · next r hr =>
      have hf := List.find?_some hr
      have hs := hshift r (List.mem_of_find?_eq_some hr)
      simp only [LetterCase.Run.covers, Bool.and_eq_true, decide_eq_true_eq] at hf
      rw [List.mem_singleton.1 hm]
      omega
    · rw [List.mem_singleton.1 hm]
      omega

theorem mem_lower_cases {b c : Char} (h : c ∈ lower b) :
    b.toNat < 128 ∧ c = b.toLower ∨ c.toNat = 0 ∨ 96 < c.toNat := by
  rw [lower] at h
  split at h
  · next hn => exact .inl ⟨hn, List.mem_singleton.1 h⟩
  · obtain ⟨m, hm, rfl⟩ := List.mem_map.1 h
    have hlt := lt_of_mem_other (by omega) hm
    by_cases hv : m.isValidChar
    · refine .inr (.inr ?_)
      rw [Char.ofNat, dif_pos hv]
      exact hlt
    · refine .inr (.inl ?_)
      rw [Char.ofNat, dif_neg hv]
      rfl

theorem forall_lt_128 {P : Char → Prop} (h : ∀ n < 128, P (Char.ofNat n)) {c : Char}
    (hc : c.toNat < 128) : P c := by
  rw [← c.ofNat_toNat]
  exact h _ hc

theorem slash_mem_lower {c : Char} (h : '/' ∈ lower c) : c = '/' := by
  rcases mem_lower_cases h with ⟨hn, hc⟩ | h0 | hlt
  · exact forall_lt_128 (P := fun c => '/' = c.toLower → c = '/') (by decide) hn hc
  · exact absurd h0 (by decide)
  · exact absurd hlt (by decide)

theorem forall_isIdentifierRest {P : Char → Prop}
    (h : ∀ n < 128, isIdentifierRest (Char.ofNat n) = true → P (Char.ofNat n)) {c : Char}
    (hc : isIdentifierRest c = true) : P c := by
  have hn := toNat_of_isIdentifierRest hc
  exact forall_lt_128 (P := fun c => isIdentifierRest c = true → P c) h (by omega) hc

theorem lower_of_isIdentifierRest {c : Char} (hc : isIdentifierRest c = true) :
    lower c = [c.toLower] := by
  have hn := toNat_of_isIdentifierRest hc
  rw [lower, if_pos (by omega)]

theorem upper_of_isIdentifierRest {c : Char} (hc : isIdentifierRest c = true) :
    upper c = [c.toUpper] := by
  have hn := toNat_of_isIdentifierRest hc
  rw [upper, if_pos (by omega)]

theorem flatten_nameWordsFrom (before : Option Char) (word text : List Char) :
    (nameWordsFrom before word text).flatten =
      word ++ (text.filter (!isSeparator ·)).flatMap lower := by
  fun_induction nameWordsFrom before word text with
  | case1 before word hw => simpa using hw
  | case2 => simp
  | case3 before word c rest hs hw ih =>
    rw [ih, List.isEmpty_iff.1 hw]
    simp [hs]
  | case4 before word c rest hs hw ih => simp [ih, hs]
  | case5 before word c rest hs hw ih => simp [ih, hs]
  | case6 before word c rest hs hw ih => simp [ih, hs]

theorem flatten_nameWords (name : List Char) :
    (nameWords name).flatten = (name.filter (!isSeparator ·)).flatMap lower :=
  flatten_nameWordsFrom none [] name

theorem exists_of_mem_nameWords {name : List Char} {c : Char} (h : c ∈ (nameWords name).flatten) :
    ∃ b ∈ name, isSeparator b = false ∧ c ∈ lower b := by
  rw [flatten_nameWords, List.mem_flatMap] at h
  obtain ⟨b, hb, hc⟩ := h
  obtain ⟨hb, hs⟩ := List.mem_filter.1 hb
  exact ⟨b, hb, by simpa using hs, hc⟩

theorem ne_nil_of_mem_nameWordsFrom (before : Option Char) (word text : List Char) :
    ∀ w ∈ nameWordsFrom before word text, w ≠ [] := by
  fun_induction nameWordsFrom before word text with
  | case1 => simp
  | case2 before word hw => simpa using hw
  | case3 before word c rest hs hw ih => exact ih
  | case4 before word c rest hs hw ih => exact List.forall_mem_cons.2 ⟨by simpa using hw, ih⟩
  | case5 before word c rest hs hw ih =>
    exact List.forall_mem_cons.2 ⟨by simpa using (Bool.and_eq_true_iff.1 hw).1, ih⟩
  | case6 before word c rest hs hw ih => exact ih

theorem ne_nil_of_mem_nameWords (name : List Char) : ∀ w ∈ nameWords name, w ≠ [] :=
  ne_nil_of_mem_nameWordsFrom none [] name

theorem mem_intercalate {c : Char} {sep : List Char} {words : List (List Char)}
    (h : c ∈ sep.intercalate words) : c ∈ sep ∨ c ∈ words.flatten := by
  induction words with
  | nil => simp at h
  | cons w words ih =>
    cases words with
    | nil => exact .inr (by simpa using h)
    | cons v words =>
      rw [List.intercalate_cons_cons, List.mem_append, List.mem_append] at h
      rcases h with (h | h) | h
      · exact .inr (by simp [h])
      · exact .inl h
      · exact (ih h).imp_right fun h => by
          rw [List.flatten_cons]
          exact List.mem_append_right _ h

theorem head?_intercalate (sep : List Char) {words : List (List Char)} (h : ∀ w ∈ words, w ≠ []) :
    (sep.intercalate words).head? = words.flatten.head? := by
  cases words with
  | nil => simp
  | cons w words =>
    have hw := h w List.mem_cons_self
    cases words with
    | nil => simp
    | cons v words =>
      rw [List.intercalate_cons_cons, List.flatten_cons, List.append_assoc,
        List.head?_append_of_ne_nil _ hw, List.head?_append_of_ne_nil _ hw]

theorem toList_snakeCase (name : String) :
    (snakeCase name).toList = ['_'].intercalate (nameWords name.toList) := by
  rw [snakeCase, String.toList_intercalate]
  simp

theorem mem_snakeCase {name : String} {c : Char} (h : c ∈ (snakeCase name).toList) :
    c = '_' ∨ ∃ b ∈ name.toList, c ∈ lower b := by
  rw [toList_snakeCase] at h
  rcases mem_intercalate h with h | h
  · exact .inl (List.mem_singleton.1 h)
  · obtain ⟨b, hb, -, hc⟩ := exists_of_mem_nameWords h
    exact .inr ⟨b, hb, hc⟩

theorem slash_notMem_snakeCase {name : String} (h : '/' ∉ name.toList) :
    '/' ∉ (snakeCase name).toList := by
  intro hm
  rcases mem_snakeCase hm with he | ⟨b, hb, hc⟩
  · exact absurd he (by decide)
  · exact h (slash_mem_lower hc ▸ hb)

section

variable {name : String} (h : isIdentifier name.toList = true)

include h

theorem slash_notMem_of_isIdentifier : '/' ∉ name.toList :=
  fun hm => absurd (isIdentifierRest_of_isIdentifier h _ hm) (by decide)

theorem lowered_of_mem_snakeCase {c : Char} (hc : c ∈ (snakeCase name).toList) :
    isIdentifierRest c = true ∧ c.isUpper = false := by
  rcases mem_snakeCase hc with rfl | ⟨b, hb, hc⟩
  · decide
  · have hb := isIdentifierRest_of_isIdentifier h b hb
    rw [lower_of_isIdentifierRest hb] at hc
    rw [List.mem_singleton.1 hc]
    exact forall_isIdentifierRest (P := fun b => isIdentifierRest b.toLower = true ∧
      b.toLower.isUpper = false) (by decide) hb

theorem head?_snakeCase : (snakeCase name).toList.head? =
    (name.toList.find? (· != '_')).map Char.toLower := by
  have hr := isIdentifierRest_of_isIdentifier h
  have hs : ∀ c ∈ name.toList, (!isSeparator c) = (c != '_') := fun c hc =>
    forall_isIdentifierRest (P := fun c => (!isSeparator c) = (c != '_')) (by decide) (hr c hc)
  have hl : ∀ c ∈ name.toList.filter (· != '_'), lower c = [c.toLower] := fun c hc =>
    lower_of_isIdentifierRest (hr c (List.mem_of_mem_filter hc))
  rw [toList_snakeCase, head?_intercalate _ (ne_nil_of_mem_nameWords _), flatten_nameWords,
    List.filter_congr hs, List.flatMap_congr hl, ← List.map_eq_flatMap, List.head?_map,
    List.head?_filter]

theorem isIdentifierRest_of_mem_nameWords {w : List Char} (hw : w ∈ nameWords name.toList)
    {c : Char} (hc : c ∈ w) : isIdentifierRest c = true := by
  obtain ⟨b, hb, -, hc⟩ := exists_of_mem_nameWords (List.mem_flatten_of_mem hw hc)
  have hb := isIdentifierRest_of_isIdentifier h b hb
  rw [lower_of_isIdentifierRest hb] at hc
  rw [List.mem_singleton.1 hc]
  exact forall_isIdentifierRest (P := fun b => isIdentifierRest b.toLower = true) (by decide) hb

theorem isIdentifierRest_of_mem_pascalCase {c : Char} (hc : c ∈ (pascalCase name).toList) :
    isIdentifierRest c = true := by
  rw [pascalCase, String.toList_ofList, List.mem_flatMap] at hc
  obtain ⟨w, hw, hc⟩ := hc
  have hrest := fun b hb => isIdentifierRest_of_mem_nameWords h hw (c := b) hb
  cases w with
  | nil => cases hc
  | cons b w =>
    rw [List.forall_mem_cons] at hrest
    rw [capitalize, upper_of_isIdentifierRest hrest.1, List.singleton_append, List.mem_cons] at hc
    rcases hc with rfl | hc
    · exact forall_isIdentifierRest (P := fun b => isIdentifierRest b.toUpper = true) (by decide)
        hrest.1
    · exact hrest.2 c hc

end

end WireProtocol.Text
