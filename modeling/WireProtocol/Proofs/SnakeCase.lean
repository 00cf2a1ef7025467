import WireProtocol.Proofs.NameWords

namespace WireProtocol.Text

theorem splitAt_intercalate {p : Char → Bool} {c : Char} (hc : p c = true)
    {words : List (List Char)} (h : ∀ w ∈ words, ∀ b ∈ w, p b = false) (hne : words ≠ []) :
    splitAt p ([c].intercalate words) = words := by
  induction words with
  | nil => exact absurd rfl hne
  | cons w words ih =>
    obtain ⟨hw, h⟩ := List.forall_mem_cons.1 h
    cases words with
    | nil => simpa using splitAt_of_forall hw
    | cons v words =>
      rw [List.intercalate_cons_cons, List.append_assoc, List.singleton_append,
        splitAt_append hw hc, ih h (List.cons_ne_nil _ _)]

theorem filter_splitAt_intercalate {p : Char → Bool} {c : Char} (hc : p c = true)
    {words : List (List Char)} (h : ∀ w ∈ words, w ≠ [] ∧ ∀ b ∈ w, p b = false) :
    (splitAt p ([c].intercalate words)).filter (!·.isEmpty) = words := by
  cases words with
  | nil => rfl
  | cons w words =>
    rw [splitAt_intercalate hc (fun w hw => (h w hw).2) (List.cons_ne_nil _ _),
      List.filter_eq_self]
    intro w hw
    simpa using (h w hw).1

theorem not_isSeparator_of_mem_lower {b c : Char} (h : c ∈ lower b) (hb : isSeparator b = false) :
    isSeparator c = false := by
  rcases mem_lower_cases h with ⟨hn, rfl⟩ | h
  · exact forall_lt_128 (P := fun b => isSeparator b = false → isSeparator b.toLower = false)
      (by decide) hn hb
  · simp only [isSeparator, Bool.or_eq_false_iff, beq_eq_false_iff_ne]
    constructor <;> rintro rfl <;> revert h <;> decide

theorem nameWords_spec (name : List Char) :
    ∀ w ∈ nameWords name, w ≠ [] ∧ ∀ c ∈ w, isSeparator c = false := by
  refine fun w hw => ⟨ne_nil_of_mem_nameWords name w hw, fun c hc => ?_⟩
  obtain ⟨b, -, hs, hb⟩ := exists_of_mem_nameWords (List.mem_flatten_of_mem hw hc)
  exact not_isSeparator_of_mem_lower hb hs

theorem snakeCase_inj {x y : String} :
    snakeCase x = snakeCase y ↔ nameWords x.toList = nameWords y.toList := by
  constructor
  · intro h
    have hl := congrArg String.toList h
    rw [toList_snakeCase, toList_snakeCase] at hl
    rw [← filter_splitAt_intercalate (c := '_') rfl (nameWords_spec x.toList), hl,
      filter_splitAt_intercalate rfl (nameWords_spec y.toList)]
  · intro h
    rw [snakeCase, h, ← snakeCase]

theorem nameWordsFrom_of_lower (before : Option Char) (word text : List Char)
    (hw : ∀ c ∈ word, isSeparator c = false)
    (ht : ∀ c ∈ text, isUpper c = false ∧ lower c = [c]) :
    nameWordsFrom before word text = (splitAt isSeparator (word ++ text)).filter (!·.isEmpty) := by
  induction text generalizing before word with
  | nil =>
    rw [List.append_nil, splitAt_of_forall hw]
    cases word <;> rfl
  | cons c text ih =>
    obtain ⟨⟨hu, hl⟩, ht⟩ := List.forall_mem_cons.1 ht
    rw [nameWordsFrom]
    split
    · next hs =>
      rw [splitAt_append hw hs, ih _ [] (List.forall_mem_nil _) ht, List.nil_append]
      cases word <;> rfl
    · next hs =>
      have hn : startsWord before c text = false := by rw [startsWord, hu, Bool.false_and]
      have hw' : ∀ b ∈ word ++ [c], isSeparator b = false :=
        List.forall_mem_append.2 ⟨hw, List.forall_mem_singleton.2 (Bool.eq_false_iff.2 hs)⟩
      rw [hn, Bool.and_false, if_neg Bool.false_ne_true, hl, ih _ _ hw' ht, List.append_assoc]
      rfl

section

variable {x : String} (hx : ∀ c ∈ x.toList, c.toNat < 128)

include hx

theorem lower_of_ascii {b c : Char} (hb : b ∈ x.toList) (hc : c ∈ lower b) : c = b.toLower := by
  rw [lower, if_pos (hx b hb)] at hc
  exact List.mem_singleton.1 hc

theorem flatten_nameWords_ascii :
    (nameWords x.toList).flatten = (x.toList.map Char.toLower).filter (!isSeparator ·) := by
  have hl : ∀ b ∈ x.toList.filter (!isSeparator ·), lower b = [b.toLower] := fun b hb => by
    rw [lower, if_pos (hx b (List.mem_of_mem_filter hb))]
  have hs : ∀ b ∈ x.toList, (!isSeparator b) = !isSeparator b.toLower := fun b hb =>
    forall_lt_128 (P := fun b => (!isSeparator b) = !isSeparator b.toLower) (by decide) (hx b hb)
  rw [flatten_nameWords, List.flatMap_congr hl, ← List.map_eq_flatMap, List.filter_map,
    List.filter_congr hs]
  rfl

theorem nameWords_snakeCase : nameWords (snakeCase x).toList = nameWords x.toList := by
  have hlow : ∀ c ∈ (snakeCase x).toList, isUpper c = false ∧ lower c = [c] := by
    intro c hc
    rcases mem_snakeCase hc with rfl | ⟨b, hb, hc⟩
    · decide
    · rw [lower_of_ascii hx hb hc]
      exact forall_lt_128
        (P := fun b => isUpper b.toLower = false ∧ lower b.toLower = [b.toLower])
        (by decide) (hx b hb)
  rw [nameWords, nameWordsFrom_of_lower none [] _ (List.forall_mem_nil _) hlow, List.nil_append,
    toList_snakeCase, filter_splitAt_intercalate rfl (nameWords_spec _)]

theorem not_isUpper_of_mem_nameWords {w : List Char} (hw : w ∈ nameWords x.toList) {c : Char}
    (hc : c ∈ w) : isUpper c = false := by
  obtain ⟨b, hb, -, hc⟩ := exists_of_mem_nameWords (List.mem_flatten_of_mem hw hc)
  rw [lower_of_ascii hx hb hc]
  exact forall_lt_128 (P := fun b => isUpper b.toLower = false) (by decide) (hx b hb)

end

/-- The words of an ASCII name are in lower case and hold no separator, and together they are the
name in lower case without its separators. In snake case the name has the same words, so it comes to
the same in snake case and in Pascal case as before. Whatever characters two names are made of, they
are one in snake case exactly when they have the same words, and one in Pascal case then. -/
theorem snakeCase_keeps_words :
    (∀ x : String, (∀ c ∈ x.toList, c.toNat < 128) →
      (∀ w ∈ nameWords x.toList, w ≠ [] ∧ ∀ c ∈ w, isUpper c = false ∧ c ≠ '_' ∧ c ≠ '.') ∧
      (nameWords x.toList).flatten = (x.toList.map Char.toLower).filter (!isSeparator ·) ∧
      snakeCase (snakeCase x) = snakeCase x ∧ pascalCase (snakeCase x) = pascalCase x) ∧
    ∀ x y : String, (snakeCase x = snakeCase y ↔ nameWords x.toList = nameWords y.toList) ∧
      (snakeCase x = snakeCase y → pascalCase x = pascalCase y) := by
  refine ⟨fun x hx => ⟨fun w hw => ?words, flatten_nameWords_ascii hx, ?snake, ?pascal⟩,
    fun x y => ⟨snakeCase_inj, fun h => ?_⟩⟩
  case words =>
    obtain ⟨hne, hs⟩ := nameWords_spec x.toList w hw
    refine ⟨hne, fun c hc => ⟨not_isUpper_of_mem_nameWords hx hw hc, ?_⟩⟩
    simpa [isSeparator] using hs c hc
  case snake => exact snakeCase_inj.2 (nameWords_snakeCase hx)
  case pascal => rw [pascalCase, nameWords_snakeCase hx, ← pascalCase]
  · rw [pascalCase, snakeCase_inj.1 h, ← pascalCase]

theorem snakeCase_keeps_words_mixed :
    (∀ c ∈ "parseHTTP2._FrameIDs".toList, c.toNat < 128) ∧
      snakeCase (snakeCase "parseHTTP2._FrameIDs") = "parse_http2_frame_i_ds" ∧
      pascalCase (snakeCase "parseHTTP2._FrameIDs") = "ParseHttp2FrameIDs" ∧
      pascalCase "aB" = pascalCase "A._b" := by
  have ascii : ∀ c ∈ "parseHTTP2._FrameIDs".toList, c.toNat < 128 := by simp
  obtain ⟨-, -, snake, pascal⟩ := snakeCase_keeps_words.1 _ ascii
  refine ⟨ascii, snake.trans rfl, pascal.trans rfl, ?_⟩
  exact (snakeCase_keeps_words.2 "aB" "A._b").2 rfl

end WireProtocol.Text
