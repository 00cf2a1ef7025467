import WireProtocol.Text.Blank
import WireProtocol.Text.Cut
import WireProtocol.Text.Identifier

namespace WireProtocol.Text

theorem cutAt?_append {p : Char → Bool} {left : List Char} (h : ∀ c ∈ left, p c = false) {c : Char}
    (hc : p c = true) (right : List Char) : cutAt? p (left ++ c :: right) = some (left, right) := by
  induction left with
  | nil => simp [cutAt?, hc]
  | cons b left ih =>
    rw [List.forall_mem_cons] at h
    simp [cutAt?, h.1, ih h.2]

theorem cutAt?_of_forall {p : Char → Bool} {text : List Char} (h : ∀ c ∈ text, p c = false) :
    cutAt? p text = none := by
  induction text with
  | nil => rfl
  | cons c text ih =>
    rw [List.forall_mem_cons] at h
    simp [cutAt?, h.1, ih h.2]

theorem exists_splitAt (p : Char → Bool) (text : List Char) :
    ∃ part parts, splitAt p text = part :: parts := by
  induction text with
  | nil => exact ⟨[], [], rfl⟩
  | cons c text ih =>
    obtain ⟨part, parts, h⟩ := ih
    rw [splitAt]
    split
    · exact ⟨_, _, rfl⟩
    · rw [h]
      exact ⟨_, _, rfl⟩

theorem splitAt_cons_of_neg {p : Char → Bool} {c : Char} (hc : p c = false) {text part : List Char}
    {parts : List (List Char)} (h : splitAt p text = part :: parts) :
    splitAt p (c :: text) = (c :: part) :: parts := by
  simp [splitAt, hc, h]

theorem splitAt_cons_of_pos {p : Char → Bool} {c : Char} (hc : p c = true) (text : List Char) :
    splitAt p (c :: text) = [] :: splitAt p text := by
  simp [splitAt, hc]

theorem splitAt_append_of_forall {p : Char → Bool} {left : List Char} (h : ∀ c ∈ left, p c = false)
    {right part : List Char} {parts : List (List Char)} (hr : splitAt p right = part :: parts) :
    splitAt p (left ++ right) = (left ++ part) :: parts := by
  induction left with
  | nil => exact hr
  | cons c left ih =>
    rw [List.forall_mem_cons] at h
    exact splitAt_cons_of_neg h.1 (ih h.2)

theorem splitAt_of_forall {p : Char → Bool} {text : List Char} (h : ∀ c ∈ text, p c = false) :
    splitAt p text = [text] := by
  have ht := splitAt_append_of_forall h (rfl : splitAt p [] = [[]])
  rwa [List.append_nil] at ht

theorem splitAt_append {p : Char → Bool} {left : List Char} (h : ∀ c ∈ left, p c = false) {c : Char}
    (hc : p c = true) (right : List Char) :
    splitAt p (left ++ c :: right) = left :: splitAt p right := by
  rw [splitAt_append_of_forall h (splitAt_cons_of_pos hc right), List.append_nil]

theorem splitAt_append_cons {p : Char → Bool} (left : List Char) {c : Char} (hc : p c = true)
    (right : List Char) : splitAt p (left ++ c :: right) = splitAt p left ++ splitAt p right := by
  induction left with
  | nil => exact splitAt_cons_of_pos hc right
  | cons b left ih =>
    obtain ⟨part, parts, hs⟩ := exists_splitAt p left
    rw [List.cons_append, splitAt, splitAt, ih, hs]
    split <;> rfl

theorem mem_splitAt {p : Char → Bool} {text : List Char} {c : Char} (hm : c ∈ text)
    (hc : p c = false) : ∃ part ∈ splitAt p text, c ∈ part := by
  induction text with
  | nil => cases hm
  | cons b text ih =>
    obtain ⟨part, parts, h⟩ := exists_splitAt p text
    rcases List.mem_cons.1 hm with rfl | hm
    · exact ⟨c :: part, by simp [splitAt_cons_of_neg hc h]⟩
    · obtain ⟨part', hp, hm⟩ := ih hm
      rw [splitAt]
      split
      · exact ⟨part', List.mem_cons_of_mem _ hp, hm⟩
      · rw [h] at hp ⊢
        rcases List.mem_cons.1 hp with rfl | hp
        · exact ⟨b :: part', List.mem_cons_self, List.mem_cons_of_mem _ hm⟩
        · exact ⟨part', List.mem_cons_of_mem _ hp, hm⟩

theorem cutAt?_eq_some {p : Char → Bool} {text left right : List Char}
    (h : cutAt? p text = some (left, right)) : ∃ c, p c = true ∧ text = left ++ c :: right := by
  induction text generalizing left with
  | nil => cases h
  | cons b text ih =>
    rw [cutAt?] at h
    split at h
    · next hb =>
      cases h
      exact ⟨b, hb, rfl⟩
    · obtain ⟨⟨left, right⟩, hc, he⟩ := Option.map_eq_some_iff.1 h
      cases he
      obtain ⟨c, hp, rfl⟩ := ih hc
      exact ⟨c, hp, rfl⟩

theorem eq_false_of_mem_splitAt {p : Char → Bool} {text part : List Char}
    (h : part ∈ splitAt p text) : ∀ c ∈ part, p c = false := by
  induction text generalizing part with
  | nil =>
    obtain rfl := List.mem_singleton.1 h
    exact List.forall_mem_nil _
  | cons c text ih =>
    rw [splitAt] at h
    split at h
    · rcases List.mem_cons.1 h with rfl | h
      · exact List.forall_mem_nil _
      · exact ih h
    · next hc =>
      obtain ⟨first, parts, hs⟩ := exists_splitAt p text
      rw [hs] at h ih
      rcases List.mem_cons.1 h with rfl | h
      · exact List.forall_mem_cons.2 ⟨Bool.eq_false_iff.2 hc, ih List.mem_cons_self⟩
      · exact ih (List.mem_cons_of_mem _ h)

theorem stripStart?_eq_some {expected text rest : List Char}
    (h : stripStart? expected text = some rest) : text = expected ++ rest := by
  induction expected generalizing text with
  | nil => exact Option.some.inj h
  | cons e expected ih =>
    cases text with
    | nil => cases h
    | cons c text =>
      rw [stripStart?] at h
      split at h
      · next he => rw [he, ih h, List.cons_append]
      · cases h

theorem stripEnd?_eq_some {expected text rest : List Char}
    (h : stripEnd? expected text = some rest) : text = rest ++ expected := by
  obtain ⟨rest, hs, rfl⟩ := Option.map_eq_some_iff.1 h
  simpa using congrArg List.reverse (stripStart?_eq_some hs)

@[simp] theorem stripStart?_append (expected text : List Char) :
    stripStart? expected (expected ++ text) = some text := by
  induction expected with
  | nil => rfl
  | cons e expected ih => simpa [stripStart?] using ih

@[simp] theorem stripEnd?_append (text expected : List Char) :
    stripEnd? expected (text ++ expected) = some text := by
  simp [stripEnd?]

theorem trimStart_append {g : List Char} (hg : ∀ c ∈ g, isBlank c = true) (text : List Char) :
    trimStart (g ++ text) = trimStart text := List.dropWhile_append_of_pos hg

theorem trim_subset (text : List Char) : trim text ⊆ text := by
  intro c hc
  have he := (List.dropWhile_suffix isBlank).subset (List.mem_reverse.1 hc)
  exact (List.dropWhile_suffix isBlank).subset (List.mem_reverse.1 he)

theorem trim_append_left {g : List Char} (hg : ∀ c ∈ g, isBlank c = true) (text : List Char) :
    trim (g ++ text) = trim text := by
  rw [trim, trim, trimStart_append hg]

theorem trimEnd_append {g : List Char} (hg : ∀ c ∈ g, isBlank c = true) (text : List Char) :
    trimEnd (text ++ g) = trimEnd text := by
  rw [trimEnd, trimEnd, List.reverse_append, trimStart_append (by simpa using hg)]

theorem trim_append_right {g : List Char} (hg : ∀ c ∈ g, isBlank c = true) (text : List Char) :
    trim (text ++ g) = trim text := by
  simp only [trim, trimStart, List.dropWhile_append]
  split
  · next h =>
    rw [List.isEmpty_iff.1 h, ← List.append_nil g, List.dropWhile_append_of_pos hg]
    rfl
  · exact trimEnd_append hg _

structure Tight (text : List Char) : Prop where
  start : ∀ c ∈ text.head?, isBlank c = false
  finish : ∀ c ∈ text.getLast?, isBlank c = false

theorem trimStart_of_head {text : List Char} (h : ∀ c ∈ text.head?, isBlank c = false) :
    trimStart text = text := by
  cases text with
  | nil => rfl
  | cons c text => simp [trimStart, h c rfl]

theorem Tight.trim {text : List Char} (h : Tight text) : trim text = text := by
  rw [Text.trim, trimStart_of_head h.start, trimEnd, trimStart_of_head, List.reverse_reverse]
  simpa using h.finish

theorem Tight.join {s t : List Char} (hs : Tight s) (hn : s ≠ []) (m : List Char) (ht : Tight t)
    (hn' : t ≠ []) : Tight (s ++ m ++ t) where
  start c hc := by
    rw [List.append_assoc, List.head?_append, List.head?_eq_some_head hn, Option.some_or] at hc
    exact hs.start c (List.head?_eq_some_head hn ▸ hc)
  finish c hc := by
    rw [List.getLast?_append, List.getLast?_eq_some_getLast hn', Option.some_or] at hc
    exact ht.finish c (List.getLast?_eq_some_getLast hn' ▸ hc)

structure IsWord (w : List Char) : Prop where
  ne_nil : w ≠ []
  solid : ∀ c ∈ w, isBlank c = false

theorem IsWord.tight {w : List Char} (hw : IsWord w) : Tight w where
  start c hc := hw.solid c (List.mem_of_head? hc)
  finish c hc := hw.solid c (List.mem_of_getLast? hc)

theorem wordsFrom_append {w : List Char} (hw : ∀ c ∈ w, isBlank c = false) (run text : List Char) :
    wordsFrom run (w ++ text) = wordsFrom (run ++ w) text := by
  induction w generalizing run with
  | nil => simp
  | cons c w ih =>
    rw [List.forall_mem_cons] at hw
    simp [wordsFrom, hw.1, ih hw.2]

theorem words_blanks {g : List Char} (hg : ∀ c ∈ g, isBlank c = true) (text : List Char) :
    words (g ++ text) = words text := by
  induction g with
  | nil => rfl
  | cons c g ih =>
    rw [List.forall_mem_cons] at hg
    simpa [words, wordsFrom, hg.1] using ih hg.2

theorem IsWord.words {w : List Char} (hw : IsWord w) : words w = [w] := by
  have h := wordsFrom_append hw.solid [] []
  simpa [Text.words, wordsFrom, hw.ne_nil] using h

theorem IsWord.words_append {w : List Char} (hw : IsWord w) {g : List Char} (hn : g ≠ [])
    (hg : ∀ c ∈ g, isBlank c = true) (text : List Char) :
    Text.words (w ++ (g ++ text)) = w :: Text.words text := by
  obtain ⟨c, g, rfl⟩ := List.exists_cons_of_ne_nil hn
  rw [List.forall_mem_cons] at hg
  rw [Text.words, wordsFrom_append hw.solid, List.nil_append, List.cons_append, wordsFrom,
    if_pos hg.1, if_neg (by simpa using hw.ne_nil)]
  exact congrArg _ (words_blanks hg.2 text)

theorem toNat_of_isIdentifierRest {c : Char} (h : isIdentifierRest c = true) :
    48 ≤ c.toNat ∧ c.toNat ≤ 122 := by
  -- A range of characters is one of code points.
  have range : ∀ {a b : Char}, a.val ≤ c.val → c.val ≤ b.val →
      a.toNat ≤ c.toNat ∧ c.toNat ≤ b.toNat :=
    fun ha hb => ⟨UInt32.le_iff_toNat_le.1 ha, UInt32.le_iff_toNat_le.1 hb⟩
  simp only [isIdentifierRest, Char.isAlphanum, Bool.or_eq_true, beq_iff_eq] at h
  rcases h with (h | h) | rfl
  · rcases Bool.or_eq_true_iff.1 h with h | h
    · obtain ⟨ha, hz⟩ := of_decide_eq_true h
      have hr : 65 ≤ c.toNat ∧ c.toNat ≤ 90 := @range 'A' 'Z' ha hz
      omega
    · obtain ⟨ha, hz⟩ := Bool.and_eq_true_iff.1 h
      have hr : 97 ≤ c.toNat ∧ c.toNat ≤ 122 :=
        @range 'a' 'z' (of_decide_eq_true ha) (of_decide_eq_true hz)
      omega
  · have hr : 48 ≤ c.toNat ∧ c.toNat ≤ 57 := Char.isDigit_iff_toNat.1 h
    omega
  · decide

theorem toNat_of_isBlank {c : Char} (h : isBlank c = true) : c.toNat ≤ 32 ∨ 133 ≤ c.toNat := by
  simp only [isBlank, Bool.or_eq_true, beq_iff_eq, decide_eq_true_eq, Bool.and_eq_true] at h
  omega

def isWordChar (c : Char) : Bool := isIdentifierRest c || c == '.' || c == '+' || c == '-'

theorem isBlank_of_isWordChar {c : Char} (h : isWordChar c = true) : isBlank c = false := by
  simp only [isWordChar, Bool.or_eq_true, beq_iff_eq] at h
  rcases h with ((h | rfl) | rfl) | rfl
  · rw [Bool.eq_false_iff]
    intro hb
    have := toNat_of_isIdentifierRest h
    have := toNat_of_isBlank hb
    omega
  · rfl
  · rfl
  · rfl

structure IsTerm (w : List Char) : Prop where
  ne_nil : w ≠ []
  wordChar : ∀ c ∈ w, isWordChar c = true

namespace IsTerm

variable {w : List Char}

theorem of_all (hn : w.isEmpty = false) (h : w.all isWordChar = true) : IsTerm w where
  ne_nil := List.isEmpty_eq_false_iff.1 hn
  wordChar := List.all_eq_true.1 h

theorem isWord (hw : IsTerm w) : IsWord w where
  ne_nil := hw.ne_nil
  solid c hc := isBlank_of_isWordChar (hw.wordChar c hc)

theorem ne (hw : IsTerm w) {p : Char} (hp : isWordChar p = false) : ∀ c ∈ w, (c == p) = false := by
  intro c hc
  rw [beq_eq_false_iff_ne]
  rintro rfl
  exact absurd (hw.wordChar c hc) (by simp [hp])

end IsTerm

theorem isIdentifierRest_of_isIdentifier {text : List Char} (h : isIdentifier text = true) :
    ∀ c ∈ text, isIdentifierRest c = true := by
  cases text with
  | nil => cases h
  | cons c text =>
    simp only [isIdentifier, Bool.and_eq_true, List.all_eq_true] at h
    refine List.forall_mem_cons.2 ⟨?_, h.2⟩
    have hc := h.1
    simp only [isIdentifierStart, isIdentifierRest, Char.isAlphanum, Bool.or_eq_true] at hc ⊢
    exact hc.imp_left .inl

theorem isDottedName_of_isIdentifier {text : List Char} (h : isIdentifier text = true) :
    isDottedName text = true := by
  have hd : ∀ c ∈ text, (c == '.') = false := by
    intro c hc
    rw [beq_eq_false_iff_ne]
    rintro rfl
    exact absurd (isIdentifierRest_of_isIdentifier h _ hc) (by decide)
  rw [isDottedName, splitAt_of_forall hd]
  simpa using h

theorem isTerm_of_isDottedName {text : List Char} (h : isDottedName text = true) : IsTerm text where
  ne_nil := by
    rintro rfl
    cases h
  wordChar c hc := by
    simp only [isWordChar, Bool.or_eq_true]
    cases hd : c == '.' with
    | true => exact .inl (.inl (.inr rfl))
    | false =>
      obtain ⟨part, hp, hm⟩ := mem_splitAt (p := (· == '.')) hc hd
      have hi := List.all_eq_true.1 h part hp
      exact .inl (.inl (.inl (isIdentifierRest_of_isIdentifier hi c hm)))

theorem isTerm_of_isIdentifier {text : List Char} (h : isIdentifier text = true) : IsTerm text :=
  isTerm_of_isDottedName (isDottedName_of_isIdentifier h)

end WireProtocol.Text
