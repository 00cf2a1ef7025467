import Mathlib.Data.List.Forall2
import WireProtocol.Proofs.Schema.Items
import WireProtocol.Proofs.Schema.Layout

namespace WireProtocol.Schema

open Text (isBlank isDottedName isIdentifier isTerm_of_isDottedName isTerm_of_isIdentifier IsTerm
  IsWord Tight)
open Token (Inert Whole)

/-- A number in decimal digits, with a sign if it is negative. There may be a sign if it is not, and
zeros in front. -/
inductive Numeral (n : Int32) : List Char → Prop
  | unsigned {zeros : Nat} (h : 0 ≤ n.toInt) :
      Numeral n (List.replicate zeros '0' ++ Nat.toDigits 10 n.toInt.natAbs)
  | plus {zeros : Nat} (h : 0 ≤ n.toInt) :
      Numeral n ('+' :: (List.replicate zeros '0' ++ Nat.toDigits 10 n.toInt.natAbs))
  | minus {zeros : Nat} (h : n.toInt ≤ 0) :
      Numeral n ('-' :: (List.replicate zeros '0' ++ Nat.toDigits 10 n.toInt.natAbs))

inductive Directive.Spelled : List Char → Directive → Prop
  | namespaceName {g name : List Char} (hg : Space g) (hn : isDottedName name = true) :
      Spelled ("namespace".toList ++ g ++ name) (.namespaceName (String.ofList name))
  | option {g key g₁ g₂ value : List Char} (hg : Space g) (hk : isDottedName key = true)
      (h₁ : Gap g₁) (h₂ : Gap g₂) (hv : ∀ c ∈ value, c ≠ '"' ∧ c ≠ '\n') :
      Spelled ("option".toList ++ g ++ key ++ g₁ ++ ['='] ++ g₂ ++ ('"' :: (value ++ ['"'])))
        (.option (String.ofList key) (String.ofList value))
  | header {kind : BlockKind} {g name : List Char} (hg : Space g)
      (hn : isIdentifier name = true) :
      Spelled (kind.keyword.toList ++ g ++ name) (.header kind (String.ofList name))

def Field.declared (type name : String) (id : Int32) (repeated : Bool) (line : Nat) : Field where
  name := name
  type := (FieldType.ofName? type).getD .struct
  id := id
  repeated := repeated
  customType := if (FieldType.ofName? type).isSome then none else some type
  line := line

inductive Field.Core (type name : List Char) (id : Int32) : List Char → Prop
  | mk {g g₁ g₂ numeral : List Char} (ht : isDottedName type = true) (hg : Space g)
      (hn : isIdentifier name = true) (h₁ : Gap g₁) (h₂ : Gap g₂) (hi : Numeral id numeral) :
      Core type name id (type ++ g ++ name ++ g₁ ++ ['='] ++ g₂ ++ numeral)

inductive Field.Spelled : Token → Field → Prop
  | single {line : Nat} {type name text : List Char} {id : Int32} (hr : type ≠ "repeated".toList)
      (h : Core type name id text) :
      Spelled ⟨line, .statement text⟩
        (.declared (String.ofList type) (String.ofList name) id false line)
  | repeated {line : Nat} {type name g text : List Char} {id : Int32} (hg : Space g)
      (h : Core type name id text) :
      Spelled ⟨line, .statement ("repeated".toList ++ g ++ text)⟩
        (.declared (String.ofList type) (String.ofList name) id true line)

inductive Method.Spelled : Token → Method → Prop
  | rpc {line : Nat} {g name g₁ g₂ request g₃ g₄ g₅ g₆ response g₇ : List Char} (hg : Space g)
      (hn : isIdentifier name = true) (h₁ : Gap g₁) (h₂ : Gap g₂)
      (hq : isDottedName request = true) (h₃ : Gap g₃) (h₄ : Gap g₄) (h₅ : Gap g₅) (h₆ : Gap g₆)
      (hr : isDottedName response = true) (h₇ : Gap g₇) :
      Spelled ⟨line, .statement ("rpc".toList ++ g ++ name ++ g₁ ++ ['('] ++ g₂ ++ request ++ g₃ ++
          [')'] ++ g₄ ++ "returns".toList ++ g₅ ++ ['('] ++ g₆ ++ response ++ g₇ ++ [')'])⟩
        ⟨String.ofList name, String.ofList request, String.ofList response, line⟩

/-- The statements of a schema in all their spellings. -/
def Grammar.spelled : Grammar := ⟨Directive.Spelled, Field.Spelled, Method.Spelled⟩

theorem isPlain_of_isWordChar {c : Char} (h : Text.isWordChar c = true) :
    Token.isPlain c = true := by
  simp only [Token.isPlain, decide_eq_true_eq, List.mem_cons, List.not_mem_nil, or_false]
  rintro (rfl | rfl | rfl | rfl | rfl | rfl) <;> exact absurd h (by decide)

theorem whole_term {w : List Char} (hw : IsTerm w) : Whole w where
  ne_nil := hw.ne_nil
  tight := hw.isWord.tight
  inert := Token.inert_of_forall fun c hc => isPlain_of_isWordChar (hw.wordChar c hc)

theorem whole_dottedName {name : List Char} (h : isDottedName name = true) : Whole name :=
  whole_term (isTerm_of_isDottedName h)

theorem whole_identifier {name : List Char} (h : isIdentifier name = true) : Whole name :=
  whole_term (isTerm_of_isIdentifier h)

theorem isTerm_keyword (kind : BlockKind) : IsTerm kind.keyword.toList := by
  cases kind <;> exact .of_all rfl rfl

theorem whole_symbol {c : Char} (hb : isBlank c = false) (hp : Token.isPlain c = true) :
    Whole [c] where
  ne_nil := List.cons_ne_nil _ _
  tight := ⟨by simpa using hb, by simpa using hb⟩
  inert := Token.inert_of_forall (List.forall_mem_singleton.2 hp)

theorem whole_quoted {value : List Char} (hv : ∀ c ∈ value, c ≠ '"' ∧ c ≠ '\n') :
    Whole ('"' :: (value ++ ['"'])) where
  ne_nil := List.cons_ne_nil _ _
  tight := ⟨by simp; rfl, by simp [List.getLast?_cons, List.getLast?_append]; rfl⟩
  inert := Token.inert_quoted hv

namespace Numeral

variable {n : Int32} {text : List Char}

theorem isDigit_digits (zeros m : Nat) :
    ∀ c ∈ List.replicate zeros '0' ++ Nat.toDigits 10 m, c.isDigit = true := by
  intro c hc
  rcases List.mem_append.1 hc with hc | hc
  · rw [List.eq_of_mem_replicate hc]
    rfl
  · exact Nat.isDigit_of_mem_toDigits (by decide) (by decide) hc

theorem digits_ne_nil (zeros m : Nat) : List.replicate zeros '0' ++ Nat.toDigits 10 m ≠ [] :=
  List.append_ne_nil_of_right_ne_nil _ Nat.toDigits_ne_nil

theorem isWordChar_of_isDigit {c : Char} (h : c.isDigit = true) : Text.isWordChar c = true := by
  simp [Text.isWordChar, Text.isIdentifierRest, Char.isAlphanum, h]

theorem isTerm (h : Numeral n text) : IsTerm text := by
  have hd : ∀ zeros, ∀ c ∈ List.replicate zeros '0' ++ Nat.toDigits 10 n.toInt.natAbs,
      Text.isWordChar c = true :=
    fun zeros c hc => isWordChar_of_isDigit (isDigit_digits zeros _ c hc)
  cases h with
  | unsigned h => exact ⟨digits_ne_nil _ _, hd _⟩
  | plus h => exact ⟨List.cons_ne_nil _ _, List.forall_mem_cons.2 ⟨rfl, hd _⟩⟩
  | minus h => exact ⟨List.cons_ne_nil _ _, List.forall_mem_cons.2 ⟨rfl, hd _⟩⟩

theorem natural?_digits (zeros m : Nat) :
    Statement.natural? (List.replicate zeros '0' ++ Nat.toDigits 10 m) = some m := by
  have hv : Nat.ofDigitChars 10 (List.replicate zeros '0' ++ Nat.toDigits 10 m) 0 = m := by
    rw [Nat.ofDigitChars_append, Nat.ofDigitChars_replicate_zero, Nat.mul_zero,
      Nat.ofDigitChars_ten_toDigits]
  have hd := List.all_eq_true.2 (isDigit_digits zeros m)
  have hn := digits_ne_nil zeros m
  rw [Nat.ofDigitChars_eq_foldl] at hv
  generalize List.replicate zeros '0' ++ Nat.toDigits 10 m = digits at hv hd hn
  cases digits with
  | nil => exact absurd rfl hn
  | cons c digits =>
    rw [Statement.natural?, if_pos hd]
    · exact congrArg some hv
    · exact List.cons_ne_nil c digits

theorem integer?_of_isDigit {digits : List Char} (h : ∀ c ∈ digits, c.isDigit = true) :
    Statement.integer? digits = (Statement.natural? digits).map fun n => (n : Int) := by
  rw [Statement.integer?]
  · rintro rest rfl
    exact absurd (h _ List.mem_cons_self) (by decide)
  · rintro rest rfl
    exact absurd (h _ List.mem_cons_self) (by decide)

theorem integer? (h : Numeral n text) : Statement.integer? text = some n.toInt := by
  cases h with
  | unsigned h =>
    rw [integer?_of_isDigit (isDigit_digits _ _), natural?_digits]
    exact congrArg some (Int.natAbs_of_nonneg h)
  | plus h =>
    rw [Statement.integer?, natural?_digits]
    exact congrArg some (Int.natAbs_of_nonneg h)
  | minus h =>
    have hn : -(n.toInt.natAbs : Int) = n.toInt := by omega
    rw [Statement.integer?, natural?_digits]
    exact congrArg some hn

theorem fieldId? (h : Numeral n text) : Statement.fieldId? text = some n := by
  have hl := n.le_toInt
  have hu := n.toInt_lt
  rw [Statement.fieldId?, h.integer?]
  dsimp only
  rw [if_pos ⟨hl, hu⟩, Int32.ofInt_toInt]

end Numeral

theorem Directive.Spelled.whole {text : List Char} {d : Directive} (h : Spelled text d) :
    Whole text := by
  cases h with
  | namespaceName hg hn =>
    exact (whole_term (.of_all rfl rfl)).join hg.gap (whole_dottedName hn)
  | option hg hk h₁ h₂ hv =>
    have keyword : Whole "option".toList := whole_term (.of_all rfl rfl)
    have left := keyword.join hg.gap (whole_dottedName hk)
    exact (left.join h₁ (whole_symbol rfl rfl)).join h₂ (whole_quoted hv)
  | header hg hn => exact (whole_term (isTerm_keyword _)).join hg.gap (whole_identifier hn)

theorem Field.Core.whole {type name text : List Char} {id : Int32} (h : Core type name id text) :
    Whole text := by
  cases h with
  | mk ht hg hn h₁ h₂ hi =>
    have left := (whole_dottedName ht).join hg.gap (whole_identifier hn)
    exact (left.join h₁ (whole_symbol rfl rfl)).join h₂ (whole_term hi.isTerm)

theorem Field.Spelled.legible {t : Token} {f : Field} (h : Spelled t f) : t.Legible := by
  cases h with
  | single hr h => exact h.whole.legible
  | repeated hg h =>
    exact ((whole_term (.of_all rfl rfl)).join hg.gap h.whole).legible

theorem Method.Spelled.legible {t : Token} {m : Method} (h : Spelled t m) : t.Legible := by
  cases h with
  | rpc hg hn h₁ h₂ hq h₃ h₄ h₅ h₆ hr h₇ =>
    have rpc : Whole "rpc".toList := whole_term (.of_all rfl rfl)
    have returns : Whole "returns".toList := whole_term (.of_all rfl rfl)
    have opens : Whole ['('] := whole_symbol rfl rfl
    have closes : Whole [')'] := whole_symbol rfl rfl
    have left := (rpc.join hg.gap (whole_identifier hn)).join h₁ opens
    have middle := (left.join h₂ (whole_dottedName hq)).join h₃ closes
    have right := (middle.join h₄ returns).join h₅ opens
    exact ((right.join h₆ (whole_dottedName hr)).join h₇ closes).legible

theorem splitKeyword_append {k g rest : List Char} (hk : IsTerm k) (hg : Space g)
    (hr : Tight rest) : Statement.splitKeyword (k ++ (g ++ rest)) = (k, rest) := by
  obtain ⟨c, g, rfl⟩ := List.exists_cons_of_ne_nil hg.ne_nil
  have hb := List.forall_mem_cons.1 hg.gap.isBlank
  rw [Statement.splitKeyword, List.cons_append, Text.cutAt?_append hk.isWord.solid hb.1]
  dsimp only
  rw [Text.trim_append_left hb.2, hr.trim]

theorem cutAt?_symbol {g w g' : List Char} (hg : Gap g) (hw : IsTerm w) (hg' : Gap g') {p : Char}
    (hp : Text.isWordChar p = false) (hs : isSpacer p = false) (rest : List Char) :
    Text.cutAt? (· == p) (g ++ w ++ g' ++ p :: rest) = some (g ++ w ++ g', rest) := by
  refine Text.cutAt?_append (p := (· == p)) ?_ (beq_self_eq_true p) rest
  exact List.forall_mem_append.2 ⟨List.forall_mem_append.2 ⟨hg.ne hs, hw.ne hp⟩, hg'.ne hs⟩

theorem gap_nil : Gap [] := List.forall_mem_nil _

theorem guard_of {p : Prop} [Decidable p] (h : p) : (guard p : Option Unit) = some () := if_pos h

theorem option?_append {key g g' value : List Char} (hk : isDottedName key = true) (hg : Gap g)
    (hg' : Gap g') (hv : ∀ c ∈ value, c ≠ '"' ∧ c ≠ '\n') :
    Statement.option? (key ++ g ++ ['='] ++ g' ++ ('"' :: (value ++ ['"']))) =
      some (String.ofList key, String.ofList value) := by
  have hs : key ++ g ++ ['='] ++ g' ++ ('"' :: (value ++ ['"'])) =
      [] ++ key ++ g ++ '=' :: (g' ++ ('"' :: (value ++ ['"']))) := by
    simp only [List.append_assoc, List.cons_append, List.nil_append]
  have hkey := gap_nil.trim_between (whole_dottedName hk).tight hg
  have hval := hg'.trim_append (whole_quoted hv).tight
  rw [hs, Statement.option?, cutAt?_symbol gap_nil (isTerm_of_isDottedName hk) hg rfl rfl]
  have hquote : Text.stripStart? ['"'] ('"' :: (value ++ ['"'])) = some (value ++ ['"']) :=
    Text.stripStart?_append ['"'] (value ++ ['"'])
  dsimp only [Option.bind_eq_bind, Option.bind_some]
  rw [hkey, hval, hquote, Option.bind_some, Text.stripEnd?_append, Option.bind_some, guard_of hk]
  rfl

theorem Directive.Spelled.accepted {text : List Char} {d : Directive} (h : Spelled text d) :
    Says text d := by
  cases h with
  | namespaceName hg hn =>
    refine .namespaceName ?_ hn
    rw [List.append_assoc, splitKeyword_append (.of_all rfl rfl) hg (whole_dottedName hn).tight]
  | @header kind _ _ hg hn =>
    refine .header ?_ hn
    rw [List.append_assoc, splitKeyword_append (isTerm_keyword kind) hg (whole_identifier hn).tight]
  | option hg hk h₁ h₂ hv =>
    refine .option ?_ (option?_append hk h₁ h₂ hv)
    have equals : Whole ['='] := whole_symbol rfl rfl
    have hr := ((whole_dottedName hk).join h₁ equals).join h₂ (whole_quoted hv)
    rw [← splitKeyword_append (.of_all rfl rfl) hg hr.tight]
    simp only [List.append_assoc]

def spread (text : List Char) : List Char :=
  text.flatMap fun c => if c = '=' then [' ', '=', ' '] else [c]

theorem spread_append (s t : List Char) : spread (s ++ t) = spread s ++ spread t :=
  List.flatMap_append

theorem spread_of_forall {s : List Char} (h : ∀ c ∈ s, (c == '=') = false) : spread s = s := by
  induction s with
  | nil => rfl
  | cons c s ih =>
    rw [List.forall_mem_cons] at h
    have hc : c ≠ '=' := by simpa using h.1
    rw [← List.singleton_append, spread_append, ih h.2]
    simp [spread, hc]

theorem fieldWords_append {w g : List Char} (hw : IsTerm w) (hg : Space g) (text : List Char) :
    Statement.fieldWords (w ++ (g ++ text)) = w :: Statement.fieldWords text := by
  have hs : spread (w ++ (g ++ text)) = w ++ (g ++ spread text) := by
    rw [spread_append, spread_append, spread_of_forall (hw.ne rfl),
      spread_of_forall (hg.gap.ne rfl)]
  have h := hw.isWord.words_append hg.ne_nil hg.gap.isBlank (spread text)
  rw [← hs] at h
  exact h

theorem fieldWords_equals {w g : List Char} (hw : IsTerm w) (hg : Gap g) (text : List Char) :
    Statement.fieldWords (w ++ (g ++ '=' :: text)) = w :: ['='] :: Statement.fieldWords text := by
  have hs : spread (w ++ (g ++ '=' :: text)) =
      w ++ ((g ++ [' ']) ++ (['='] ++ ([' '] ++ spread text))) := by
    rw [spread_append, spread_append, spread_of_forall (hw.ne rfl), spread_of_forall (hg.ne rfl)]
    simp [spread]
  have hb : ∀ c ∈ g ++ [' '], isBlank c = true :=
    List.forall_mem_append.2 ⟨hg.isBlank, List.forall_mem_singleton.2 rfl⟩
  have hq : IsWord ['='] := ⟨List.cons_ne_nil _ _, List.forall_mem_singleton.2 rfl⟩
  have h := hw.isWord.words_append (by simp) hb (['='] ++ ([' '] ++ spread text))
  rw [hq.words_append (List.cons_ne_nil _ _) (List.forall_mem_singleton.2 rfl), ← hs] at h
  exact h

theorem fieldWords_word {w g : List Char} (hw : IsTerm w) (hg : Gap g) :
    Statement.fieldWords (g ++ w) = [w] := by
  have h := Text.words_blanks hg.isBlank w
  rw [hw.isWord.words] at h
  have hs : spread (g ++ w) = g ++ w := by
    rw [spread_append, spread_of_forall (hg.ne rfl), spread_of_forall (hw.ne rfl)]
  rw [← hs] at h
  exact h

theorem Field.Core.fieldWords {type name text : List Char} {id : Int32}
    (h : Core type name id text) :
    ∃ numeral, Statement.fieldWords text = [type, name, ['='], numeral] ∧ Numeral id numeral := by
  cases h with
  | @mk g g₁ g₂ numeral ht hg hn h₁ h₂ hi =>
    refine ⟨numeral, ?_, hi⟩
    have hs : type ++ g ++ name ++ g₁ ++ ['='] ++ g₂ ++ numeral =
        type ++ (g ++ (name ++ (g₁ ++ '=' :: (g₂ ++ numeral)))) := by
      simp only [List.append_assoc, List.cons_append, List.nil_append]
    rw [hs, fieldWords_append (isTerm_of_isDottedName ht) hg,
      fieldWords_equals (isTerm_of_isIdentifier hn) h₁, fieldWords_word hi.isTerm h₂]

theorem Field.Core.field {type name text : List Char} {id : Int32} (h : Core type name id text) :
    isDottedName type = true ∧ isIdentifier name = true := by
  cases h with
  | mk ht hg hn h₁ h₂ hi => exact ⟨ht, hn⟩

theorem typedField_eq (type name : List Char) (id : Int32) (repeated : Bool) (line : Nat) :
    Statement.typedField type name id repeated line =
      .declared (String.ofList type) (String.ofList name) id repeated line := by
  simp only [Statement.typedField, Field.declared]
  split
  · next h => simp [h]
  · next h => simp [h]

theorem Field.Spelled.gives {t : Token} {f : Field} (h : Spelled t f) :
    t.Gives Statement.field f := by
  cases h with
  | @single line type name text id hr h =>
    obtain ⟨numeral, hw, hi⟩ := h.fieldWords
    have hn : ([type, name, ['='], numeral].head? == some "repeated".toList) = false := by
      simpa using hr
    refine ⟨text, rfl, ?_⟩
    simp only [Statement.field, hw, hn, Bool.false_eq_true, if_false, h.field.1, h.field.2,
      Bool.and_true, if_true, hi.fieldId?, typedField_eq]
  | @repeated line type name g text id hg h =>
    obtain ⟨numeral, hw, hi⟩ := h.fieldWords
    have hw' : Statement.fieldWords ("repeated".toList ++ g ++ text) =
        ["repeated".toList, type, name, ['='], numeral] := by
      rw [List.append_assoc, fieldWords_append (.of_all rfl rfl) hg, hw]
    refine ⟨_, rfl, ?_⟩
    simp only [Statement.field, hw', List.head?_cons, beq_self_eq_true, if_true, List.tail_cons,
      h.field.1, h.field.2, Bool.and_true, hi.fieldId?, typedField_eq]

theorem method?_of_parts {text rest tail tail' tail'' left middle right : List Char}
    (hk : Statement.splitKeyword text = ("rpc".toList, rest))
    (ho : Text.cutAt? (· == '(') rest = some (left, tail))
    (hc : Text.cutAt? (· == ')') tail = some (middle, tail'))
    (hr : Text.trimStart tail' = "returns".toList ++ tail'')
    (hp : Text.trim tail'' = ['('] ++ (right ++ [')']))
    (hl : isIdentifier (Text.trim left) = true) (hm : isDottedName (Text.trim middle) = true)
    (ht : isDottedName (Text.trim right) = true) (line : Nat) :
    Statement.method? text line = some ⟨String.ofList (Text.trim left),
      String.ofList (Text.trim middle), String.ofList (Text.trim right), line⟩ := by
  have h := Text.stripStart?_append "returns".toList tail''
  have h' := Text.stripStart?_append ['('] (right ++ [')'])
  have hn : (isIdentifier (Text.trim left) && isDottedName (Text.trim middle) &&
      isDottedName (Text.trim right)) = true := by
    rw [hl, hm, ht]
    rfl
  rw [Statement.method?, hk]
  dsimp only [Option.bind_eq_bind]
  rw [guard_of rfl, Option.bind_some, ho, Option.bind_some]
  dsimp only
  rw [hc, Option.bind_some]
  dsimp only
  rw [hr, h, Option.bind_some, hp, h', Option.bind_some, Text.stripEnd?_append, Option.bind_some,
    guard_of hn]
  rfl

theorem tight_parentheses (text : List Char) : Tight (['('] ++ (text ++ [')'])) := by
  have opens : Tight ['('] := (whole_symbol rfl rfl).tight
  have closes : Tight [')'] := (whole_symbol rfl rfl).tight
  simpa using opens.join (List.cons_ne_nil _ _) text closes (List.cons_ne_nil _ _)

theorem Method.Spelled.gives {t : Token} {m : Method} (h : Spelled t m) :
    t.Gives Statement.method m := by
  cases h with
  | @rpc line g name g₁ g₂ request g₃ g₄ g₅ g₆ response g₇ hg hn h₁ h₂ hq h₃ h₄ h₅ h₆ hr h₇ =>
    have hn' := isTerm_of_isIdentifier hn
    have hq' := isTerm_of_isDottedName hq
    have hr' := isTerm_of_isDottedName hr
    -- What is left of the statement at each step.
    obtain ⟨last, hl⟩ : ∃ last, last = ['('] ++ (g₆ ++ response ++ g₇ ++ [')']) := ⟨_, rfl⟩
    obtain ⟨tail', ht'⟩ : ∃ tail', tail' = g₄ ++ ("returns".toList ++ (g₅ ++ last)) := ⟨_, rfl⟩
    obtain ⟨tail, ht⟩ : ∃ tail, tail = g₂ ++ request ++ g₃ ++ ')' :: tail' := ⟨_, rfl⟩
    have hs : "rpc".toList ++ g ++ name ++ g₁ ++ ['('] ++ g₂ ++ request ++ g₃ ++ [')'] ++ g₄ ++
        "returns".toList ++ g₅ ++ ['('] ++ g₆ ++ response ++ g₇ ++ [')'] =
        "rpc".toList ++ (g ++ ([] ++ name ++ g₁ ++ '(' :: tail)) := by
      simp only [ht, ht', hl, List.append_assoc, List.cons_append, List.nil_append]
    have hlast : Tight last := hl ▸ tight_parentheses _
    have hrest : Tight ([] ++ name ++ g₁ ++ '(' :: tail) := by
      have h := hn'.isWord.tight.join hn'.ne_nil
        (g₁ ++ '(' :: (g₂ ++ request ++ g₃ ++ ')' :: (g₄ ++ ("returns".toList ++ g₅)))) hlast
        (hl ▸ List.cons_ne_nil _ _)
      simpa only [ht, ht', List.append_assoc, List.cons_append, List.nil_append] using h
    have hk := splitKeyword_append (k := "rpc".toList) (.of_all rfl rfl) hg hrest
    have ho := cutAt?_symbol gap_nil hn' h₁ (p := '(') rfl rfl tail
    have hc := cutAt?_symbol h₂ hq' h₃ (p := ')') rfl rfl tail'
    rw [← ht] at hc
    have hret : Text.trimStart tail' = "returns".toList ++ (g₅ ++ last) := by
      rw [ht', Text.trimStart_append h₄.isBlank]
      rfl
    have hp : Text.trim (g₅ ++ last) = ['('] ++ (g₆ ++ response ++ g₇ ++ [')']) := by
      rw [h₅.trim_append hlast, hl]
    have hname := gap_nil.trim_between hn'.isWord.tight h₁
    have hrequest := h₂.trim_between hq'.isWord.tight h₃
    have hresponse := h₆.trim_between hr'.isWord.tight h₇
    have hm := method?_of_parts hk ho hc hret hp (by rwa [hname]) (by rwa [hrequest])
      (by rwa [hresponse]) line
    rw [hname, hrequest, hresponse] at hm
    exact ⟨_, rfl, by rw [hs, Statement.method, hm]⟩

namespace Grammar

theorem spelled_within : spelled.Within accepted :=
  ⟨Directive.Spelled.accepted, Field.Spelled.gives, Method.Spelled.gives⟩

theorem legible_body {α : Type} {R : Token → α → Prop} (hR : ∀ {t a}, R t a → t.Legible)
    {body : List Token} {as : List α} (h : List.Forall₂ R body as) : ∀ t ∈ body, t.Legible :=
  ((List.forall₂_and_left body as).1 (h.imp fun _ _ ht => ⟨hR ht, ht⟩)).1

theorem legible_block {t : Token} {opens closes : Nat} {body : List Token} (ht : t.Legible)
    (hb : ∀ t ∈ body, t.Legible) :
    ∀ t' ∈ t :: ⟨opens, .opening⟩ :: (body ++ [⟨closes, .closing⟩]), t'.Legible := by
  refine List.forall_mem_cons.2 ⟨ht, List.forall_mem_cons.2 ⟨nofun, ?_⟩⟩
  exact List.forall_mem_append.2 ⟨hb, List.forall_mem_singleton.2 nofun⟩

theorem legible_item {item : Item} {tokens : List Token} (h : spelled.Derives item tokens) :
    ∀ t ∈ tokens, t.Legible := by
  cases h with
  | namespaceName h => exact List.forall_mem_singleton.2 (Directive.Spelled.whole h).legible
  | option h => exact List.forall_mem_singleton.2 (Directive.Spelled.whole h).legible
  | message h hb =>
    exact legible_block (Directive.Spelled.whole h).legible (legible_body Field.Spelled.legible hb)
  | service h hb =>
    exact legible_block (Directive.Spelled.whole h).legible (legible_body Method.Spelled.legible hb)

theorem legible_items {items : List Item} {tokens : List Token}
    (h : spelled.DerivesAll items tokens) : ∀ t ∈ tokens, t.Legible := by
  induction h with
  | nil => exact List.forall_mem_nil _
  | cons hi _ ih => exact List.forall_mem_append.2 ⟨legible_item hi, ih⟩

end Grammar

/-- However a schema is spelled and laid out, it is read as the schema that it is, without a report.
The lines of what it declares are those of the statements in the text. -/
theorem readSource_laid {items : List Item} {tokens : List Token} {source : String}
    (hs : Grammar.spelled.DerivesAll items tokens) (hl : Laid 1 tokens source.toList) :
    (readSource source).diagnostics = [] ∧ (readSource source).definition.Collects items := by
  have ht : Token.ofSource source.toList = tokens :=
    Token.ofSource_laid hl (Grammar.legible_items hs)
  apply readSource_of_items
  rw [ht]
  exact Grammar.spelled_within.derivesAll hs

theorem readSource_laid_point :
    let source := "option k=\"//\"// c\n;message P\x7b\trepeated Q q= -07\n\x7d"
    let items : List Item :=
      [.option "k" "//", .message ⟨"P", [⟨"q", .struct, -7, true, some "Q", 2⟩], 0, 2⟩]
    let tokens : List Token :=
      [⟨1, .statement "option k=\"//\"".toList⟩, ⟨2, .statement "message P".toList⟩,
        ⟨2, .opening⟩, ⟨2, .statement "repeated Q q= -07".toList⟩, ⟨3, .closing⟩]
    Grammar.spelled.DerivesAll items tokens ∧ Laid 1 tokens source.toList ∧
      (readSource source).diagnostics = [] ∧ (readSource source).definition.Collects items := by
  intro source items tokens
  have space : Space [' '] := ⟨List.cons_ne_nil _ _, List.forall_mem_singleton.2 rfl⟩
  have id : Numeral (-7) "-07".toList := @Numeral.minus (-7) 1 (by decide)
  have option : Directive.Spelled "option k=\"//\"".toList (.option "k" "//") :=
    @Directive.Spelled.option [' '] ['k'] [] [] ['/', '/'] space rfl gap_nil gap_nil (by simp)
  have message : Directive.Spelled "message P".toList (.header .message "P") :=
    @Directive.Spelled.header .message [' '] ['P'] space rfl
  have core : Field.Core ['Q'] ['q'] (-7) "Q q= -07".toList :=
    @Field.Core.mk ['Q'] ['q'] (-7) [' '] [] [' '] _ rfl space rfl gap_nil space.gap id
  have field : Field.Spelled ⟨2, .statement "repeated Q q= -07".toList⟩
      ⟨"q", .struct, -7, true, some "Q", 2⟩ := .repeated space core
  have hs : Grammar.spelled.DerivesAll items tokens :=
    .cons (.option option) (.block (.message message (.cons field .nil)) .nil)
  have text : source.toList =
      "option k=\"//\"".toList ++ '/' :: '/' :: ([' ', 'c'] ++ '\n' :: ';' ::
      ("message P".toList ++ '\x7b' :: '\t' ::
        ("repeated Q q= -07".toList ++ ['\n', '\x7d']))) := by decide +kernel
  have hl : Laid 1 tokens source.toList := by
    rw [text]
    refine .statement .comment (.comment (by decide) (.inr rfl) (.newline (.semicolon ?_)))
    refine .statement (.mark (by decide)) (.opening (.spacer rfl ?_))
    exact .statement (.mark (by decide)) (.newline (.closing .done))
  exact ⟨hs, hl, readSource_laid hs hl⟩

end WireProtocol.Schema
