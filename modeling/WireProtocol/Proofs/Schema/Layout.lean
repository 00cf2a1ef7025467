import WireProtocol.Proofs.Text
import WireProtocol.Schema.Token

namespace WireProtocol.Schema

def isSpacer (c : Char) : Bool := Text.isBlank c && c != '\n'

def Gap (g : List Char) : Prop := ∀ c ∈ g, isSpacer c = true

structure Space (g : List Char) : Prop where
  ne_nil : g ≠ []
  gap : Gap g

inductive Ends : List Char → Prop
  | done : Ends []
  | mark {c : Char} {text : List Char} (hc : c ∈ [';', '\n', '\x7b', '\x7d']) : Ends (c :: text)
  | comment {text : List Char} : Ends ('/' :: '/' :: text)
  | spacer {c : Char} {text : List Char} (hc : isSpacer c = true) (h : Ends text) : Ends (c :: text)

/-- The text has these tokens when it begins in this line. -/
inductive Laid : Nat → List Token → List Char → Prop
  | done {line : Nat} : Laid line [] []
  | spacer {line : Nat} {tokens : List Token} {c : Char} {text : List Char}
      (hc : isSpacer c = true) (h : Laid line tokens text) : Laid line tokens (c :: text)
  | newline {line : Nat} {tokens : List Token} {text : List Char}
      (h : Laid (line + 1) tokens text) : Laid line tokens ('\n' :: text)
  | semicolon {line : Nat} {tokens : List Token} {text : List Char} (h : Laid line tokens text) :
      Laid line tokens (';' :: text)
  | comment {line : Nat} {tokens : List Token} {body text : List Char} (hb : '\n' ∉ body)
      (he : text = [] ∨ text.head? = some '\n') (h : Laid line tokens text) :
      Laid line tokens ('/' :: '/' :: (body ++ text))
  | opening {line : Nat} {tokens : List Token} {text : List Char} (h : Laid line tokens text) :
      Laid line (⟨line, .opening⟩ :: tokens) ('\x7b' :: text)
  | closing {line : Nat} {tokens : List Token} {text : List Char} (h : Laid line tokens text) :
      Laid line (⟨line, .closing⟩ :: tokens) ('\x7d' :: text)
  | statement {line : Nat} {tokens : List Token} {s text : List Char} (he : Ends text)
      (h : Laid line tokens text) : Laid line (⟨line, .statement s⟩ :: tokens) (s ++ text)

theorem isBlank_of_isSpacer {c : Char} (h : isSpacer c = true) : Text.isBlank c = true :=
  (Bool.and_eq_true_iff.1 h).1

namespace Gap

variable {g g' text : List Char}

theorem isBlank (hg : Gap g) : ∀ c ∈ g, Text.isBlank c = true :=
  fun c hc => isBlank_of_isSpacer (hg c hc)

theorem ne (hg : Gap g) {p : Char} (hp : isSpacer p = false) : ∀ c ∈ g, (c == p) = false := by
  intro c hc
  rw [beq_eq_false_iff_ne]
  rintro rfl
  exact absurd (hg c hc) (by simp [hp])

theorem trim_append (hg : Gap g) (ht : Text.Tight text) : Text.trim (g ++ text) = text := by
  rw [Text.trim_append_left hg.isBlank, ht.trim]

theorem append_trim (hg : Gap g) (ht : Text.Tight text) : Text.trim (text ++ g) = text := by
  rw [Text.trim_append_right hg.isBlank, ht.trim]

theorem trim_between (hg : Gap g) (ht : Text.Tight text) (hg' : Gap g') :
    Text.trim (g ++ text ++ g') = text := by
  rw [List.append_assoc, Text.trim_append_left hg.isBlank, hg'.append_trim ht]

end Gap

namespace Token

def ofRest (line : Nat) (begun : List Char) (quoted : Bool) (text : List Char) : List Token :=
  match Text.splitAt (· == '\n') text with
  | part :: parts => ofLine line begun quoted part ++ ofLines (line + 1) parts
  | [] => []

variable {line : Nat} {begun text : List Char} {quoted : Bool} {c : Char}

theorem ofRest_eq (line : Nat) (text : List Char) :
    ofRest line [] false text = ofLines line (Text.splitAt (· == '\n') text) := by
  obtain ⟨part, parts, h⟩ := Text.exists_splitAt (· == '\n') text
  rw [ofRest, h]
  rfl

@[simp] theorem ofStatement_nil (line : Nat) : ofStatement line [] = [] := rfl

theorem ofRest_nil : ofRest line begun quoted [] = ofStatement line begun := by
  simp [ofRest, Text.splitAt, ofLine, ofLines]

theorem ofRest_newline : ofRest line begun quoted ('\n' :: text) =
    ofStatement line begun ++ ofRest (line + 1) [] false text := by
  rw [ofRest_eq]
  rfl

theorem ofRest_cons (line : Nat) (hc : c ≠ '\n') (text : List Char) :
    ∃ part parts, (∀ begun quoted, ofRest line begun quoted text =
        ofLine line begun quoted part ++ ofLines (line + 1) parts) ∧
      ∀ begun quoted, ofRest line begun quoted (c :: text) =
        ofLine line begun quoted (c :: part) ++ ofLines (line + 1) parts := by
  obtain ⟨part, parts, h⟩ := Text.exists_splitAt (· == '\n') text
  have h' := Text.splitAt_cons_of_neg (p := (· == '\n')) (beq_eq_false_iff_ne.2 hc) h
  exact ⟨part, parts, fun _ _ => by rw [ofRest, h], fun _ _ => by rw [ofRest, h']⟩

theorem ofRest_quoted (hc : c ≠ '\n') : ofRest line begun true (c :: text) =
    ofRest line (begun ++ [c]) (c != '"') text := by
  obtain ⟨part, parts, h, h'⟩ := ofRest_cons line hc text
  rw [h, h']
  rfl

theorem ofRest_quote : ofRest line begun false ('"' :: text) =
    ofRest line (begun ++ ['"']) true text := by
  obtain ⟨part, parts, h, h'⟩ := ofRest_cons line (c := '"') (by decide) text
  rw [h, h']
  rfl

theorem ofRest_semicolon : ofRest line begun false (';' :: text) =
    ofStatement line begun ++ ofRest line [] false text := by
  obtain ⟨part, parts, h, h'⟩ := ofRest_cons line (c := ';') (by decide) text
  rw [h, h', ← List.append_assoc]
  rfl

theorem ofRest_opening : ofRest line begun false ('\x7b' :: text) =
    ofStatement line begun ++ ⟨line, .opening⟩ :: ofRest line [] false text := by
  obtain ⟨part, parts, h, h'⟩ := ofRest_cons line (c := '\x7b') (by decide) text
  rw [h, h', ← List.cons_append, ← List.append_assoc]
  rfl

theorem ofRest_closing : ofRest line begun false ('\x7d' :: text) =
    ofStatement line begun ++ ⟨line, .closing⟩ :: ofRest line [] false text := by
  obtain ⟨part, parts, h, h'⟩ := ofRest_cons line (c := '\x7d') (by decide) text
  rw [h, h', ← List.cons_append, ← List.append_assoc]
  rfl

theorem ofRest_comment : ofRest line begun false ('/' :: '/' :: text) =
    ofStatement line begun ++ ofRest line [] false ('/' :: '/' :: text) := by
  obtain ⟨part, parts, h⟩ := Text.exists_splitAt (· == '\n') text
  have h' := Text.splitAt_cons_of_neg (p := (· == '\n')) (c := '/') rfl
    (Text.splitAt_cons_of_neg (c := '/') rfl h)
  simp [ofRest, h', ofLine]

theorem ofRest_body {body : List Char} (hb : '\n' ∉ body)
    (he : text = [] ∨ text.head? = some '\n') :
    ofRest line [] false ('/' :: '/' :: (body ++ text)) = ofRest line [] false text := by
  have hc : ∀ c ∈ '/' :: '/' :: body, (c == '\n') = false := by
    refine List.forall_mem_cons.2 ⟨rfl, List.forall_mem_cons.2 ⟨rfl, fun c hc => ?_⟩⟩
    rw [beq_eq_false_iff_ne]
    rintro rfl
    exact hb hc
  rw [← List.cons_append, ← List.cons_append]
  rcases he with rfl | he
  · rw [List.append_nil, ofRest, Text.splitAt_of_forall hc]
    rfl
  · obtain ⟨text, rfl⟩ := List.head?_eq_some_iff.1 he
    rw [ofRest, Text.splitAt_append hc rfl, ofRest_newline, ofRest_eq]
    rfl

theorem ofStatement_blanks {g : List Char} (hg : ∀ c ∈ g, Text.isBlank c = true) (line : Nat)
    (text : List Char) : ofStatement line (g ++ text) = ofStatement line text := by
  rw [ofStatement, ofStatement, Text.trim_append_left hg]

theorem ofStatement_append_blanks {g : List Char} (hg : ∀ c ∈ g, Text.isBlank c = true) (line : Nat)
    (text : List Char) : ofStatement line (text ++ g) = ofStatement line text := by
  rw [ofStatement, ofStatement, Text.trim_append_right hg]

theorem ofLine_blanks {g : List Char} (hg : ∀ c ∈ g, Text.isBlank c = true) (line : Nat)
    (begun : List Char) (quoted : Bool) (text : List Char) :
    ofLine line (g ++ begun) quoted text = ofLine line begun quoted text := by
  induction text generalizing begun quoted with
  | nil => exact ofStatement_blanks hg line begun
  | cons c text ih =>
    simp only [ofLine, List.append_assoc, ih, ofStatement_blanks hg]

theorem ofRest_blanks {g : List Char} (hg : ∀ c ∈ g, Text.isBlank c = true) (line : Nat)
    (quoted : Bool) (text : List Char) :
    ofRest line g quoted text = ofRest line [] quoted text := by
  simp only [ofRest]
  split
  · have h := ofLine_blanks hg line []
    rw [List.append_nil] at h
    rw [h]
  · rfl

def Inert (s : List Char) : Prop :=
  ∀ line begun text, ofRest line begun false (s ++ text) = ofRest line (begun ++ s) false text

theorem Inert.append {s s' : List Char} (h : Inert s) (h' : Inert s') : Inert (s ++ s') := by
  intro line begun text
  rw [List.append_assoc, h, h', List.append_assoc]

def isPlain (c : Char) : Bool := c ∉ ['\n', '"', '/', ';', '\x7b', '\x7d']

theorem isPlain_of_isSpacer {c : Char} (h : isSpacer c = true) : isPlain c = true := by
  simp only [isPlain, decide_eq_true_eq, List.mem_cons, List.not_mem_nil, or_false]
  rintro (rfl | rfl | rfl | rfl | rfl | rfl) <;> exact absurd h (by decide)

theorem inert_of_forall {s : List Char} (h : ∀ c ∈ s, isPlain c = true) : Inert s := by
  intro line begun text
  induction s generalizing begun with
  | nil => rw [List.nil_append, List.append_nil]
  | cons c s ih =>
    rw [List.forall_mem_cons] at h
    have hc := h.1
    simp only [isPlain, List.mem_cons, List.not_mem_nil, or_false, not_or, decide_eq_true_eq] at hc
    obtain ⟨hn, hq, hs, hm, ho, hd⟩ := hc
    obtain ⟨part, parts, hr, hr'⟩ := ofRest_cons line hn (s ++ text)
    have hl : ofLine line begun false (c :: part) = ofLine line (begun ++ [c]) false part := by
      simp [ofLine, hq, hs, hm, ho, hd]
    rw [List.cons_append, hr', hl, ← hr, ih h.2, List.append_assoc]
    rfl

theorem inert_gap {g : List Char} (hg : Gap g) : Inert g :=
  inert_of_forall fun c hc => isPlain_of_isSpacer (hg c hc)

theorem inert_quoted {value : List Char} (h : ∀ c ∈ value, c ≠ '"' ∧ c ≠ '\n') :
    Inert ('"' :: (value ++ ['"'])) := by
  intro line begun text
  have hv : ∀ begun, ofRest line begun true (value ++ '"' :: text) =
      ofRest line (begun ++ (value ++ ['"'])) false text := by
    induction value with
    | nil => exact fun begun => ofRest_quoted (by decide)
    | cons c value ih =>
      intro begun
      rw [List.forall_mem_cons] at h
      have hq : (c != '"') = true := by simpa using h.1.1
      rw [List.cons_append, ofRest_quoted h.1.2, hq, ih h.2, List.append_assoc]
      rfl
  rw [List.cons_append, ofRest_quote, List.append_assoc, List.singleton_append, hv,
    List.append_assoc]
  rfl

theorem ofRest_spacer (hc : isSpacer c = true) :
    ofRest line begun false (c :: text) = ofRest line (begun ++ [c]) false text :=
  inert_of_forall (List.forall_mem_singleton.2 (isPlain_of_isSpacer hc)) line begun text

theorem ofRest_of_ends (he : Ends text) :
    ofRest line begun false text = ofStatement line begun ++ ofRest line [] false text := by
  induction he generalizing begun with
  | done => rw [ofRest_nil, ofRest_nil, ofStatement_nil, List.append_nil]
  | mark hc =>
    simp only [List.mem_cons, List.not_mem_nil, or_false] at hc
    rcases hc with rfl | rfl | rfl | rfl
    · rw [ofRest_semicolon, ofRest_semicolon, ofStatement_nil, List.nil_append]
    · rw [ofRest_newline, ofRest_newline, ofStatement_nil, List.nil_append]
    · rw [ofRest_opening, ofRest_opening, ofStatement_nil, List.nil_append]
    · rw [ofRest_closing, ofRest_closing, ofStatement_nil, List.nil_append]
  | comment => exact ofRest_comment
  | @spacer c _ hc _ ih =>
    have hb : ∀ b ∈ [c], Text.isBlank b = true :=
      List.forall_mem_singleton.2 (isBlank_of_isSpacer hc)
    rw [ofRest_spacer hc, ofRest_spacer hc, ih, List.nil_append, ofRest_blanks hb,
      ofStatement_append_blanks hb]

structure Whole (s : List Char) : Prop where
  ne_nil : s ≠ []
  tight : Text.Tight s
  inert : Inert s

theorem Whole.join {s g t : List Char} (hs : Whole s) (hg : Gap g) (ht : Whole t) :
    Whole (s ++ g ++ t) where
  ne_nil := by simp [ht.ne_nil]
  tight := hs.tight.join hs.ne_nil g ht.tight ht.ne_nil
  inert := (hs.inert.append (inert_gap hg)).append ht.inert

theorem Whole.ofStatement {s : List Char} (h : Whole s) (line : Nat) :
    ofStatement line s = [⟨line, .statement s⟩] := by
  rw [Token.ofStatement, h.tight.trim]
  cases s with
  | nil => exact absurd rfl h.ne_nil
  | cons c s => rfl

def Legible (t : Token) : Prop := ∀ s, t.kind = .statement s → Whole s

theorem Whole.legible {s : List Char} (h : Whole s) {line : Nat} :
    Legible ⟨line, .statement s⟩ := by
  rintro _ ⟨⟩
  exact h

theorem ofRest_laid {tokens : List Token} (h : Laid line tokens text)
    (hw : ∀ t ∈ tokens, t.Legible) :
    ofRest line [] false text = tokens := by
  induction h with
  | done => exact ofRest_nil
  | spacer hc _ ih =>
    rw [ofRest_spacer hc, List.nil_append,
      ofRest_blanks (List.forall_mem_singleton.2 (isBlank_of_isSpacer hc)), ih hw]
  | newline _ ih =>
    rw [ofRest_newline, ih hw]
    rfl
  | semicolon _ ih =>
    rw [ofRest_semicolon, ih hw]
    rfl
  | comment hb he _ ih => rw [ofRest_body hb he, ih hw]
  | opening _ ih =>
    rw [List.forall_mem_cons] at hw
    rw [ofRest_opening, ih hw.2]
    rfl
  | closing _ ih =>
    rw [List.forall_mem_cons] at hw
    rw [ofRest_closing, ih hw.2]
    rfl
  | statement he _ ih =>
    rw [List.forall_mem_cons] at hw
    have hs := hw.1 _ rfl
    rw [hs.inert, List.nil_append, ofRest_of_ends he, hs.ofStatement, ih hw.2]
    rfl

theorem ofSource_laid {tokens : List Token} {source : List Char} (h : Laid 1 tokens source)
    (hw : ∀ t ∈ tokens, t.Legible) : ofSource source = tokens := by
  rw [ofSource, ← ofRest_eq, ofRest_laid h hw]

end Token

end WireProtocol.Schema
