import Mathlib.Algebra.Group.Nat.Even
import Mathlib.Data.List.DropRight
import WireProtocol.Proofs.Schema.Layout
import WireProtocol.Proofs.Schema.Recovery

namespace WireProtocol.Text

def lastLine (text : List Char) : List Char := text.rtakeWhile (· != '\n')

theorem lastLine_concat (text : List Char) (c : Char) :
    lastLine (text ++ [c]) = if c = '\n' then [] else lastLine text ++ [c] := by
  simp [lastLine, List.rtakeWhile_concat, apply_ite]

theorem exists_splitAt_append (left : List Char) : ∃ lines, ∀ {right part parts},
    splitAt (· == '\n') right = part :: parts →
      splitAt (· == '\n') (left ++ right) = lines ++ (lastLine left ++ part) :: parts := by
  induction left using List.reverseRecOn with
  | nil => exact ⟨[], fun h => h⟩
  | append_singleton left c ih =>
    by_cases hc : c = '\n'
    · refine ⟨splitAt (· == '\n') left, fun {right} _ _ h => ?_⟩
      rw [lastLine_concat, if_pos hc, List.append_assoc, List.singleton_append,
        splitAt_append_cons left (by simpa using hc) right, h, List.nil_append]
    · obtain ⟨lines, ih⟩ := ih
      refine ⟨lines, fun h => ?_⟩
      rw [lastLine_concat, if_neg hc, List.append_assoc, List.append_assoc]
      exact ih (splitAt_cons_of_neg (by simpa using hc) h)

end WireProtocol.Text

namespace WireProtocol.Schema

/-- Quotes open and close in turn, so a text with as many of either ends outside them. -/
def Unquoted (text : List Char) : Prop := Even (text.count '"')

def Commented (line : List Char) : Prop :=
  ∃ left right, line = left ++ '/' :: '/' :: right ∧ Unquoted left

inductive LineEnd : List Char → Prop
  | done : LineEnd []
  | feed {text : List Char} : LineEnd ('\n' :: text)
  | returnFeed {text : List Char} : LineEnd ('\r' :: '\n' :: text)

namespace Token

variable {line : Nat} {begun text : List Char} {quoted : Bool}

def Begins (quoted : Bool) (c : Char) (text : List Char) : Prop :=
  quoted = false ∧ c = '/' ∧ text.head? = some '/'

theorem ofLine_of_begins {c : Char} (h : Begins quoted c text) (more : List Char) :
    ofLine line begun quoted (c :: (text ++ more)) = ofLine line begun quoted (c :: text) := by
  obtain ⟨rfl, rfl, ht⟩ := h
  obtain ⟨text, rfl⟩ := List.head?_eq_some_iff.1 ht
  simp [ofLine]

theorem exists_ofLine_cons (line : Nat) (begun : List Char) (quoted : Bool) (c : Char) :
    ∃ tokens begun', ∀ text, ¬ Begins quoted c text →
      ofLine line begun quoted (c :: text) =
        tokens ++ ofLine line begun' (quoted != (c == '"')) text := by
  cases quoted with
  | true => exact ⟨[], begun ++ [c], fun text _ => by simp [ofLine, bne]⟩
  | false =>
    by_cases hq : c = '"'
    · exact ⟨[], begun ++ [c], fun text _ => by simp [ofLine, hq]⟩
    by_cases hs : c = ';'
    · exact ⟨ofStatement line begun, [], fun text _ => by simp [ofLine, hs]⟩
    by_cases ho : c = '\x7b'
    · exact ⟨ofStatement line begun ++ [⟨line, .opening⟩], [], fun text _ => by simp [ofLine, ho]⟩
    by_cases hc : c = '\x7d'
    · exact ⟨ofStatement line begun ++ [⟨line, .closing⟩], [], fun text _ => by simp [ofLine, hc]⟩
    · refine ⟨[], begun ++ [c], fun text h => ?_⟩
      have hn : ¬ (c = '/' ∧ text.head? = some '/') := fun hn => h ⟨rfl, hn⟩
      simp [ofLine, hq, hs, ho, hc, hn, beq_eq_false_iff_ne.2 hq]

theorem exists_ofLine_cons_append (line : Nat) (begun : List Char) {c : Char} (more : List Char)
    (h : ¬ Begins quoted c text) (hm : text = [] → ¬ Begins quoted c more) :
    ∃ tokens begun',
      ofLine line begun quoted (c :: text) =
        tokens ++ ofLine line begun' (quoted != (c == '"')) text ∧
      ofLine line begun quoted (c :: (text ++ more)) =
        tokens ++ ofLine line begun' (quoted != (c == '"')) (text ++ more) := by
  obtain ⟨tokens, begun', ho⟩ := exists_ofLine_cons line begun quoted c
  refine ⟨tokens, begun', ho text h, ho (text ++ more) ?_⟩
  cases text with
  | nil => exact hm rfl
  | cons b text => exact h

def Leaves (quoted : Bool) (text : List Char) : Prop := Even (text.count '"' + quoted.toNat)

theorem leaves_nil : Leaves quoted [] ↔ quoted = false := by
  cases quoted <;> simp [Leaves]

theorem leaves_cons {c : Char} :
    Leaves quoted (c :: text) ↔ Leaves (quoted != (c == '"')) text := by
  rw [Leaves, Leaves, List.count_cons]
  cases quoted <;> cases c == '"' <;> simp [Nat.even_add_one]

def Comments (quoted : Bool) (text : List Char) : Prop :=
  ∃ left right, text = left ++ '/' :: '/' :: right ∧ Leaves quoted left

theorem not_comments_nil : ¬ Comments quoted [] := by
  rintro ⟨left, right, he, -⟩
  simp at he

theorem comments_cons {c : Char} : Comments quoted (c :: text) ↔
    Begins quoted c text ∨ Comments (quoted != (c == '"')) text := by
  constructor
  · rintro ⟨left, right, he, hl⟩
    cases left with
    | nil =>
      cases he
      exact .inl ⟨leaves_nil.1 hl, rfl, rfl⟩
    | cons b left =>
      cases he
      exact .inr ⟨left, right, rfl, leaves_cons.1 hl⟩
  · rintro (⟨rfl, rfl, h⟩ | ⟨left, right, rfl, hl⟩)
    · obtain ⟨right, rfl⟩ := List.head?_eq_some_iff.1 h
      exact ⟨[], right, rfl, leaves_nil.2 rfl⟩
    · exact ⟨c :: left, right, rfl, leaves_cons.2 hl⟩

theorem ofLine_semicolon (hl : Leaves quoted text) (hc : ¬ Comments quoted text)
    (rest : List Char) : ofLine line begun quoted (text ++ ';' :: rest) =
      ofLine line begun quoted text ++ ofLine line [] false rest := by
  induction text generalizing begun quoted with
  | nil =>
    obtain rfl := leaves_nil.1 hl
    simp [ofLine]
  | cons c text ih =>
    rw [comments_cons, not_or] at hc
    obtain ⟨tokens, begun', h, h'⟩ := exists_ofLine_cons_append line begun (';' :: rest)
      hc.1 fun _ hb => by simp [Begins] at hb
    rw [List.cons_append, h, h', ih (leaves_cons.1 hl) hc.2, List.append_assoc]

theorem ofLine_comment
    (h : Comments quoted text ∨ Leaves quoted text ∧ text.getLast? ≠ some '/')
    (comment : List Char) :
    ofLine line begun quoted (text ++ '/' :: '/' :: comment) = ofLine line begun quoted text := by
  induction text generalizing begun quoted with
  | nil =>
    obtain rfl := leaves_nil.1 (h.resolve_left not_comments_nil).1
    simp [ofLine]
  | cons c text ih =>
    by_cases hb : Begins quoted c text
    · exact ofLine_of_begins hb _
    have hr : Comments (quoted != (c == '"')) text ∨
        Leaves (quoted != (c == '"')) text ∧ (c :: text).getLast? ≠ some '/' :=
      h.imp (fun h => (comments_cons.1 h).resolve_left hb) fun h => ⟨leaves_cons.1 h.1, h.2⟩
    have hm : text = [] → ¬ Begins quoted c ('/' :: '/' :: comment) := by
      rintro rfl hb
      exact (hr.resolve_left not_comments_nil).2 (congrArg some hb.2.1)
    obtain ⟨tokens, begun', ho, ho'⟩ := exists_ofLine_cons_append line begun _ hb hm
    rw [List.cons_append, ho, ho', ih]
    refine hr.imp_right fun h => ⟨h.1, fun ht => h.2 ?_⟩
    rw [List.getLast?_cons, ht]
    rfl

theorem ofLine_return : ofLine line begun quoted (text ++ ['\r']) =
    ofLine line begun quoted text := by
  induction text generalizing begun quoted with
  | nil =>
    have hr : ∀ c ∈ ['\r'], Text.isBlank c = true := List.forall_mem_singleton.2 (by decide)
    have hb := ofStatement_append_blanks hr line begun
    cases quoted <;> simp [ofLine, hb]
  | cons c text ih =>
    by_cases hb : Begins quoted c text
    · exact ofLine_of_begins hb _
    obtain ⟨tokens, begun', ho, ho'⟩ := exists_ofLine_cons_append line begun ['\r'] hb
      fun _ hb => by simp [Begins] at hb
    rw [List.cons_append, ho, ho', ih]

theorem ofLines_append (line : Nat) (lines lines' : List (List Char)) :
    ofLines line (lines ++ lines') = ofLines line lines ++ ofLines (line + lines.length) lines' := by
  induction lines generalizing line with
  | nil => rfl
  | cons text lines ih =>
    rw [List.cons_append, ofLines, ih, ofLines, List.append_assoc, List.length_cons,
      Nat.add_assoc, Nat.add_comm 1]

def unlined (t : Token) : Token := { t with line := 0 }

theorem map_unlined_ofStatement (line : Nat) (text : List Char) :
    (ofStatement line text).map unlined = ofStatement 0 text := by
  rw [ofStatement, ofStatement]
  split <;> rfl

theorem map_unlined_ofLine (line : Nat) (begun : List Char) (quoted : Bool) (text : List Char) :
    (ofLine line begun quoted text).map unlined = ofLine 0 begun quoted text := by
  induction text generalizing begun quoted with
  | nil => exact map_unlined_ofStatement line begun
  | cons c text ih =>
    simp only [ofLine, apply_ite (List.map unlined), List.map_append, List.map_cons,
      map_unlined_ofStatement, ih]
    rfl

theorem map_unlined_ofLines (line line' : Nat) (lines : List (List Char)) :
    (ofLines line lines).map unlined = (ofLines line' lines).map unlined := by
  induction lines generalizing line line' with
  | nil => rfl
  | cons text lines ih =>
    rw [ofLines, ofLines, List.map_append, List.map_append, map_unlined_ofLine,
      map_unlined_ofLine, ih]

end Token

def Field.unlined (f : Field) : Field := { f with line := 0 }

def Method.unlined (m : Method) : Method := { m with line := 0 }

def Message.unlined (m : Message) : Message :=
  { m with fields := m.fields.map .unlined, line := 0 }

def Service.unlined (s : Service) : Service :=
  { s with methods := s.methods.map .unlined, line := 0 }

namespace Block

def unlined : Block → Block
  | message m => message m.unlined
  | service s => service s.unlined

@[simp] theorem kind_unlined (b : Block) : b.unlined.kind = b.kind := by cases b <;> rfl

@[simp] theorem name_unlined (b : Block) : b.unlined.name = b.name := by cases b <;> rfl

@[simp] theorem line_unlined (b : Block) : b.unlined.line = 0 := by cases b <;> rfl

@[simp] theorem unlined_empty (kind : BlockKind) (name : String) (line : Nat) :
    (empty kind name line).unlined = empty kind name 0 := by cases kind <;> rfl

end Block

namespace Definition

def unlined (d : Definition) : Definition :=
  { d with messages := d.messages.map .unlined, services := d.services.map .unlined }

@[simp] theorem unlined_declare (d : Definition) (b : Block) :
    (d.declare b).unlined = d.unlined.declare b.unlined := by
  cases b <;> simp [declare, unlined, Block.unlined]

theorem unlined_assignTags (d : Definition) : d.assignTags.unlined = d.unlined.assignTags := by
  simp [assignTags, unlined, Function.comp_def, Message.unlined, qualifiedName]

end Definition

def Diagnostic.unlined (d : Diagnostic) : Diagnostic := { d with line := 0 }

def Place.unlined : Place → Place
  | top => top
  | header b => header b.unlined
  | body b => body b.unlined
  | skipping outer depth => skipping (outer.map .unlined) depth

def Outline.unlined (o : Outline) : Outline :=
  ⟨o.definition.unlined, o.diagnostics.map .unlined, o.place.unlined⟩

def Reading.unlined (r : Reading) : Reading := ⟨r.definition.unlined, r.diagnostics.map .unlined⟩

namespace Statement

theorem field_unlined (text : List Char) (line : Nat) :
    (field text line).map .unlined = field text 0 := by
  have ht (type name : List Char) (id : Int32) (repeated : Bool) :
      (typedField type name id repeated line).unlined = typedField type name id repeated 0 := by
    simp only [typedField]
    split <;> rfl
  simp only [field]
  split
  · split
    · split
      · exact congrArg Except.ok (ht ..)
      · rfl
    · rfl
  · rfl

theorem method_unlined (text : List Char) (line : Nat) :
    (method text line).map .unlined = method text 0 := by
  have h : (method? text line).map .unlined = method? text 0 := by
    simp [method?, Option.map_bind, Function.comp_def, Method.unlined, guard]
  rw [method, method, ← h]
  cases method? text line <;> rfl

end Statement

theorem Block.add_unlined (b : Block) (text : List Char) (line : Nat) :
    (b.add text line).map unlined = b.unlined.add text 0 := by
  cases b with
  | message m =>
    simp only [add, unlined, ← Statement.field_unlined text line]
    cases Statement.field text line <;> simp [Except.map, unlined, Message.unlined]
  | service s =>
    simp only [add, unlined, ← Statement.method_unlined text line]
    cases Statement.method text line <;> simp [Except.map, unlined, Service.unlined]

namespace Outline

section

variable (o : Outline)

@[simp] theorem unlined_report (line : Nat) (problem : Problem) :
    (o.report line problem).unlined = o.unlined.report 0 problem := by
  simp [report, unlined, Diagnostic.unlined]

@[simp] theorem unlined_goto (place : Place) :
    (o.goto place).unlined = o.unlined.goto place.unlined := rfl

theorem stepTop_unlined (t : Token) : (o.stepTop t).unlined = o.unlined.stepTop t.unlined := by
  obtain ⟨line, kind⟩ := t
  cases kind with
  | opening => simp [stepTop, Token.unlined, Place.unlined]
  | closing => simp [stepTop, Token.unlined, Place.unlined]
  | statement text =>
    simp only [stepTop, Token.unlined]
    cases Directive.ofStatement text with
    | ok d =>
      cases d with
      | namespaceName name => rfl
      | option key value => rfl
      | header kind name => simp [obey, Place.unlined]
    | error problem => exact unlined_report _ line problem

theorem stepBody_unlined (b : Block) (t : Token) :
    (o.stepBody b t).unlined = o.unlined.stepBody b.unlined t.unlined := by
  obtain ⟨line, kind⟩ := t
  cases kind with
  | opening => simp [stepBody, Token.unlined, Place.unlined]
  | closing => simp [stepBody, Token.unlined, unlined, Place.unlined]
  | statement text =>
    simp only [stepBody, Token.unlined, ← Block.add_unlined b text line]
    cases b.add text line <;> simp [Except.map, Place.unlined]

theorem stepSkipping_unlined (outer : Option Block) (depth : Nat) (t : Token) :
    (o.stepSkipping outer depth t).unlined =
      o.unlined.stepSkipping (outer.map .unlined) depth t.unlined := by
  obtain ⟨line, kind⟩ := t
  cases kind with
  | opening => rfl
  | statement text => rfl
  | closing =>
    simp only [stepSkipping, Token.unlined]
    split
    · cases outer <;> rfl
    · rfl

theorem step_unlined (t : Token) : (o.step t).unlined = o.unlined.step t.unlined := by
  obtain ⟨d, ds, place⟩ := o
  cases place with
  | top => exact stepTop_unlined _ t
  | header b =>
    rw [step_header rfl, step_header (b := b.unlined) rfl, apply_ite unlined, stepTop_unlined]
    simp [Token.unlined, Place.unlined]
  | body b => exact stepBody_unlined _ b t
  | skipping outer depth => exact stepSkipping_unlined _ outer depth t

theorem foldl_step_unlined (tokens : List Token) :
    (tokens.foldl step o).unlined = (tokens.map .unlined).foldl step o.unlined := by
  induction tokens generalizing o with
  | nil => rfl
  | cons t tokens ih => rw [List.foldl_cons, ih, step_unlined, List.map_cons, List.foldl_cons]

theorem finish_unlined : o.finish.unlined = o.unlined.finish := by
  obtain ⟨d, ds, place⟩ := o
  cases place <;> simp [finish, report, unlined, Place.unlined, Diagnostic.unlined]

end

theorem ofTokens_unlined (tokens : List Token) :
    (ofTokens tokens).unlined = ofTokens (tokens.map .unlined) := by
  rw [ofTokens, finish_unlined, foldl_step_unlined]
  rfl

end Outline

theorem Reading.ofTokens_unlined (tokens : List Token) :
    (ofTokens tokens).unlined = ofTokens (tokens.map .unlined) := by
  simp only [ofTokens, unlined, Definition.unlined_assignTags, ← Outline.ofTokens_unlined]
  rfl

open Text (lastLine)

theorem LineEnd.exists_splitAt {right : List Char} (h : LineEnd right) :
    ∃ gap parts, Text.splitAt (· == '\n') right = gap :: parts ∧ (gap = [] ∨ gap = ['\r']) := by
  cases h with
  | done => exact ⟨[], [], rfl, .inl rfl⟩
  | feed => exact ⟨[], _, Text.splitAt_cons_of_pos rfl _, .inl rfl⟩
  | returnFeed =>
    exact ⟨['\r'], _, Text.splitAt_cons_of_neg (by decide) (Text.splitAt_cons_of_pos rfl _), .inr rfl⟩

namespace Token

variable {left : List Char}

theorem exists_ofSource_append (left : List Char) : ∃ tokens line, ∀ {right part parts},
    Text.splitAt (· == '\n') right = part :: parts → ofSource (left ++ right) =
      tokens ++ (ofLine line [] false (lastLine left ++ part) ++ ofLines (line + 1) parts) := by
  obtain ⟨lines, hs⟩ := Text.exists_splitAt_append left
  refine ⟨ofLines 1 lines, 1 + lines.length, fun h => ?_⟩
  rw [ofSource, hs h, ofLines_append, ofLines]

theorem map_unlined_ofSource_semicolon (hu : Unquoted (lastLine left))
    (hc : ¬ Commented (lastLine left)) (right : List Char) :
    (ofSource (left ++ ';' :: right)).map unlined =
      (ofSource (left ++ '\n' :: right)).map unlined := by
  obtain ⟨tokens, line, hl⟩ := exists_ofSource_append left
  obtain ⟨part, parts, hr⟩ := Text.exists_splitAt (· == '\n') right
  have hn : Text.splitAt (· == '\n') ('\n' :: right) = [] :: part :: parts :=
    hr ▸ Text.splitAt_cons_of_pos rfl right
  rw [hl (Text.splitAt_cons_of_neg (by decide) hr), hl hn, List.append_nil, ofLines,
    ofLine_semicolon (show Leaves false (lastLine left) from hu) hc]
  simp only [List.map_append, map_unlined_ofLine, List.append_assoc,
    map_unlined_ofLines (line + 1) (line + 1 + 1) parts]

theorem ofSource_comment (h : Commented (lastLine left) ∨
      Unquoted (lastLine left) ∧ (lastLine left).getLast? ≠ some '/')
    {comment right : List Char} (hc : '\n' ∉ comment) (hr : LineEnd right) :
    ofSource (left ++ '/' :: '/' :: (comment ++ right)) = ofSource (left ++ right) := by
  obtain ⟨tokens, line, hl⟩ := exists_ofSource_append left
  obtain ⟨gap, parts, hs, hg⟩ := hr.exists_splitAt
  have hn : ∀ c ∈ '/' :: '/' :: comment, (c == '\n') = false := by
    intro c hm
    exact beq_eq_false_iff_ne.2 (ne_of_mem_of_not_mem hm (by simpa using hc))
  have hm : Text.splitAt (· == '\n') ('/' :: '/' :: (comment ++ right)) =
      ('/' :: '/' :: (comment ++ gap)) :: parts := Text.splitAt_append_of_forall hn hs
  have he : ofLine line [] false (lastLine left ++ gap) = ofLine line [] false (lastLine left) := by
    rcases hg with rfl | rfl
    · rw [List.append_nil]
    · exact ofLine_return
  have hk : Comments false (lastLine left) ∨
      Leaves false (lastLine left) ∧ (lastLine left).getLast? ≠ some '/' := h
  rw [hl hm, hl hs, he, ofLine_comment hk]

end Token

/-- A semicolon in place of the end of a line, unless that is in a comment or between quotes, makes no
difference but to the lines that are counted: the same is declared, and the same problems are found in
the same order. A comment at the end of a line makes no difference at all, unless it is between quotes
or its slashes come after another one. -/
theorem readSource_lineEnd (left right : List Char) :
    (Unquoted (lastLine left) → ¬ Commented (lastLine left) →
      (readSource (.ofList (left ++ ';' :: right))).unlined =
        (readSource (.ofList (left ++ '\n' :: right))).unlined) ∧
    ∀ comment, '\n' ∉ comment → LineEnd right →
      (Commented (lastLine left) ∨
        Unquoted (lastLine left) ∧ (lastLine left).getLast? ≠ some '/') →
      readSource (.ofList (left ++ '/' :: '/' :: (comment ++ right))) =
        readSource (.ofList (left ++ right)) := by
  refine ⟨fun hu hc => ?_, fun comment hc hr h => ?_⟩
  · simp only [readSource_eq, String.toList_ofList, Reading.ofTokens_unlined,
      Token.map_unlined_ofSource_semicolon hu hc]
  · simp only [readSource_eq, String.toList_ofList, Token.ofSource_comment h hc hr]

theorem readSource_lineEnd_address :
    let left := "namespace N\r\noption a = \"http://n\"".toList
    let right := "\r\nmessage M \x7b \x7d".toList
    Unquoted (lastLine left) ∧ ¬ Commented (lastLine left) ∧ LineEnd right ∧
      (readSource (.ofList (left ++ ';' :: right))).unlined =
        (readSource (.ofList (left ++ '\n' :: right))).unlined ∧
      readSource (.ofList (left ++ "// home".toList ++ right)) =
        readSource (.ofList (left ++ right)) := by
  intro left right
  have hl : lastLine left = "option a = \"http://n\"".toList := by decide
  have hu : Unquoted (lastLine left) := by rw [hl]; unfold Unquoted; decide
  have hc : ¬ Commented (lastLine left) := by
    rw [hl]
    change ¬ Token.Comments false _
    simp [Token.comments_cons, Token.Begins, Token.not_comments_nil]
  have h := readSource_lineEnd left right
  exact ⟨hu, hc, .returnFeed, h.1 hu hc,
    h.2 " home".toList (by decide) .returnFeed (.inr ⟨hu, by rw [hl]; decide⟩)⟩

end WireProtocol.Schema
