import WireProtocol.Proofs.Schema.Items

namespace WireProtocol.Schema

def Reading.ofTokens (tokens : List Token) : Reading :=
  let o := Outline.ofTokens tokens
  ⟨o.definition.assignTags, o.diagnostics⟩

theorem readSource_eq (source : String) :
    readSource source = .ofTokens (Token.ofSource source.toList) := rfl

/-- Every brace among the tokens has its partner. -/
inductive Balanced : List Token → Prop
  | nil : Balanced []
  | statement {line : Nat} {text : List Char} : Balanced [⟨line, .statement text⟩]
  | block {opens closes : Nat} {inner : List Token} (h : Balanced inner) :
      Balanced (⟨opens, .opening⟩ :: (inner ++ [⟨closes, .closing⟩]))
  | append {left right : List Token} (hl : Balanced left) (hr : Balanced right) :
      Balanced (left ++ right)

/-- The tokens are a statement that is not accepted at the place, or a block, which no place
accepts; they begin on this line. -/
inductive Place.Refuses : Place → List Token → Nat → Prop
  | directive {line : Nat} {text : List Char} (h : ∀ d, ¬ Directive.Says text d) :
      Refuses .top [⟨line, .statement text⟩] line
  | member {b : Block} {line : Nat} {text : List Char}
      (h : ¬ b.kind.Gives ⟨line, .statement text⟩) :
      Refuses (.body b) [⟨line, .statement text⟩] line
  | block {place : Place} {opens closes : Nat} {inner : List Token}
      (hp : place = .top ∨ ∃ b, place = .body b) (h : Balanced inner) :
      Refuses place (⟨opens, .opening⟩ :: (inner ++ [⟨closes, .closing⟩])) opens

theorem Directive.severity_of_ofStatement {text : List Char} {problem : Problem}
    (h : ofStatement text = .error problem) : problem.severity = .error := by
  simp only [ofStatement] at h
  repeat' split at h
  all_goals cases h <;> rfl

namespace Statement

theorem severity_of_field {text : List Char} {line : Nat} {problem : Problem}
    (h : field text line = .error problem) : problem.severity = .error := by
  simp only [field] at h
  repeat' split at h
  all_goals cases h <;> rfl

theorem severity_of_method {text : List Char} {line : Nat} {problem : Problem}
    (h : method text line = .error problem) : problem.severity = .error := by
  rw [method] at h
  split at h
  all_goals cases h <;> rfl

end Statement

theorem Block.exists_error_of_add {b : Block} {text : List Char} {line : Nat}
    (h : ¬ b.kind.Gives ⟨line, .statement text⟩) :
    ∃ problem, b.add text line = .error problem ∧ problem.severity = .error := by
  cases hb : b.add text line with
  | ok b' => exact absurd (kind_add hb).2 h
  | error problem =>
    refine ⟨problem, rfl, ?_⟩
    cases b with
    | message m =>
      cases hf : Statement.field text line with
      | ok f => simp [add, hf, Except.map] at hb
      | error problem' =>
        simp only [add, hf, Except.map] at hb
        cases hb
        exact Statement.severity_of_field hf
    | service s =>
      cases hm : Statement.method text line with
      | ok m => simp [add, hm, Except.map] at hb
      | error problem' =>
        simp only [add, hm, Except.map] at hb
        cases hb
        exact Statement.severity_of_method hm

namespace Outline

def behind (o : Outline) (before : List Diagnostic) : Outline :=
  { o with diagnostics := before ++ o.diagnostics }

section

variable (o : Outline) (before : List Diagnostic)

theorem report_behind (line : Nat) (problem : Problem) :
    (o.behind before).report line problem = (o.report line problem).behind before := by
  simp [report, behind]

theorem stepTop_behind (t : Token) :
    (o.behind before).stepTop t = (o.stepTop t).behind before := by
  obtain ⟨line, kind⟩ := t
  cases kind with
  | opening => exact congrArg (goto · _) (report_behind (o.goto .top) before _ _)
  | closing => exact report_behind (o.goto .top) before _ _
  | statement text =>
    simp only [stepTop]
    cases Directive.ofStatement text with
    | ok d => cases d <;> rfl
    | error problem => exact report_behind (o.goto .top) before _ _

theorem stepBody_behind (b : Block) (t : Token) :
    (o.behind before).stepBody b t = (o.stepBody b t).behind before := by
  obtain ⟨line, kind⟩ := t
  cases kind with
  | opening => exact congrArg (goto · _) (report_behind o before _ _)
  | closing => rfl
  | statement text =>
    simp only [stepBody]
    cases b.add text line with
    | ok b' => rfl
    | error problem => exact report_behind o before _ _

theorem stepSkipping_behind (outer : Option Block) (depth : Nat) (t : Token) :
    (o.behind before).stepSkipping outer depth t =
      (o.stepSkipping outer depth t).behind before := by
  obtain ⟨line, kind⟩ := t
  cases kind with
  | opening => rfl
  | statement text => rfl
  | closing =>
    simp only [stepSkipping]
    split
    · cases outer <;> rfl
    · rfl

theorem step_header {o : Outline} {b : Block} (ho : o.place = .header b) (t : Token) :
    o.step t = if t.kind = .opening then o.goto (.body b)
      else (o.report b.line (.expectedBody b.kind b.name)).stepTop t := by
  simp only [step, ho]

theorem step_behind (t : Token) : (o.behind before).step t = (o.step t).behind before := by
  obtain ⟨d, ds, place⟩ := o
  cases place with
  | top => exact stepTop_behind _ before t
  | header b =>
    rw [step_header rfl, step_header (b := b) rfl, report_behind, stepTop_behind]
    split <;> rfl
  | body b => exact stepBody_behind _ before b t
  | skipping outer depth => exact stepSkipping_behind _ before outer depth t

theorem foldl_step_behind (tokens : List Token) :
    tokens.foldl step (o.behind before) = (tokens.foldl step o).behind before := by
  induction tokens generalizing o with
  | nil => rfl
  | cons t tokens ih => rw [List.foldl_cons, step_behind, ih, List.foldl_cons]

theorem finish_behind : (o.behind before).finish = o.finish.behind before := by
  obtain ⟨d, ds, place⟩ := o
  cases place <;> simp [finish, report, behind]

end

section

variable {d : Definition} {ds : List Diagnostic}

theorem foldl_step_balanced {tokens : List Token} (h : Balanced tokens) (outer : Option Block)
    (depth : Nat) : tokens.foldl step ⟨d, ds, .skipping outer (depth + 1)⟩ =
      ⟨d, ds, .skipping outer (depth + 1)⟩ := by
  induction h generalizing depth with
  | nil => rfl
  | statement => rfl
  | @block opens closes inner _ ih =>
    have ho : step ⟨d, ds, .skipping outer (depth + 1)⟩ ⟨opens, .opening⟩ =
        ⟨d, ds, .skipping outer (depth + 2)⟩ := rfl
    rw [List.foldl_cons, ho, List.foldl_append, ih]
    simp [step, stepSkipping, goto]
  | append _ _ ihl ihr => rw [List.foldl_append, ihl, ihr]

theorem foldl_step_skipped {inner : List Token} (h : Balanced inner) (outer : Option Block)
    (closes : Nat) : (inner ++ [(⟨closes, .closing⟩ : Token)]).foldl step
      ⟨d, ds, .skipping outer 1⟩ = ⟨d, ds, outer.elim .top .body⟩ := by
  rw [List.foldl_append, foldl_step_balanced h outer 0]
  cases outer <;> rfl

theorem foldl_step_refused {place : Place} {tokens : List Token} {line : Nat}
    (h : place.Refuses tokens line) : ∃ problem : Problem, problem.severity = .error ∧
      ∀ d ds, tokens.foldl step ⟨d, ds, place⟩ = ⟨d, ds ++ [⟨line, problem⟩], place⟩ := by
  cases h with
  | @directive _ text h =>
    cases hs : Directive.ofStatement text with
    | ok dir => exact absurd (Directive.Says.of_ofStatement hs) (h dir)
    | error problem =>
      refine ⟨problem, Directive.severity_of_ofStatement hs, fun d ds => ?_⟩
      simp [step, stepTop, hs, report, goto]
  | @member b _ text h =>
    obtain ⟨problem, hb, hp⟩ := Block.exists_error_of_add h
    refine ⟨problem, hp, fun d ds => ?_⟩
    simp [step, stepBody, hb, report]
  | @block place _ closes inner hp h =>
    rcases hp with rfl | ⟨b, rfl⟩
    · refine ⟨.unexpectedOpening, rfl, fun d ds => ?_⟩
      exact foldl_step_skipped h none closes
    · refine ⟨.nestedBlock b.kind, rfl, fun d ds => ?_⟩
      exact foldl_step_skipped h (some b) closes

end

end Outline

/-- Tokens that are refused where they stand add one error, on the line on which they begin, to what
is reported of the tokens before and after them. What is read is the same without them. -/
theorem Reading.ofTokens_refused (before after : List Token) {tokens : List Token} {line : Nat}
    (h : (before.foldl Outline.step {}).place.Refuses tokens line) :
    ∃ (problem : Problem) (later : List Diagnostic), problem.severity = .error ∧
      (ofTokens (before ++ after)).diagnostics =
        (before.foldl Outline.step {}).diagnostics ++ later ∧
      (ofTokens (before ++ tokens ++ after)).diagnostics =
        (before.foldl Outline.step {}).diagnostics ++ ⟨line, problem⟩ :: later ∧
      (ofTokens (before ++ tokens ++ after)).definition =
        (ofTokens (before ++ after)).definition := by
  obtain ⟨problem, hp, hr⟩ := Outline.foldl_step_refused h
  rcases ho : before.foldl Outline.step {} with ⟨d, ds, place⟩
  rw [ho] at hr
  -- What is reported first has no part in the rest of the reading.
  have rest (reports : List Diagnostic) : (after.foldl Outline.step ⟨d, reports, place⟩).finish =
      ((after.foldl Outline.step ⟨d, [], place⟩).finish).behind reports := by
    rw [← Outline.finish_behind, ← Outline.foldl_step_behind]
    simp only [Outline.behind, List.append_nil]
  have without : Outline.ofTokens (before ++ after) =
      ((after.foldl Outline.step ⟨d, [], place⟩).finish).behind ds := by
    rw [Outline.ofTokens, List.foldl_append, ho, rest]
  have within : Outline.ofTokens (before ++ tokens ++ after) =
      ((after.foldl Outline.step ⟨d, [], place⟩).finish).behind (ds ++ [⟨line, problem⟩]) := by
    rw [Outline.ofTokens, List.foldl_append, List.foldl_append, ho, hr, rest]
  refine ⟨problem, (after.foldl Outline.step ⟨d, [], place⟩).finish.diagnostics, hp, ?_, ?_, ?_⟩
  · rw [ofTokens, without]
    rfl
  · rw [ofTokens, within]
    simp [Outline.behind]
  · rw [ofTokens, ofTokens, within, without]
    rfl

theorem ofTokens_refused_nested :
    let before : List Token := [⟨1, .statement "message P".toList⟩, ⟨1, .opening⟩]
    let nested : List Token := [⟨2, .opening⟩, ⟨3, .statement "enum E".toList⟩, ⟨3, .opening⟩,
      ⟨4, .closing⟩, ⟨5, .closing⟩]
    let after : List Token := [⟨6, .statement "int32 x = 1".toList⟩, ⟨7, .closing⟩]
    (before.foldl Outline.step {}).place.Refuses nested 2 ∧
      (Reading.ofTokens (before ++ nested ++ after)).definition =
        (Reading.ofTokens (before ++ after)).definition ∧
      ∃ problem, (Reading.ofTokens (before ++ nested ++ after)).diagnostics = [⟨2, problem⟩] := by
  intro before nested after
  have hp : (before.foldl Outline.step {}).place = .body (.message ⟨"P", [], 0, 1⟩) := by
    decide +kernel
  have hi : Balanced [⟨3, .statement "enum E".toList⟩, ⟨3, .opening⟩, ⟨4, .closing⟩] :=
    .append .statement (.block .nil)
  have h : (before.foldl Outline.step {}).place.Refuses nested 2 := .block (.inr ⟨_, hp⟩) hi
  have hd : (Reading.ofTokens (before ++ after)).diagnostics = [] := by decide +kernel
  obtain ⟨problem, later, -, hw, hr, he⟩ := Reading.ofTokens_refused before after h
  obtain ⟨hb, rfl⟩ := List.append_eq_nil_iff.1 (hw.symm.trans hd)
  exact ⟨h, he, problem, by rw [hr, hb, List.nil_append]⟩

end WireProtocol.Schema
