import Mathlib.Data.List.Forall2
import WireProtocol.Schema.Source

namespace WireProtocol.Schema

variable {α : Type}

/-- A part of a schema that declares one thing. -/
inductive Item
  | namespaceName (name : String)
  | option (key value : String)
  | message (m : Message)
  | service (s : Service)
  deriving DecidableEq, Repr

namespace Item

def namespaceName? : Item → Option String
  | namespaceName name => some name
  | _ => none

def option? : Item → Option (String × String)
  | option key value => some (key, value)
  | _ => none

def message? : Item → Option Message
  | message m => some m
  | _ => none

def service? : Item → Option Service
  | service s => some s
  | _ => none

end Item

/-- Which texts stand for directives, and which tokens for fields and methods. -/
structure Grammar where
  directive : List Char → Directive → Prop
  field : Token → Field → Prop
  method : Token → Method → Prop

namespace Grammar

/-- The tokens are the item from its first statement to the brace that closes it, if it has one. The
tag of a message is not known yet. -/
inductive Derives (g : Grammar) : Item → List Token → Prop
  | namespaceName {line : Nat} {text : List Char} {name : String}
      (h : g.directive text (.namespaceName name)) :
      Derives g (.namespaceName name) [⟨line, .statement text⟩]
  | option {line : Nat} {text : List Char} {key value : String}
      (h : g.directive text (.option key value)) :
      Derives g (.option key value) [⟨line, .statement text⟩]
  | message {line opens closes : Nat} {text : List Char} {name : String} {body : List Token}
      {fields : List Field} (h : g.directive text (.header .message name))
      (hb : List.Forall₂ g.field body fields) :
      Derives g (.message ⟨name, fields, 0, line⟩)
        (⟨line, .statement text⟩ :: ⟨opens, .opening⟩ :: (body ++ [⟨closes, .closing⟩]))
  | service {line opens closes : Nat} {text : List Char} {name : String} {body : List Token}
      {methods : List Method} (h : g.directive text (.header .service name))
      (hb : List.Forall₂ g.method body methods) :
      Derives g (.service ⟨name, methods, line⟩)
        (⟨line, .statement text⟩ :: ⟨opens, .opening⟩ :: (body ++ [⟨closes, .closing⟩]))

inductive DerivesAll (g : Grammar) : List Item → List Token → Prop
  | nil : DerivesAll g [] []
  | cons {item : Item} {items : List Item} {left right : List Token} (hi : g.Derives item left)
      (hs : DerivesAll g items right) : DerivesAll g (item :: items) (left ++ right)

structure Within (g g' : Grammar) : Prop where
  directive : ∀ {text d}, g.directive text d → g'.directive text d
  field : ∀ {t f}, g.field t f → g'.field t f
  method : ∀ {t m}, g.method t m → g'.method t m

theorem Within.derives {g g' : Grammar} (hg : g.Within g') {item : Item} {tokens : List Token}
    (h : g.Derives item tokens) : g'.Derives item tokens := by
  cases h with
  | namespaceName h => exact .namespaceName (hg.directive h)
  | option h => exact .option (hg.directive h)
  | message h hb => exact .message (hg.directive h) (hb.imp fun _ _ => hg.field)
  | service h hb => exact .service (hg.directive h) (hb.imp fun _ _ => hg.method)

theorem Within.derivesAll {g g' : Grammar} (hg : g.Within g') {items : List Item}
    {tokens : List Token} (h : g.DerivesAll items tokens) : g'.DerivesAll items tokens := by
  induction h with
  | nil => exact .nil
  | cons hi _ ih => exact .cons (hg.derives hi) ih

end Grammar

inductive Directive.Says (text : List Char) : Directive → Prop
  | namespaceName {name : List Char}
      (hk : Statement.splitKeyword text = ("namespace".toList, name))
      (hn : Text.isDottedName name = true) : Says text (.namespaceName (String.ofList name))
  | option {rest : List Char} {key value : String}
      (hk : Statement.splitKeyword text = ("option".toList, rest))
      (ho : Statement.option? rest = some (key, value)) : Says text (.option key value)
  | header {name : List Char} {kind : BlockKind}
      (hk : Statement.splitKeyword text = (kind.keyword.toList, name))
      (hn : Text.isIdentifier name = true) : Says text (.header kind (String.ofList name))

def Token.Gives (read : List Char → Nat → Except Problem α) (t : Token) (a : α) : Prop :=
  ∃ text, t.kind = .statement text ∧ read text t.line = .ok a

def Grammar.accepted : Grammar :=
  ⟨Directive.Says, Token.Gives Statement.field, Token.Gives Statement.method⟩

/-- The definition holds what the items declare, in order, and nothing else. The last namespace
counts, and of each option the last value. -/
structure Definition.Collects (d : Definition) (items : List Item) : Prop where
  namespaceName : d.namespaceName = (items.filterMap Item.namespaceName?).getLast?.getD ""
  messages : d.messages = (items.filterMap Item.message?).map fun m =>
    { m with typeTag := Wire.Tag.ofName (d.qualifiedName m.name) }
  services : d.services = items.filterMap Item.service?
  options : ∀ key, d.options.get? key = (items.filterMap Item.option?).reverse.lookup key

@[simp] theorem Options.get?_empty (key : String) : empty.get? key = none := rfl

theorem Options.get?_insert (o : Options) (key value k : String) :
    (o.insert key value).get? k = if k = key then some value else o.get? k := by
  simp only [insert, get?]
  induction o.entries with
  | nil => grind [insertEntry]
  | cons entry rest ih => grind [insertEntry]

namespace Definition

def adopt (d : Definition) : Item → Definition
  | .namespaceName name => { d with namespaceName := name }
  | .option key value => { d with options := d.options.insert key value }
  | .message m => d.declare (.message m)
  | .service s => d.declare (.service s)

theorem namespaceName_adopt (d : Definition) (items : List Item) :
    (items.foldl adopt d).namespaceName =
      (items.filterMap Item.namespaceName?).getLast?.getD d.namespaceName := by
  induction items generalizing d with
  | nil => rfl
  | cons item items ih =>
    cases item <;> simp [ih, adopt, declare, Item.namespaceName?, List.getLast?_cons]

theorem messages_adopt (d : Definition) (items : List Item) :
    (items.foldl adopt d).messages = d.messages ++ items.filterMap Item.message? := by
  induction items generalizing d with
  | nil => simp
  | cons item items ih =>
    cases item <;> simp [ih, adopt, declare, Item.message?, List.filterMap_cons]

theorem services_adopt (d : Definition) (items : List Item) :
    (items.foldl adopt d).services = d.services ++ items.filterMap Item.service? := by
  induction items generalizing d with
  | nil => simp
  | cons item items ih =>
    cases item <;> simp [ih, adopt, declare, Item.service?, List.filterMap_cons]

theorem options_adopt (d : Definition) (items : List Item) (key : String) :
    (items.foldl adopt d).options.get? key =
      ((items.filterMap Item.option?).reverse.lookup key).or (d.options.get? key) := by
  induction items generalizing d with
  | nil => rfl
  | cons item items ih =>
    cases item with
    | option k v =>
      rw [List.foldl_cons, ih]
      simp only [adopt, Options.get?_insert, Item.option?, List.filterMap_cons, List.reverse_cons,
        List.lookup_append, Option.or_assoc]
      congr 1
      by_cases hk : key = k <;> simp [hk]
    | _ => simp [ih, adopt, declare, Item.option?, List.filterMap_cons]

theorem collects_assignTags (items : List Item) :
    (items.foldl adopt {}).assignTags.Collects items where
  namespaceName := namespaceName_adopt {} items
  messages := by
    simp only [assignTags, messages_adopt, List.nil_append]
    rfl
  services := services_adopt {} items
  options key := by simpa [assignTags] using options_adopt {} items key

end Definition

namespace Directive

theorem Says.of_ofStatement {text : List Char} {d : Directive} (h : ofStatement text = .ok d) :
    Says text d := by
  simp only [ofStatement] at h
  split at h
  · next hk =>
    split at h
    · next hn =>
      cases h
      exact .namespaceName (Prod.ext hk rfl) hn
    · cases h
  split at h
  · next hk =>
    split at h
    · next ho =>
      cases h
      exact .option (Prod.ext hk rfl) ho
    · cases h
  split at h
  · next hk =>
    cases h
    rw [Bool.and_eq_true, decide_eq_true_eq] at hk
    exact .header (Prod.ext hk.1 rfl) hk.2
  split at h
  · next hk =>
    cases h
    rw [Bool.and_eq_true, decide_eq_true_eq] at hk
    exact .header (Prod.ext hk.1 rfl) hk.2
  · cases h

theorem Says.ofStatement {text : List Char} {d : Directive} (h : Says text d) :
    ofStatement text = .ok d := by
  cases h with
  | namespaceName hk hn => simp [Directive.ofStatement, hk, hn]
  | option hk ho => simp [Directive.ofStatement, hk, ho]
  | @header _ kind hk hn => cases kind <;> simp [Directive.ofStatement, hk, hn, BlockKind.keyword]

end Directive

namespace Outline

variable {d : Definition} {ds : List Diagnostic}

theorem foldl_step_body {read : List Char → Nat → Except Problem α} (make : List α → Block)
    (hm : ∀ as text line, (make as).add text line = (read text line).map fun a => make (as ++ [a]))
    {body : List Token} {as' : List α} (hb : List.Forall₂ (Token.Gives read) body as')
    (as : List α) :
    body.foldl step ⟨d, ds, .body (make as)⟩ = ⟨d, ds, .body (make (as ++ as'))⟩ := by
  induction hb generalizing as with
  | nil => rw [List.append_nil, List.foldl_nil]
  | @cons t a _ _ ht _ ih =>
    obtain ⟨text, hk, hr⟩ := ht
    have hs : step ⟨d, ds, .body (make as)⟩ t = ⟨d, ds, .body (make (as ++ [a]))⟩ := by
      simp [step, stepBody, hk, hm, hr, Except.map, goto]
    rw [List.foldl_cons, hs, ih, List.append_assoc, List.singleton_append]

theorem step_top {line : Nat} {text : List Char} {dir : Directive} (h : dir.Says text) :
    step ⟨d, ds, .top⟩ ⟨line, .statement text⟩ = obey ⟨d, ds, .top⟩ line dir := by
  simp [step, stepTop, h.ofStatement, goto]

theorem foldl_step_block (kind : BlockKind) {line opens closes : Nat} {text : List Char}
    {name : String} {body : List Token} {b : Block} (h : Directive.Says text (.header kind name))
    (hb : body.foldl step ⟨d, ds, .body (.empty kind name line)⟩ = ⟨d, ds, .body b⟩) :
    (⟨line, .statement text⟩ :: ⟨opens, .opening⟩ :: (body ++ [⟨closes, .closing⟩])).foldl step
      ⟨d, ds, .top⟩ = ⟨d.declare b, ds, .top⟩ := by
  have ho : step (obey ⟨d, ds, .top⟩ line (.header kind name)) ⟨opens, .opening⟩ =
      ⟨d, ds, .body (.empty kind name line)⟩ := rfl
  rw [List.foldl_cons, step_top h, List.foldl_cons, ho, List.foldl_append, hb]
  rfl

theorem foldl_step_item {item : Item} {tokens : List Token}
    (h : Grammar.accepted.Derives item tokens) :
    tokens.foldl step ⟨d, ds, .top⟩ = ⟨d.adopt item, ds, .top⟩ := by
  cases h with
  | namespaceName h =>
    rw [List.foldl_cons, step_top h]
    rfl
  | option h =>
    rw [List.foldl_cons, step_top h]
    rfl
  | @message line _ _ _ name _ _ h hb =>
    refine foldl_step_block .message (b := .message ⟨_, _, 0, _⟩) h ?_
    exact foldl_step_body (fun fields => .message ⟨name, fields, 0, line⟩) (fun _ _ _ => rfl) hb []
  | @service line _ _ _ name _ _ h hb =>
    refine foldl_step_block .service (b := .service ⟨_, _, _⟩) h ?_
    exact foldl_step_body (fun methods => .service ⟨name, methods, line⟩) (fun _ _ _ => rfl) hb []

theorem foldl_step_items {items : List Item} {tokens : List Token}
    (h : Grammar.accepted.DerivesAll items tokens) :
    tokens.foldl step ⟨d, ds, .top⟩ = ⟨items.foldl Definition.adopt d, ds, .top⟩ := by
  induction h generalizing d with
  | nil => rfl
  | cons hi _ ih => rw [List.foldl_append, foldl_step_item hi, ih, List.foldl_cons]

inductive Moves : Outline → Token → Outline → Prop
  | directive {d : Definition} {ds : List Diagnostic} {line : Nat} {text : List Char}
      {dir : Directive} (h : dir.Says text) :
      Moves ⟨d, ds, .top⟩ ⟨line, .statement text⟩ (obey ⟨d, ds, .top⟩ line dir)
  | opening {d : Definition} {ds : List Diagnostic} {line : Nat} {b : Block} :
      Moves ⟨d, ds, .header b⟩ ⟨line, .opening⟩ ⟨d, ds, .body b⟩
  | statement {d : Definition} {ds : List Diagnostic} {line : Nat} {text : List Char}
      {b b' : Block} (h : b.add text line = .ok b') :
      Moves ⟨d, ds, .body b⟩ ⟨line, .statement text⟩ ⟨d, ds, .body b'⟩
  | closing {d : Definition} {ds : List Diagnostic} {line : Nat} {b : Block} :
      Moves ⟨d, ds, .body b⟩ ⟨line, .closing⟩ ⟨d.declare b, ds, .top⟩

theorem report_ne_nil (o : Outline) (line : Nat) (problem : Problem) :
    (o.report line problem).diagnostics ≠ [] := by
  simp [report]

theorem stepTop_ne_nil {o : Outline} (t : Token) (h : o.diagnostics ≠ []) :
    (o.stepTop t).diagnostics ≠ [] := by
  simp only [stepTop]
  split
  · exact report_ne_nil _ _ _
  · exact report_ne_nil _ _ _
  · split
    · next dir _ => cases dir <;> exact h
    · exact report_ne_nil _ _ _

theorem step_ne_nil {o : Outline} (t : Token) (h : o.diagnostics ≠ []) :
    (o.step t).diagnostics ≠ [] := by
  simp only [step]
  split
  · exact stepTop_ne_nil t h
  · split
    · exact h
    · exact stepTop_ne_nil t (report_ne_nil _ _ _)
  · simp only [stepBody]
    split
    · exact h
    · exact report_ne_nil _ _ _
    · split
      · exact h
      · exact report_ne_nil _ _ _
  · simp only [stepSkipping]
    split
    · exact h
    · repeat' split
      all_goals exact h
    · exact h

def Honest (o : Outline) : Prop :=
  ∀ outer depth, o.place = .skipping outer depth → o.diagnostics ≠ []

theorem Honest.moves {o : Outline} (ho : o.Honest) {t : Token} (hc : (o.step t).diagnostics = []) :
    Moves o t (o.step t) := by
  obtain ⟨d, ds, place⟩ := o
  obtain ⟨line, kind⟩ := t
  have hd : ds = [] := Classical.byContradiction fun h => step_ne_nil _ h hc
  cases place with
  | top =>
    cases kind with
    | statement text =>
      cases hs : Directive.ofStatement text with
      | ok dir =>
        have hs := Directive.Says.of_ofStatement hs
        rw [step_top hs]
        exact .directive hs
      | error problem => simp [step, stepTop, hs, report] at hc
    | opening => simp [step, stepTop, report, goto] at hc
    | closing => simp [step, stepTop, report] at hc
  | header b =>
    by_cases hk : kind = .opening
    · rw [hk]
      exact .opening
    · simp only [step, hk, if_false] at hc
      exact absurd hc (stepTop_ne_nil _ (report_ne_nil _ _ _))
  | body b =>
    cases kind with
    | statement text =>
      cases hs : b.add text line with
      | ok b' =>
        have he : step ⟨d, ds, .body b⟩ ⟨line, .statement text⟩ = ⟨d, ds, .body b'⟩ := by
          simp [step, stepBody, hs, goto]
        rw [he]
        exact .statement hs
      | error problem => simp [step, stepBody, hs, report] at hc
    | opening => simp [step, stepBody, report, goto] at hc
    | closing => exact .closing
  | skipping outer depth => exact absurd hd (ho outer depth rfl)

theorem Moves.honest {o o' : Outline} {t : Token} (h : Moves o t o') : o'.Honest := by
  cases h with
  | directive h => cases h <;> rintro _ _ ⟨⟩
  | _ => rintro _ _ ⟨⟩

end Outline

def BlockKind.Gives : BlockKind → Token → Prop
  | message, t => ∃ f, Grammar.accepted.field t f
  | service, t => ∃ m, Grammar.accepted.method t m

def BlockKind.Closes (kind : BlockKind) (tokens : List Token) : Prop :=
  ∃ body closes rest items, tokens = body ++ ⟨closes, .closing⟩ :: rest ∧
    (∀ t ∈ body, kind.Gives t) ∧ Grammar.accepted.DerivesAll items rest

/-- The tokens are what is missing at a place. -/
def Place.Completes : Place → List Token → Prop
  | top, tokens => ∃ items, Grammar.accepted.DerivesAll items tokens
  | header b, tokens => ∃ opens rest, tokens = ⟨opens, .opening⟩ :: rest ∧ b.kind.Closes rest
  | body b, tokens => b.kind.Closes tokens
  | skipping .., _ => False

theorem exists_forall₂ {β : Type} {R : α → β → Prop} {as : List α} (h : ∀ a ∈ as, ∃ b, R a b) :
    ∃ bs, List.Forall₂ R as bs := by
  induction as with
  | nil => exact ⟨[], .nil⟩
  | cons a as ih =>
    rw [List.forall_mem_cons] at h
    obtain ⟨b, hb⟩ := h.1
    obtain ⟨bs, hbs⟩ := ih h.2
    exact ⟨b :: bs, .cons hb hbs⟩

theorem Grammar.DerivesAll.block {g : Grammar} {item : Item} {items : List Item}
    {t t' t'' : Token} {body rest : List Token} (hi : g.Derives item (t :: t' :: (body ++ [t''])))
    (hs : g.DerivesAll items rest) :
    g.DerivesAll (item :: items) (t :: t' :: (body ++ t'' :: rest)) := by
  simpa using DerivesAll.cons hi hs

theorem BlockKind.Closes.exists_items {kind : BlockKind} {line opens : Nat} {text : List Char}
    {name : String} {tokens : List Token} (h : Directive.Says text (.header kind name))
    (hc : kind.Closes tokens) :
    ∃ items, Grammar.accepted.DerivesAll items
      (⟨line, .statement text⟩ :: ⟨opens, .opening⟩ :: tokens) := by
  obtain ⟨body, closes, rest, items, rfl, hb, hi⟩ := hc
  cases kind with
  | message =>
    obtain ⟨fields, hf⟩ := exists_forall₂ hb
    exact ⟨_, .block (.message h hf) hi⟩
  | service =>
    obtain ⟨methods, hm⟩ := exists_forall₂ hb
    exact ⟨_, .block (.service h hm) hi⟩

namespace Block

@[simp] theorem kind_empty (kind : BlockKind) (name : String) (line : Nat) :
    (empty kind name line).kind = kind := by
  cases kind <;> rfl

theorem kind_add {text : List Char} {line : Nat} {b b' : Block} (h : b.add text line = .ok b') :
    b'.kind = b.kind ∧ b.kind.Gives ⟨line, .statement text⟩ := by
  cases b with
  | message m =>
    cases hf : Statement.field text line with
    | ok f =>
      simp only [add, hf] at h
      cases h
      exact ⟨rfl, f, text, rfl, hf⟩
    | error problem =>
      simp only [add, hf] at h
      cases h
  | service s =>
    cases hr : Statement.method text line with
    | ok r =>
      simp only [add, hr] at h
      cases h
      exact ⟨rfl, r, text, rfl, hr⟩
    | error problem =>
      simp only [add, hr] at h
      cases h

end Block

namespace Outline

theorem Moves.completes {o o' : Outline} {t : Token} {tokens : List Token} (h : Moves o t o')
    (ht : o'.place.Completes tokens) : o.place.Completes (t :: tokens) := by
  cases h with
  | @directive _ _ _ _ dir hs =>
    cases dir with
    | namespaceName name =>
      obtain ⟨items, hi⟩ := ht
      exact ⟨_, .cons (.namespaceName hs) hi⟩
    | option key value =>
      obtain ⟨items, hi⟩ := ht
      exact ⟨_, .cons (.option hs) hi⟩
    | header kind name =>
      obtain ⟨opens, rest, rfl, hc⟩ := ht
      rw [Block.kind_empty] at hc
      exact hc.exists_items hs
  | @opening _ _ line _ => exact ⟨line, tokens, rfl, ht⟩
  | statement hs =>
    obtain ⟨hk, hg⟩ := Block.kind_add hs
    obtain ⟨body, closes, rest, items, rfl, hb, hi⟩ := ht
    rw [hk] at hb
    exact ⟨_ :: body, closes, rest, items, rfl, List.forall_mem_cons.2 ⟨hg, hb⟩, hi⟩
  | @closing _ _ line _ =>
    obtain ⟨items, hi⟩ := ht
    exact ⟨[], line, tokens, items, rfl, List.forall_mem_nil _, hi⟩

theorem completes_of_finish {o : Outline} (h : o.finish.diagnostics = []) :
    o.diagnostics = [] ∧ o.place.Completes [] := by
  obtain ⟨d, ds, place⟩ := o
  cases place with
  | top => exact ⟨h, [], .nil⟩
  | _ => simp [finish, report] at h

theorem Honest.step {o : Outline} (ho : o.Honest) (t : Token) : (o.step t).Honest :=
  fun outer depth hp hc => (ho.moves hc).honest outer depth hp hc

theorem Honest.completes {o : Outline} (ho : o.Honest) {tokens : List Token}
    (h : (tokens.foldl Outline.step o).finish.diagnostics = []) :
    o.diagnostics = [] ∧ o.place.Completes tokens := by
  induction tokens generalizing o with
  | nil => exact completes_of_finish h
  | cons t tokens ih =>
    obtain ⟨hc, ht⟩ := ih (ho.step t) h
    exact ⟨Classical.byContradiction fun hd => step_ne_nil t hd hc, (ho.moves hc).completes ht⟩

end Outline

theorem readSource_of_items {source : String} {items : List Item}
    (h : Grammar.accepted.DerivesAll items (Token.ofSource source.toList)) :
    (readSource source).diagnostics = [] ∧ (readSource source).definition.Collects items := by
  have ho : Outline.ofTokens (Token.ofSource source.toList) =
      ⟨items.foldl Definition.adopt {}, [], .top⟩ := by
    rw [Outline.ofTokens, Outline.foldl_step_items h]
    rfl
  rw [readSource, ho]
  exact ⟨rfl, Definition.collects_assignTags items⟩

/-- Nothing is reported exactly when the text consists of items, and then the definition holds all
that they declare. -/
theorem readSource_clean_iff (source : String) :
    ((readSource source).diagnostics = [] ↔
      ∃ items, Grammar.accepted.DerivesAll items (Token.ofSource source.toList)) ∧
    ∀ items, Grammar.accepted.DerivesAll items (Token.ofSource source.toList) →
      (readSource source).definition.Collects items := by
  refine ⟨⟨fun h => ?_, fun ⟨_, h⟩ => (readSource_of_items h).1⟩,
    fun _ h => (readSource_of_items h).2⟩
  have hn : Outline.Honest {} := by rintro _ _ ⟨⟩
  exact (hn.completes h).2

theorem readSource_clean_iff_point :
    let source := "option a.b = \"c\"\nmessage P \x7b int32 x = 1 \x7d"
    let items : List Item :=
      [.option "a.b" "c", .message ⟨"P", [⟨"x", .int32, 1, false, none, 2⟩], 0, 2⟩]
    Grammar.accepted.DerivesAll items (Token.ofSource source.toList) ∧
      (readSource source).definition.Collects items := by
  intro source items
  have hx : Token.Gives Statement.field ⟨2, .statement "int32 x = 1".toList⟩
      ⟨"x", .int32, 1, false, none, 2⟩ := ⟨_, rfl, rfl⟩
  have ho : Directive.Says "option a.b = \"c\"".toList (.option "a.b" "c") :=
    @Directive.Says.option _ "a.b = \"c\"".toList _ _ rfl rfl
  have hp : Directive.Says "message P".toList (.header .message "P") :=
    @Directive.Says.header _ "P".toList .message rfl rfl
  have ht : Token.ofSource source.toList =
      [⟨1, .statement "option a.b = \"c\"".toList⟩, ⟨2, .statement "message P".toList⟩,
        ⟨2, .opening⟩, ⟨2, .statement "int32 x = 1".toList⟩, ⟨2, .closing⟩] := by decide +kernel
  have h : Grammar.accepted.DerivesAll items (Token.ofSource source.toList) := by
    rw [ht]
    exact .cons (.option ho) (.block (.message hp (.cons hx .nil)) .nil)
  exact ⟨h, (readSource_clean_iff source).2 items h⟩

end WireProtocol.Schema
