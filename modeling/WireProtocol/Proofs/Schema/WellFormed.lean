import Mathlib.Data.List.Pairwise
import Mathlib.Data.Option.Basic
import WireProtocol.Proofs.Schema.Items
import WireProtocol.Proofs.Text

namespace WireProtocol.Schema

def countLines : List (List Char) → Nat
  | [] => 0
  | [[]] => 0
  | _ :: rest => countLines rest + 1

def lineCount (source : String) : Nat := countLines (Text.splitAt (· == '\n') source.toList)

structure Ascending (lines : List Nat) (last : Nat) : Prop where
  sorted : lines.Pairwise (· ≤ ·)
  within : ∀ l ∈ lines, 1 ≤ l ∧ l ≤ last

namespace Ascending

variable {lines : List Nat} {last last' : Nat}

theorem nil (last : Nat) : Ascending [] last := ⟨.nil, List.forall_mem_nil _⟩

theorem mono (h : Ascending lines last) (hl : last ≤ last') : Ascending lines last' where
  sorted := h.sorted
  within l hm := (h.within l hm).imp_right fun hn => Nat.le_trans hn hl

theorem concat {line : Nat} (h : Ascending lines last) (hl : ∀ l ∈ lines, l ≤ line)
    (hn : 1 ≤ line ∧ line ≤ last) : Ascending (lines ++ [line]) last where
  sorted := List.pairwise_append.2
    ⟨h.sorted, List.pairwise_singleton _ _, fun l hm _ he => List.mem_singleton.1 he ▸ hl l hm⟩
  within := List.forall_mem_append.2 ⟨h.within, List.forall_mem_singleton.2 hn⟩

theorem concat_last (h : Ascending lines last) (hn : 1 ≤ last) :
    Ascending (lines ++ [last]) last :=
  h.concat (fun l hm => (h.within l hm).2) ⟨hn, Nat.le_refl last⟩

end Ascending

structure Field.WellFormed (f : Field) : Prop where
  name : Text.isIdentifier f.name.toList = true
  type : f.type ≠ .list ∧ f.type ≠ .map
  custom : f.customType.isSome ↔ f.type = .struct
  customName : ∀ type, f.customType = some type → Text.isDottedName type.toList = true ∧
    ∀ p ∈ FieldType.primitives, p.1.toList.map Char.toLower ≠ type.toList.map Char.toLower

structure Method.WellFormed (m : Method) : Prop where
  name : Text.isIdentifier m.name.toList = true
  request : Text.isDottedName m.request.toList = true
  response : Text.isDottedName m.response.toList = true

structure Message.WellFormed (m : Message) (last : Nat) : Prop where
  name : Text.isIdentifier m.name.toList = true
  fields : ∀ f ∈ m.fields, f.WellFormed
  lines : Ascending (m.line :: m.fields.map (·.line)) last

structure Service.WellFormed (s : Service) (last : Nat) : Prop where
  name : Text.isIdentifier s.name.toList = true
  methods : ∀ m ∈ s.methods, m.WellFormed
  lines : Ascending (s.line :: s.methods.map (·.line)) last

theorem Message.WellFormed.mono {m : Message} {last last' : Nat} (h : m.WellFormed last)
    (hl : last ≤ last') : m.WellFormed last' := ⟨h.name, h.fields, h.lines.mono hl⟩

theorem Service.WellFormed.mono {s : Service} {last last' : Nat} (h : s.WellFormed last)
    (hl : last ≤ last') : s.WellFormed last' := ⟨h.name, h.methods, h.lines.mono hl⟩

structure Definition.WellFormed (d : Definition) (last : Nat) : Prop where
  namespaceName : d.namespaceName = "" ∨ Text.isDottedName d.namespaceName.toList = true
  options : ∀ o ∈ d.options.entries, Text.isDottedName o.1.toList = true ∧ '\n' ∉ o.2.toList
  messages : ∀ m ∈ d.messages, m.WellFormed last
  services : ∀ s ∈ d.services, s.WellFormed last
  messageLines : Ascending (d.messages.map (·.line)) last
  serviceLines : Ascending (d.services.map (·.line)) last

def Definition.Tagged (d : Definition) : Prop :=
  ∀ m ∈ d.messages, m.typeTag = Wire.Tag.ofName (d.qualifiedName m.name)

def Diagnostic.Located (d : Diagnostic) (last : Nat) : Prop :=
  d.line = 0 ∨ 1 ≤ d.line ∧ d.line ≤ last

namespace FieldType

theorem ofName?_eq_some {name : String} {type : FieldType} (h : ofName? name = some type) :
    type ≠ .struct ∧ type ≠ .list ∧ type ≠ .map := by
  obtain ⟨left, right, he, -⟩ := List.lookup_eq_some_iff.1 h
  have hp : ∀ p ∈ primitives, p.2 ≠ .struct ∧ p.2 ≠ .list ∧ p.2 ≠ .map := by decide
  exact hp (_, type) (he ▸ List.mem_append_right left List.mem_cons_self)

theorem lower_ne_of_ofName? {name : String} (h : ofName? name = none) :
    ∀ p ∈ primitives, p.1.toList.map Char.toLower ≠ name.toList.map Char.toLower := by
  have hl : ∀ p ∈ primitives, p.1.toList.map Char.toLower = p.1.toList := by decide
  intro p hp he
  have hn := List.lookup_eq_none_iff.1 h p hp
  rw [hl p hp] at he
  simp [← he] at hn

end FieldType

namespace Statement

theorem of_guard {p : Prop} [Decidable p] {u : Unit} (h : (guard p : Option Unit) = some u) :
    p := by
  by_contra hp
  rw [guard, if_neg hp] at h
  cases h

theorem wellFormed_typedField {type name : List Char} (ht : Text.isDottedName type = true)
    (hn : Text.isIdentifier name = true) (id : Int32) (repeated : Bool) (line : Nat) :
    (typedField type name id repeated line).WellFormed := by
  rw [typedField]
  split
  · next primitive h =>
    obtain ⟨hs, hl⟩ := FieldType.ofName?_eq_some h
    exact ⟨by simpa using hn, hl, by simpa using hs, by simp⟩
  · next h =>
    refine ⟨by simpa using hn, ⟨nofun, nofun⟩, by simp, fun type' h' => ?_⟩
    cases h'
    exact ⟨by simpa using ht, FieldType.lower_ne_of_ofName? h⟩

@[simp] theorem line_typedField (type name : List Char) (id : Int32) (repeated : Bool)
    (line : Nat) : (typedField type name id repeated line).line = line := by
  rw [typedField]
  split <;> rfl

theorem wellFormed_field {text : List Char} {line : Nat} {f : Field} (h : field text line = .ok f) :
    f.WellFormed ∧ f.line = line := by
  simp only [field] at h
  split at h
  · split at h
    · next hn =>
      obtain ⟨ht, hn⟩ := Bool.and_eq_true_iff.1 hn
      split at h
      · cases h
        exact ⟨wellFormed_typedField ht hn _ _ _, line_typedField ..⟩
      · cases h
    · cases h
  · cases h

theorem wellFormed_method {text : List Char} {line : Nat} {m : Method}
    (h : method text line = .ok m) : m.WellFormed ∧ m.line = line := by
  rw [method] at h
  split at h
  · next hm =>
    cases h
    simp only [method?, Option.bind_eq_bind, Option.bind_eq_some_iff] at hm
    obtain ⟨_, _, _, _, _, _, _, _, _, _, _, _, _, hn, hm⟩ := hm
    cases hm
    have hn := of_guard hn
    simp only [Bool.and_eq_true] at hn
    refine ⟨⟨?_, ?_, ?_⟩, rfl⟩ <;> simp [hn]
  · cases h

theorem splitKeyword_subset (text : List Char) : (splitKeyword text).2 ⊆ text := by
  rw [splitKeyword]
  split
  · next h =>
    obtain ⟨c, -, rfl⟩ := Text.cutAt?_eq_some h
    intro b hb
    exact List.mem_append_right _ (List.mem_cons_of_mem _ (Text.trim_subset _ hb))
  · exact List.nil_subset _

theorem option?_eq_some {text : List Char} {key value : String}
    (h : option? text = some (key, value)) :
    Text.isDottedName key.toList = true ∧ value.toList ⊆ text := by
  simp only [option?, Option.bind_eq_bind, Option.bind_eq_some_iff] at h
  obtain ⟨⟨_, right⟩, hc, inner, hs, rest, he, _, hk, hv⟩ := h
  cases hv
  obtain ⟨_, -, rfl⟩ := Text.cutAt?_eq_some hc
  refine ⟨by simpa using of_guard hk, fun c hm => ?_⟩
  have hi : c ∈ inner := by
    rw [Text.stripEnd?_eq_some he]
    exact List.mem_append_left _ (by simpa using hm)
  have ht : c ∈ Text.trim right := by
    rw [Text.stripStart?_eq_some hs]
    exact List.mem_append_right _ hi
  exact List.mem_append_right _ (List.mem_cons_of_mem _ (Text.trim_subset _ ht))

end Statement

namespace Token

def Plain (t : Token) : Prop := ∀ text, t.kind = .statement text → '\n' ∉ text

theorem plain_ofStatement {line : Nat} {text : List Char} (hn : '\n' ∉ text) :
    ∀ t ∈ ofStatement line text, t.line = line ∧ t.Plain := by
  intro t ht
  rw [ofStatement] at ht
  split at ht
  · cases ht
  · obtain rfl := List.mem_singleton.1 ht
    refine ⟨rfl, fun s hs hm => hn ?_⟩
    cases hs
    exact Text.trim_subset text hm

theorem plain_ofLine {line : Nat} {begun text : List Char} {quoted : Bool} (hb : '\n' ∉ begun)
    (ht : '\n' ∉ text) : ∀ t ∈ ofLine line begun quoted text, t.line = line ∧ t.Plain := by
  induction text generalizing begun quoted with
  | nil => exact plain_ofStatement hb
  | cons c text ih =>
    rw [List.mem_cons, not_or] at ht
    have hc : '\n' ∉ begun ++ [c] := by simpa using ⟨hb, ht.1⟩
    have hr := @ih [] false List.not_mem_nil ht.2
    have brace : ∀ kind, (∀ s, kind ≠ .statement s) →
        ∀ t ∈ ofStatement line begun ++ ⟨line, kind⟩ :: ofLine line [] false text,
          t.line = line ∧ t.Plain := fun kind hk =>
      List.forall_mem_append.2 ⟨plain_ofStatement hb,
        List.forall_mem_cons.2 ⟨⟨rfl, fun s hs => absurd hs (hk s)⟩, hr⟩⟩
    rw [ofLine]
    repeat' split
    · exact ih hc ht.2
    · exact ih hc ht.2
    · exact plain_ofStatement hb
    · exact List.forall_mem_append.2 ⟨plain_ofStatement hb, hr⟩
    · exact brace _ nofun
    · exact brace _ nofun
    · exact ih hc ht.2

theorem plain_ofLines {line : Nat} {parts : List (List Char)} (h : ∀ part ∈ parts, '\n' ∉ part) :
    (∀ t ∈ ofLines line parts, (line ≤ t.line ∧ t.line < line + countLines parts) ∧ t.Plain) ∧
      (ofLines line parts).Pairwise (·.line ≤ ·.line) := by
  induction parts generalizing line with
  | nil => exact ⟨List.forall_mem_nil _, .nil⟩
  | cons part parts ih =>
    rw [List.forall_mem_cons] at h
    obtain ⟨hl, hs⟩ := @ih (line + 1) h.2
    have hp := @plain_ofLine line [] part false List.not_mem_nil h.1
    constructor
    · by_cases he : part = [] ∧ parts = []
      · obtain ⟨rfl, rfl⟩ := he
        exact List.forall_mem_nil _
      have hcount : countLines (part :: parts) = countLines parts + 1 := by
        rw [countLines]
        rintro rfl rfl
        exact he ⟨rfl, rfl⟩
      refine List.forall_mem_append.2 ⟨fun t ht => ?_, fun t ht => ?_⟩
      · obtain ⟨hline, hplain⟩ := hp t ht
        exact ⟨by omega, hplain⟩
      · obtain ⟨hline, hplain⟩ := hl t ht
        exact ⟨by omega, hplain⟩
    · refine List.pairwise_append.2 ⟨?_, hs, fun t ht t' ht' => ?_⟩
      · exact List.pairwise_of_forall_mem_list fun t ht t' ht' =>
          Nat.le_of_eq ((hp t ht).1.trans (hp t' ht').1.symm)
      · have hline := (hl t' ht').1
        rw [(hp t ht).1]
        omega

theorem plain_ofSource (source : String) :
    (∀ t ∈ ofSource source.toList, (1 ≤ t.line ∧ t.line ≤ lineCount source) ∧ t.Plain) ∧
      (ofSource source.toList).Pairwise (·.line ≤ ·.line) := by
  have h : ∀ part ∈ Text.splitAt (· == '\n') source.toList, '\n' ∉ part := by
    intro part hp hm
    simpa using Text.eq_false_of_mem_splitAt hp _ hm
  obtain ⟨hl, hs⟩ := @plain_ofLines 1 _ h
  refine ⟨fun t ht => ?_, hs⟩
  obtain ⟨hline, hplain⟩ := hl t ht
  exact ⟨⟨hline.1, Nat.lt_one_add_iff.1 hline.2⟩, hplain⟩

end Token

namespace Block

def WellFormed : Block → Nat → Prop
  | message m, last => m.WellFormed last
  | service s, last => s.WellFormed last

theorem WellFormed.line {b : Block} {last : Nat} (h : b.WellFormed last) :
    1 ≤ b.line ∧ b.line ≤ last := by
  cases b <;> exact h.lines.within _ List.mem_cons_self

theorem WellFormed.mono {b : Block} {last last' : Nat} (h : b.WellFormed last)
    (hl : last ≤ last') : b.WellFormed last' := by
  cases b with
  | message m => exact Message.WellFormed.mono h hl
  | service s => exact Service.WellFormed.mono h hl

theorem wellFormed_empty (kind : BlockKind) {name : List Char}
    (hn : Text.isIdentifier name = true) {line : Nat} (hl : 1 ≤ line) :
    (empty kind (String.ofList name) line).WellFormed line ∧
      (empty kind (String.ofList name) line).line = line := by
  have ha : Ascending [line] line := (Ascending.nil line).concat_last hl
  cases kind <;> exact ⟨⟨by simpa using hn, List.forall_mem_nil _, ha⟩, rfl⟩

theorem WellFormed.add {b b' : Block} {text : List Char} {line : Nat} (hb : b.WellFormed line)
    (h : b.add text line = .ok b') : b'.WellFormed line ∧ b'.line = b.line := by
  have hn := Nat.le_trans hb.line.1 hb.line.2
  cases b with
  | message m =>
    cases hf : Statement.field text line with
    | error problem => simp [Block.add, hf, Except.map] at h
    | ok f =>
      obtain ⟨hw, he⟩ := Statement.wellFormed_field hf
      simp only [Block.add, hf, Except.map] at h
      cases h
      have hfs := List.forall_mem_append.2 ⟨hb.fields, List.forall_mem_singleton.2 hw⟩
      refine ⟨⟨hb.name, hfs, ?_⟩, rfl⟩
      rw [List.map_append, List.map_singleton, he]
      exact hb.lines.concat_last hn
  | service s =>
    cases hm : Statement.method text line with
    | error problem => simp [Block.add, hm, Except.map] at h
    | ok m =>
      obtain ⟨hw, he⟩ := Statement.wellFormed_method hm
      simp only [Block.add, hm, Except.map] at h
      cases h
      have hms := List.forall_mem_append.2 ⟨hb.methods, List.forall_mem_singleton.2 hw⟩
      refine ⟨⟨hb.name, hms, ?_⟩, rfl⟩
      rw [List.map_append, List.map_singleton, he]
      exact hb.lines.concat_last hn

end Block

namespace Definition

def BeginsBy (d : Definition) (line : Nat) : Prop :=
  (∀ m ∈ d.messages, m.line ≤ line) ∧ ∀ s ∈ d.services, s.line ≤ line

theorem WellFormed.beginsBy {d : Definition} {last : Nat} (h : d.WellFormed last) :
    d.BeginsBy last where
  left _ hm := (h.messageLines.within _ (List.mem_map_of_mem hm)).2
  right _ hs := (h.serviceLines.within _ (List.mem_map_of_mem hs)).2

theorem WellFormed.mono {d : Definition} {last last' : Nat} (h : d.WellFormed last)
    (hl : last ≤ last') : d.WellFormed last' where
  namespaceName := h.namespaceName
  options := h.options
  messages m hm := (h.messages m hm).mono hl
  services s hs := (h.services s hs).mono hl
  messageLines := h.messageLines.mono hl
  serviceLines := h.serviceLines.mono hl

theorem WellFormed.declare {d : Definition} {b : Block} {last : Nat} (h : d.WellFormed last)
    (hb : b.WellFormed last) (hl : d.BeginsBy b.line) : (d.declare b).WellFormed last := by
  cases b with
  | message m =>
    refine { h with messages := ?_, messageLines := ?_ }
    · exact List.forall_mem_append.2 ⟨h.messages, List.forall_mem_singleton.2 hb⟩
    · rw [Definition.declare, List.map_append]
      exact h.messageLines.concat (List.forall_mem_map.2 hl.1) hb.line
  | service s =>
    refine { h with services := ?_, serviceLines := ?_ }
    · exact List.forall_mem_append.2 ⟨h.services, List.forall_mem_singleton.2 hb⟩
    · rw [Definition.declare, List.map_append]
      exact h.serviceLines.concat (List.forall_mem_map.2 hl.2) hb.line

end Definition

def Place.block? : Place → Option Block
  | top => none
  | header b | body b => some b
  | skipping outer _ => outer

/-- What holds of the reader when it has read up to a line. -/
structure Outline.Sound (o : Outline) (last : Nat) : Prop where
  definition : o.definition.WellFormed last
  diagnostics : ∀ d ∈ o.diagnostics, d.Located last
  block : ∀ b, o.place.block? = some b → b.WellFormed last ∧ o.definition.BeginsBy b.line

namespace Outline.Sound

variable {o : Outline} {last line : Nat}

theorem start (last : Nat) : Sound {} last where
  definition :=
    ⟨.inl rfl, List.forall_mem_nil _, List.forall_mem_nil _, List.forall_mem_nil _, .nil _, .nil _⟩
  diagnostics := List.forall_mem_nil _
  block := nofun

theorem mono (h : o.Sound last) {last' : Nat} (hl : last ≤ last') : o.Sound last' where
  definition := h.definition.mono hl
  diagnostics d hd := (h.diagnostics d hd).imp_right fun hn => ⟨hn.1, Nat.le_trans hn.2 hl⟩
  block b hb := (h.block b hb).imp_left fun hw => hw.mono hl

theorem report (h : o.Sound last) (hl : line = 0 ∨ 1 ≤ line ∧ line ≤ last) (problem : Problem) :
    (o.report line problem).Sound last where
  definition := h.definition
  diagnostics := List.forall_mem_append.2 ⟨h.diagnostics, List.forall_mem_singleton.2 hl⟩
  block := h.block

theorem goto (h : o.Sound last) {place : Place} (hp : ∀ b, place.block? = some b →
    o.place.block? = some b) : (o.goto place).Sound last :=
  ⟨h.definition, h.diagnostics, fun b hb => h.block b (hp b hb)⟩

theorem leave (h : o.Sound last) {place : Place} (hp : place.block? = none) :
    (o.goto place).Sound last :=
  h.goto fun b hb => by
    rw [hp] at hb
    cases hb

theorem obey (h : o.Sound line) (hl : 1 ≤ line) {text : List Char} (hn : '\n' ∉ text)
    {dir : Directive} (hd : dir.Says text) : (o.obey line dir).Sound line := by
  cases hd with
  | @namespaceName name _ hw =>
    have hw : Text.isDottedName (String.ofList name).toList = true := by simpa using hw
    exact ⟨{ h.definition with namespaceName := .inr hw }, h.diagnostics, h.block⟩
  | @option rest key value hk ho =>
    obtain ⟨hkey, hvalue⟩ := Statement.option?_eq_some ho
    have hr : rest ⊆ text := by simpa [hk] using Statement.splitKeyword_subset text
    refine ⟨{ h.definition with options := fun e he => ?_ }, h.diagnostics, h.block⟩
    rcases Options.mem_insertEntry he with rfl | he
    · exact ⟨hkey, fun hm => hn (hr (hvalue hm))⟩
    · exact h.definition.options e he
  | @header name kind _ hw =>
    obtain ⟨hb, he⟩ := Block.wellFormed_empty kind hw hl
    refine ⟨h.definition, h.diagnostics, fun b hb' => ?_⟩
    obtain rfl := Option.some.inj hb'
    exact ⟨hb, by rw [he]; exact h.definition.beginsBy⟩

theorem declare (h : o.Sound last) {b : Block} (hb : o.place.block? = some b) {place : Place}
    (hp : place.block? = none) :
    Sound { o with definition := o.definition.declare b, place := place } last where
  definition := h.definition.declare (h.block b hb).1 (h.block b hb).2
  diagnostics := h.diagnostics
  block _ hb' := absurd (hp.symm.trans hb') nofun

variable {t : Token}

theorem stepTop (h : o.Sound t.line) (hl : 1 ≤ t.line) (ht : t.Plain) :
    (o.stepTop t).Sound t.line := by
  have here : t.line = 0 ∨ 1 ≤ t.line ∧ t.line ≤ t.line := .inr ⟨hl, Nat.le_refl _⟩
  have h : (o.goto .top).Sound t.line := h.leave rfl
  cases hk : t.kind with
  | opening =>
    simp only [Outline.stepTop, hk]
    exact (h.report here _).leave rfl
  | closing =>
    simp only [Outline.stepTop, hk]
    exact h.report here _
  | statement text =>
    cases hd : Directive.ofStatement text with
    | ok dir =>
      simp only [Outline.stepTop, hk, hd]
      exact h.obey hl (ht text hk) (.of_ofStatement hd)
    | error problem =>
      simp only [Outline.stepTop, hk, hd]
      exact h.report here _

theorem stepBody (h : o.Sound t.line) (hl : 1 ≤ t.line) {b : Block} (hb : o.place.block? = some b) :
    (o.stepBody b t).Sound t.line := by
  have here : t.line = 0 ∨ 1 ≤ t.line ∧ t.line ≤ t.line := .inr ⟨hl, Nat.le_refl _⟩
  simp only [Outline.stepBody]
  split
  · exact h.declare hb rfl
  · exact (h.report here _).goto fun b' hb' => hb.trans hb'
  · split
    · next b' ha =>
      obtain ⟨hw, hbegin⟩ := h.block b hb
      obtain ⟨hw', he⟩ := hw.add ha
      refine ⟨h.definition, h.diagnostics, fun b'' hb'' => ?_⟩
      cases hb''
      exact ⟨hw', he ▸ hbegin⟩
    · exact h.report here _

theorem stepSkipping (h : o.Sound last) {outer : Option Block} (ho : o.place.block? = outer)
    (depth : Nat) : (o.stepSkipping outer depth t).Sound last := by
  cases hk : t.kind with
  | opening =>
    simp only [Outline.stepSkipping, hk]
    exact h.goto fun b hb => ho.trans hb
  | closing =>
    simp only [Outline.stepSkipping, hk]
    by_cases hd : depth = 1
    · rw [if_pos hd]
      cases outer with
      | none => exact h.leave rfl
      | some b => exact h.goto fun b hb => ho.trans hb
    · rw [if_neg hd]
      exact h.goto fun b hb => ho.trans hb
  | statement text =>
    simp only [Outline.stepSkipping, hk]
    exact h

theorem step (h : o.Sound t.line) (hl : 1 ≤ t.line) (ht : t.Plain) : (o.step t).Sound t.line := by
  simp only [Outline.step]
  split
  · exact h.stepTop hl ht
  · next b hp =>
    have hb : o.place.block? = some b := by rw [hp]; rfl
    split
    · exact h.goto fun b' hb' => hb.trans hb'
    · exact (h.report (.inr (h.block b hb).1.line) _).stepTop hl ht
  · next b hp => exact h.stepBody hl (by rw [hp]; rfl)
  · next outer depth hp => exact h.stepSkipping (by rw [hp]; rfl) depth

theorem foldl_step {tokens : List Token} (h : o.Sound line) (hl : line ≤ last)
    (hs : tokens.Pairwise (·.line ≤ ·.line))
    (ht : ∀ t ∈ tokens, line ≤ t.line ∧ (1 ≤ t.line ∧ t.line ≤ last) ∧ t.Plain) :
    (tokens.foldl Outline.step o).Sound last := by
  induction tokens generalizing o line with
  | nil => exact h.mono hl
  | cons t tokens ih =>
    obtain ⟨⟨hline, hin, hplain⟩, ht⟩ := List.forall_mem_cons.1 ht
    obtain ⟨hfirst, hs⟩ := List.pairwise_cons.1 hs
    exact ih ((h.mono hline).step hin.1 hplain) hin.2 hs fun t' ht' =>
      ⟨hfirst t' ht', (ht t' ht').2⟩

theorem finish (h : o.Sound last) : o.finish.definition.WellFormed last ∧
    ∀ d ∈ o.finish.diagnostics, d.Located last := by
  simp only [Outline.finish]
  split
  · exact ⟨h.definition, h.diagnostics⟩
  · next b hp =>
    have hr := h.report (.inr (h.block b (by rw [hp]; rfl)).1.line) (.missingBody b.kind b.name)
    exact ⟨hr.definition, hr.diagnostics⟩
  · next b hp =>
    have hb : o.place.block? = some b := by rw [hp]; rfl
    have hr := h.report (.inr (h.block b hb).1.line) (.unclosedBody b.kind b.name)
    exact ⟨hr.definition.declare (h.block b hb).1 (h.block b hb).2, hr.diagnostics⟩
  · have hr := h.report (.inl rfl) .unterminatedBlock
    exact ⟨hr.definition, hr.diagnostics⟩

end Outline.Sound

theorem Definition.WellFormed.assignTags {d : Definition} {last : Nat} (h : d.WellFormed last) :
    d.assignTags.WellFormed last := by
  refine { h with messages := List.forall_mem_map.2 fun m hm => ?_, messageLines := ?_ }
  · obtain ⟨hn, hf, hl⟩ := h.messages m hm
    exact ⟨hn, hf, hl⟩
  · simpa [Definition.assignTags, Function.comp_def] using h.messageLines

theorem Definition.tagged_assignTags (d : Definition) : d.assignTags.Tagged :=
  List.forall_mem_map.2 fun _ _ => rfl

theorem sound_ofSource (source : String) :
    ((Token.ofSource source.toList).foldl Outline.step {}).Sound (lineCount source) := by
  obtain ⟨ht, hs⟩ := Token.plain_ofSource source
  exact (Outline.Sound.start 0).foldl_step (Nat.zero_le _) hs fun t hm => ⟨Nat.zero_le _, ht t hm⟩

theorem wellFormed_readSource (source : String) :
    (readSource source).definition.WellFormed (lineCount source) :=
  (sound_ofSource source).finish.1.assignTags

/-- Whatever the text is, what is read of it is well-formed up to its last line, and every report is
of one of its lines or of the whole. -/
theorem readSource_wellFormed (source : String) :
    (readSource source).definition.WellFormed (lineCount source) ∧
      (readSource source).definition.Tagged ∧
      ∀ d ∈ (readSource source).diagnostics, d.Located (lineCount source) :=
  ⟨wellFormed_readSource source, Definition.tagged_assignTags _, (sound_ofSource source).finish.2⟩

example : lineCount "message A\n\x7b" = 2 := by decide
example : lineCount "message A\n" = 1 := by decide

end WireProtocol.Schema
