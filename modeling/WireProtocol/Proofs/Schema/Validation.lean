import Mathlib.Data.List.Nodup
import WireProtocol.Schema.Validation

namespace WireProtocol.Schema

variable {α : Type}

def Definition.Declares (d : Definition) (name : String) : Prop := ∃ m ∈ d.messages, m.name = name

inductive Message.Flawed (d : Definition) (m : Message) : Prop
  | fieldNames (h : ¬ (m.fields.map (·.name)).Nodup)
  | nonPositiveId {f : Field} (hf : f ∈ m.fields) (h : f.id ≤ 0)
  | positiveIds (h : ¬ ((m.fields.map (·.id)).filter (0 < ·)).Nodup)
  | unknownMessage {f : Field} (hf : f ∈ m.fields) (ht : f.type = .struct)
      (h : ¬ d.Declares (f.customType.getD ""))
  | reservedType {f : Field} (hf : f ∈ m.fields) (h : f.type = .list ∨ f.type = .map)
  | reservedTag (h : m.typeTag = -1 ∨ 0 ≤ m.typeTag ∧ m.typeTag ≤ 15)

inductive Service.Flawed (d : Definition) (s : Service) : Prop
  | methodNames (h : ¬ (s.methods.map (·.name)).Nodup)
  | undeclaredType {m : Method} (hm : m ∈ s.methods)
      (h : ¬ d.Declares m.request ∨ ¬ d.Declares m.response)

inductive Definition.Flawed (d : Definition) : Prop
  | messageNames (h : ¬ (d.messages.map (·.name)).Nodup)
  | serviceNames (h : ¬ (d.services.map (·.name)).Nodup)
  | message {m : Message} (hm : m ∈ d.messages) (h : m.Flawed d)
  | sharedTag {m m' : Message} (hm : m ∈ d.messages) (hm' : m' ∈ d.messages)
      (hn : m.name ≠ m'.name) (ht : m.typeTag = m'.typeTag)
  | service {s : Service} (hs : s ∈ d.services) (h : s.Flawed d)

def Faulty (ds : List Diagnostic) : Prop := ∃ d ∈ ds, d.isError = true

@[simp] theorem not_faulty_nil : ¬ Faulty [] := by simp [Faulty]

@[simp] theorem faulty_append (ds ds' : List Diagnostic) :
    Faulty (ds ++ ds') ↔ Faulty ds ∨ Faulty ds' := by
  simp only [Faulty, List.mem_append, or_and_right, exists_or]

@[simp] theorem faulty_singleton (line : Nat) (problem : Problem) :
    Faulty [⟨line, problem⟩] ↔ problem.severity = .error := by
  simp only [Faulty, List.mem_singleton, exists_eq_left]
  exact decide_eq_true_iff

@[simp] theorem faulty_ite {p : Prop} [Decidable p] (ds ds' : List Diagnostic) :
    Faulty (if p then ds else ds') ↔ p ∧ Faulty ds ∨ ¬ p ∧ Faulty ds' := by
  split <;> simp_all

def Occurs (P : List α → α → Prop) (l : List α) : Prop :=
  ∃ left a right, l = left ++ a :: right ∧ P left a

theorem occurs_congr {P Q : List α → α → Prop} (h : ∀ left a, P left a ↔ Q left a) (l : List α) :
    Occurs P l ↔ Occurs Q l := by
  simp only [Occurs, h]

theorem occurs_or (P Q : List α → α → Prop) (l : List α) :
    Occurs (fun left a => P left a ∨ Q left a) l ↔ Occurs P l ∨ Occurs Q l := by
  simp only [Occurs, and_or_left, exists_or]

theorem occurs_forall (P : α → Prop) (l : List α) :
    Occurs (fun _ a => P a) l ↔ ∃ a ∈ l, P a := by
  constructor
  · rintro ⟨left, a, right, rfl, h⟩
    exact ⟨a, by simp, h⟩
  · rintro ⟨a, ha, h⟩
    obtain ⟨left, right, rfl⟩ := List.append_of_mem ha
    exact ⟨left, a, right, rfl, h⟩

theorem occurs_cons (P : List α → α → Prop) (a : α) (l : List α) :
    Occurs P (a :: l) ↔ P [] a ∨ Occurs (fun left => P (a :: left)) l := by
  constructor
  · rintro ⟨left, b, right, hl, h⟩
    cases left with
    | nil =>
      cases hl
      exact .inl h
    | cons c left =>
      cases hl
      exact .inr ⟨left, b, right, rfl, h⟩
  · rintro (h | ⟨left, b, right, rfl, h⟩)
    · exact ⟨[], a, l, rfl, h⟩
    · exact ⟨a :: left, b, right, rfl, h⟩

theorem occurs_not_pairwise (R : α → α → Prop) (l : List α) :
    Occurs (fun left a => ∃ b ∈ left, ¬ R b a) l ↔ ¬ l.Pairwise R := by
  induction l with
  | nil => simp [Occurs]
  | cons a l ih =>
    rw [occurs_cons, List.pairwise_cons, not_and_or, ← ih, not_forall]
    simp only [List.not_mem_nil, false_and, exists_false, false_or, List.mem_cons,
      exists_eq_or_imp, occurs_or, occurs_forall, Classical.not_imp]

theorem occurs_repeated {β : Type} (key : α → β) (l : List α) :
    Occurs (fun left a => ∃ b ∈ left, key b = key a) l ↔ ¬ (l.map key).Nodup := by
  rw [List.Nodup, List.pairwise_map, ← occurs_not_pairwise]
  simp only [not_not]

theorem faulty_checkEach (check : List α → α → List Diagnostic) (before l : List α) :
    Faulty (checkEach check before l) ↔
      Occurs (fun left a => Faulty (check (left.reverse ++ before) a)) l := by
  induction l generalizing before with
  | nil => simp [checkEach, Occurs]
  | cons a l ih =>
    rw [checkEach, faulty_append, ih, occurs_cons]
    simp

namespace Definition

variable (d : Definition)

theorem isSome_message? (name : String) : (d.message? name).isSome ↔ d.Declares name := by
  simp [message?, Declares]

theorem faulty_checkType (m : Message) (f : Field) :
    Faulty (d.checkType m f) ↔
      f.type = .struct ∧ ¬ d.Declares (f.customType.getD "") ∨ f.type = .list ∨ f.type = .map := by
  cases h : f.type <;> simp [checkType, h, isSome_message?, Problem.severity]

theorem faulty_checkField (m : Message) (before : List Field) (f : Field) :
    Faulty (d.checkField m before f) ↔
      (∃ g ∈ before, g.name = f.name) ∨ f.id ≤ 0 ∨ (∃ g ∈ before, 0 < f.id ∧ g.id = f.id) ∨
        Faulty (d.checkType m f) := by
  have hids : (∃ g ∈ before, g.id = f.id) ↔ (before.find? (·.id == f.id)).isSome := by simp
  rw [checkField, faulty_append, faulty_append, or_assoc]
  refine or_congr ?names ((or_congr ?ids Iff.rfl).trans or_assoc)
  case names => simp [Problem.severity]
  case ids =>
    by_cases h : f.id ≤ 0
    · simp [h, Problem.severity]
    · have hp : 0 < f.id := Int32.not_le.1 h
      simp only [h, hp, if_false, true_and, false_or, hids]
      cases before.find? (·.id == f.id) <;> simp [Problem.severity]

theorem faulty_checkMessage (before : List Message) (m : Message) :
    Faulty (d.checkMessage before m) ↔
      (∃ m' ∈ before, m'.name = m.name) ∨ Faulty (checkEach (d.checkField m) [] m.fields) := by
  have hnames : (∃ m' ∈ before, m'.name = m.name) ↔ (before.find? (·.name == m.name)).isSome := by
    simp
  rw [checkMessage, faulty_append, hnames]
  cases before.find? (·.name == m.name) <;> simp [Problem.severity]

theorem faulty_checkMethod (s : Service) (before : List Method) (m : Method) :
    Faulty (d.checkMethod s before m) ↔
      (∃ m' ∈ before, m'.name = m.name) ∨ ¬ d.Declares m.request ∨ ¬ d.Declares m.response := by
  simp [checkMethod, checkRole, isSome_message?, Problem.severity]

theorem faulty_checkService (before : List Service) (s : Service) :
    Faulty (d.checkService before s) ↔
      (∃ s' ∈ before, s'.name = s.name) ∨ Faulty (checkEach (d.checkMethod s) [] s.methods) := by
  simp [checkService, Problem.severity]

/-- Tags tell messages of different names apart. -/
def Separated (ms : List Message) : Prop :=
  ∀ m ∈ ms, ∀ m' ∈ ms, m.typeTag = m'.typeTag → m.name = m'.name

theorem Separated.subset {ms ms' : List Message} (h : Separated ms') (hs : ms ⊆ ms') :
    Separated ms :=
  fun m hm m' hm' => h m (hs hm) m' (hs hm')

theorem separated_cons {m : Message} {ms : List Message} :
    Separated (m :: ms) ↔
      Separated ms ∧ ∀ m' ∈ ms, m'.typeTag = m.typeTag → m'.name = m.name := by
  constructor
  · intro h
    exact ⟨h.subset (List.subset_cons_self m ms),
      fun m' hm' => h m' (List.mem_cons_of_mem m hm') m List.mem_cons_self⟩
  · rintro ⟨h, hm⟩ a ha b hb hab
    cases ha with
    | head =>
      cases hb with
      | head => rfl
      | tail _ hb => exact (hm b hb hab.symm).symm
    | tail _ ha =>
      cases hb with
      | head => exact hm a ha hab
      | tail _ hb => exact h a ha b hb hab

theorem not_faulty_checkTag {before : List Message} (hb : Separated before) (m : Message) :
    ¬ Faulty (checkTag before m) ↔
      Wire.Tag.isReserved m.typeTag = false ∧ Separated (m :: before) := by
  rw [checkTag]
  cases hr : Wire.Tag.isReserved m.typeTag with
  | true => simp [Problem.severity]
  | false =>
    simp only [Bool.false_eq_true, if_false, true_and]
    rw [separated_cons, and_iff_right hb]
    cases hf : before.find? (·.typeTag == m.typeTag) with
    | none =>
      have hn : ∀ m' ∈ before, m'.typeTag ≠ m.typeTag := by simpa using hf
      simp only [not_faulty_nil, not_false_eq_true, true_iff]
      exact fun m' hm ht => absurd ht (hn m' hm)
    | some other =>
      have ho := List.mem_of_find?_eq_some hf
      have ht : other.typeTag = m.typeTag := by simpa using List.find?_some hf
      simp only [faulty_ite, not_faulty_nil, faulty_singleton, Problem.severity, and_false,
        and_true, false_or, not_not]
      exact ⟨fun hn m' hm ht' => (hb m' hm other ho (ht'.trans ht.symm)).trans hn,
        fun h => h other ho ht⟩

theorem not_faulty_checkEach_checkTag {before : List Message} (hb : Separated before)
    (ms : List Message) :
    ¬ Faulty (checkEach checkTag before ms) ↔
      (∀ m ∈ ms, Wire.Tag.isReserved m.typeTag = false) ∧ Separated (before.reverse ++ ms) := by
  induction ms generalizing before with
  | nil =>
    have hs : Separated before.reverse := hb.subset (by simp)
    simp [checkEach, hs]
  | cons m ms ih =>
    rw [checkEach, faulty_append, not_or, not_faulty_checkTag hb]
    constructor
    · rintro ⟨⟨hr, hm⟩, h⟩
      obtain ⟨hrs, hs⟩ := (ih hm).1 h
      exact ⟨List.forall_mem_cons.2 ⟨hr, hrs⟩, by simpa using hs⟩
    · rintro ⟨hr, hs⟩
      rw [List.forall_mem_cons] at hr
      have hm : Separated (m :: before) := hs.subset (by simp)
      exact ⟨⟨hr.1, hm⟩, (ih hm).2 ⟨hr.2, by simpa using hs⟩⟩

theorem not_faulty_checkTags :
    ¬ Faulty d.checkTags ↔
      (∀ m ∈ d.messages, Wire.Tag.isReserved m.typeTag = false) ∧ Separated d.messages :=
  @not_faulty_checkEach_checkTag [] (fun _ hm => nomatch hm) d.messages

theorem faulty_checkTags :
    Faulty d.checkTags ↔ (∃ m ∈ d.messages, Wire.Tag.isReserved m.typeTag = true) ∨
      ∃ m ∈ d.messages, ∃ m' ∈ d.messages, m.name ≠ m'.name ∧ m.typeTag = m'.typeTag := by
  rw [← not_iff_not, not_faulty_checkTags, Separated]
  grind

theorem occurs_positiveIds (fields : List Field) :
    Occurs (fun left f => ∃ g ∈ left, 0 < f.id ∧ g.id = f.id) fields ↔
      ¬ ((fields.map (·.id)).filter (0 < ·)).Nodup := by
  rw [List.Nodup, List.pairwise_filter, List.pairwise_map, ← occurs_not_pairwise]
  apply occurs_congr
  intro left f
  grind

theorem message_flawed_iff (m : Message) :
    m.Flawed d ↔ Faulty (checkEach (d.checkField m) [] m.fields) ∨
      Wire.Tag.isReserved m.typeTag = true := by
  simp only [faulty_checkEach, List.append_nil, faulty_checkField, List.mem_reverse, occurs_or,
    occurs_repeated, occurs_forall, occurs_positiveIds, Wire.Tag.isReserved_iff]
  constructor
  · rintro (h | ⟨hf, h⟩ | h | ⟨hf, ht, h⟩ | ⟨hf, h⟩ | h)
    · exact .inl (.inl h)
    · exact .inl (.inr (.inl ⟨_, hf, h⟩))
    · exact .inl (.inr (.inr (.inl h)))
    · exact .inl (.inr (.inr (.inr ⟨_, hf, (d.faulty_checkType m _).2 (.inl ⟨ht, h⟩)⟩)))
    · exact .inl (.inr (.inr (.inr ⟨_, hf, (d.faulty_checkType m _).2 (.inr h)⟩)))
    · exact .inr h
  · rintro ((h | ⟨f, hf, h⟩ | h | ⟨f, hf, h⟩) | h)
    · exact .fieldNames h
    · exact .nonPositiveId hf h
    · exact .positiveIds h
    · rcases (d.faulty_checkType m f).1 h with ⟨ht, h⟩ | h
      · exact .unknownMessage hf ht h
      · exact .reservedType hf h
    · exact .reservedTag h

theorem service_flawed_iff (s : Service) :
    s.Flawed d ↔ Faulty (checkEach (d.checkMethod s) [] s.methods) := by
  simp only [faulty_checkEach, List.append_nil, faulty_checkMethod, List.mem_reverse, occurs_or,
    occurs_repeated, occurs_forall]
  constructor
  · rintro (h | ⟨hm, h | h⟩)
    · exact .inl h
    · exact .inr (.inl ⟨_, hm, h⟩)
    · exact .inr (.inr ⟨_, hm, h⟩)
  · rintro (h | ⟨m, hm, h⟩ | ⟨m, hm, h⟩)
    · exact .methodNames h
    · exact .undeclaredType hm (.inl h)
    · exact .undeclaredType hm (.inr h)

theorem faulty_validate :
    Faulty d.validate ↔
      (¬ (d.messages.map (·.name)).Nodup ∨
        ∃ m ∈ d.messages, Faulty (checkEach (d.checkField m) [] m.fields)) ∨
      Faulty d.checkTags ∨
      ¬ (d.services.map (·.name)).Nodup ∨
        ∃ s ∈ d.services, Faulty (checkEach (d.checkMethod s) [] s.methods) := by
  have hspace : ¬ Faulty (if d.namespaceName.isEmpty then [⟨0, .noNamespace⟩] else []) := by
    simp [Problem.severity]
  rw [validate, faulty_append, faulty_append, faulty_append, or_iff_right hspace, or_assoc,
    faulty_checkEach, faulty_checkEach]
  simp only [List.append_nil, faulty_checkMessage, faulty_checkService, List.mem_reverse, occurs_or,
    occurs_repeated, occurs_forall]

/-- Validation finds an error in a definition exactly when something is wrong with it: declarations
that are equal in what must tell them apart, a reference to no message, or a number, type or tag
that is reserved. -/
theorem faulty_validate_iff : Faulty d.validate ↔ d.Flawed := by
  rw [faulty_validate, faulty_checkTags]
  constructor
  · rintro ((h | ⟨m, hm, h⟩) | (⟨m, hm, h⟩ | ⟨m, hm, m', hm', hn, ht⟩) | h | ⟨s, hs, h⟩)
    · exact .messageNames h
    · exact .message hm ((d.message_flawed_iff m).2 (.inl h))
    · exact .message hm ((d.message_flawed_iff m).2 (.inr h))
    · exact .sharedTag hm hm' hn ht
    · exact .serviceNames h
    · exact .service hs ((d.service_flawed_iff s).2 h)
  · rintro (h | h | ⟨hm, h⟩ | ⟨hm, hm', hn, ht⟩ | ⟨hs, h⟩)
    · exact .inl (.inl h)
    · exact .inr (.inr (.inl h))
    · rcases (d.message_flawed_iff _).1 h with h | h
      · exact .inl (.inr ⟨_, hm, h⟩)
      · exact .inr (.inl (.inl ⟨_, hm, h⟩))
    · exact .inr (.inl (.inr ⟨_, hm, _, hm', hn, ht⟩))
    · exact .inr (.inr (.inr ⟨_, hs, (d.service_flawed_iff _).1 h⟩))

end Definition

end WireProtocol.Schema
