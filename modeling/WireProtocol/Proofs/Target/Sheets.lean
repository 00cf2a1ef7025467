import WireProtocol.Proofs.Target.Blocks
import WireProtocol.Proofs.Target.Mentions

/-! Sheets: what the text of a serializer says of a message. The same is read from the texts of all
languages, each in its own dialect. -/

namespace WireProtocol.Target

inductive Part
  | typeName
  | typeTag
  | fieldCount
  | maskWords
  | testing
  | writing
  | reading
  deriving DecidableEq, Repr

/-- A field that is marked as present if members of the value tell so, or one that is handled where
it is marked. -/
inductive Item
  | test (bit : String) (members : List String)
  | guard (bit : String)
  deriving DecidableEq, Repr

/-- The bit of a field that is handled, the members of the value that are written or read there, and
the kinds of elements that are called by. -/
structure Guard where
  bit : String
  members : List String
  kinds : List String
  deriving DecidableEq, Repr

structure Sheet where
  typeName : List String
  typeTag : List String
  fieldCount : List String
  maskWords : List String
  tests : List (String × List String)
  writes : List Guard
  reads : List Guard
  deriving DecidableEq, Repr

/-- How a language puts what is on a sheet: the beginnings of lines in the serializer of a message,
the section with the tests, the value at hand, the calls that set and test a bit, and those that
write and read elements, with the kinds of these. -/
structure Dialect where
  heads : String → List (String × Part)
  testing : Part
  subject : String
  set : List String
  isSet : List String
  writes : List (String × String)
  reads : List (String × String)

def part? (heads : List (String × Part)) (line : String) : Option (Part × String) :=
  heads.findSome? fun head => (behind? head.1 line).map (head.2, ·)

namespace Dialect

variable (l : Dialect)

def item? (line : String) : Option Item :=
  let ms := mentions line
  ((argument? l.set ms).map fun bit => .test bit (members l.subject ms)).or
    ((argument? l.isSet ms).map .guard)

def test? : Item × List (Nat × String) → Option (String × List String)
  | (.test bit members, _) => some (bit, members)
  | (.guard _, _) => none

def guard? (table : List (String × String)) : Item × List (Nat × String) → Option Guard
  | (.test .., _) => none
  | (.guard bit, lines) =>
    let ms := lines.flatMap fun line => mentions line.2
    some ⟨bit, members l.subject ms, calls table ms⟩

def sheet (parts : List ((Part × String) × List (Nat × String))) : Sheet :=
  let constant part := parts.filterMap fun b => if b.1.1 = part then some b.1.2 else none
  let items part := parts.flatMap fun b => if b.1.1 = part then blocks l.item? b.2 else []
  { typeName := constant .typeName
    typeTag := constant .typeTag
    fieldCount := constant .fieldCount
    maskWords := constant .maskWords
    tests := (items l.testing).filterMap test?
    writes := (items .writing).filterMap (l.guard? l.writes)
    reads := (items .reading).filterMap (l.guard? l.reads) }

def read (message text : String) : Sheet :=
  l.sheet (blocks (part? (l.heads message)) (layout text))

end Dialect

def Sheet.ofMessage (member : Schema.Field → String) (kinds : Schema.Field → List String)
    (maskWords : List String) (d : Schema.Definition) (m : Schema.Message) : Sheet where
  typeName := ["\"" ++ d.qualifiedName m.name ++ "\";"]
  typeTag := [toString m.typeTag ++ ";"]
  fieldCount := [toString m.fields.length ++ ";"]
  maskWords := maskWords
  tests := m.fields.zipIdx.map fun f => (toString f.2, [member f.1])
  writes := m.fields.zipIdx.map fun f => ⟨toString f.2, [member f.1], kinds f.1⟩
  reads := m.fields.zipIdx.map fun f => ⟨toString f.2, [member f.1], kinds f.1⟩

def wireKinds (f : Schema.Field) : List String :=
  (if f.repeated then [Schema.FieldType.name .int32] else []) ++ [f.type.name]

structure Handles (l : Dialect) (table : List (String × String)) (code : Code) (member : String)
    (kinds : List String) : Prop where
  level : code.Level
  guard? : ∀ bit depth, l.guard? table (.guard bit, code.laid depth) = some ⟨bit, [member], kinds⟩

theorem Handles.of_prints {l : Dialect} {table : List (String × String)} {code : Code}
    {ts : List String} {member : String} {kinds : List String} (h : code.Prints ts)
    (hm : members l.subject (ts.flatMap mentions) = [member])
    (hk : calls table (ts.flatMap mentions) = kinds) : Handles l table code member kinds where
  level := h.level
  guard? bit depth := by
    rw [Dialect.guard?, ← hm, ← hk, ← h.texts depth, List.flatMap_map]

def tested (member : Schema.Field → String) (fields : List Schema.Field) :
    List (Item × List (Nat × String)) :=
  fields.zipIdx.map fun f => (.test (toString f.2) [member f.1], [])

def handled (depth : Nat) (code : Schema.Field → Code) (fields : List Schema.Field) :
    List (Item × List (Nat × String)) :=
  fields.zipIdx.map fun f => (.guard (toString f.2), (code f.1).laid depth)

section

variable {l : Dialect} {table : List (String × String)} {member : Schema.Field → String}
  {fields : List Schema.Field} {depth : Nat} {code : Schema.Field → Code}

@[simp] theorem filterMap_test?_tested : (tested member fields).filterMap Dialect.test? =
    fields.zipIdx.map fun f => (toString f.2, [member f.1]) := by
  rw [tested, List.filterMap_map]
  exact congrFun List.filterMap_eq_map _

@[simp] theorem filterMap_test?_handled :
    (handled depth code fields).filterMap Dialect.test? = [] := by
  rw [handled, List.filterMap_map]
  exact List.filterMap_eq_nil_iff.2 fun _ _ => rfl

@[simp] theorem filterMap_guard?_tested :
    (tested member fields).filterMap (l.guard? table) = [] := by
  rw [tested, List.filterMap_map]
  exact List.filterMap_eq_nil_iff.2 fun _ _ => rfl

theorem filterMap_guard?_handled (depth : Nat) {kinds : Schema.Field → List String}
    (h : ∀ f ∈ fields, Handles l table (code f) (member f) (kinds f)) :
    (handled depth code fields).filterMap (l.guard? table) =
      fields.zipIdx.map fun f => ⟨toString f.2, [member f.1], kinds f.1⟩ := by
  rw [handled, List.filterMap_map, ← List.filterMap_eq_map]
  exact List.filterMap_congr fun f hf => (h f.1 (List.fst_mem_of_mem_zipIdx hf)).guard? _ _

end

structure Starts (heads : List (String × Part)) (t : String) (x : Option (Part × String)) :
    Prop where
  stands : Stands t
  part : ∀ rest, part? heads (t ++ rest) = x.map fun y => (y.1, y.2 ++ rest)

namespace Starts

variable {heads : List (String × Part)} {head t rest : String} {x : Option (Part × String)}

theorem found (h : Starts heads t x) : part? heads t = x := by
  have hp := h.part ""
  rw [String.append_empty] at hp
  cases x <;> simp [hp]

theorem append (h : Starts heads t none) (hr : '\n' ∉ rest.toList) :
    Starts heads (t ++ rest) none where
  stands := h.stands.append hr
  part rest' := by rw [String.append_assoc, h.part]; rfl

theorem more {part : Part} {after : String} (h : Starts heads t (some (part, after)))
    (hr : '\n' ∉ rest.toList) : Starts heads (t ++ rest) (some (part, after ++ rest)) where
  stands := h.stands.append hr
  part rest' := by
    rw [String.append_assoc, h.part, Option.map_some, Option.map_some, String.append_assoc]

theorem literal (h : Stands t ∧ part? heads t = x ∧
      ∀ head ∈ heads, head.1.toList <+: t.toList ∨ ¬ t.toList <+: head.1.toList) :
    Starts heads t x where
  stands := h.1
  part rest := by
    obtain ⟨-, rfl, hd⟩ := h
    induction heads with
    | nil => rfl
    | cons head heads ih =>
      rw [List.forall_mem_cons] at hd
      have ih := ih hd.2
      simp only [part?, List.findSome?_cons, behind?_append_right hd.1] at ih ⊢
      cases behind? head.1 t with
      | none => exact ih
      | some after => rfl

theorem concat {part : Part} (h : Starts heads t none)
    (hn : ∀ rest, behind? head (t ++ rest) = none) : Starts (heads ++ [(head, part)]) t none where
  stands := h.stands
  part rest := by
    have hp := h.part rest
    rw [Option.map_none, part?] at hp ⊢
    rw [List.findSome?_append, hp, Option.none_or, List.findSome?_singleton, hn, Option.map_none]

theorem apart {start name b : String} {part : Part} (h : Starts heads t none)
    (hp : Diverges start t) : Starts (heads ++ [(start ++ name ++ " " ++ b, part)]) t none :=
  h.concat fun rest => by
    rw [String.append_assoc, String.append_assoc]
    exact (hp.append _).behind? rest

theorem word {start name word b : String} {part : Part}
    (h : Starts heads (start ++ word ++ " " ++ t) none) (hn : ' ' ∉ name.toList)
    (hw : ' ' ∉ word.toList) (ht : Diverges b t) :
    Starts (heads ++ [(start ++ name ++ " " ++ b, part)]) (start ++ word ++ " " ++ t) none :=
  h.concat fun rest => by
    rw [@String.append_assoc _ t rest]
    exact behind?_append_word hn hw (behind?_eq_none_iff.1 (ht.behind? rest))

theorem concat_some {y : Part × String} (h : Starts heads t (some y)) (r : String × Part) :
    Starts (heads ++ [r]) t (some y) where
  stands := h.stands
  part rest := by
    have hp := h.part rest
    rw [part?, Option.map_some] at hp ⊢
    rw [List.findSome?_append, hp, Option.some_or]

end Starts

theorem part?_word {heads : List (String × Part)} {start name b : String} {part : Part}
    (hn : ' ' ∉ name.toList) (t : String)
    (h : ∀ head ∈ heads, ∃ word after, head.1 = start ++ word ++ " " ++ after ∧
      ' ' ∉ word.toList ∧ ¬ after.toList <+: (b ++ t).toList) :
    part? (heads ++ [(start ++ name ++ " " ++ b, part)]) (start ++ name ++ " " ++ (b ++ t)) =
      some (part, t) := by
  have hnone : heads.findSome? (fun head =>
      (behind? head.1 (start ++ name ++ " " ++ (b ++ t))).map (head.2, ·)) = none := by
    rw [List.findSome?_eq_none_iff]
    intro head hm
    obtain ⟨word, after, he, hw, ha⟩ := h head hm
    rw [he, behind?_append_word hw hn ha, Option.map_none]
  rw [part?, List.findSome?_append, hnone, Option.none_or, List.findSome?_singleton,
    ← String.append_assoc, behind?_append, Option.map_some]

namespace Finds

variable {heads : List (String × Part)} {t head : String} {y : Part × String} {depth : Nat}
  {body : Code}

theorem entry (h : Starts heads t (some y)) : Finds (part? heads) depth (.one t) [(y, [])] :=
  line h.stands h.found

theorem other (h : Starts heads t none) : Finds (part? heads) depth (.one t) [] :=
  idle h.stands h.found

theorem headed {part : Part} {after : String} (h : Starts heads head (some (part, after)))
    (hb : body.Level) (hc : part? heads "\x7d" = none) :
    Finds (part? heads) depth (.braced head body)
      [((part, after ++ " \x7b"), body.laid (depth + 1))] :=
  enclosed (.braced h.stands hb) (h.more (by decide)).found hc

theorem headed_brace (h : Starts heads head (some y)) (hb : body.Level)
    (hc : part? heads "\x7d" = none) :
    Finds (part? heads) depth (.one head ++ .within "\x7b" "\x7d" body)
      [(y, body.laid (depth + 1))] :=
  enclosed (.brace h.stands hb) h.found hc

theorem within_brace (h : Starts heads head none) (hc : part? heads "\x7d" = none)
    {found : List ((Part × String) × List (Nat × String))}
    (hb : Finds (part? heads) (depth + 1) body found) :
    Finds (part? heads) depth (.one head ++ .within "\x7b" "\x7d" body) found :=
  inside (.brace h.stands hb.level) h.found hc hb

theorem within (h : Starts heads head none) (hc : part? heads "\x7d" = none)
    {found : List ((Part × String) × List (Nat × String))}
    (hb : Finds (part? heads) (depth + 1) body found) :
    Finds (part? heads) depth (.braced head body) found :=
  inside (.braced h.stands hb.level) (h.append (by decide)).found hc hb

theorem banner {l : Language} {d : Schema.Definition} {o : Options} {last : Nat}
    (hw : d.WellFormed last) {comment : String} (hc : Starts heads comment none) :
    Finds (part? heads) depth (.lines ((l.context d o).banner comment)) [] :=
  lines fun t ht => by
    obtain ⟨rest, rfl, hr⟩ := exists_of_mem_banner hw ht
    exact other (hc.append hr)

end Finds

theorem Dialect.read_render {l : Dialect} {message : String} {code : Code}
    {parts : List ((Part × String) × List (Nat × String))} {sheet : Sheet}
    (h : Finds (part? (l.heads message)) 0 code parts) (hs : l.sheet parts = sheet) :
    l.read message (code.render indentUnit) = sheet := by rw [read, h.read, hs]

structure Typed (f : Schema.Field) : Prop where
  name : Text.isIdentifier f.name.toList = true
  type : f.type ≠ .list ∧ f.type ≠ .map
  custom : f.customType.isSome ↔ f.type = .struct
  customName : ∀ type ∈ f.customType, Text.isIdentifier type.toList = true

theorem stands_of_isIdentifier {name : String} (h : Text.isIdentifier name.toList = true) :
    Stands name where
  flush := by
    have hn := Named.of_isIdentifier h
    exact ⟨hn.flat, fun hs => absurd (hn _ (List.mem_of_mem_head? hs)) (by decide)⟩
  nonempty := by
    rintro rfl
    exact absurd h (by decide)
  closed := by
    rintro rfl
    exact absurd h (by decide)

theorem space_notMem_of_isIdentifier {name : String} (h : Text.isIdentifier name.toList = true) :
    ' ' ∉ name.toList := fun hm => absurd (Named.of_isIdentifier h _ hm) (by decide)

theorem newline_notMem_qualifiedName {d : Schema.Definition} {last : Nat} (hw : d.WellFormed last)
    {m : Schema.Message} (hm : m ∈ d.messages) : '\n' ∉ (d.qualifiedName m.name).toList := by
  have hname := newline_notMem_of_isIdentifier (hw.messages m hm).name
  rw [Schema.Definition.qualifiedName]
  split
  · exact hname
  · simp [hname, newline_notMem_namespaceName hw]

theorem newline_notMem_int32 (n : Int32) : '\n' ∉ (toString n).toList := by
  change '\n' ∉ (Int.repr n.toInt).toList
  cases n.toInt with
  | ofNat n => exact (Named.toString n).flat
  | negSucc n => simpa [Int.repr] using (Named.toString (n + 1)).flat

end WireProtocol.Target
