import Mathlib.Data.List.Basic
import WireProtocol.Proofs.NameWords
import WireProtocol.Proofs.Schema.WellFormed
import WireProtocol.Proofs.Target.Indentation
import WireProtocol.Target.Render

namespace WireProtocol.Target.Code

def texts : Code → List String
  | nil => []
  | line text rest => text :: texts rest
  | several ts rest => ts ++ texts rest
  | gap rest => "" :: texts rest
  | indent rest => texts rest
  | dedent rest => texts rest
  | block opening closing body rest => opening :: texts body ++ closing :: texts rest

theorem map_linesFrom (depth : Nat) (code : Code) :
    (code.linesFrom depth).map (·.2) = code.texts := by
  induction code generalizing depth with
  | nil => rfl
  | line text rest ih => simp [linesFrom, texts, ih]
  | several ts rest ih => simp [linesFrom, texts, ih, Function.comp_def]
  | gap rest ih => simp [linesFrom, texts, ih]
  | indent rest ih => simp [linesFrom, texts, ih]
  | dedent rest ih => simp [linesFrom, texts, ih]
  | block opening closing body rest ihbody ihrest => simp [linesFrom, texts, ihbody, ihrest]

variable {α : Type}

@[simp] theorem texts_append (a b : Code) : (a ++ b).texts = a.texts ++ b.texts := by
  change (append a b).texts = _
  induction a with
  | nil => rfl
  | line text rest ih => simp [append, texts, ih]
  | several ts rest ih => simp [append, texts, ih]
  | gap rest ih => simp [append, texts, ih]
  | indent rest ih => simp [append, texts, ih]
  | dedent rest ih => simp [append, texts, ih]
  | block opening closing body rest _ ih => simp [append, texts, ih]

@[simp] theorem texts_nil : nil.texts = [] := rfl

@[simp] theorem texts_one (text : String) : (one text).texts = [text] := rfl

@[simp] theorem texts_blank : blank.texts = [""] := rfl

@[simp] theorem texts_concat (codes : List Code) : (concat codes).texts = codes.flatMap texts := by
  induction codes with
  | nil => rfl
  | cons code codes ih => rw [concat, texts_append, ih, List.flatMap_cons]

@[simp] theorem texts_lines (ts : List String) : (lines ts).texts = ts := List.append_nil ts

@[simp] theorem texts_within (opening closing : String) (body : Code) :
    (within opening closing body).texts = opening :: body.texts ++ [closing] := rfl

@[simp] theorem texts_braced (head : String) (body : Code) :
    (braced head body).texts = (head ++ " \x7b") :: body.texts ++ ["\x7d"] := rfl

@[simp] theorem texts_each (as : List α) (piece : α → Code) :
    (each as piece).texts = as.flatMap fun a => (piece a).texts := by
  rw [each, texts_concat, List.flatMap_map]

def onLine (unit : String) (l : Nat × String) : List Char :=
  if l.2.isEmpty then [] else (List.replicate l.1 unit).flatMap String.toList ++ l.2.toList

theorem toList_lineText (unit : String) (l : Nat × String) :
    (lineText unit l).toList = onLine unit l ++ ['\n'] := by
  rw [lineText, onLine]
  split
  · rfl
  · simp

theorem splitAt_flatMap {ls : List (List Char)} (h : ∀ l ∈ ls, '\n' ∉ l) :
    Text.splitAt (· == '\n') (ls.flatMap (· ++ ['\n'])) = ls ++ [[]] := by
  induction ls with
  | nil => rfl
  | cons l ls ih =>
    rw [List.forall_mem_cons] at h
    have hl : ∀ c ∈ l, (c == '\n') = false := fun c hc => by
      rw [beq_eq_false_iff_ne]
      rintro rfl
      exact h.1 hc
    rw [List.flatMap_cons, List.append_assoc, List.singleton_append, Text.splitAt_append hl rfl,
      ih h.2, List.cons_append]

theorem splitAt_render {unit : String} (hu : '\n' ∉ unit.toList) {code : Code}
    (h : ∀ t ∈ code.texts, '\n' ∉ t.toList) :
    Text.splitAt (· == '\n') (code.render unit).toList =
      (code.linesFrom 0).map (onLine unit) ++ [[]] := by
  have hl : ∀ l ∈ (code.linesFrom 0).map (onLine unit), '\n' ∉ l := by
    refine List.forall_mem_map.2 fun l hm => ?_
    have ht : '\n' ∉ l.2.toList := h _ (map_linesFrom 0 code ▸ List.mem_map_of_mem hm)
    rw [onLine]
    split
    · exact List.not_mem_nil
    · simp only [List.mem_append, List.mem_flatMap, not_or]
      exact ⟨fun ⟨s, hs, hm⟩ => hu (List.eq_of_mem_replicate hs ▸ hm), ht⟩
  rw [← splitAt_flatMap hl, render_eq_join, String.toList_join, List.flatMap_map, List.flatMap_map]
  simp only [toList_lineText]

end WireProtocol.Target.Code

namespace WireProtocol.Target

def cutIndentation (line : List Char) : Nat × String :=
  ((line.takeWhile (· == ' ')).length, String.ofList (line.dropWhile (· == ' ')))

def readLines (text : String) : List (Nat × String) :=
  ((Text.splitAt (· == '\n') text.toList).map cutIndentation).filter fun l => !l.2.isEmpty

structure Flush (t : String) : Prop where
  flat : '\n' ∉ t.toList
  solid : t.toList.head? ≠ some ' '

instance (t : String) : Decidable (Flush t) :=
  decidable_of_iff ('\n' ∉ t.toList ∧ t.toList.head? ≠ some ' ')
    ⟨fun h => ⟨h.1, h.2⟩, fun h => ⟨h.flat, h.solid⟩⟩

theorem Flush.append {t t' : String} (h : Flush t) (hn : t ≠ "") (h' : '\n' ∉ t'.toList) :
    Flush (t ++ t') where
  flat := by simp [h.flat, h']
  solid := by
    have hl : t.toList ≠ [] := fun he => hn (String.toList_inj.1 he)
    rw [String.toList_append, List.head?_append_of_ne_nil _ hl]
    exact h.solid

namespace Code

theorem toList_indentation (depth : Nat) :
    (List.replicate depth indentUnit).flatMap String.toList = List.replicate (4 * depth) ' ' := by
  induction depth with
  | zero => rfl
  | succ depth ih =>
    rw [List.replicate_succ, List.flatMap_cons, ih, Nat.mul_succ, Nat.add_comm,
      List.replicate_add]
    rfl

theorem cutIndentation_onLine {l : Nat × String} (h : l.2.toList.head? ≠ some ' ') :
    cutIndentation (onLine indentUnit l) = if l.2.isEmpty then (0, "") else (4 * l.1, l.2) := by
  rw [onLine, toList_indentation]
  split
  · rfl
  · have hs : ∀ c ∈ List.replicate (4 * l.1) ' ', (c == ' ') = true := fun c hc => by
      rw [List.eq_of_mem_replicate hc]
      rfl
    have ht : l.2.toList.takeWhile (· == ' ') = [] ∧
        l.2.toList.dropWhile (· == ' ') = l.2.toList := by
      cases hl : l.2.toList with
      | nil => exact ⟨rfl, rfl⟩
      | cons c rest =>
        have hc : (c == ' ') = false := by
          rw [beq_eq_false_iff_ne]
          rintro rfl
          exact h (by rw [hl]; rfl)
        simp [hc]
    rw [cutIndentation, List.takeWhile_append_of_pos hs, List.dropWhile_append_of_pos hs, ht.1,
      ht.2, List.append_nil, List.length_replicate, String.ofList_toList]

theorem readLines_render {code : Code} (h : ∀ t ∈ code.texts, Flush t) :
    readLines (code.render indentUnit) =
      ((code.linesFrom 0).filter fun l => !l.2.isEmpty).map fun l => (4 * l.1, l.2) := by
  have hl : ∀ l ∈ code.linesFrom 0, l.2.toList.head? ≠ some ' ' := fun l hl =>
    (h _ (map_linesFrom 0 code ▸ List.mem_map_of_mem hl)).solid
  rw [readLines, splitAt_render (by decide) fun t ht => (h t ht).flat, List.map_append,
    List.filter_append, List.map_map]
  generalize code.linesFrom 0 = ls at hl
  refine (List.append_nil _).trans ?_
  induction ls with
  | nil => rfl
  | cons l ls ih =>
    rw [List.forall_mem_cons] at hl
    rw [List.map_cons, List.filter_cons, List.filter_cons, ih hl.2, Function.comp_apply,
      cutIndentation_onLine hl.1]
    cases he : l.2.isEmpty <;> simp [he]

theorem map_readLines_render {code : Code} (h : ∀ t ∈ code.texts, Flush t) :
    (readLines (code.render indentUnit)).map (·.2) = code.texts.filter (!·.isEmpty) := by
  rw [readLines_render h, ← map_linesFrom 0 code, List.filter_map, List.map_map]
  rfl

end Code

theorem newline_notMem_headerLines {text : List Char} (h : '\n' ∉ text) :
    ∀ part ∈ Context.headerLines text, '\n' ∉ part := by
  fun_induction Context.headerLines text with
  | case1 => simp
  | case2 rest ih => simp_all
  | case3 c rest hc part parts heq ih => simp_all
  | case4 c rest hc heq ih => simp_all

theorem newline_notMem_of_isDottedName {text : List Char} (h : Text.isDottedName text = true) :
    '\n' ∉ text := fun hm =>
  absurd ((Text.isTerm_of_isDottedName h).wordChar _ hm) (by decide)

theorem newline_notMem_of_isIdentifier {text : List Char} (h : Text.isIdentifier text = true) :
    '\n' ∉ text := newline_notMem_of_isDottedName (Text.isDottedName_of_isIdentifier h)

theorem newline_notMem_snakeCase {name : String}
    (h : ∀ c ∈ name.toList, Text.isWordChar c = true) : '\n' ∉ (Text.snakeCase name).toList := by
  intro hm
  rcases Text.mem_snakeCase hm with he | ⟨b, hb, hc⟩
  · exact absurd he (by decide)
  · have hb := h b hb
    simp only [Text.isWordChar, Bool.or_eq_true, beq_iff_eq] at hb
    rcases hb with ((hb | rfl) | rfl) | rfl
    · rw [Text.lower_of_isIdentifierRest hb, List.mem_singleton] at hc
      exact Text.forall_isIdentifierRest (P := fun b => '\n' ≠ b.toLower) (by decide) hb hc
    all_goals exact absurd hc (by decide)

theorem newline_notMem_intercalate {sep : String} (hs : '\n' ∉ sep.toList) {ts : List String}
    (h : ∀ t ∈ ts, '\n' ∉ t.toList) : '\n' ∉ (String.intercalate sep ts).toList := by
  intro hm
  rw [String.toList_intercalate] at hm
  rcases Text.mem_intercalate hm with hm | hm
  · exact hs hm
  · obtain ⟨_, hmap, hm⟩ := List.mem_flatten.1 hm
    obtain ⟨t, ht, rfl⟩ := List.mem_map.1 hmap
    exact h t ht hm

theorem isIdentifier_of_mem_nameParts {name part : String}
    (h : name = "" ∨ Text.isDottedName name.toList = true) (hp : part ∈ nameParts name) :
    Text.isIdentifier part.toList = true := by
  simp only [nameParts, List.mem_map, List.mem_filter] at hp
  obtain ⟨text, ⟨hm, hne⟩, rfl⟩ := hp
  rw [String.toList_ofList]
  rcases h with rfl | h
  · have he : ∀ text ∈ Text.splitAt (· == '.') "".toList, text = [] := by decide
    rw [he text hm] at hne
    exact absurd hne (by decide)
  · exact List.all_eq_true.1 h text hm

section

variable {l : Language} {d : Schema.Definition} {o : Options} {last : Nat}

theorem newline_notMem_namespaceName (hw : d.WellFormed last) : '\n' ∉ d.namespaceName.toList := by
  rcases hw.namespaceName with h | h
  · simp [h]
  · exact newline_notMem_of_isDottedName h

theorem newline_notMem_mapParts (hw : d.WellFormed last) {sep : String} (hs : '\n' ∉ sep.toList)
    {target : String → String}
    (ht : ∀ {part}, Text.isIdentifier part.toList = true → '\n' ∉ (target part).toList) :
    '\n' ∉ (String.intercalate sep ((nameParts d.namespaceName).map target)).toList :=
  newline_notMem_intercalate hs <| List.forall_mem_map.2 fun _ hp =>
    ht (isIdentifier_of_mem_nameParts hw.namespaceName hp)

theorem newline_notMem_context (h : '\n' ∉ (l.toMapping.namespaceName d.namespaceName).toList)
    (hn : '\n' ∉ o.namespaceName.toList) : '\n' ∉ (l.context d o).namespaceName.toList := by
  rw [Language.context]
  dsimp only
  split
  · exact h
  · exact hn

theorem exists_of_mem_banner (hw : d.WellFormed last) {comment t : String}
    (h : t ∈ (l.context d o).banner comment) :
    ∃ rest, t = comment ++ rest ∧ '\n' ∉ rest.toList := by
  rcases List.mem_cons.1 h with rfl | h
  · refine ⟨_, by rw [String.append_assoc, String.append_assoc], ?_⟩
    have hn := newline_notMem_namespaceName hw
    rw [Language.context]
    cases d.namespaceName.isEmpty <;> simp [hn]
  · split at h
    · next text hget =>
      obtain ⟨part, hp, rfl⟩ := List.mem_map.1 h
      obtain ⟨left, right, he, -⟩ := List.lookup_eq_some_iff.1 hget
      have htext := (hw.options (_, text) (he ▸ List.mem_append_right left List.mem_cons_self)).2
      refine ⟨_, by rw [String.append_assoc], ?_⟩
      simp [newline_notMem_headerLines htext part hp]
    · cases h

end

end WireProtocol.Target
