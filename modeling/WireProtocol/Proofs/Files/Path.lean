import Mathlib.Data.List.Lex
import Mathlib.Data.Prod.Lex
import Mathlib.Data.String.Basic
import WireProtocol.Files.Path
import WireProtocol.Proofs.Text

namespace WireProtocol.Files.Path

def Part.rank (a : Part) : Nat ×ₗ String := toLex a.key

theorem Part.rank_injective : Function.Injective Part.rank := by
  intro a b h
  have hk : a.key = b.key := congrArg ofLex h
  cases a <;> cases b <;> simp_all [Part.key]

theorem Part.lt_iff {a b : Part} : a.lt b = true ↔ a.rank < b.rank := by
  simp [Part.lt, Part.rank, Prod.Lex.toLex_lt_toLex]

theorem ltParts_iff {as bs : List Part} :
    ltParts as bs = true ↔ as.map Part.rank < bs.map Part.rank := by
  fun_induction ltParts as bs with
  | case1 as => simp
  | case2 => simp
  | case3 a as b bs ih =>
    simp only [List.map_cons, List.cons_lt_cons_iff, Bool.or_eq_true, Bool.and_eq_true,
      Part.lt_iff, ih, beq_iff_eq, Part.rank_injective.eq_iff]

theorem le_iff {p q : Path} : p.le q = true ↔ p.parts.map Part.rank ≤ q.parts.map Part.rank := by
  rw [le, Bool.not_eq_true', Bool.eq_false_iff, Ne, ltParts_iff, not_lt]

theorem le_or_le (p q : Path) : (p.le q || q.le p) = true := by
  simpa only [Bool.or_eq_true, le_iff] using le_total _ _

theorem le_trans (p q r : Path) (hpq : p.le q = true) (hqr : q.le r = true) : p.le r = true := by
  rw [le_iff] at *
  exact hpq.trans hqr

theorem same_of_le {p q : Path} (hpq : p.le q = true) (hqp : q.le p = true) : p.same q = true := by
  rw [le_iff] at *
  rw [same, beq_iff_eq]
  exact List.map_injective_iff.2 Part.rank_injective (hpq.antisymm hqp)

theorem isAbsolute_iff {p : Path} : p.isAbsolute = true ↔ p.text.toList.head? = some '/' := by
  rw [isAbsolute, String.startsWith_string_iff, ← List.singleton_prefix_iff_head?_eq_some]
  rfl

theorem endsInSlash_iff {p : Path} : p.endsInSlash = true ↔ p.text.toList.getLast? = some '/' := by
  rw [endsInSlash, ← String.endsWith_toSlice, String.Slice.endsWith_string_iff,
    String.copy_toSlice, ← List.singleton_suffix_iff_getLast?_eq_some]
  rfl

/-- A name that a lookup takes as it stands. -/
structure IsName (s : String) : Prop where
  solid : '/' ∉ s.toList
  part : Part.ofText? s = some (.name s)

namespace IsName

variable {s : String}

instance : Decidable (IsName s) :=
  decidable_of_iff ('/' ∉ s.toList ∧ Part.ofText? s = some (.name s))
    ⟨fun h => ⟨h.1, h.2⟩, fun h => ⟨h.solid, h.part⟩⟩

theorem ne_empty (h : IsName s) : s ≠ "" := by
  rintro rfl
  exact absurd h.part (by decide)

theorem ne_current (h : IsName s) : s ≠ "." := by
  rintro rfl
  exact absurd h.part (by decide)

theorem toList_ne_nil (h : IsName s) : s.toList ≠ [] :=
  fun hn => h.ne_empty (String.toList_inj.1 hn)

theorem of_length (hs : '/' ∉ s.toList) (hl : 2 < s.toList.length) : IsName s where
  solid := hs
  part := by
    have hne : ∀ {t : String}, t.toList.length ≤ 2 → s ≠ t := by
      rintro _ ht rfl
      omega
    rw [Part.ofText?, if_neg (not_or.2 ⟨hne (by decide), hne (by decide)⟩),
      if_neg (hne (by decide))]

theorem head?_ne (h : IsName s) : s.toList.head? ≠ some '/' :=
  fun he => h.solid (List.mem_of_head? he)

theorem getLast?_ne (h : IsName s) : s.toList.getLast? ≠ some '/' :=
  fun he => h.solid (List.mem_of_getLast? he)

end IsName

def ofNames (names : List String) : Path := ⟨String.intercalate "/" names⟩

theorem ofNames_singleton (name : String) : ofNames [name] = ⟨name⟩ := by
  simp [ofNames]

section

variable {name : String} {names : List String}

theorem toList_ofNames_cons (hn : names ≠ []) :
    (ofNames (name :: names)).text.toList = name.toList ++ '/' :: (ofNames names).text.toList := by
  simp [ofNames, String.intercalate_cons_of_ne_nil hn]

theorem pieces_ofNames (hn : names ≠ []) (h : ∀ n ∈ names, IsName n) :
    (ofNames names).pieces = names := by
  induction names with
  | nil => exact absurd rfl hn
  | cons name names ih =>
    rw [List.forall_mem_cons] at h
    have hs : ∀ c ∈ name.toList, (c == '/') = false := fun c hc =>
      beq_eq_false_iff_ne.2 fun he => h.1.solid (he ▸ hc)
    cases names with
    | nil => simp [pieces, ofNames, Text.splitAt_of_forall hs]
    | cons next names =>
      rw [pieces, toList_ofNames_cons (List.cons_ne_nil _ _), Text.splitAt_append hs rfl,
        List.map_cons, String.ofList_toList]
      exact congrArg _ (ih (List.cons_ne_nil _ _) h.2)

theorem filterMap_of_names {f : String → Option Part} (hf : ∀ s, IsName s → f s = some (.name s))
    (h : ∀ n ∈ names, IsName n) : names.filterMap f = names.map .name := by
  induction names with
  | nil => rfl
  | cons name names ih =>
    rw [List.forall_mem_cons] at h
    rw [List.filterMap_cons_some (hf name h.1), ih h.2, List.map_cons]

theorem parts_ofNames (h : ∀ n ∈ names, IsName n) : (ofNames names).parts = names.map .name := by
  cases names with
  | nil => decide
  | cons name names =>
    have hn := List.forall_mem_cons.1 h
    rw [parts, pieces_ofNames (List.cons_ne_nil _ _) h]
    simp only [if_neg hn.1.ne_empty, if_neg hn.1.ne_current, hn.1.part, Option.toList_some]
    rw [filterMap_of_names (fun _ => IsName.part) hn.2]
    rfl

theorem steps_ofNames (hn : names ≠ []) (h : ∀ n ∈ names, IsName n) :
    (ofNames names).steps = names.map .name := by
  rw [steps, pieces_ofNames hn h]
  exact filterMap_of_names (fun s hs => by
    rw [if_neg hs.ne_empty, if_neg hs.ne_current, hs.part]) h

theorem toList_ofNames_ne_nil (hn : names ≠ []) (h : ∀ n ∈ names, IsName n) :
    (ofNames names).text.toList ≠ [] := by
  obtain ⟨name, names, rfl⟩ := List.exists_cons_of_ne_nil hn
  have hs := (h name List.mem_cons_self).toList_ne_nil
  cases names with
  | nil => simpa [ofNames_singleton] using hs
  | cons next names => simp [toList_ofNames_cons]

theorem not_isAbsolute_ofNames (h : ∀ n ∈ names, IsName n) :
    (ofNames names).isAbsolute = false := by
  rw [Bool.eq_false_iff, Ne, isAbsolute_iff]
  cases names with
  | nil => decide
  | cons name names =>
    have hs := h name List.mem_cons_self
    cases names with
    | nil => simpa [ofNames_singleton] using hs.head?_ne
    | cons next names =>
      rw [toList_ofNames_cons (List.cons_ne_nil _ _), List.head?_append,
        List.head?_eq_some_head hs.toList_ne_nil, Option.some_or,
        ← List.head?_eq_some_head hs.toList_ne_nil]
      exact hs.head?_ne

theorem not_endsInSlash_ofNames (h : ∀ n ∈ names, IsName n) :
    (ofNames names).endsInSlash = false := by
  rw [Bool.eq_false_iff, Ne, endsInSlash_iff]
  induction names with
  | nil => decide
  | cons name names ih =>
    rw [List.forall_mem_cons] at h
    cases names with
    | nil => simpa [ofNames_singleton] using h.1.getLast?_ne
    | cons next names =>
      have hn := toList_ofNames_ne_nil (List.cons_ne_nil _ _) h.2
      rw [toList_ofNames_cons (List.cons_ne_nil _ _), List.getLast?_append,
        List.getLast?_cons_of_ne_nil hn, List.getLast?_eq_some_getLast hn, Option.some_or,
        ← List.getLast?_eq_some_getLast hn]
      exact ih h.2

end

section

variable {p q : Path}

theorem toList_join (hq : q.isAbsolute = false) :
    (p.join q).text.toList =
      p.text.toList ++ (if p.text = "" ∨ p.endsInSlash then [] else ['/']) ++ q.text.toList := by
  have he : (p.text.isEmpty || p.text.endsWith "/") = true ↔
      p.text = "" ∨ p.endsInSlash = true := by
    rw [Bool.or_eq_true, String.isEmpty_iff]
    rfl
  rw [join, if_neg (Bool.eq_false_iff.1 hq)]
  simp only [he]
  split
  · simp
  · simp

theorem endsInSlash_join (hq : q.isAbsolute = false) (hn : q.text.toList ≠ []) :
    (p.join q).endsInSlash = q.endsInSlash := by
  rw [Bool.eq_iff_iff, endsInSlash_iff, endsInSlash_iff, toList_join hq, List.getLast?_append,
    List.getLast?_eq_some_getLast hn, Option.some_or]

theorem isAbsolute_join (hq : q.isAbsolute = false) : (p.join q).isAbsolute = p.isAbsolute := by
  rw [Bool.eq_iff_iff, isAbsolute_iff, isAbsolute_iff, toList_join hq]
  cases hp : p.text.toList with
  | nil =>
    rw [Bool.eq_false_iff, Ne, isAbsolute_iff] at hq
    have he : p.text = "" := String.toList_inj.1 hp
    simp [he, hq]
  | cons c text => simp

def stepsIn (text : List Char) : List Part :=
  (Text.splitAt (· == '/') text).filterMap fun piece =>
    if String.ofList piece = "" then none
    else if String.ofList piece = "." then some .current
    else Part.ofText? (String.ofList piece)

theorem steps_eq_stepsIn (p : Path) : p.steps = stepsIn p.text.toList := by
  rw [steps, pieces, List.filterMap_map]
  rfl

theorem stepsIn_append_slash (left right : List Char) :
    stepsIn (left ++ '/' :: right) = stepsIn left ++ stepsIn right := by
  rw [stepsIn, Text.splitAt_append_cons left rfl, List.filterMap_append]
  rfl

theorem steps_join (hq : q.isAbsolute = false) : (p.join q).steps = p.steps ++ q.steps := by
  simp only [steps_eq_stepsIn, toList_join hq]
  by_cases he : p.text = ""
  · simp [he]
    rfl
  · by_cases hs : p.endsInSlash = true
    · obtain ⟨text, ht⟩ := List.getLast?_eq_some_iff.1 (endsInSlash_iff.1 hs)
      rw [if_pos (.inr hs), ht, List.append_nil, List.append_assoc, List.singleton_append,
        stepsIn_append_slash, stepsIn_append_slash]
      simp [show stepsIn [] = [] from by decide]
    · rw [if_neg (not_or.2 ⟨he, hs⟩), List.append_assoc, List.singleton_append,
        stepsIn_append_slash]

end

theorem toList_ofNames_append {before after : List String} (hb : before ≠ []) (ha : after ≠ []) :
    (ofNames (before ++ after)).text.toList =
      (ofNames before).text.toList ++ '/' :: (ofNames after).text.toList := by
  induction before with
  | nil => exact absurd rfl hb
  | cons name before ih =>
    cases before with
    | nil => rw [List.singleton_append, toList_ofNames_cons ha, ofNames_singleton]
    | cons next before =>
      rw [List.cons_append, toList_ofNames_cons (by simp), ih (List.cons_ne_nil _ _),
        toList_ofNames_cons (List.cons_ne_nil _ _), List.append_assoc, List.cons_append]

theorem join_ofNames_append {before after : List String} (hb : before ≠ []) (ha : after ≠ [])
    (h : ∀ n ∈ before ++ after, IsName n) (p : Path) :
    p.join (ofNames (before ++ after)) = (p.join (ofNames before)).join (ofNames after) := by
  have hb' := List.forall_mem_append.1 h
  have hn := toList_ofNames_ne_nil hb hb'.1
  have he : (p.join (ofNames before)).text ≠ "" := by
    rw [Ne, ← String.toList_inj, toList_join (not_isAbsolute_ofNames hb'.1)]
    simp [hn]
  have hs : ¬ (p.join (ofNames before)).endsInSlash = true := by
    rw [endsInSlash_join (not_isAbsolute_ofNames hb'.1) hn, not_endsInSlash_ofNames hb'.1]
    decide
  have ht : (p.join (ofNames (before ++ after))).text =
      ((p.join (ofNames before)).join (ofNames after)).text := by
    rw [← String.toList_inj, toList_join (not_isAbsolute_ofNames h),
      toList_join (not_isAbsolute_ofNames hb'.2), if_neg (not_or.2 ⟨he, hs⟩),
      toList_join (not_isAbsolute_ofNames hb'.1), toList_ofNames_append hb ha]
    simp
  exact congrArg Path.mk ht

theorem empty_join (p : Path) : join ⟨""⟩ p = p := by
  rw [join]
  split
  · rfl
  · simp

/-- A path of names only, and of one at least. -/
def Plain (p : Path) : Prop := ∃ names, names ≠ [] ∧ (∀ n ∈ names, IsName n) ∧ p = ofNames names

namespace Plain

variable {p q : Path}

theorem of_isName {s : String} (h : IsName s) : Plain ⟨s⟩ :=
  ⟨[s], by simp, by simpa using h, (ofNames_singleton s).symm⟩

theorem join_assoc (hp : p.Plain) (hq : q.Plain) (base : Path) :
    (base.join p).join q = base.join (p.join q) := by
  obtain ⟨before, hb, hn, rfl⟩ := hp
  obtain ⟨after, ha, hn', rfl⟩ := hq
  have h := join_ofNames_append hb ha (List.forall_mem_append.2 ⟨hn, hn'⟩)
  rw [← h, ← empty_join (ofNames before), ← h, empty_join]

theorem join (hp : p.Plain) (hq : q.Plain) : (p.join q).Plain := by
  obtain ⟨before, hb, hn, rfl⟩ := hp
  obtain ⟨after, ha, hn', rfl⟩ := hq
  have h := List.forall_mem_append.2 ⟨hn, hn'⟩
  refine ⟨before ++ after, by simp [hb], h, ?_⟩
  rw [← empty_join (ofNames before), ← join_ofNames_append hb ha h, empty_join]

theorem isAbsolute (h : p.Plain) : p.isAbsolute = false := by
  obtain ⟨names, -, hn, rfl⟩ := h
  exact not_isAbsolute_ofNames hn

theorem exists_of_mem_parts (h : p.Plain) : ∀ part ∈ p.parts, ∃ s, part = .name s := by
  obtain ⟨names, -, hn, rfl⟩ := h
  rw [parts_ofNames hn]
  intro part hp
  obtain ⟨s, -, rfl⟩ := List.mem_map.1 hp
  exact ⟨s, rfl⟩

end Plain

end WireProtocol.Files.Path
