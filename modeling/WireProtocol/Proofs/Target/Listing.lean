import WireProtocol.Proofs.Target.Lines

namespace WireProtocol.Target

open Schema (Definition)

def behind? (head line : String) : Option String :=
  (Text.stripStart? head.toList line.toList).map String.ofList

def behind (head text : String) : List String :=
  (readLines text).filterMap fun l => behind? head l.2

@[simp] theorem behind?_append (head rest : String) : behind? head (head ++ rest) = some rest := by
  simp [behind?]

theorem behind?_eq_none_iff {head t : String} :
    behind? head t = none ↔ ¬ head.toList <+: t.toList := by
  rw [behind?, Option.map_eq_none_iff]
  constructor
  · rintro h ⟨rest, hr⟩
    rw [← hr, Text.stripStart?_append] at h
    cases h
  · intro h
    rw [Option.eq_none_iff_forall_ne_some]
    exact fun rest hr => h ⟨rest, (Text.stripStart?_eq_some hr).symm⟩

def Diverges (head t : String) : Prop := ¬ head.toList <+: t.toList ∧ ¬ t.toList <+: head.toList

instance (head t : String) : Decidable (Diverges head t) := inferInstanceAs (Decidable (_ ∧ _))

theorem Diverges.append {head t : String} (h : Diverges head t) (rest : String) :
    Diverges (head ++ rest) t := by
  have hp : head.toList <+: (head ++ rest).toList := by
    rw [String.toList_append]
    exact List.prefix_append _ _
  exact ⟨fun ht => h.1 (hp.trans ht),
    fun ht => (List.prefix_or_prefix_of_prefix hp ht).elim h.1 h.2⟩

theorem Diverges.behind? {head t : String} (h : Diverges head t) (rest : String) :
    behind? head (t ++ rest) = none := by
  rw [behind?_eq_none_iff, String.toList_append]
  intro hp
  exact (List.prefix_or_prefix_of_prefix hp (List.prefix_append _ _)).elim h.1 h.2

theorem behind?_append_word {start name word b t : String} (hn : ' ' ∉ name.toList)
    (hw : ' ' ∉ word.toList) (h : ¬ b.toList <+: t.toList) :
    behind? (start ++ name ++ " " ++ b) (start ++ word ++ " " ++ t) = none := by
  have hspace : " ".toList = [' '] := rfl
  simp only [behind?_eq_none_iff, String.toList_append, List.append_assoc, hspace,
    List.prefix_append_right_inj, List.singleton_append]
  generalize name.toList = name at hn
  generalize word.toList = word at hw
  induction name generalizing word with
  | nil =>
    cases word with
    | nil => simpa using h
    | cons c word => simp_all [List.cons_prefix_cons]
  | cons c name ih =>
    cases word with
    | nil => simp_all [List.cons_prefix_cons, eq_comm]
    | cons c' word =>
      simp only [List.mem_cons, not_or] at hn hw
      simpa [List.cons_prefix_cons] using fun _ => ih hn.2 word hw.2

theorem behind?_append_right {head t : String}
    (h : head.toList <+: t.toList ∨ ¬ t.toList <+: head.toList) (rest : String) :
    behind? head (t ++ rest) = (behind? head t).map (· ++ rest) := by
  by_cases hp : head.toList <+: t.toList
  · obtain ⟨after, ha⟩ := hp
    obtain rfl : t = head ++ String.ofList after := by
      rw [← String.toList_inj, String.toList_append, String.toList_ofList, ha]
    rw [String.append_assoc, behind?_append, behind?_append, Option.map_some]
  · have hdiverges : Diverges head t := ⟨hp, h.resolve_left hp⟩
    rw [hdiverges.behind?, behind?_eq_none_iff.2 hp, Option.map_none]

structure Lists (head : String) (code : Code) (rests : List String) : Prop where
  flush : ∀ t ∈ code.texts, Flush t
  rests : (code.texts.filter (!·.isEmpty)).filterMap (behind? head) = rests

namespace Lists

variable {head t rest : String} {a b : Code} {rs rs' : List String}

theorem behind (h : Lists head a rs) : behind head (a.render indentUnit) = rs := by
  have hm := List.filterMap_map (f := fun l : Nat × String => l.2) (g := behind? head)
    (l := readLines (a.render indentUnit))
  rw [Code.map_readLines_render h.flush, h.rests] at hm
  exact hm.symm

theorem of_eq (h : Lists head a rs) (he : rs = rs') : Lists head a rs' := he ▸ h

theorem congr (h : Lists head a rs) (he : a.texts = b.texts) : Lists head b rs :=
  ⟨he ▸ h.flush, he ▸ h.rests⟩

theorem append (ha : Lists head a rs) (hb : Lists head b rs') :
    Lists head (a ++ b) (rs ++ rs') where
  flush := by
    rw [Code.texts_append]
    exact List.forall_mem_append.2 ⟨ha.flush, hb.flush⟩
  rests := by
    rw [Code.texts_append, List.filter_append, List.filterMap_append, ha.rests, hb.rests]

theorem nil : Lists head .nil [] := ⟨List.forall_mem_nil _, rfl⟩

theorem blank : Lists head .blank [] :=
  ⟨List.forall_mem_singleton.2 ⟨by decide, by decide⟩, rfl⟩

theorem entry (hh : Flush head) (hn : head ≠ "") (hr : '\n' ∉ rest.toList) :
    Lists head (.one (head ++ rest)) [rest] where
  flush := List.forall_mem_singleton.2 (hh.append hn hr)
  rests := by simp [hn]

theorem line (hp : Diverges head t) (ht : Flush t) (hr : '\n' ∉ rest.toList) :
    Lists head (.one (t ++ rest)) [] where
  flush := by
    refine List.forall_mem_singleton.2 (ht.append ?_ hr)
    rintro rfl
    exact hp.2 List.nil_prefix
  rests := by
    rw [Code.texts_one, List.filter_singleton]
    cases !(t ++ rest).isEmpty <;> simp [hp.behind?]

theorem whole (hp : Diverges head t) (ht : Flush t) : Lists head (.one t) [] := by
  simpa using @line head t "" hp ht (by decide)

theorem flatMap {α : Type} {as : List α} {piece : α → Code} {rests : α → List String}
    (h : ∀ a ∈ as, Lists head (piece a) (rests a)) :
    Lists head (.each as piece) (as.flatMap rests) := by
  induction as with
  | nil => exact nil
  | cons a as ih =>
    rw [List.forall_mem_cons] at h
    exact h.1.append (ih h.2)

theorem each {α : Type} {as : List α} {piece : α → Code} {rest : α → String}
    (h : ∀ a ∈ as, Lists head (piece a) [rest a]) : Lists head (.each as piece) (as.map rest) :=
  (flatMap h).of_eq (List.flatMap_pure_eq_map rest as)

theorem each_nil {α : Type} {as : List α} {piece : α → Code}
    (h : ∀ a ∈ as, Lists head (piece a) []) : Lists head (.each as piece) [] :=
  (flatMap h).of_eq (by simp)

theorem onlyIf (condition : Bool) (h : Lists head a rs) :
    Lists head (.onlyIf condition a) (if condition then rs else []) := by
  cases condition
  · exact nil
  · exact h

theorem onlyIf_nil (condition : Bool) (h : Lists head a []) :
    Lists head (.onlyIf condition a) [] := by
  cases condition
  · exact nil
  · exact h

theorem within {opening closing : String} (ho : Lists head (.one opening) [])
    (hc : Lists head (.one closing) []) (h : Lists head a rs) :
    Lists head (.within opening closing a) rs := by
  obtain ⟨hflush, hrests⟩ := (ho.append h).append hc
  simp only [Code.texts_append, Code.texts_one, List.nil_append, List.append_nil] at hflush hrests
  exact ⟨hflush, hrests⟩

end Lists

theorem Lists.banner {l : Language} {d : Definition} {o : Options} {last : Nat}
    (hw : d.WellFormed last) {comment head : String} (hc : Flush comment)
    (hp : Diverges head comment) :
    Lists head (.lines ((l.context d o).banner comment)) [] := by
  have each : Lists head (.each ((l.context d o).banner comment) .one) [] :=
    each_nil fun t ht => by
      obtain ⟨rest, rfl, hr⟩ := exists_of_mem_banner hw ht
      exact line hp hc hr
  exact each.congr (by simp)

end WireProtocol.Target
