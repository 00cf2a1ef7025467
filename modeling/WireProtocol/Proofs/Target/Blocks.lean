import WireProtocol.Proofs.Target.Listing

namespace WireProtocol.Target

def layout (text : String) : List (Nat × String) := (readLines text).filter (·.2 ≠ "\x7b")

section

variable {α : Type} (p : String → Option α)

/-- What is found on lines, with the deeper lines behind each. Those are not looked through. -/
def blocks : List (Nat × String) → List (α × List (Nat × String))
  | [] => []
  | (depth, text) :: rest =>
    match p text with
    | some a => (a, rest.takeWhile (depth < ·.1)) :: blocks (rest.dropWhile (depth < ·.1))
    | none => blocks rest
termination_by ls => ls.length
decreasing_by
  · have h := (List.dropWhile_suffix (l := rest) fun l => decide (depth < l.1)).length_le
    rw [List.length_cons]
    omega
  · simp

variable {p}

@[simp] theorem blocks_nil : blocks p [] = [] := by rw [blocks]

theorem blocks_cons_some {depth : Nat} {text : String} {a : α} (h : p text = some a)
    (rest : List (Nat × String)) : blocks p ((depth, text) :: rest) =
      (a, rest.takeWhile (depth < ·.1)) :: blocks p (rest.dropWhile (depth < ·.1)) := by
  rw [blocks, h]

theorem blocks_cons_none {depth : Nat} {text : String} (h : p text = none)
    (rest : List (Nat × String)) : blocks p ((depth, text) :: rest) = blocks p rest := by
  rw [blocks, h]

end

structure Stands (t : String) : Prop where
  flush : Flush t
  nonempty : t ≠ ""
  closed : t ≠ "\x7b"

instance (t : String) : Decidable (Stands t) :=
  decidable_of_iff (Flush t ∧ t ≠ "" ∧ t ≠ "\x7b")
    ⟨fun h => ⟨h.1, h.2.1, h.2.2⟩, fun h => ⟨h.flush, h.nonempty, h.closed⟩⟩

theorem Stands.append {t rest : String} (h : Stands t) (hr : '\n' ∉ rest.toList) :
    Stands (t ++ rest) where
  flush := h.flush.append h.nonempty hr
  nonempty he := h.nonempty (String.append_eq_empty_iff.1 he).1
  closed he := by
    have hl : t.toList ++ rest.toList = ['\x7b'] := by rw [← String.toList_append, he]; rfl
    rcases List.append_eq_singleton_iff.1 hl with ⟨ht, -⟩ | ⟨ht, -⟩
    · exact h.nonempty (String.toList_eq_nil_iff.1 ht)
    · exact h.closed (String.toList_inj.1 ht)

theorem takeWhile_append_of_head? {α : Type} {q : α → Bool} {b : List α}
    (h : ∀ x ∈ b.head?, q x = false) (a : List α) :
    (a ++ b).takeWhile q = a.takeWhile q ∧ (a ++ b).dropWhile q = a.dropWhile q ++ b := by
  induction a with
  | nil =>
    cases b with
    | nil => exact ⟨rfl, rfl⟩
    | cons x b => simp [h x rfl]
  | cons x a ih => cases hx : q x <;> simp [hx, ih]

theorem blocks_append {α : Type} {p : String → Option α} {depth : Nat} {a b : List (Nat × String)}
    (ha : ∀ l ∈ a, depth ≤ l.1) (hb : ∀ l ∈ b.head?, l.1 ≤ depth) :
    blocks p (a ++ b) = blocks p a ++ blocks p b := by
  fun_induction blocks p a with
  | case1 => rfl
  | case2 d text rest a hp ih =>
    rw [List.forall_mem_cons] at ha
    obtain ⟨ht, hd⟩ := takeWhile_append_of_head? (q := fun l => decide (d < l.1))
      (fun l hl => decide_eq_false (Nat.not_lt.2 (Nat.le_trans (hb l hl) ha.1))) rest
    have hrest : ∀ l ∈ rest.dropWhile (d < ·.1), depth ≤ l.1 := fun l hl =>
      ha.2 l (List.dropWhile_subset _ hl)
    rw [List.cons_append, blocks_cons_some hp, ht, hd, ih hrest, List.cons_append]
  | case3 d text rest hp ih =>
    rw [List.forall_mem_cons] at ha
    rw [List.cons_append, blocks_cons_none hp, ih ha.2]

namespace Code

def laid (depth : Nat) (code : Code) : List (Nat × String) :=
  ((code.linesFrom depth).filter fun l => !l.2.isEmpty && l.2 ≠ "\x7b").map fun l => (4 * l.1, l.2)

theorem layout_render {code : Code} (h : ∀ t ∈ code.texts, Flush t) :
    layout (code.render indentUnit) = code.laid 0 := by
  rw [layout, readLines_render h, List.filter_map, List.filter_filter, laid]
  congr 2
  funext l
  exact Bool.and_comm _ _

theorem laid_append (depth : Nat) (a b : Code) :
    (a ++ b).laid depth = a.laid depth ++ b.laid (a.depthAfter depth) := by
  rw [laid, linesFrom_append, List.filter_append, List.map_append]
  rfl

structure Level (code : Code) : Prop where
  flush : ∀ t ∈ code.texts, Flush t
  back : ∀ depth, code.depthAfter depth = depth
  deep : ∀ depth, ∀ l ∈ code.laid depth, 4 * depth ≤ l.1
  start : ∀ depth, ∀ l ∈ (code.laid depth).head?, l.1 = 4 * depth

structure Encloses (code : Code) (opening closing : String) (body : Code) : Prop where
  level : Level code
  inner : Level body
  laid : ∀ depth, code.laid depth =
    (4 * depth, opening) :: (body.laid (depth + 1) ++ [(4 * depth, closing)])

namespace Level

variable {a b : Code} {t : String}

theorem laid_append (h : Level a) (b : Code) (depth : Nat) :
    (a ++ b).laid depth = a.laid depth ++ b.laid depth := by rw [Code.laid_append, h.back]

theorem nil : Level nil where
  flush := List.forall_mem_nil _
  back _ := rfl
  deep _ := List.forall_mem_nil _
  start _ := nofun

theorem one (ht : Flush t) : Level (one t) where
  flush := List.forall_mem_singleton.2 ht
  back _ := rfl
  deep depth l hl := by
    obtain ⟨l, hm, rfl⟩ := List.mem_map.1 hl
    obtain rfl := List.mem_singleton.1 (List.mem_of_mem_filter hm)
    exact Nat.le_refl _
  start depth l hl := by
    obtain ⟨l, hm, rfl⟩ := List.mem_map.1 (List.mem_of_mem_head? hl)
    rw [List.mem_singleton.1 (List.mem_of_mem_filter hm)]

theorem blank : Level blank where
  flush := List.forall_mem_singleton.2 (by decide)
  back _ := rfl
  deep _ := List.forall_mem_nil _
  start _ := nofun

theorem congr (ha : Level a) (hl : ∀ depth, a.linesFrom depth = b.linesFrom depth)
    (hd : ∀ depth, a.depthAfter depth = b.depthAfter depth) : Level b where
  flush := by
    rw [← map_linesFrom 0, ← hl, map_linesFrom]
    exact ha.flush
  back depth := (hd depth).symm.trans (ha.back depth)
  deep depth := by
    rw [laid, ← hl]
    exact ha.deep depth
  start depth := by
    rw [laid, ← hl]
    exact ha.start depth

theorem append (ha : Level a) (hb : Level b) : Level (a ++ b) where
  flush := by
    rw [texts_append]
    exact List.forall_mem_append.2 ⟨ha.flush, hb.flush⟩
  back depth := by rw [depthAfter_append, ha.back, hb.back]
  deep depth := by
    rw [ha.laid_append]
    exact List.forall_mem_append.2 ⟨ha.deep depth, hb.deep depth⟩
  start depth l hl := by
    rw [ha.laid_append, List.head?_append] at hl
    rcases Option.or_eq_some_iff.1 hl with hl | ⟨-, hl⟩
    · exact ha.start depth l hl
    · exact hb.start depth l hl

end Level

theorem laid_one {t : String} (h : Stands t) (depth : Nat) :
    (one t).laid depth = [(4 * depth, t)] := by
  simp [laid, one, linesFrom, h.nonempty, h.closed]

namespace Encloses

variable {opening closing head : String} {code body : Code}

theorem of_laid (hf : ∀ t ∈ code.texts, Flush t) (hb : ∀ depth, code.depthAfter depth = depth)
    (hi : Level body) (hl : ∀ depth, code.laid depth =
      (4 * depth, opening) :: (body.laid (depth + 1) ++ [(4 * depth, closing)])) :
    Encloses code opening closing body where
  level := by
    refine ⟨hf, hb, fun depth => ?_, fun depth => ?_⟩
    · rw [hl, List.forall_mem_cons, List.forall_mem_append, List.forall_mem_singleton]
      refine ⟨Nat.le_refl _, fun l hm => ?_, Nat.le_refl _⟩
      have := hi.deep (depth + 1) l hm
      omega
    · rw [hl]
      rintro _ ⟨⟩
      rfl
  inner := hi
  laid := hl

theorem within (ho : Stands opening) (hc : Stands closing) (h : Level body) :
    Encloses (within opening closing body) opening closing body := by
  refine of_laid ?_ (fun depth => ?_) h fun depth => ?_
  · rw [texts_within, List.forall_mem_append, List.forall_mem_cons]
    exact ⟨⟨ho.flush, h.flush⟩, List.forall_mem_singleton.2 hc.flush⟩
  · simp [Code.within, depthAfter, h.back]
  · simp [Code.within, Code.laid, linesFrom, h.back, ho.nonempty, ho.closed, hc.nonempty,
      hc.closed]

theorem braced (hh : Stands head) (h : Level body) :
    Encloses (braced head body) (head ++ " \x7b") "\x7d" body :=
  within (hh.append (by decide)) (by decide) h

theorem brace (hh : Stands head) (h : Level body) :
    Encloses (one head ++ Code.within "\x7b" "\x7d" body) head "\x7d" body := by
  refine of_laid ?_ (fun depth => ?_) h fun depth => ?_
  · rw [texts_append, texts_one, texts_within]
    simp only [List.forall_mem_append, List.forall_mem_cons]
    exact ⟨⟨hh.flush, List.forall_mem_nil _⟩, ⟨by decide, h.flush⟩, by decide,
      List.forall_mem_nil _⟩
  · rw [depthAfter_append]
    simp [Code.within, Code.one, depthAfter, h.back]
  · rw [(Level.one hh.flush).laid_append, laid_one hh]
    simp [Code.within, Code.laid, linesFrom, h.back]

end Encloses

structure Prints (code : Code) (ts : List String) : Prop where
  level : Level code
  texts : ∀ depth, (code.laid depth).map (·.2) = ts

namespace Prints

variable {a b code body : Code} {ts ts' : List String} {t opening closing : String}

theorem one (h : Stands t) : Prints (one t) [t] where
  level := .one h.flush
  texts depth := by rw [laid_one h]; rfl

theorem append (ha : Prints a ts) (hb : Prints b ts') : Prints (a ++ b) (ts ++ ts') where
  level := ha.level.append hb.level
  texts depth := by rw [ha.level.laid_append, List.map_append, ha.texts, hb.texts]

theorem enclosed (h : Encloses code opening closing body) (hb : Prints body ts) :
    Prints code (opening :: (ts ++ [closing])) where
  level := h.level
  texts depth := by
    rw [h.laid, List.map_cons, List.map_append, hb.texts]
    rfl

end Prints

end Code

structure Finds {α : Type} (p : String → Option α) (depth : Nat) (code : Code)
    (found : List (α × List (Nat × String))) : Prop where
  level : code.Level
  found : blocks p (code.laid depth) = found

namespace Finds

variable {α β : Type} {p : String → Option α} {depth : Nat} {a b code body : Code}
  {t opening closing : String} {x : α} {xs ys : List (α × List (Nat × String))}

theorem read (h : Finds p 0 a xs) : blocks p (layout (a.render indentUnit)) = xs := by
  rw [Code.layout_render h.level.flush, h.found]

theorem of_eq (h : Finds p depth a xs) (he : xs = ys) : Finds p depth a ys := he ▸ h

theorem append (ha : Finds p depth a xs) (hb : Finds p depth b ys) :
    Finds p depth (a ++ b) (xs ++ ys) where
  level := ha.level.append hb.level
  found := by
    have hstart : ∀ l ∈ (b.laid depth).head?, l.1 ≤ 4 * depth := fun l hl =>
      Nat.le_of_eq (hb.level.start depth l hl)
    rw [ha.level.laid_append, blocks_append (ha.level.deep depth) hstart, ha.found, hb.found]

theorem nil : Finds p depth .nil [] := ⟨.nil, blocks_nil⟩

theorem blank : Finds p depth .blank [] := ⟨.blank, blocks_nil⟩

theorem line (h : Stands t) (hp : p t = some x) : Finds p depth (.one t) [(x, [])] where
  level := .one h.flush
  found := by
    rw [Code.laid_one h, blocks_cons_some hp, List.takeWhile_nil, List.dropWhile_nil, blocks]

theorem idle (h : Stands t) (hp : p t = none) : Finds p depth (.one t) [] where
  level := .one h.flush
  found := by rw [Code.laid_one h, blocks_cons_none hp, blocks]

theorem enclosed (h : code.Encloses opening closing body) (ho : p opening = some x)
    (hc : p closing = none) : Finds p depth code [(x, body.laid (depth + 1))] where
  level := h.level
  found := by
    have hin : ∀ l ∈ body.laid (depth + 1), decide (4 * depth < l.1) = true := fun l hl =>
      decide_eq_true (Nat.lt_of_lt_of_le (by omega) (h.inner.deep _ l hl))
    rw [h.laid, blocks_cons_some ho, List.takeWhile_append_of_pos hin,
      List.dropWhile_append_of_pos hin]
    simp [blocks, hc]

theorem inside (h : code.Encloses opening closing body) (ho : p opening = none)
    (hc : p closing = none) (hb : Finds p (depth + 1) body xs) : Finds p depth code xs where
  level := h.level
  found := by
    have hend : ∀ l ∈ [(4 * depth, closing)].head?, l.1 ≤ 4 * (depth + 1) := by
      rintro _ ⟨⟩
      exact Nat.mul_le_mul_left 4 (Nat.le_succ depth)
    rw [h.laid, blocks_cons_none ho, blocks_append (hb.level.deep _) hend, hb.found,
      blocks_cons_none hc, blocks, List.append_nil]

theorem concat {as : List β} {piece : β → Code} {found : β → List (α × List (Nat × String))}
    (h : ∀ a ∈ as, Finds p depth (piece a) (found a)) :
    Finds p depth (.concat (as.map piece)) (as.flatMap found) := by
  induction as with
  | nil => exact nil
  | cons a as ih =>
    rw [List.forall_mem_cons] at h
    exact h.1.append (ih h.2)

theorem concat_idle {as : List β} {piece : β → Code} (h : ∀ a ∈ as, Finds p depth (piece a) []) :
    Finds p depth (.concat (as.map piece)) [] :=
  (concat h).of_eq (List.flatMap_eq_nil_iff.2 fun _ _ => rfl)

theorem lines {ts : List String} (h : ∀ t ∈ ts, Finds p depth (.one t) []) :
    Finds p depth (.lines ts) [] where
  level := (concat_idle h).level.congr (Code.linesFrom_each_one ts) (Code.depthAfter_each_one ts)
  found := by
    rw [Code.laid, ← Code.linesFrom_each_one]
    exact (concat_idle h).found

theorem onlyIf (condition : Bool) (h : Finds p depth a []) :
    Finds p depth (.onlyIf condition a) [] := by
  cases condition
  · exact nil
  · exact h

theorem numbered {as : List β} {piece : Nat → β → Code}
    {found : Nat → β → α × List (Nat × String)}
    (h : ∀ a ∈ as, ∀ i, Finds p depth (piece i a) [found i a]) :
    Finds p depth (.numbered as piece) (as.zipIdx.map fun a => found a.2 a.1) := by
  rw [List.map_eq_flatMap]
  exact concat fun _ ha => h _ (List.fst_mem_of_mem_zipIdx ha) _

end Finds

end WireProtocol.Target
