import Mathlib.Algebra.Ring.Int.Defs
import Mathlib.Data.List.Infix
import WireProtocol.Target.Code

/-! How deep the lines of code are. A writer only knows what is written so far and how deep it is;
what it has written in the end is said here by the tree of its steps (`Code.write_eq`). A block ends
as deep as it begins if its body is balanced (`Code.Balanced.block_eq`). -/

namespace WireProtocol.Target

namespace Code

def depthAfter (depth : Nat) : Code → Nat
  | nil => depth
  | line _ rest | several _ rest | gap rest => depthAfter depth rest
  | indent rest => depthAfter (depth + 1) rest
  | dedent rest => depthAfter (depth - 1) rest
  | block _ _ body rest => depthAfter (depthAfter (depth + 1) body - 1) rest

def linesFrom (depth : Nat) : Code → List (Nat × String)
  | nil => []
  | line text rest => (depth, text) :: linesFrom depth rest
  | several texts rest => texts.map (depth, ·) ++ linesFrom depth rest
  | gap rest => (depth, "") :: linesFrom depth rest
  | indent rest => linesFrom (depth + 1) rest
  | dedent rest => linesFrom (depth - 1) rest
  | block opening closing body rest =>
    let after := depthAfter (depth + 1) body - 1
    (depth, opening) :: linesFrom (depth + 1) body ++ (after, closing) :: linesFrom after rest

def lineText (unit : String) : Nat × String → String
  | (depth, text) =>
    if text.isEmpty then "\n" else String.join (List.replicate depth unit) ++ text ++ "\n"

theorem linesFrom_append (depth : Nat) (a b : Code) :
    (a ++ b).linesFrom depth = a.linesFrom depth ++ b.linesFrom (a.depthAfter depth) := by
  change (append a b).linesFrom depth = _
  induction a generalizing depth with
  | nil => rfl
  | line text rest ih => simp [append, linesFrom, depthAfter, ih]
  | several ts rest ih => simp [append, linesFrom, depthAfter, ih]
  | gap rest ih => simp [append, linesFrom, depthAfter, ih]
  | indent rest ih => simp [append, linesFrom, depthAfter, ih]
  | dedent rest ih => simp [append, linesFrom, depthAfter, ih]
  | block opening closing body rest _ ih => simp [append, linesFrom, depthAfter, ih]

theorem depthAfter_append (depth : Nat) (a b : Code) :
    (a ++ b).depthAfter depth = b.depthAfter (a.depthAfter depth) := by
  change (append a b).depthAfter depth = _
  induction a generalizing depth with
  | nil => rfl
  | line text rest ih => simp [append, depthAfter, ih]
  | several ts rest ih => simp [append, depthAfter, ih]
  | gap rest ih => simp [append, depthAfter, ih]
  | indent rest ih => simp [append, depthAfter, ih]
  | dedent rest ih => simp [append, depthAfter, ih]
  | block opening closing body rest _ ih => simp [append, depthAfter, ih]

theorem linesFrom_each_one (ts : List String) (depth : Nat) :
    (each ts one).linesFrom depth = (lines ts).linesFrom depth := by
  induction ts with
  | nil => rfl
  | cons t ts ih =>
    calc (each (t :: ts) one).linesFrom depth
        = (one t).linesFrom depth ++ (each ts one).linesFrom depth := linesFrom_append depth _ _
      _ = (lines (t :: ts)).linesFrom depth := by rw [ih]; rfl

theorem depthAfter_each_one (ts : List String) (depth : Nat) :
    (each ts one).depthAfter depth = (lines ts).depthAfter depth := by
  induction ts with
  | nil => rfl
  | cons t ts ih => exact ih

end Code

namespace CodeWriter

open Code (lineText)

def written (w : CodeWriter) (depth : Nat) (ls : List (Nat × String)) : CodeWriter where
  text := w.text ++ String.join (ls.map (lineText w.unit))
  depth := depth
  unit := w.unit

variable (w : CodeWriter)

@[simp] theorem depth_written (depth : Nat) (ls : List (Nat × String)) :
    (w.written depth ls).depth = depth := rfl

@[simp] theorem written_written (depth depth' : Nat) (ls ls' : List (Nat × String)) :
    (w.written depth ls).written depth' ls' = w.written depth' (ls ++ ls') := by
  simp [written, String.append_assoc]

theorem repeat_append (unit : String) (depth : Nat) (text : String) :
    Nat.repeat (· ++ unit) depth text = text ++ String.join (List.replicate depth unit) := by
  induction depth with
  | zero => simp [Nat.repeat]
  | succ depth ih =>
    rw [Nat.repeat, ih, List.replicate_succ', String.join_append, String.append_assoc]
    simp

theorem line_eq (text : String) : w.line text = w.written w.depth [(w.depth, text)] := by
  rw [line, written, List.map_singleton, lineText]
  split <;> simp [repeat_append, String.append_assoc, ← String.append_singleton]

theorem blank_eq : w.blank = w.written w.depth [(w.depth, "")] := by
  simp [blank, written, lineText, ← String.append_singleton]

theorem indent_eq : w.indent = w.written (w.depth + 1) [] := by simp [indent, written]

theorem dedent_eq : w.dedent = w.written (w.depth - 1) [] := by simp [dedent, written]

theorem lines_eq (texts : List String) :
    w.lines texts = w.written w.depth (texts.map (w.depth, ·)) := by
  induction texts generalizing w with
  | nil => simp [lines, written]
  | cons text texts ih =>
    rw [lines, List.foldl_cons, ← lines, ih, line_eq]
    simp

theorem block_eq (opening closing : String) {body : CodeWriter → CodeWriter} {after : Nat}
    {inner : List (Nat × String)}
    (h : ∀ w' : CodeWriter, w'.depth = w.depth + 1 → body w' = w'.written after inner) :
    w.block opening closing body =
      w.written (after - 1) ((w.depth, opening) :: inner ++ [(after - 1, closing)]) := by
  rw [block, line_eq, indent_eq, h _ rfl, dedent_eq, line_eq]
  simp

end CodeWriter

namespace Code

theorem write_eq (code : Code) (w : CodeWriter) :
    code.write w = w.written (code.depthAfter w.depth) (code.linesFrom w.depth) := by
  -- the writer is any one, since the body of a block goes on with what stands before it
  induction code generalizing w with
  | nil => simp [write, linesFrom, depthAfter, CodeWriter.written]
  | line text rest ih =>
    rw [write, ih, w.line_eq]
    simp [linesFrom, depthAfter]
  | several texts rest ih =>
    rw [write, ih, w.lines_eq]
    simp [linesFrom, depthAfter]
  | gap rest ih =>
    rw [write, ih, w.blank_eq]
    simp [linesFrom, depthAfter]
  | indent rest ih =>
    rw [write, ih, w.indent_eq]
    simp [linesFrom, depthAfter]
  | dedent rest ih =>
    rw [write, ih, w.dedent_eq]
    simp [linesFrom, depthAfter]
  | block opening closing body rest ihbody ihrest =>
    rw [write, ihrest, w.block_eq opening closing fun w' hw => hw ▸ ihbody w']
    simp [linesFrom, depthAfter]

theorem render_eq_join (unit : String) (code : Code) :
    code.render unit = String.join ((code.linesFrom 0).map (lineText unit)) := by
  rw [render, write_eq]
  exact String.empty_append

def moves : Code → List Int
  | nil => []
  | line _ rest | several _ rest | gap rest => moves rest
  | indent rest => 1 :: moves rest
  | dedent rest => -1 :: moves rest
  | block _ _ body rest => 1 :: moves body ++ -1 :: moves rest

/-- The code has as many steps in as out, and is never more than one level above its start: a body
is never less deep than its block. -/
structure Balanced (code : Code) : Prop where
  above : ∀ p ∈ code.moves.inits, -1 ≤ p.sum
  even : code.moves.sum = 0

instance (code : Code) : Decidable code.Balanced :=
  decidable_of_iff ((∀ p ∈ code.moves.inits, -1 ≤ p.sum) ∧ code.moves.sum = 0)
    ⟨fun h => ⟨h.1, h.2⟩, fun h => ⟨h.above, h.even⟩⟩

def shift (depth : Nat) (move : Int) : Nat := (depth + move).toNat

theorem depthAfter_eq_foldl (code : Code) (depth : Nat) :
    code.depthAfter depth = code.moves.foldl shift depth := by
  have hout : ∀ depth, shift depth (-1) = depth - 1 := fun depth => by
    rw [shift]
    omega
  induction code generalizing depth with
  | nil => rfl
  | line _ rest ih | several _ rest ih | gap rest ih => exact ih depth
  | indent rest ih => exact ih (depth + 1)
  | dedent rest ih => rw [depthAfter, ih, moves, List.foldl_cons, hout]
  | block opening closing body rest ihbody ihrest =>
    rw [depthAfter, ihrest, ihbody, moves, List.cons_append, List.foldl_cons, List.foldl_append,
      List.foldl_cons, hout]
    rfl

theorem foldl_shift {ms : List Int} {depth : Nat}
    (h : ∀ p ∈ ms.inits, 0 ≤ (depth : Int) + p.sum) :
    ((ms.foldl shift depth : Nat) : Int) = depth + ms.sum := by
  induction ms generalizing depth with
  | nil => simp
  | cons m ms ih =>
    have hm : (shift depth m : Int) = depth + m :=
      Int.toNat_of_nonneg (by simpa using h [m] (by simp [List.mem_inits]))
    have hms : ∀ p ∈ ms.inits, 0 ≤ (shift depth m : Int) + p.sum := fun p hp => by
      have := h (m :: p) (by simpa [List.mem_inits] using hp)
      rw [List.sum_cons] at this
      omega
    rw [List.foldl_cons, ih hms, hm, List.sum_cons, Int.add_assoc]

theorem Balanced.depthAfter_eq {body : Code} (h : body.Balanced) (depth : Nat) :
    body.depthAfter (depth + 1) = depth + 1 := by
  have hp : ∀ p ∈ body.moves.inits, 0 ≤ ((depth + 1 : Nat) : Int) + p.sum := fun p hp => by
    have := h.above p hp
    omega
  have hs := foldl_shift hp
  rw [← depthAfter_eq_foldl, h.even] at hs
  omega

theorem Balanced.block_eq {body : Code} (h : body.Balanced) (w : CodeWriter)
    (opening closing : String) : w.block opening closing body.write = w.written w.depth
      ((w.depth, opening) :: body.linesFrom (w.depth + 1) ++ [(w.depth, closing)]) := by
  have hb : ∀ w' : CodeWriter, w'.depth = w.depth + 1 →
      body.write w' = w'.written (w.depth + 1) (body.linesFrom (w.depth + 1)) := fun w' hw => by
    rw [write_eq, hw, h.depthAfter_eq]
  exact w.block_eq opening closing hb

example : ¬ (dedent (dedent (indent (indent nil)))).Balanced ∧
    (block "\x7b" "\x7d" (dedent (dedent (indent (indent nil)))) nil).linesFrom 0 =
      [(0, "\x7b"), (1, "\x7d")] := by
  decide

/-- Rendered code is its lines, each behind its depth. With a balanced body, the last line of a
block is as deep as the first, and so is what follows. -/
theorem render_indented (unit : String) :
    (∀ code : Code, code.render unit = String.join ((code.linesFrom 0).map (lineText unit))) ∧
    ∀ (w : CodeWriter) (opening closing : String) (body : Code), body.Balanced →
      w.block opening closing body.write = w.written w.depth
        ((w.depth, opening) :: body.linesFrom (w.depth + 1) ++ [(w.depth, closing)]) :=
  ⟨render_eq_join unit, fun w opening closing _ h => h.block_eq w opening closing⟩

def swungBody : Code :=
  line "let x = 1;" (gap (dedent (several ["", "else"] (indent
    (block "if x \x7b" "\x7d" (line "g();" nil) nil)))))

theorem render_indented_swung :
    swungBody.Balanced ∧
    (block "fn f() \x7b" "\x7d" swungBody nil).render "  " =
      "fn f() \x7b\n  let x = 1;\n\n\nelse\n  if x \x7b\n    g();\n  \x7d\n\x7d\n" ∧
    (CodeWriter.new "  ").indent.block "fn f() \x7b" "\x7d" swungBody.write =
      (CodeWriter.new "  ").written 1 [(1, "fn f() \x7b"), (2, "let x = 1;"), (2, ""), (1, ""),
        (1, "else"), (2, "if x \x7b"), (3, "g();"), (2, "\x7d"), (1, "\x7d")] := by
  have balanced : swungBody.Balanced := by decide
  refine ⟨balanced, ?_, ?_⟩
  · rw [(render_indented "  ").1]
    decide +kernel
  · rw [(render_indented "  ").2 _ _ _ _ balanced]
    rfl

end Code

end WireProtocol.Target
