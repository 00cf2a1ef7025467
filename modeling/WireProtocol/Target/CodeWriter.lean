
namespace WireProtocol.Target

structure CodeWriter where
  text : String
  depth : Nat
  unit : String
  deriving DecidableEq, Repr

namespace CodeWriter

def new (unit : String) : CodeWriter := ⟨"", 0, unit⟩

def line (w : CodeWriter) (text : String) : CodeWriter :=
  let written :=
    if text.isEmpty then w.text else Nat.repeat (· ++ w.unit) w.depth w.text ++ text
  { w with text := written.push '\n' }

def lines (w : CodeWriter) (texts : List String) : CodeWriter := texts.foldl line w

def blank (w : CodeWriter) : CodeWriter := { w with text := w.text.push '\n' }

def indent (w : CodeWriter) : CodeWriter := { w with depth := w.depth + 1 }

def dedent (w : CodeWriter) : CodeWriter := { w with depth := w.depth - 1 }

/-- A body one level deeper, between two lines. The last line is as deep as the body leaves it. -/
def block (w : CodeWriter) (opening closing : String) (body : CodeWriter → CodeWriter) :
    CodeWriter :=
  (body (w.line opening).indent).dedent.line closing

def finish (w : CodeWriter) : String := w.text

end CodeWriter

end WireProtocol.Target
