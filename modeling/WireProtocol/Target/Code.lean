import WireProtocol.Target.CodeWriter

namespace WireProtocol.Target

inductive Code
  | nil
  | line (text : String) (rest : Code)
  | several (texts : List String) (rest : Code)
  | gap (rest : Code)
  | indent (rest : Code)
  | dedent (rest : Code)
  | block (opening closing : String) (body rest : Code)
  deriving DecidableEq, Repr

namespace Code

def append : Code → Code → Code
  | nil, b => b
  | line text rest, b => line text (append rest b)
  | several texts rest, b => several texts (append rest b)
  | gap rest, b => gap (append rest b)
  | indent rest, b => indent (append rest b)
  | dedent rest, b => dedent (append rest b)
  | block opening closing body rest, b => block opening closing body (append rest b)

instance : Append Code := ⟨append⟩

def concat : List Code → Code
  | [] => nil
  | a :: rest => a ++ concat rest

def write : Code → CodeWriter → CodeWriter
  | nil, w => w
  | line text rest, w => write rest (w.line text)
  | several texts rest, w => write rest (w.lines texts)
  | gap rest, w => write rest w.blank
  | indent rest, w => write rest w.indent
  | dedent rest, w => write rest w.dedent
  | block opening closing body rest, w => write rest (w.block opening closing (write body))

def render (unit : String) (code : Code) : String := (code.write (.new unit)).finish

def one (text : String) : Code := line text nil

def blank : Code := gap nil

def lines (texts : List String) : Code := several texts nil

def within (opening closing : String) (body : Code) : Code := block opening closing body nil

def braced (head : String) (body : Code) : Code := within (head ++ " \x7b") "\x7d" body

def each (as : List α) (piece : α → Code) : Code := concat (as.map piece)

def numbered (as : List α) (piece : Nat → α → Code) : Code :=
  concat (as.zipIdx.map fun (a, i) => piece i a)

def spaced (as : List α) (piece : α → Code) : Code :=
  numbered as fun i a => (if i = 0 then nil else blank) ++ piece a

def onlyIf (condition : Bool) (piece : Code) : Code := if condition then piece else nil

end Code

end WireProtocol.Target
