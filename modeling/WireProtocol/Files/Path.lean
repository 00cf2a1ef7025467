import WireProtocol.Text.Cut

namespace WireProtocol.Files

structure Path where
  text : String
  deriving DecidableEq, Repr, Inhabited

namespace Path

inductive Part
  | root
  | current
  | parent
  | name (s : String)
  deriving DecidableEq, Repr

def Part.key : Part → Nat × String
  | root => (0, "")
  | current => (1, "")
  | parent => (2, "")
  | name s => (3, s)

def Part.lt (a b : Part) : Bool := a.key.1 < b.key.1 || (a.key.1 == b.key.1 && a.key.2 < b.key.2)

def Part.text : Part → String
  | root => "/"
  | current => "."
  | parent => ".."
  | name s => s

def Part.ofText? (s : String) : Option Part :=
  if s = "" ∨ s = "." then none else if s = ".." then some .parent else some (.name s)

def pieces (p : Path) : List String := (Text.splitAt (· == '/') p.text.toList).map String.ofList

def parts (p : Path) : List Part :=
  match p.pieces with
  | [] => []
  | first :: rest =>
    let start :=
      if first = "" then (if rest.isEmpty then [] else [.root])
      else if first = "." then [.current]
      else (Part.ofText? first).toList
    start ++ rest.filterMap Part.ofText?

def same (p q : Path) : Bool := p.parts == q.parts

def ltParts : List Part → List Part → Bool
  | _, [] => false
  | [], _ :: _ => true
  | a :: as, b :: bs => a.lt b || (a == b && ltParts as bs)

def le (p q : Path) : Bool := !ltParts q.parts p.parts

def isAbsolute (p : Path) : Bool := p.text.startsWith "/"

def join (p q : Path) : Path :=
  if q.isAbsolute then q
  else if p.text.isEmpty || p.text.endsWith "/" then ⟨p.text ++ q.text⟩
  else ⟨p.text ++ "/" ++ q.text⟩

/-- What a lookup goes through, one after the other; it stops at every dot. -/
def steps (p : Path) : List Part :=
  p.pieces.filterMap fun piece =>
    if piece = "" then none
    else if piece = "." then some .current
    else Part.ofText? piece

def endsInSlash (p : Path) : Bool := p.text.endsWith "/"

def dropIdle : List String → List String
  | [] => []
  | piece :: before => if piece = "" ∨ piece = "." then dropIdle before else piece :: before

def parent? (p : Path) : Option Path :=
  match p.pieces with
  | [] => none
  | first :: rest =>
    match dropIdle rest.reverse with
    | _ :: before =>
      match (dropIdle before).reverse with
      | [] => some ⟨if first = "" then "/" else first⟩
      | rest => some ⟨String.intercalate "/" (first :: rest)⟩
    | [] => if first = "" then none else some ⟨""⟩

def ancestorsWithin : Nat → Path → List Path
  | 0, _ => []
  | n + 1, p => p :: p.parent?.elim [] (ancestorsWithin n)

def ancestors (p : Path) : List Path :=
  (ancestorsWithin (p.text.length + 1) p).filter fun q => !q.text.isEmpty

def fileName? (p : Path) : Option String :=
  match p.parts.getLast? with
  | some (.name s) => some s
  | _ => none

def splitExtension (name : String) : String × Option String :=
  match Text.cutAt? (· == '.') name.toList.reverse with
  | some (extension, stem) =>
    if stem.isEmpty then (name, none)
    else (String.ofList stem.reverse, some (String.ofList extension.reverse))
  | none => (name, none)

def stem? (p : Path) : Option String := p.fileName?.map fun name => (splitExtension name).1

def extension? (p : Path) : Option String := p.fileName?.bind fun name => (splitExtension name).2

end Path

end WireProtocol.Files
