import WireProtocol.Files.FileSystem

namespace WireProtocol.Files

abbrev Place := List String

inductive Entry
  | file (bytes : List UInt8)
  | directory
  deriving DecidableEq, Repr

/-- Relative paths start from the directory `home`. -/
structure Tree where
  entries : List (Place × Entry) := []
  home : Place := []
  deriving DecidableEq, Repr

namespace Tree

def entry? (t : Tree) (place : Place) : Option Entry :=
  if place = [] then some .directory else t.entries.lookup place

def put (t : Tree) (place : Place) (e : Entry) : Tree :=
  { t with entries := (place, e) :: t.entries.filter (·.1 != place) }

def maxName : Nat := 255

def maxPath : Nat := 4096

def check (p : Path) : Except Fault Unit :=
  if '\x00' ∈ p.text.toList then .error .invalidName
  else if maxPath ≤ p.text.utf8ByteSize then .error .nameTooLong
  else if p.text.isEmpty then .error .notFound
  else .ok ()

def within (directory : Place) (name : String) : Except Fault Place :=
  if maxName < name.utf8ByteSize then .error .nameTooLong else .ok (directory ++ [name])

def enter (t : Tree) (place : Place) : Path.Part → Except Fault Place
  | .root => .ok []
  | .current => .ok place
  | .parent => .ok place.dropLast
  | .name s => do
    let place ← within place s
    match t.entry? place with
    | some .directory => .ok place
    | some (.file _) => .error .notADirectory
    | none => .error .notFound

def walk (t : Tree) (p : Path) (steps : List Path.Part) : Except Fault Place :=
  steps.foldlM t.enter (if p.isAbsolute then [] else t.home)

/-- Where a lookup ends: at a name in a directory, or at a directory that is there. -/
inductive End
  | name (directory : Place) (s : String)
  | directory (place : Place)
  deriving DecidableEq, Repr

def locate (t : Tree) (p : Path) : Except Fault End := do
  check p
  match p.steps.getLast? with
  | some (.name s) => return .name (← t.walk p p.steps.dropLast) s
  | _ => return .directory (← t.walk p p.steps)

def isDirectory (t : Tree) (p : Path) : Bool := (do check p; t.walk p p.steps).isOk

def read (t : Tree) (p : Path) : Except Fault (List UInt8) := do
  match ← t.locate p with
  | .directory _ => .error .isADirectory
  | .name directory s =>
    match t.entry? (← within directory s) with
    | none => .error .notFound
    | some .directory => .error .isADirectory
    | some (.file bytes) => if p.endsInSlash then .error .notADirectory else .ok bytes

def write (t : Tree) (p : Path) (bytes : List UInt8) : Except Fault Tree := do
  match ← t.locate p with
  | .directory _ => .error .isADirectory
  | .name directory s =>
    if p.endsInSlash then .error .isADirectory
    else
      let place ← within directory s
      match t.entry? place with
      | some .directory => .error .isADirectory
      | _ => .ok (t.put place (.file bytes))

def createDirectory (t : Tree) (p : Path) : Except Fault Tree := do
  match ← t.locate p with
  | .directory _ => .error .alreadyExists
  | .name directory s =>
    let place ← within directory s
    match t.entry? place with
    | some _ => .error .alreadyExists
    | none => .ok (t.put place .directory)

def ensureDirectory (t : Tree) (p : Path) : Except Fault Tree :=
  match t.createDirectory p with
  | .error .alreadyExists => if t.isDirectory p then .ok t else .error .alreadyExists
  | made => made

def createDirectories (t : Tree) : List Path → Except Fault Unit × Tree
  | [] => (.ok (), t)
  | p :: above =>
    match t.ensureDirectory p with
    | .ok t => (.ok (), t)
    | .error .notFound =>
      match t.createDirectories above with
      | (.error e, t) => (.error e, t)
      | (.ok _, t) =>
        match t.ensureDirectory p with
        | .ok t => (.ok (), t)
        | .error e => (.error e, t)
    | .error e => (.error e, t)

def files (t : Tree) : List (Path × List UInt8) :=
  (t.entries.filterMap fun (place, e) =>
    match e with
    | .file bytes =>
      if t.home.isPrefixOf place then
        some (⟨String.intercalate "/" (place.drop t.home.length)⟩, bytes)
      else none
    | .directory => none).mergeSort fun a b => a.1.text ≤ b.1.text

def addFile (t : Tree) (file : Path × List UInt8) : Tree :=
  let (_, t) := t.createDirectories (file.1.parent?.elim [] Path.ancestors)
  match t.write file.1 file.2 with
  | .ok t => t
  | .error _ => t

def ofFiles (home : Place) (files : List (Path × List UInt8)) : Tree :=
  let above := (List.range home.length).map fun n => (home.take (n + 1), Entry.directory)
  files.foldl addFile ⟨above, home⟩

instance : FileSystem (StateM Tree) where
  read p := fun t => (t.read p, t)
  write p bytes := fun t =>
    match t.write p bytes with
    | .ok t => (.ok (), t)
    | .error e => (.error e, t)
  createDirectories p := fun t => t.createDirectories p.ancestors

end Tree

end WireProtocol.Files
