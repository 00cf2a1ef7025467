
namespace WireProtocol.Wire

def bitsPerWord : Nat := 32

def wordsFor (fields : Nat) : Nat := (fields + 31) / bitsPerWord

structure Mask where
  words : List UInt32
  deriving DecidableEq, Repr, Inhabited

namespace Mask

def new (width : Nat) : Mask := ⟨List.replicate width 0⟩

def maxWidth : Nat := 0x1FFFFFFFFFFFFFFF

def forFields (fields : Nat) : Mask := new (wordsFor fields)

def width (m : Mask) : Nat := m.words.length

def capacity (m : Mask) : Nat := bitsPerWord * m.width

def bit (i : Nat) : UInt32 := 1 <<< UInt32.ofNat (i % bitsPerWord)

def insert (m : Mask) (i : Nat) : Mask := ⟨m.words.modify (i / bitsPerWord) (· ||| bit i)⟩

def insert? (m : Mask) (i : Nat) : Option Mask :=
  if i < m.capacity then some (m.insert i) else none

def insertIf? (m : Mask) (i : Nat) (present : Bool) : Option Mask :=
  if present then m.insert? i else some m

def setWord? (m : Mask) (i : Nat) (word : UInt32) : Option Mask :=
  if i < m.width then some ⟨m.words.set i word⟩ else none

def contains (m : Mask) (i : Nat) : Bool :=
  match m.words[i / bitsPerWord]? with
  | some word => word &&& bit i != 0
  | none => false

def clear (m : Mask) : Mask := ⟨m.words.map fun _ => 0⟩

def isEmpty (m : Mask) : Bool := m.words.all (· == 0)

def ones (word : UInt32) : Nat := (List.range bitsPerWord).countP fun i => word &&& bit i != 0

def count (m : Mask) : Nat := m.words.foldr (fun w n => ones w + n) 0

def markFrom (m : Mask) (i : Nat) : List Bool → Mask
  | [] => m
  | present :: rest => (if present then m.insert i else m).markFrom (i + 1) rest

def mark (m : Mask) (present : List Bool) : Mask := m.markFrom 0 present

end Mask

end WireProtocol.Wire
