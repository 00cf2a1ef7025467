
namespace WireProtocol.Utf8

def encode (s : String) : List UInt8 := s.toByteArray.data.toList

structure Fault where
  offset : Nat
  length : Option Nat
  deriving DecidableEq, Repr

def Fault.text : Fault → String
  | ⟨i, some n⟩ => s!"invalid utf-8 sequence of {n} bytes from index {i}"
  | ⟨i, none⟩ => s!"incomplete utf-8 byte sequence from index {i}"

def continuations (lead : UInt8) : Option (List (UInt8 × UInt8)) :=
  if lead < 0x80 then some []
  else if lead < 0xC2 then none
  else if lead < 0xE0 then some [(0x80, 0xBF)]
  else if lead = 0xE0 then some [(0xA0, 0xBF), (0x80, 0xBF)]
  else if lead = 0xED then some [(0x80, 0x9F), (0x80, 0xBF)]
  else if lead < 0xF0 then some [(0x80, 0xBF), (0x80, 0xBF)]
  else if lead = 0xF0 then some [(0x90, 0xBF), (0x80, 0xBF), (0x80, 0xBF)]
  else if lead < 0xF4 then some [(0x80, 0xBF), (0x80, 0xBF), (0x80, 0xBF)]
  else if lead = 0xF4 then some [(0x80, 0x8F), (0x80, 0xBF), (0x80, 0xBF)]
  else none

/-- Scans with `seen` bytes of the character at `start` behind it and the ranges `due` ahead. -/
def scan (start seen : Nat) : List (UInt8 × UInt8) → List UInt8 → Option Fault
  | [], [] => none
  | _ :: _, [] => some ⟨start, none⟩
  | [], b :: bytes =>
    match continuations b with
    | some due => scan (start + seen) 1 due bytes
    | none => some ⟨start + seen, some 1⟩
  | (lo, hi) :: due, b :: bytes =>
    if lo ≤ b ∧ b ≤ hi then scan start (seen + 1) due bytes else some ⟨start, some seen⟩

def firstFault (bytes : List UInt8) : Option Fault := scan 0 0 [] bytes

def decode (bytes : List UInt8) : Except Fault String :=
  match String.fromUTF8? ⟨bytes.toArray⟩ with
  | some s => .ok s
  | none => .error ((firstFault bytes).getD ⟨0, none⟩)

end WireProtocol.Utf8
