import WireProtocol.Text.LetterCase.Table

namespace WireProtocol.Text

namespace LetterCase

def Run.covers (r : Run) (n : Nat) : Bool := r.first ≤ n && n ≤ r.last && (n - r.first) % r.step == 0

def other (long : List (Nat × List Nat)) (shifted : List ShiftedRun) (n : Nat) : List Nat :=
  match long.lookup n with
  | some ns => ns
  | none =>
    match shifted.find? (·.covers n) with
    | some r => [(n + r.shift).toNat]
    | none => [n]

end LetterCase

def isUpper (c : Char) : Bool :=
  if c.toNat < 128 then c.isUpper else LetterCase.uppercase.any (·.covers c.toNat)

def isLower (c : Char) : Bool :=
  if c.toNat < 128 then c.isLower else LetterCase.lowercase.any (·.covers c.toNat)

def lower (c : Char) : List Char :=
  if c.toNat < 128 then [c.toLower]
  else (LetterCase.other LetterCase.loweredLong LetterCase.lowered c.toNat).map Char.ofNat

def upper (c : Char) : List Char :=
  if c.toNat < 128 then [c.toUpper]
  else (LetterCase.other LetterCase.raisedLong LetterCase.raised c.toNat).map Char.ofNat

end WireProtocol.Text
