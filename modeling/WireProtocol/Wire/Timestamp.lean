
namespace WireProtocol.Wire

structure Timestamp where
  millis : Int64
  deriving DecidableEq, Repr, Inhabited

namespace Timestamp

def epoch : Timestamp := ⟨0⟩

def countMillis? (distance : Nat) : Option Int64 :=
  let count := distance / 1000000
  if count ≤ Int64.maxValue.toInt then some (.ofNat count) else none

/-- Nanoseconds from the epoch are counted away from it, on the side on which they lie. What cannot
be counted is at the end of the range, and so is the first timestamp, whose distance is one more than
can be counted. -/
def ofNanoseconds (t : Int) : Timestamp :=
  if 0 ≤ t then ⟨(countMillis? t.natAbs).getD Int64.maxValue⟩
  else ⟨((countMillis? t.natAbs).map (- ·)).getD Int64.minValue⟩

def clockRange : Int := 9223372036854775808 * 1000000000

def ofClock? (t : Int) : Option Timestamp :=
  if -clockRange ≤ t ∧ t < clockRange then some (ofNanoseconds t) else none

def toNanoseconds (t : Timestamp) : Int :=
  let distance : Nat := t.millis.toInt.natAbs * 1000000
  if 0 ≤ t.millis then distance else -distance

end Timestamp

end WireProtocol.Wire
