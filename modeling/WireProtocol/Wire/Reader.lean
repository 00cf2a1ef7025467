import WireProtocol.LittleEndian
import WireProtocol.Wire.Error
import WireProtocol.Wire.Pool

namespace WireProtocol.Wire

structure Reader where
  position : Nat
  rest : List UInt8
  pool : Option Pool

abbrev Read (α : Type) := EStateM Error Reader α

namespace Reader

def new (bytes : List UInt8) (pool : Option Pool := none) : Reader := ⟨0, bytes, pool⟩

def remaining (r : Reader) : Nat := r.rest.length

def isEmpty (r : Reader) : Bool := r.rest.isEmpty

end Reader

namespace Read

def take (n : Nat) : Read (List UInt8) := fun r =>
  if n ≤ r.rest.length then
    .ok (r.rest.take n) { r with position := r.position + n, rest := r.rest.drop n }
  else .error (.unexpectedEnd n r.rest.length) r

def u8 : Read UInt8 := return UInt8.ofNat (LittleEndian.value (← take 1))

def u32 : Read UInt32 := return LittleEndian.toUInt32 (← take 4)

def u64 : Read UInt64 := return LittleEndian.toUInt64 (← take 8)

def i32 : Read Int32 := return (← u32).toInt32

def i64 : Read Int64 := return (← u64).toInt64

def bool : Read Bool := do
  match ← u8 with
  | 0 => return false
  | 1 => return true
  | b => throw (.decode (.invalidBool b))

def length : Read Nat := do
  let n ← i32
  if n < 0 then throw (.decode (.negativeLength n)) else return n.toInt.toNat

def bytes? : Read (Option (List UInt8)) := do
  let n ← i32
  if n = -1 then return none
  else if n < 0 then throw (.decode (.invalidByteLength n))
  else return some (← take n.toInt.toNat)

def text? : Read (Option String) := do
  match ← bytes? with
  | none => return none
  | some bytes =>
    match Utf8.decode bytes with
    | .ok s => return some s
    | .error fault => throw (.decode (.invalidText fault))

def times (one : Read α) : Nat → Read (List α)
  | 0 => return []
  | n + 1 => return (← one) :: (← times one n)

def fillWords (done : List UInt32) : Nat → Read (List UInt32)
  | 0 => return done
  | n + 1 => do fillWords (done ++ [← u32]) n

/-- Reads a mask of `width` words and goes on with it; the mask is lent by the pool and given back
however the read ends. -/
def withMask (width : Nat) (use : Mask → Read α) : Read α := fun r =>
  let (blank, pool) := Pool.lend r.pool width
  match fillWords [] width { r with pool := pool } with
  -- The mask goes back without the words that were filled. This cannot be seen: `acquire` clears
  -- what it lends, and nothing else looks at more of an idle mask than its width.
  | .error e r => .error e { r with pool := Pool.giveBack r.pool blank }
  | .ok words r =>
    match use ⟨words⟩ r with
    | .ok a r => .ok a { r with pool := Pool.giveBack r.pool ⟨words⟩ }
    | .error e r => .error e { r with pool := Pool.giveBack r.pool ⟨words⟩ }

end Read

end WireProtocol.Wire
