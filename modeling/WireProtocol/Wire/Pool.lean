import WireProtocol.Wire.Mask

/-! A pool of masks. It keeps what is given back, up to a bound for each width, and lends the
oldest mask of a width again, cleared. -/

namespace WireProtocol.Wire

namespace Pool

structure Config where
  base : Nat := 32
  max : Nat := 256
  deriving DecidableEq, Repr

def wordMax : Nat := 0xFFFFFFFFFFFFFFFF

/-- How many masks of a width are kept; the product stops at the largest machine word. -/
def Config.capacity (config : Config) (width : Nat) : Nat :=
  Nat.max 1 (Nat.min (Nat.min (config.base * Nat.max width 1) wordMax) config.max)

end Pool

/-- The counters are exact; 64-bit counters wrap around after 2 ^ 64 events and agree up to then. -/
structure Pool where
  config : Pool.Config
  idle : List Mask
  allocated : Nat
  reused : Nat
  discarded : Nat
  deriving DecidableEq, Repr

namespace Pool

def new (config : Config) : Pool := ⟨config, [], 0, 0, 0⟩

def retained (pool : Pool) (width : Nat) : Nat := pool.idle.countP (·.width == width)

def capacity (pool : Pool) (width : Nat) : Nat := pool.config.capacity width

/-- Masks of no words come from nowhere and are not counted. -/
def acquire (pool : Pool) (width : Nat) : Mask × Pool :=
  if width = 0 then (.new 0, pool)
  else
    match pool.idle.find? (·.width == width) with
    | some mask =>
      (mask.clear,
        { pool with idle := pool.idle.eraseP (·.width == width), reused := pool.reused + 1 })
    | none => (.new width, { pool with allocated := pool.allocated + 1 })

def release (pool : Pool) (mask : Mask) : Pool :=
  if mask.width = 0 then pool
  else if pool.retained mask.width < pool.capacity mask.width then
    { pool with idle := pool.idle ++ [mask] }
  else { pool with discarded := pool.discarded + 1 }

def lend : Option Pool → Nat → Mask × Option Pool
  | some pool, width => let (mask, pool) := pool.acquire width; (mask, some pool)
  | none, width => (.new width, none)

def giveBack (pool : Option Pool) (mask : Mask) : Option Pool := pool.map (·.release mask)

end Pool

end WireProtocol.Wire
