
namespace WireProtocol.Checksum

def polynomial : UInt32 := 0xEDB88320

def shift (r : UInt32) : UInt32 := if r &&& 1 = 1 then (r >>> 1) ^^^ polynomial else r >>> 1

def shifts : Nat → UInt32 → UInt32
  | 0, r => r
  | n + 1, r => shifts n (shift r)

def step (r : UInt32) (b : UInt8) : UInt32 := shifts 8 (r ^^^ b.toUInt32)

def crc32 (bytes : List UInt8) : UInt32 := ~~~(bytes.foldl step 0xFFFFFFFF)

/-- The check value of the algorithm, taken of the digits 1 to 9. -/
example : crc32 [49, 50, 51, 52, 53, 54, 55, 56, 57] = 0xCBF43926 := by decide +kernel

end WireProtocol.Checksum
