import WireProtocol.LittleEndian
import WireProtocol.Rpc.Error

namespace WireProtocol.Rpc.Frame

def headerSize : Nat := 4

def defaultMax : Nat := 16 * 1024 * 1024

def encode (payload : List UInt8) : Except Error (List UInt8) :=
  if payload.length < 0x100000000 then .ok (LittleEndian.digits headerSize payload.length ++ payload)
  else .error (.lengthTooLarge payload.length)

def write (payload : List UInt8) : EStateM Error (List UInt8) Unit := do
  if 0xFFFFFFFF < payload.length then throw (.lengthTooLarge payload.length)
  modify (· ++ LittleEndian.digits headerSize payload.length)
  modify (· ++ payload)

def writeAll : List (List UInt8) → EStateM Error (List UInt8) Unit
  | [] => return
  | payload :: rest => do write payload; writeAll rest

def encodeAll (payloads : List (List UInt8)) : List UInt8 × Option Error :=
  match writeAll payloads [] with
  | .ok _ bytes => (bytes, none)
  | .error e bytes => (bytes, some e)

def decode (max : Nat) (bytes : List UInt8) : Except Error (List UInt8 × Nat) :=
  if bytes.length < headerSize then .error (.incompleteHeader bytes.length)
  else
    let length := LittleEndian.value (bytes.take headerSize)
    if max < length then .error (.payloadTooLarge length max)
    else if bytes.length < headerSize + length then
      .error (.incompletePayload (headerSize + length) bytes.length)
    else .ok ((bytes.drop headerSize).take length, headerSize + length)

/-- Takes the next frame off a stream. A stream that ends too early is used up; of a frame that is
too long only the header is. -/
def read (max : Nat) : EStateM Error (List UInt8) (List UInt8) := fun stream =>
  if stream.length < headerSize then .error .endOfStream []
  else
    let length := LittleEndian.value (stream.take headerSize)
    let rest := stream.drop headerSize
    if max < length then .error (.payloadTooLarge length max) rest
    else if rest.length < length then .error .endOfStream []
    else .ok (rest.take length) (rest.drop length)

theorem length_lt_of_read {max : Nat} {stream payload rest : List UInt8}
    (h : read max stream = .ok payload rest) : rest.length < stream.length := by
  by_cases hh : stream.length < headerSize
  · simp [read, hh] at h
  by_cases hm : max < LittleEndian.value (stream.take headerSize)
  · simp [read, hh, hm] at h
  by_cases hp : (stream.drop headerSize).length < LittleEndian.value (stream.take headerSize)
  · simp only [read, hh, hm, hp, if_true, if_false, reduceCtorEq] at h
  · simp only [read, hh, hm, hp, if_false, EStateM.Result.ok.injEq] at h
    obtain ⟨_, rfl⟩ := h
    simp only [List.length_drop]
    simp only [headerSize] at *
    omega

def readAll (max : Nat) (stream : List UInt8) : List (List UInt8) × Error :=
  match _h : read max stream with
  | .ok payload rest => let (payloads, e) := readAll max rest; (payload :: payloads, e)
  | .error e _ => ([], e)
termination_by stream.length
decreasing_by exact length_lt_of_read _h

end WireProtocol.Rpc.Frame
