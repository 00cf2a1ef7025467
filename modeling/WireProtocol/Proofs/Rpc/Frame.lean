import WireProtocol.Proofs.Bytes
import WireProtocol.Rpc.Frame

namespace WireProtocol.Rpc.Frame

def frame (payload : List UInt8) : List UInt8 :=
  LittleEndian.digits headerSize payload.length ++ payload

theorem encode_eq_ok {payload : List UInt8} (h : payload.length < 2 ^ 32) :
    encode payload = .ok (frame payload) := if_pos h

theorem length_frame (payload : List UInt8) :
    (frame payload).length = headerSize + payload.length := by
  simp [frame]

theorem take_frame (payload rest : List UInt8) :
    (frame payload ++ rest).take headerSize = LittleEndian.digits headerSize payload.length := by
  rw [frame, List.append_assoc, List.take_left' (LittleEndian.length_digits ..)]

theorem drop_frame (payload rest : List UInt8) :
    (frame payload ++ rest).drop headerSize = payload ++ rest := by
  rw [frame, List.append_assoc, List.drop_left' (LittleEndian.length_digits ..)]

variable {max : Nat} {payload : List UInt8}

theorem value_take_frame (h : payload.length < 2 ^ 32) (rest : List UInt8) :
    LittleEndian.value ((frame payload ++ rest).take headerSize) = payload.length := by
  rw [take_frame, LittleEndian.value_digits]
  exact Nat.mod_eq_of_lt h

theorem not_length_frame_lt (payload rest : List UInt8) :
    ¬ (frame payload ++ rest).length < headerSize := by
  rw [List.length_append, length_frame]
  omega

theorem read_frame (h : payload.length < 2 ^ 32) (hm : payload.length ≤ max) (rest : List UInt8) :
    read max (frame payload ++ rest) = .ok payload rest := by
  simp only [read, not_length_frame_lt, if_false, value_take_frame h, drop_frame, Nat.not_lt.2 hm]
  simp

theorem read_frame_of_lt (h : payload.length < 2 ^ 32) (hm : max < payload.length)
    (rest : List UInt8) :
    read max (frame payload ++ rest) =
      .error (.payloadTooLarge payload.length max) (payload ++ rest) := by
  simp only [read, not_length_frame_lt, if_false, value_take_frame h, drop_frame, hm, if_true]

theorem readAll_frame (h : payload.length < 2 ^ 32) (hm : payload.length ≤ max)
    (rest : List UInt8) :
    readAll max (frame payload ++ rest) =
      (payload :: (readAll max rest).1, (readAll max rest).2) := by
  have hr := read_frame h hm rest
  rw [readAll]
  split
  · next hr' =>
    rw [hr] at hr'
    cases hr'
    rfl
  · next hr' =>
    rw [hr] at hr'
    cases hr'

theorem readAll_of_error {stream rest : List UInt8} {e : Error}
    (h : read max stream = .error e rest) : readAll max stream = ([], e) := by
  rw [readAll]
  split
  · next h' =>
    rw [h] at h'
    cases h'
  · next h' =>
    rw [h] at h'
    cases h'
    rfl

@[simp] theorem readAll_nil (max : Nat) : readAll max [] = ([], .endOfStream) := by
  have hr : read max [] = .error .endOfStream [] := rfl
  exact readAll_of_error hr

def announced? (stream : List UInt8) : Option Nat :=
  if stream.length < headerSize then none
  else some (LittleEndian.value (stream.take headerSize))

theorem lt_of_announced? {stream : List UInt8} {n : Nat} (h : announced? stream = some n) :
    n < 2 ^ 32 := by
  rw [announced?] at h
  split at h
  · cases h
  next hl =>
  cases h
  have hv := LittleEndian.value_lt (stream.take headerSize)
  rw [List.length_take_of_le (Nat.not_lt.1 hl)] at hv
  exact hv

theorem read_cases (max : Nat) (stream : List UInt8) :
    (∃ payload rest, stream = frame payload ++ rest ∧
      payload.length < 2 ^ 32 ∧ payload.length ≤ max) ∨
    (∃ n, announced? stream = some n ∧ max < n ∧
      read max stream = .error (.payloadTooLarge n max) (stream.drop headerSize)) ∨
    (∀ n, announced? stream = some n → n ≤ max) ∧ read max stream = .error .endOfStream [] := by
  by_cases hh : stream.length < headerSize
  · refine .inr (.inr ⟨fun n hn => ?_, ?_⟩)
    · rw [announced?, if_pos hh] at hn
      cases hn
    · rw [read, if_pos hh]
  obtain ⟨n, hn⟩ : ∃ n, announced? stream = some n := ⟨_, if_neg hh⟩
  have hv : LittleEndian.value (stream.take headerSize) = n := by
    rw [announced?, if_neg hh] at hn
    exact Option.some.inj hn
  by_cases hm : max < n
  · exact .inr (.inl ⟨n, hn, hm, by simp only [read, hh, if_false, hv, hm, if_true]⟩)
  by_cases hp : (stream.drop headerSize).length < n
  · refine .inr (.inr ⟨fun n' hn' => ?_, ?_⟩)
    · obtain rfl := Option.some.inj (hn.symm.trans hn')
      exact Nat.not_lt.1 hm
    · simp only [read, hh, if_false, hv, hm, hp, if_true]
  · have hl : ((stream.drop headerSize).take n).length = n :=
      List.length_take_of_le (Nat.not_lt.1 hp)
    refine .inl ⟨(stream.drop headerSize).take n, (stream.drop headerSize).drop n, ?_, ?_, ?_⟩
    · have hd := LittleEndian.digits_value (stream.take headerSize)
      rw [List.length_take_of_le (Nat.not_lt.1 hh), hv] at hd
      rw [frame, hl, hd, List.append_assoc, List.take_append_drop, List.take_append_drop]
    · rw [hl]
      exact lt_of_announced? hn
    · rw [hl]
      exact Nat.not_lt.1 hm

theorem exists_frame_of_read {stream rest : List UInt8} (h : read max stream = .ok payload rest) :
    stream = frame payload ++ rest ∧ payload.length < 2 ^ 32 ∧ payload.length ≤ max := by
  rcases read_cases max stream with ⟨payload', rest', rfl, hl, hm⟩ | ⟨n, -, -, he⟩ | ⟨-, he⟩
  · cases (read_frame hl hm rest').symm.trans h
    exact ⟨rfl, hl, hm⟩
  · cases he.symm.trans h
  · cases he.symm.trans h

theorem cases_of_read_error {stream rest : List UInt8} {e : Error}
    (h : read max stream = .error e rest) :
    (∃ n, announced? stream = some n ∧ max < n ∧ e = .payloadTooLarge n max) ∨
      (∀ n, announced? stream = some n → n ≤ max) ∧ e = .endOfStream := by
  rcases read_cases max stream with ⟨payload, rest', rfl, hl, hm⟩ | ⟨n, hn, hm, he⟩ | ⟨hn, he⟩
  · cases (read_frame hl hm rest').symm.trans h
  · cases he.symm.trans h
    exact .inl ⟨n, hn, hm, rfl⟩
  · cases he.symm.trans h
    exact .inr ⟨hn, rfl⟩

end WireProtocol.Rpc.Frame
