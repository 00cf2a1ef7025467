import WireProtocol.Proofs.Rpc.Frame

namespace WireProtocol.Rpc

inductive Error.Incomplete : Error → Prop
  | header (length : Nat) : Incomplete (.incompleteHeader length)
  | payload (expected length : Nat) : Incomplete (.incompletePayload expected length)

namespace Frame

variable {max : Nat} {bytes payload : List UInt8}

theorem decode_frame (h : payload.length < 2 ^ 32) (hm : payload.length ≤ max)
    (rest : List UInt8) :
    decode max (frame payload ++ rest) = .ok (payload, headerSize + payload.length) := by
  have hl : ¬ (frame payload ++ rest).length < headerSize + payload.length := by
    rw [List.length_append, length_frame]
    omega
  simp only [decode, not_length_frame_lt, if_false, value_take_frame h, Nat.not_lt.2 hm, hl,
    drop_frame, List.take_left]

theorem decode_of_announced {n : Nat} (hn : announced? bytes = some n) (hm : max < n) :
    decode max bytes = .error (.payloadTooLarge n max) := by
  rw [announced?] at hn
  split at hn
  · cases hn
  next hh =>
  cases hn
  simp only [decode, hh, if_false, hm, if_true]

theorem exists_incomplete {rest : List UInt8} (h : read max bytes = .error .endOfStream rest) :
    ∃ e, e.Incomplete ∧ decode max bytes = .error e := by
  by_cases hh : bytes.length < headerSize
  · exact ⟨_, .header _, if_pos hh⟩
  obtain ⟨n, hn⟩ : ∃ n, LittleEndian.value (bytes.take headerSize) = n := ⟨_, rfl⟩
  by_cases hm : max < n
  · simp [read, hh, hn, hm] at h
  by_cases hp : (bytes.drop headerSize).length < n
  · have hl : bytes.length < headerSize + n := by
      rw [List.length_drop] at hp
      omega
    refine ⟨_, .payload (headerSize + n) bytes.length, ?_⟩
    simp only [decode, hh, if_false, hn, hm, hl, if_true]
  · simp only [read, hh, hn, hm, hp, if_false, reduceCtorEq] at h

theorem decode_read_cases (max : Nat) (bytes : List UInt8) :
    (∃ payload rest, bytes = frame payload ++ rest ∧
      decode max bytes = .ok (payload, headerSize + payload.length) ∧
      read max bytes = .ok payload rest) ∨
    (∃ n rest, decode max bytes = .error (.payloadTooLarge n max) ∧
      read max bytes = .error (.payloadTooLarge n max) rest) ∨
    ∃ e rest, e.Incomplete ∧ decode max bytes = .error e ∧
      read max bytes = .error .endOfStream rest := by
  rcases read_cases max bytes with ⟨payload, rest, rfl, hl, hm⟩ | ⟨n, hn, hm, he⟩ | ⟨-, he⟩
  · exact .inl ⟨payload, rest, rfl, decode_frame hl hm rest, read_frame hl hm rest⟩
  · exact .inr (.inl ⟨n, _, decode_of_announced hn hm, he⟩)
  · obtain ⟨e, hi, hd⟩ := exists_incomplete he
    exact .inr (.inr ⟨e, _, hi, hd, he⟩)

theorem drop_length_frame (payload rest : List UInt8) :
    (frame payload ++ rest).drop (headerSize + payload.length) = rest :=
  List.drop_left' (length_frame payload)

theorem decode_eq_ok_iff {n : Nat} :
    decode max bytes = .ok (payload, n) ↔
      n ≤ bytes.length ∧ read max bytes = .ok payload (bytes.drop n) := by
  rcases decode_read_cases max bytes with
    ⟨p, rest, rfl, hd, hr⟩ | ⟨_, _, hd, hr⟩ | ⟨_, _, _, hd, hr⟩
  · have hl : (frame p ++ rest).length = headerSize + p.length + rest.length := by
      rw [List.length_append, length_frame]
    rw [hd, hr]
    constructor
    · intro h
      cases h
      exact ⟨by omega, by rw [drop_length_frame]⟩
    · rintro ⟨hn, h⟩
      obtain ⟨rfl, hrest⟩ := EStateM.Result.ok.inj h
      -- As much is left as was left behind the frame, so the frame ends here.
      have hlen := congrArg List.length hrest
      rw [List.length_drop] at hlen
      rw [show n = headerSize + p.length by omega]
  · simp [hd, hr]
  · simp [hd, hr]

theorem decode_payloadTooLarge_iff {length limit : Nat} :
    decode max bytes = .error (.payloadTooLarge length limit) ↔
      ∃ rest, read max bytes = .error (.payloadTooLarge length limit) rest := by
  rcases decode_read_cases max bytes with
    ⟨_, _, _, hd, hr⟩ | ⟨n, rest, hd, hr⟩ | ⟨e, _, hi, hd, hr⟩
  · simp [hd, hr]
  · simp [hd, hr]
  · cases hi <;> simp [hd, hr]

theorem decode_incomplete_iff :
    (∃ e, e.Incomplete ∧ decode max bytes = .error e) ↔
      ∃ rest, read max bytes = .error .endOfStream rest := by
  rcases decode_read_cases max bytes with
    ⟨_, _, _, hd, hr⟩ | ⟨n, _, hd, hr⟩ | ⟨e, rest, hi, hd, hr⟩
  · simp [hd, hr]
  · simp only [hd, hr, Except.error.injEq, EStateM.Result.error.injEq, reduceCtorEq, false_and,
      exists_false, iff_false]
    rintro ⟨_, hi, rfl⟩
    cases hi
  · exact ⟨fun _ => ⟨rest, hr⟩, fun _ => ⟨e, hi, hd⟩⟩

theorem write_eq_encode (payload written : List UInt8) :
    write payload written =
      match encode payload with
      | .ok frame => .ok () (written ++ frame)
      | .error e => .error e written := by
  by_cases h : payload.length < 0x100000000
  · have hw : ¬ 0xFFFFFFFF < payload.length := by omega
    simp only [encode, h, if_true, write, hw, if_false]
    rw [← List.append_assoc]
    rfl
  · have hw : 0xFFFFFFFF < payload.length := by omega
    simp only [encode, h, if_false, write, hw, if_true]
    rfl

/-- All frames in front of the bytes, each decoded from where the one before it ends, and why there
are no more. -/
def decodeAll (max : Nat) (bytes : List UInt8) : List (List UInt8) × Error :=
  match _h : decode max bytes with
  | .ok (payload, n) =>
    let (payloads, e) := decodeAll max (bytes.drop n)
    (payload :: payloads, e)
  | .error e => ([], e)
termination_by bytes.length
decreasing_by
  exact length_lt_of_read (decode_eq_ok_iff.1 _h).2

theorem decodeAll_of_ok {n : Nat} (h : decode max bytes = .ok (payload, n)) :
    decodeAll max bytes =
      (payload :: (decodeAll max (bytes.drop n)).1, (decodeAll max (bytes.drop n)).2) := by
  rw [decodeAll]
  split
  · next h' =>
    cases h.symm.trans h'
    rfl
  · next h' => cases h.symm.trans h'

theorem decodeAll_of_error {e : Error} (h : decode max bytes = .error e) :
    decodeAll max bytes = ([], e) := by
  rw [decodeAll]
  split
  · next h' => cases h.symm.trans h'
  · next h' =>
    cases h.symm.trans h'
    rfl

theorem decodeAll_fst (max : Nat) (bytes : List UInt8) :
    (decodeAll max bytes).1 = (readAll max bytes).1 := by
  fun_induction readAll max bytes with
  | case1 bytes payload rest hr payloads e hp ih =>
    obtain ⟨rfl, hl, hm⟩ := exists_frame_of_read hr
    rw [hp] at ih
    rw [decodeAll_of_ok (decode_frame hl hm rest), drop_length_frame, ih]
  | case2 bytes e rest he =>
    rcases cases_of_read_error he with ⟨n, hn, hm, rfl⟩ | ⟨-, rfl⟩
    · rw [decodeAll_of_error (decode_of_announced hn hm)]
    · obtain ⟨e, -, hd⟩ := exists_incomplete he
      rw [decodeAll_of_error hd]

theorem decodeAll_flatMap_frame {payloads : List (List UInt8)}
    (h : ∀ payload ∈ payloads, payload.length ≤ max ∧ payload.length < 2 ^ 32) :
    decodeAll max (payloads.flatMap frame) = (payloads, .incompleteHeader 0) := by
  induction payloads with
  | nil => exact decodeAll_of_error rfl
  | cons payload payloads ih =>
    rw [List.forall_mem_cons] at h
    rw [List.flatMap_cons, decodeAll_of_ok (decode_frame h.1.2 h.1.1 _), drop_length_frame,
      ih h.2]

theorem readAll_flatMap_frame {payloads : List (List UInt8)}
    (h : ∀ payload ∈ payloads, payload.length ≤ max ∧ payload.length < 2 ^ 32) :
    readAll max (payloads.flatMap frame) = (payloads, .endOfStream) := by
  induction payloads with
  | nil => exact readAll_nil max
  | cons payload payloads ih =>
    rw [List.forall_mem_cons] at h
    rw [List.flatMap_cons, readAll_frame h.1.2 h.1.1, ih h.2]

theorem mapM_encode {payloads : List (List UInt8)}
    (h : ∀ payload ∈ payloads, payload.length < 2 ^ 32) :
    payloads.mapM encode = .ok (payloads.map frame) := by
  induction payloads with
  | nil => rfl
  | cons payload payloads ih =>
    rw [List.forall_mem_cons] at h
    rw [List.mapM_cons, encode_eq_ok h.1, ih h.2]
    rfl

theorem writeAll_eq {payloads : List (List UInt8)}
    (h : ∀ payload ∈ payloads, payload.length < 2 ^ 32) (written : List UInt8) :
    writeAll payloads written = .ok () (written ++ payloads.flatMap frame) := by
  induction payloads generalizing written with
  | nil => exact congrArg (EStateM.Result.ok ()) (List.append_nil written).symm
  | cons payload payloads ih =>
    rw [List.forall_mem_cons] at h
    have hw : write payload written = .ok () (written ++ frame payload) := by
      rw [write_eq_encode, encode_eq_ok h.1]
    rw [List.flatMap_cons, ← List.append_assoc, ← ih h.2]
    simp only [writeAll, bind, EStateM.bind, hw]

/-- Whatever the bytes are, a frame is decoded from them when it is read off them, and what is left
is what comes behind it; when it is too long, both say so in the same words; and when the bytes are
less than a frame, the stream ends. Frames that are short enough are the same bytes encoded and
written, and both ways give their payloads back in order and then come to the end. -/
theorem decoders_agree (max : Nat) :
    (∀ bytes,
      (∀ payload n, decode max bytes = .ok (payload, n) ↔
        n ≤ bytes.length ∧ read max bytes = .ok payload (bytes.drop n)) ∧
      (∀ length limit, decode max bytes = .error (.payloadTooLarge length limit) ↔
        ∃ rest, read max bytes = .error (.payloadTooLarge length limit) rest) ∧
      ((∃ e, e.Incomplete ∧ decode max bytes = .error e) ↔
        ∃ rest, read max bytes = .error .endOfStream rest) ∧
      (decodeAll max bytes).1 = (readAll max bytes).1) ∧
    ∀ payloads : List (List UInt8),
      (∀ payload ∈ payloads, payload.length ≤ max ∧ payload.length < 2 ^ 32) →
      ∃ frames, payloads.mapM encode = .ok frames ∧
        (∀ written, writeAll payloads written = .ok () (written ++ frames.flatten)) ∧
        readAll max frames.flatten = (payloads, .endOfStream) ∧
        decodeAll max frames.flatten = (payloads, .incompleteHeader 0) := by
  refine ⟨fun bytes => ⟨fun _ _ => decode_eq_ok_iff, fun _ _ => decode_payloadTooLarge_iff,
    decode_incomplete_iff, decodeAll_fst max bytes⟩, fun payloads h => ?_⟩
  have hl : ∀ payload ∈ payloads, payload.length < 2 ^ 32 := fun payload hp => (h payload hp).2
  refine ⟨payloads.map frame, mapM_encode hl, ?_⟩
  rw [← List.flatMap_def]
  exact ⟨writeAll_eq hl, readAll_flatMap_frame h, decodeAll_flatMap_frame h⟩

theorem decoders_agree_three :
    [[1], [], [2, 3, 4]].mapM encode =
        .ok [[1, 0, 0, 0, 1], [0, 0, 0, 0], [3, 0, 0, 0, 2, 3, 4]] ∧
      decodeAll 3 [1, 0, 0, 0, 1, 0, 0, 0, 0, 3, 0, 0, 0, 2, 3, 4] =
        ([[1], [], [2, 3, 4]], .incompleteHeader 0) := by
  obtain ⟨frames, he, -, -, hd⟩ := (decoders_agree 3).2 [[1], [], [2, 3, 4]] (by decide)
  have hf : [[1], [], [2, 3, 4]].mapM encode =
      .ok [[1, 0, 0, 0, 1], [0, 0, 0, 0], [3, 0, 0, 0, 2, 3, 4]] := rfl
  cases he.symm.trans hf
  exact ⟨hf, hd⟩

end Frame

end WireProtocol.Rpc
