import WireProtocol.Proofs.Wire.Closure
import WireProtocol.Proofs.Wire.RoundTrip

/-! Messages end by themselves. A read takes what it takes whatever comes next, and misses what is
not there: of less it says that the input ends, and none of its other checks comes first. No tag has
a part in this, so a family may use any. -/

namespace WireProtocol.Wire

variable {α ι : Type} {F : Family ι}

namespace Read

def Delimits (m : Read α) : Prop := Yields m (Takes m)

theorem delimits_withMask {width : Nat} {use : Mask → Read α} (h : ∀ mask, Delimits (use mask)) :
    Delimits (withMask width use) := by
  apply yields_withMask
  rintro mask rfl
  exact (h mask).mono fun bytes a ht => takes_withMask ht

theorem closed_delimits : Closed Delimits where
  pure a := .pure (.pure a)
  throw e := .throw e
  bind hm hf := hm.bind fun left a hl => (hf a).mono fun right b hr => hl.bind hr
  take n := (yields_take n).mono fun bytes a h => by
    obtain ⟨rfl, rfl⟩ := h
    exact takes_take a
  withMask _ _ h := delimits_withMask h

end Read

namespace Record

theorem read_eq_readWithin {depth : Nat} (i : ι) {s : Reader} (h : s.rest.length < 4 * depth) :
    read (F := F) i s = readWithin depth i s :=
  readWithin_alike _ depth i (n := s.rest.length + 1) (by omega) h s (Nat.lt_succ_self _)

theorem takes_readWithin {depth depth' : Nat} {i : ι} {bytes : List UInt8} {r : Record F i}
    (h : Read.Takes (readWithin depth i) bytes r) (hd : bytes.length < 4 * depth)
    (hd' : bytes.length < 4 * depth') : Read.Takes (readWithin depth' i) bytes r := by
  obtain ⟨pool, hr⟩ := h.whole.alone 0 none
  rw [← read_eq_readWithin i hd, read_eq_readWithin i hd'] at hr
  obtain ⟨taken, hb, ht⟩ := Read.closed_delimits.readWithin depth' i _ _ _ hr
  obtain rfl : bytes = taken := hb.trans (List.append_nil taken)
  exact ht

theorem delimits_read (i : ι) : Read.Delimits (read (F := F) i) := by
  intro s r s' hr
  obtain ⟨bytes, hb, ht⟩ := Read.closed_delimits.readWithin _ i s r s' hr
  have hl : s.rest.length = bytes.length + s'.rest.length := by rw [hb, List.length_append]
  -- The bound of this read depends on what follows the message, that of another on what follows then.
  have within {depth : Nat} (hd : bytes.length < 4 * depth) :
      Read.Takes (readWithin depth i) bytes r := takes_readWithin ht (by omega) hd
  refine ⟨bytes, hb, fun position rest pool => ?_, fun position pool part hp hne => ?_⟩
  · apply (within _).whole
    rw [List.length_append]
    omega
  · have hd : bytes.length < 4 * (bytes.length / 4 + 1) := by omega
    obtain ⟨needed, remaining, s'', he⟩ := (within hd).part position pool part hp hne
    have hpart := hp.length_le
    exact ⟨needed, remaining, s'', by rw [read_eq_readWithin i (hpart.trans_lt hd), he]⟩

theorem takes_of_decode {i : ι} {bytes : List UInt8} {r : Record F i}
    (h : decode i bytes = .ok r) : Read.Takes (read i) bytes r := by
  obtain ⟨s, hr, he⟩ := exists_read_of_decode h
  obtain ⟨taken, hb, ht⟩ := delimits_read i _ _ _ hr
  obtain rfl : bytes = taken := by rwa [he, List.append_nil] at hb
  exact ht

variable {i : ι} {bytes : List UInt8} {r : Record F i}

theorem decode_append (h : Read.Takes (read i) bytes r) {rest : List UInt8} (hr : rest ≠ []) :
    decode (F := F) i (bytes ++ rest) =
      .error (.decode (.trailingBytes rest.length (F i).name)) := by
  obtain ⟨pool, hw⟩ := h.whole 0 rest none
  simp [decode, Reader.new, hw, Reader.isEmpty, Reader.remaining, hr]

theorem decode_part (h : Read.Takes (read i) bytes r) {part : List UInt8} (hp : part <+: bytes)
    (hne : part ≠ bytes) :
    ∃ needed remaining, decode (F := F) i part = .error (.unexpectedEnd needed remaining) := by
  obtain ⟨needed, remaining, s, he⟩ := h.part 0 none part hp hne
  exact ⟨needed, remaining, by simp only [decode, Reader.new, he]⟩

/-- No part of a message is a message, nor is a message with more behind it, and the error says
which it is: less is an early end of the input, and more is as many bytes too many. A read that goes
on from there gets the message and finds itself behind its last byte. -/
theorem decode_prefix_free (h : decode i bytes = .ok r) :
    (∀ (other : List UInt8) (r' : Record F i), decode i other = .ok r' → bytes <+: other →
      other = bytes) ∧
    (∀ part, part <+: bytes → part ≠ bytes →
      ∃ needed remaining, decode (F := F) i part = .error (.unexpectedEnd needed remaining)) ∧
    (∀ rest, rest ≠ [] →
      decode (F := F) i (bytes ++ rest) =
        .error (.decode (.trailingBytes rest.length (F i).name))) ∧
    ∀ position rest pool, ∃ pool', read i ⟨position, bytes ++ rest, pool⟩ =
      .ok r ⟨position + bytes.length, rest, pool'⟩ := by
  have ht := takes_of_decode h
  refine ⟨?_, fun part hp hne => decode_part ht hp hne, fun rest hr => decode_append ht hr,
    ht.whole⟩
  rintro other r' ho ⟨rest, rfl⟩
  cases rest with
  | nil => exact List.append_nil bytes
  | cons b rest =>
    rw [decode_append ht (List.cons_ne_nil b rest)] at ho
    cases ho

end Record

def linked : List UInt8 := [3, 0, 0, 0, 2, 0, 0, 0, 100, 0, 0, 0, 1, 0, 0, 0, 1, 0, 0, 0]

theorem decode_prefix_free_linked :
    Record.decode () linked =
        .ok (.mk (.single ⟨2⟩ (.nested (.mk (.single ⟨1⟩ (.absent .nil))) .nil)) :
          Record chain ()) ∧
      (∃ needed remaining, Record.decode (F := chain) () (linked.take 18) =
        .error (.unexpectedEnd needed remaining)) ∧
      Record.decode (F := chain) () (linked ++ [0, 0]) =
        .error (.decode (.trailingBytes 2 "Link")) := by
  have h : Record.decode () linked =
      .ok (.mk (.single ⟨2⟩ (.nested (.mk (.single ⟨1⟩ (.absent .nil))) .nil)) :
        Record chain ()) := rfl
  obtain ⟨-, part, more, -⟩ := Record.decode_prefix_free h
  exact ⟨h, part _ (List.take_prefix 18 linked) (by decide), more [0, 0] (by decide)⟩

end WireProtocol.Wire
