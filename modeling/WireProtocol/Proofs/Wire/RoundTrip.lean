import WireProtocol.Proofs.Wire.Canonical

namespace WireProtocol.Wire

variable {ι : Type} {F : Family ι}

theorem RecordForm.decode_bytes (hF : ∀ i, (F i).tag ≠ Tag.null) {i : ι} (f : RecordForm F i) :
    Record.decode i f.bytes = .ok f.value := by
  obtain ⟨pool, h⟩ := (f.takes_read hF).whole.alone 0 none
  simp [Record.decode, Reader.new, h, Reader.isEmpty]

theorem Scalar.settles_write (s : Scalar) (v : s.Value) :
    Write.Settles (s.write v) fun bytes => Read.Takes s.read bytes v :=
  (s.checks_write v).settles fun fits => (ScalarForm.value v fits).takes_read

theorem Record.settles_write (hF : ∀ i, (F i).tag ≠ Tag.null) {i : ι} (r : Record F i) :
    Write.Settles r.write fun bytes => Read.Takes (Record.read i) bytes r.norm := by
  apply r.checks_write.settles
  intro fits
  obtain ⟨f, -, hb, hv⟩ := r.exists_canonical fits
  rw [← hb, ← hv]
  exact f.takes_read hF

theorem Record.exists_form_of_decode {i : ι} {bytes : List UInt8} {r : Record F i}
    (h : Record.decode i bytes = .ok r) : ∃ f : RecordForm F i, f.bytes = bytes ∧ f.value = r := by
  obtain ⟨s, hr, he⟩ := Record.exists_read_of_decode h
  obtain ⟨_, hb, f, rfl, rfl⟩ := Record.yields_read i _ _ _ hr
  rw [he, List.append_nil] at hb
  exact ⟨f, hb.symm, rfl⟩

theorem RecordForm.bytes_injective (hF : ∀ i, (F i).tag ≠ Tag.null) {i : ι} {f g : RecordForm F i}
    (h : f.bytes = g.bytes) : f = g :=
  (f.bytes_append_inj hF g (a := []) (b := []) (by rw [h])).1

theorem RecordForm.canonical_iff (hF : ∀ i, (F i).tag ≠ Tag.null) {i : ι} (f : RecordForm F i) :
    f.Canonical ↔ f.value.bytes = f.bytes := by
  refine ⟨f.bytes_value, fun h => ?_⟩
  obtain ⟨g, hc, hb, -⟩ := f.value.exists_canonical f.lengths_value_le
  rwa [RecordForm.bytes_injective hF (hb.trans h)] at hc

/-- An encoding fails exactly when some count or length of a text is too large, and else it is read
back as the record with its zeros normalised, by itself or in front of other bytes. -/
theorem Record.decode_encode_norm (hF : ∀ i, (F i).tag ≠ Tag.null) {i : ι} (r : Record F i) :
    ((∃ e, r.encode = .error e) ↔ ∃ n ∈ r.lengths, maxLength < n) ∧
      ∀ bytes, r.encode = .ok bytes → Record.decode i bytes = .ok r.norm ∧
        ∀ position rest pool, ∃ pool', Record.read i ⟨position, bytes ++ rest, pool⟩ =
          .ok r.norm ⟨position + bytes.length, rest, pool'⟩ := by
  refine ⟨Record.encode_eq_error_iff, fun bytes h => ?_⟩
  obtain ⟨fits, rfl⟩ := Record.lengths_le_of_encode h
  obtain ⟨f, -, hb, hv⟩ := r.exists_canonical fits
  rw [← hb, ← hv]
  exact ⟨f.decode_bytes hF, (f.takes_read hF).whole⟩

def chain : Family Unit := fun _ => ⟨"Link", 100, [.single .float, .nested ()]⟩

theorem tag_chain : ∀ i, (chain i).tag ≠ Tag.null := fun _ => (by decide : (100 : Int32) ≠ -1)

theorem decode_encode_norm_chain :
    let r : Record chain () :=
      .mk (.single ⟨0x80000000⟩ (.nested (.mk (.single ⟨1⟩ (.absent .nil))) .nil))
    r.encode = .ok [2, 0, 0, 0, 100, 0, 0, 0, 1, 0, 0, 0, 1, 0, 0, 0] ∧
      Record.decode () [2, 0, 0, 0, 100, 0, 0, 0, 1, 0, 0, 0, 1, 0, 0, 0] =
        .ok (.mk (.single ⟨0⟩ (.nested (.mk (.single ⟨1⟩ (.absent .nil))) .nil)) :
          Record chain ()) := by
  intro r
  exact ⟨rfl, ((Record.decode_encode_norm tag_chain r).2 _ rfl).1⟩

/-- Bytes that are read are those of one form only, and the record is written as these bytes again
exactly when the form is canonical. -/
theorem Record.encode_decode_iff_canonical (hF : ∀ i, (F i).tag ≠ Tag.null) {i : ι}
    {bytes : List UInt8} {r : Record F i} (h : Record.decode i bytes = .ok r) :
    ∃ f : RecordForm F i, f.bytes = bytes ∧ f.value = r ∧
      (∀ g : RecordForm F i, g.bytes = bytes → g = f) ∧
      ∃ again, r.encode = .ok again ∧ (again = bytes ↔ f.Canonical) := by
  obtain ⟨f, rfl, rfl⟩ := Record.exists_form_of_decode h
  refine ⟨f, rfl, rfl, fun g hg => RecordForm.bytes_injective hF hg, f.value.bytes, ?_, ?_⟩
  · exact Record.encode_eq_ok f.lengths_value_le
  · exact (f.canonical_iff hF).symm

theorem encode_decode_iff_canonical_chain :
    Record.decode () [2, 0, 0, 0, 255, 255, 255, 255] = .ok (Record.zero (F := chain) ()) ∧
      ∃ f : RecordForm chain (), f.bytes = [2, 0, 0, 0, 255, 255, 255, 255] ∧ ¬ f.Canonical := by
  refine ⟨rfl, ?_⟩
  obtain ⟨f, hb, -, -, again, he, hc⟩ :=
    Record.encode_decode_iff_canonical tag_chain
      (show Record.decode () [2, 0, 0, 0, 255, 255, 255, 255] = .ok (.zero ()) from rfl)
  refine ⟨f, hb, fun h => ?_⟩
  have ha : again = [2, 0, 0, 0, 255, 255, 255, 255] := hc.2 h
  rw [ha] at he
  exact absurd he (by decide)

end WireProtocol.Wire
