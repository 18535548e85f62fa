import SecureShell.Key.Ed25519
import SecureShell.Proofs.Wire.Canonical

/-!
# Keys and signatures on the wire

Identities, signatures and Ed25519 public keys have canonical codecs. A signature is where this is
not a matter of fields one after the other: the writer computes the length of the outer frame by
hand and never builds the inner bytes, while the reader opens the frame and has to fill it. The two
meet in `Signature.length_innerBytes`.
-/

namespace SecureShell

open Wire

instance : Canonical Identity where
  selfDelimiting := SelfDelimiting.framed.map
  reads_iff {b k} := by
    show Reads (Reader.framed >>= fun blob ↦ Pure.pure (Identity.mk blob)) b k ↔ _
    rw [reads_map_iff SelfDelimiting.framed, encode_eq_ok_iff]
    show _ ↔ (Emission.framed k.blob).complete = true ∧ b = (Emission.framed k.blob).bytes
    rw [Emission.complete_framed, decide_eq_true_iff]
    constructor
    · rintro ⟨blob, hblob, rfl⟩
      obtain ⟨hle, rfl⟩ := reads_framed_iff.1 hblob
      exact ⟨hle, (Emission.bytes_framed hle).symm⟩
    · rintro ⟨hle, rfl⟩
      exact ⟨k.blob, reads_framed_iff.2 ⟨hle, Emission.bytes_framed hle⟩, rfl⟩

namespace Signature

/-! ### Signatures -/

/-- What stands in the frame of a signature. -/
def innerBytes (s : Signature) : Bytes :=
  bigEndian 4 (utf8 s.algorithm).length ++ utf8 s.algorithm ++
    (bigEndian 4 s.data.length ++ s.data)

/-- **The length that is computed for the frame is the length of what stands in it.** -/
theorem length_innerBytes (s : Signature) :
    s.innerBytes.length = 8 + (utf8 s.algorithm).length + s.data.length := by
  simp only [innerBytes, List.length_append, length_bigEndian]
  omega

/-- The two frames inside are shorter than the outer one, so it alone decides whether a signature
can be written. -/
theorem encode_eq_ok_iff_frame {s : Signature} {b : Bytes} :
    encode s = .ok b ↔
      s.innerBytes.length ≤ 0xffffffff ∧ b = bigEndian 4 s.innerBytes.length ++ s.innerBytes := by
  rw [encode_eq_ok_iff, length_innerBytes]
  have hemission : emission s =
      Emission.length (8 + (utf8 s.algorithm).length + s.data.length) ++
        Emission.framed (utf8 s.algorithm) ++ Emission.framed s.data := rfl
  have hcomplete : (emission s).complete = true ↔
      8 + (utf8 s.algorithm).length + s.data.length ≤ 0xffffffff := by
    rw [hemission]
    simp only [Emission.complete_append, Emission.complete_length, Emission.complete_framed,
      Bool.and_eq_true, decide_eq_true_eq]
    omega
  rw [hcomplete]
  refine and_congr_right fun hle ↦ ?_
  have hname : (utf8 s.algorithm).length ≤ 0xffffffff := by omega
  have hdata : s.data.length ≤ 0xffffffff := by omega
  have hfront : (Emission.length (8 + (utf8 s.algorithm).length + s.data.length) ++
      Emission.framed (utf8 s.algorithm)).complete = true := by
    simp only [Emission.complete_append, Emission.complete_length, Emission.complete_framed,
      Bool.and_eq_true, decide_eq_true_eq]
    exact ⟨hle, hname⟩
  rw [hemission, Emission.bytes_append hfront, Emission.bytes_append (by simpa using hle),
    Emission.bytes_length hle, Emission.bytes_framed hname, Emission.bytes_framed hdata,
    innerBytes, List.append_assoc]

theorem exists_encode_signature_iff (s : Signature) :
    (∃ b, encode s = .ok b) ↔ 8 + (utf8 s.algorithm).length + s.data.length ≤ 0xffffffff := by
  simp [encode_eq_ok_iff_frame, length_innerBytes]

/-- The reader of what stands in the frame. -/
def readInner : Reader Signature := do
  let algorithm ← Reader.framedText
  let data ← Reader.framed
  return ⟨algorithm, data⟩

theorem selfDelimiting_readInner : SelfDelimiting readInner :=
  SelfDelimiting.framedText.bind fun _ ↦ SelfDelimiting.framed.map

theorem reads_readInner_iff {s : Signature} {b : Bytes} :
    Reads readInner b s ↔
      ((utf8 s.algorithm).length ≤ 0xffffffff ∧ s.data.length ≤ 0xffffffff) ∧ b = s.innerBytes := by
  rw [readInner, reads_bind_iff SelfDelimiting.framedText]
  constructor
  · rintro ⟨algorithm, c, d, rfl, hname, hrest⟩
    obtain ⟨data, hdata, rfl⟩ := (reads_map_iff SelfDelimiting.framed).1 hrest
    obtain ⟨hlename, rfl⟩ := reads_framedText_iff.1 hname
    obtain ⟨hledata, rfl⟩ := reads_framed_iff.1 hdata
    exact ⟨⟨hlename, hledata⟩, rfl⟩
  · rintro ⟨⟨hlename, hledata⟩, rfl⟩
    exact ⟨s.algorithm, _, _, rfl, reads_framedText_iff.2 ⟨hlename, rfl⟩,
      (reads_map_iff SelfDelimiting.framed).2 ⟨s.data, reads_framed_iff.2 ⟨hledata, rfl⟩, rfl⟩⟩

instance : Canonical Signature where
  selfDelimiting := SelfDelimiting.framedBy readInner
  reads_iff {b s} := by
    show Reads (Reader.framedBy readInner) b s ↔ _
    rw [reads_framedBy_iff selfDelimiting_readInner, encode_eq_ok_iff_frame]
    constructor
    · rintro ⟨c, hle, rfl, hc⟩
      obtain ⟨-, rfl⟩ := reads_readInner_iff.1 hc
      exact ⟨hle, rfl⟩
    · rintro ⟨hle, rfl⟩
      refine ⟨s.innerBytes, hle, rfl, reads_readInner_iff.2 ⟨?_, rfl⟩⟩
      rw [length_innerBytes] at hle
      omega

end Signature

/-! ### Ed25519 public keys -/

namespace Ed25519PublicKey

theorem length_name_le : (utf8 name).length ≤ 0xffffffff := by decide

theorem length_bytes_le (k : Ed25519PublicKey) : k.bytes.length ≤ 0xffffffff := by
  rw [k.length_bytes]
  decide

/-- Every key has an encoding: the frame of the name and that of the encoded point. -/
theorem encode_eq_ok_iff_frames {k : Ed25519PublicKey} {b : Bytes} :
    encode k = .ok b ↔
      b = bigEndian 4 (utf8 name).length ++ utf8 name ++
        (bigEndian 4 k.bytes.length ++ k.bytes) := by
  have hemission : emission k = Emission.framed (utf8 name) ++ Emission.framed k.bytes := rfl
  have hname : (Emission.framed (utf8 name)).complete = true := by
    simpa using length_name_le
  rw [encode_eq_ok_iff, hemission, Emission.bytes_append hname,
    Emission.bytes_framed length_name_le, Emission.bytes_framed k.length_bytes_le]
  refine and_iff_right ?_
  rw [Emission.complete_append, hname, Emission.complete_framed]
  simpa using k.length_bytes_le

instance : Canonical Ed25519PublicKey where
  selfDelimiting :=
    (SelfDelimiting.expectText name).bind fun _ ↦ SelfDelimiting.framed.bind fun _ ↦ .dite _
  reads_iff {b k} := by
    rw [encode_eq_ok_iff_frames]
    show Reads (Reader.expectText name >>= fun _ ↦ Reader.framed >>= fun point ↦
      if h : point.length = 32 then Pure.pure (Ed25519PublicKey.mk point h)
        else Reader.fail) b k ↔ _
    rw [reads_bind_iff (SelfDelimiting.expectText name)]
    constructor
    · rintro ⟨u, c, d, rfl, hname, hrest⟩
      obtain ⟨point, e, f, rfl, hpoint, hkey⟩ := (reads_bind_iff SelfDelimiting.framed).1 hrest
      obtain ⟨-, rfl⟩ := reads_framedText_iff.1 (reads_expectText_iff.1 hname)
      obtain ⟨-, rfl⟩ := reads_framed_iff.1 hpoint
      obtain ⟨rfl, hlength, rfl⟩ := reads_dite_iff.1 hkey
      rw [List.append_nil]
    · rintro rfl
      have hname : Reads (Reader.expectText name) _ () :=
        reads_expectText_iff.2 (reads_framedText_iff.2 ⟨length_name_le, rfl⟩)
      have hpoint : Reads Reader.framed _ k.bytes :=
        reads_framed_iff.2 ⟨k.length_bytes_le, rfl⟩
      refine ⟨(), _, _, rfl, hname, (reads_bind_iff SelfDelimiting.framed).2 ?_⟩
      exact ⟨k.bytes, _, [], (List.append_nil _).symm, hpoint,
        reads_dite_iff.2 ⟨rfl, k.length_bytes, rfl⟩⟩

end Ed25519PublicKey

end SecureShell
