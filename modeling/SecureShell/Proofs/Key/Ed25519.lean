import SecureShell.Key.Ed25519
import SecureShell.Proofs.Key.Codec

/-!
# Keys and their identities

An identity is any byte string, and it is an Ed25519 key if the reader of keys takes all of it.
Since that reader is canonical, the key has been written as just these bytes
(`Identity.asEd25519?_eq_some_iff_encode`): there is no second way to spell its name, its length or
what follows it. So a key has one identity (`Ed25519PublicKey.identity`), and what holds of
identities as byte strings, that two of them are different, holds of the keys that they are.
-/

namespace SecureShell

open Wire

namespace Ed25519PublicKey

/-- The identity of a key is the key as it is written. -/
theorem encode_eq_ok_identity (k : Ed25519PublicKey) : encode k = .ok k.identity.blob := by
  rw [identity, encode_eq_ok_iff_frames.2 rfl]

/-- A key is its encoded point. -/
theorem bytes_inj {k l : Ed25519PublicKey} : k.bytes = l.bytes ↔ k = l := by
  refine ⟨fun h ↦ ?_, congrArg bytes⟩
  obtain ⟨point, hpoint⟩ := k
  cases h
  rfl

end Ed25519PublicKey

namespace Identity

variable {b c : Identity} {k l : Ed25519PublicKey}

/-- The algorithm of an identity is the name in its first frame, whatever stands after that. -/
theorem algorithm_eq_of_frame {name : String} {rest : Bytes}
    (hname : (utf8 name).length ≤ 0xffffffff)
    (hblob : b.blob = bigEndian 4 (utf8 name).length ++ utf8 name ++ rest) :
    b.algorithm = name := by
  rw [algorithm, hblob, Reads.framedText hname rest]
  rfl

/-- **An identity is a key if the key is written as it.** -/
theorem asEd25519?_eq_some_iff_encode : b.asEd25519? = some k ↔ encode k = .ok b.blob := by
  rw [asEd25519?, ← decode_eq_ok_iff_encode]
  rcases (decode b.blob : Except CodecError Ed25519PublicKey) with e | l
  · simp [Except.toOption]
  · simp [Except.toOption]

/-- An identity is a key if it is the identity of the key. -/
theorem asEd25519?_eq_some_iff : b.asEd25519? = some k ↔ b = k.identity := by
  rw [asEd25519?_eq_some_iff_encode, k.encode_eq_ok_identity, Except.ok.injEq]
  exact ⟨fun h ↦ (congrArg Identity.mk h).symm, fun h ↦ congrArg blob h.symm⟩

theorem asEd25519?_identity (k : Ed25519PublicKey) : k.identity.asEd25519? = some k :=
  asEd25519?_eq_some_iff.2 rfl

/-- The algorithm of a key can be read off its identity. -/
theorem algorithm_of_asEd25519? (h : b.asEd25519? = some k) :
    b.algorithm = Ed25519PublicKey.name :=
  algorithm_eq_of_frame Ed25519PublicKey.length_name_le
    (Ed25519PublicKey.encode_eq_ok_iff_frames.1 (asEd25519?_eq_some_iff_encode.1 h))

/-- **No two identities are one key.** -/
theorem eq_of_asEd25519? (hb : b.asEd25519? = some k) (hc : c.asEd25519? = some l)
    (h : k.bytes = l.bytes) : b = c := by
  rw [asEd25519?_eq_some_iff.1 hb, asEd25519?_eq_some_iff.1 hc, Ed25519PublicKey.bytes_inj.1 h]

end Identity

/-- **What the verifier accepts**: a signature that names the algorithm, under an identity that is a
key, if the curve says so of the encoded point of this key. -/
theorem Ed25519PublicKey.verifier_eq_ok_iff {b : Identity} {message : Bytes} {s : Signature} :
    verifier.verify b message s = .ok () ↔ s.algorithm = name ∧
      ∃ k, b.asEd25519? = some k ∧ Curve.Ed25519.verify k.bytes message s.data = true := by
  show verify b message s = .ok () ↔ _
  rw [verify]
  split
  · rename_i hname
    exact ⟨fun h ↦ (nomatch h), fun h ↦ absurd h.1 hname⟩
  · rename_i hname
    rw [and_iff_right (not_not.1 hname)]
    rcases b.asEd25519? with - | k
    · simp
    · simp

end SecureShell
