import SecureShell.Proofs.Key.Codec
import SecureShell.Proofs.Negotiation.Payload

/-!
# Codecs of nested types

The types that are built from units, words, texts, identities, signatures, cookies and Ed25519 keys
by pairing, to any depth. A `Shape` describes such a type, and its codec is the one that the type
has anyway. So a law of all these codecs is an induction on shapes, with the canonical codecs of the
single types at the leaves and that of pairs at the nodes (`Shape.codec_bijective`).
-/

namespace SecureShell

open Wire

/-- How a type is built by pairing. -/
inductive Shape where
  /-- Nothing. -/
  | unit
  /-- A 32 bit word. -/
  | word
  /-- A text. -/
  | text
  /-- A public key as it travels. -/
  | identity
  /-- A signature. -/
  | signature
  /-- A cookie. -/
  | cookie
  /-- An Ed25519 public key. -/
  | key
  /-- Two values, one after the other. -/
  | pair (first second : Shape)
  deriving DecidableEq, Repr

namespace Shape

/-- The type that a shape describes. -/
def Value : Shape → Type
  | .unit => Unit
  | .word => UInt32
  | .text => String
  | .identity => Identity
  | .signature => Signature
  | .cookie => Cookie
  | .key => Ed25519PublicKey
  | .pair first second => first.Value × second.Value

/-- The writer of a shape is that of its type. -/
instance writable : (s : Shape) → Writable s.Value
  | .unit => inferInstanceAs (Writable Unit)
  | .word => inferInstanceAs (Writable UInt32)
  | .text => inferInstanceAs (Writable String)
  | .identity => inferInstanceAs (Writable Identity)
  | .signature => inferInstanceAs (Writable Signature)
  | .cookie => inferInstanceAs (Writable Cookie)
  | .key => inferInstanceAs (Writable Ed25519PublicKey)
  | .pair first second =>
    have := writable first
    have := writable second
    inferInstanceAs (Writable (first.Value × second.Value))

/-- The reader of a shape is that of its type. -/
instance readable : (s : Shape) → Readable s.Value
  | .unit => inferInstanceAs (Readable Unit)
  | .word => inferInstanceAs (Readable UInt32)
  | .text => inferInstanceAs (Readable String)
  | .identity => inferInstanceAs (Readable Identity)
  | .signature => inferInstanceAs (Readable Signature)
  | .cookie => inferInstanceAs (Readable Cookie)
  | .key => inferInstanceAs (Readable Ed25519PublicKey)
  | .pair first second =>
    have := readable first
    have := readable second
    inferInstanceAs (Readable (first.Value × second.Value))

/-- The lengths that are written in front of something, in the encoding of a value. -/
def framedLengths : (s : Shape) → s.Value → List ℕ
  | .unit, _ => []
  | .word, _ => []
  | .text, (t : String) => [(utf8 t).length]
  | .identity, (k : Identity) => [k.blob.length]
  | .signature, (s : Signature) =>
    [8 + (utf8 s.algorithm).length + s.data.length, (utf8 s.algorithm).length, s.data.length]
  | .cookie, _ => []
  | .key, (k : Ed25519PublicKey) => [(utf8 Ed25519PublicKey.name).length, k.bytes.length]
  | .pair first second, v => first.framedLengths v.1 ++ second.framedLengths v.2

/-- **The codec of every shape is canonical.** -/
instance canonical : (s : Shape) → Canonical s.Value
  | .unit => inferInstanceAs (Canonical Unit)
  | .word => inferInstanceAs (Canonical UInt32)
  | .text => inferInstanceAs (Canonical String)
  | .identity => inferInstanceAs (Canonical Identity)
  | .signature => inferInstanceAs (Canonical Signature)
  | .cookie => inferInstanceAs (Canonical Cookie)
  | .key => inferInstanceAs (Canonical Ed25519PublicKey)
  | .pair first second =>
    have := canonical first
    have := canonical second
    inferInstanceAs (Canonical (first.Value × second.Value))

/-- **A value has an encoding exactly if all lengths that it is framed by can be written.** -/
theorem exists_encode_iff_framedLengths (s : Shape) (v : s.Value) :
    (∃ b, encode v = .ok b) ↔ ∀ n ∈ s.framedLengths v, n ≤ 0xffffffff := by
  induction s with
  | unit | word | cookie =>
    rw [exists_encode_iff]
    exact ⟨fun _ n hn ↦ absurd hn List.not_mem_nil, fun _ ↦ rfl⟩
  | text =>
    rw [exists_encode_iff]
    show (Emission.framed (utf8 v)).complete = true ↔ ∀ n ∈ [(utf8 v).length], n ≤ 0xffffffff
    simp
  | identity =>
    rw [exists_encode_iff]
    show (Emission.framed (Identity.blob v)).complete = true ↔
      ∀ n ∈ [(Identity.blob v).length], n ≤ 0xffffffff
    simp
  | signature =>
    -- The outer frame holds the other two, so their lengths are no further condition.
    refine (Signature.exists_encode_signature_iff v).trans ?_
    simp only [framedLengths, List.forall_mem_cons, List.not_mem_nil, false_implies, implies_true,
      and_true]
    omega
  | key =>
    refine ⟨fun _ ↦ ?_, fun _ ↦ ⟨_, Ed25519PublicKey.encode_eq_ok_iff_frames.2 rfl⟩⟩
    simp only [framedLengths, List.forall_mem_cons, List.not_mem_nil, false_implies, implies_true,
      and_true]
    exact ⟨Ed25519PublicKey.length_name_le, Ed25519PublicKey.length_bytes_le v⟩
  | pair first second hfirst hsecond =>
    rw [framedLengths, List.forall_mem_append, ← hfirst v.1, ← hsecond v.2]
    exact exists_encode_pair_iff

/-- **Values and accepted encodings are in bijection, and encodings end where they end.** For every
shape, a value has an encoding exactly if all lengths that it is framed by can be written; its
encoding is read back whatever follows it, which is left; and what is decoded as the value is its
encoding and nothing else, so no value has two. -/
theorem codec_bijective (s : Shape) :
    (∀ v : s.Value, (∃ b, encode v = .ok b) ↔ ∀ n ∈ s.framedLengths v, n ≤ 0xffffffff) ∧
      (∀ (v : s.Value) (b rest : Bytes), encode v = .ok b →
        (reader : Reader s.Value).run (b ++ rest) = (some v, rest)) ∧
      (∀ (b : Bytes) (v : s.Value), decode b = .ok v ↔ encode v = .ok b) ∧
      ∀ (b c : Bytes) (v : s.Value), decode b = .ok v → decode c = .ok v → b = c := by
  refine ⟨exists_encode_iff_framedLengths s, fun v b rest h ↦ run_encode h rest,
    fun b v ↦ decode_eq_ok_iff_encode, fun b c v hb hc ↦ ?_⟩
  have hencode := decode_eq_ok_iff_encode.1 hb
  rw [decode_eq_ok_iff_encode.1 hc] at hencode
  exact (Except.ok.inj hencode).symm

/-- A signature in a pair of pairs, read in front of other bytes. -/
theorem codec_bijective_nested :
    let s : Shape := .pair (.pair .identity .signature) (.pair .unit (.pair .text .word))
    let v : s.Value := ((⟨[7]⟩, ⟨"a", [9]⟩), ((), ("é", (1 : UInt32))))
    let b : Bytes := [0, 0, 0, 1, 7] ++ [0, 0, 0, 10, 0, 0, 0, 1, 97, 0, 0, 0, 1, 9] ++
      [0, 0, 0, 2, 195, 169] ++ [0, 0, 0, 1]
    encode v = .ok b ∧ (reader : Reader s.Value).run (b ++ [5, 5]) = (some v, [5, 5]) ∧
      ∀ c, decode c = .ok v → c = b := by
  intro s v b
  obtain ⟨-, hruns, hdecode, hunique⟩ := codec_bijective s
  have hencode : encode v = .ok b := by decide
  exact ⟨hencode, hruns v b [5, 5] hencode, fun c hc ↦
    hunique c b v hc ((hdecode b v).2 hencode)⟩

end Shape

end SecureShell
