import SecureShell.Algorithm.Catalog
import SecureShell.Proofs.Agent.Notice
import SecureShell.Proofs.Key.Ed25519

/-!
# Ed25519 keys in an agent

An agent tells keys apart by the bytes of their identities, and a verifier by the points that they
encode. For Ed25519 keys both come to the same, since a key has one identity: no two records of an
agent are of one key (`Agent.identities_of_keys`).

What an agent signs with such a key is accepted by whoever receives it. The signature depends on
the key and the data only, and the algorithm that is built in under the name on the signature
accepts it after it has travelled (`Agent.signatures_accepted`). That a point and a number that were
computed for a signature also satisfy its equation is a matter of the curve and taken for granted;
everything around it, names, frames, lengths and look-ups, is not.

An agent may hold private keys of other types next to these. Which types these are makes no
difference, so they are left open: a private key is an Ed25519 key or one of some other type.
-/

namespace SecureShell

open Wire

/-- Private keys of one type or another. -/
instance {κ κ' : Type} [SigningKey κ] [SigningKey κ'] : SigningKey (κ ⊕ κ') where
  publicKey k := k.elim SigningKey.publicKey SigningKey.publicKey
  sign k data := match k with
    | .inl k => (SigningKey.sign k data).map id .inl
    | .inr k => (SigningKey.sign k data).map id .inr

/-! ### Signatures that travel -/

/-- The built-in algorithm of Ed25519 keys is found under its name. -/
theorem Registry.instantiate_builtinPublicKey {σ : Type} (x : σ) :
    builtinPublicKey.instantiate Ed25519PublicKey.name x =
      (.quiet (.ok (some Ed25519PublicKey.verifier)), x) := by
  have hname : isAlgorithmName Ed25519PublicKey.name = true := by decide
  have hregistry : (builtinPublicKey : Registry σ Verifier) =
      ((Registry.empty .publicKey).register Ed25519PublicKey.name (some ed25519Factory)).2 := rfl
  rw [hregistry, register, if_pos hname]
  rfl

/-- What a signature is worth to those who receive it with the identity of its key: both arrive, and
the built-in algorithm of the name on the signature accepts it. -/
def Signature.AcceptedUnder (s : Signature) (k : Identity) (data : Bytes) : Prop :=
  ∃ b c, encode s = .ok b ∧ encode k = .ok c ∧
    ∃ s' k', decode b = .ok s' ∧ decode c = .ok k' ∧
      ∀ {σ : Type} (x : σ), ∃ v : Verifier,
        Registry.builtinPublicKey.instantiate s'.algorithm x = (.quiet (.ok (some v)), x) ∧
          v.verify k' data s' = .ok ()

namespace Ed25519SigningKey

theorem length_blob_publicKey (k : Ed25519SigningKey) : k.publicKey.blob.length = 51 := by
  have hblob := Ed25519PublicKey.encode_eq_ok_iff_frames.1
    (Ed25519PublicKey.ofSeed k.seed).encode_eq_ok_identity
  have hname : (utf8 Ed25519PublicKey.name).length = 11 := by decide
  rw [publicKey, hblob]
  simp only [List.length_append, length_bigEndian, hname, Ed25519PublicKey.length_bytes]

/-- The public half of a key can be written. -/
theorem exists_encode_publicKey (k : Ed25519SigningKey) : ∃ c, encode k.publicKey = .ok c := by
  refine ⟨_, encode_eq_ok_iff.2 ⟨?_, rfl⟩⟩
  show (Emission.framed k.publicKey.blob).complete = true
  rw [Emission.complete_framed, k.length_blob_publicKey]
  rfl

/-- The signatures of a key can be written. -/
theorem exists_encode_sign (k : Ed25519SigningKey) (data : Bytes) :
    ∃ b, encode (k.sign data) = .ok b := by
  have hname : (utf8 Ed25519PublicKey.name).length = 11 := by decide
  rw [Signature.exists_encode_signature_iff]
  show 8 + (utf8 Ed25519PublicKey.name).length + (Curve.Ed25519.sign k.seed data).length ≤ _
  rw [hname, Curve.Ed25519.length_sign]
  omega

/-- **The signature of a key is accepted**, given that the curve accepts it. -/
theorem acceptedUnder_sign (k : Ed25519SigningKey) {data : Bytes}
    (hcurve : Curve.Ed25519.verify (Curve.Ed25519.publicKey k.seed) data
      (Curve.Ed25519.sign k.seed data) = true) :
    (k.sign data).AcceptedUnder k.publicKey data := by
  obtain ⟨b, hb⟩ := k.exists_encode_sign data
  obtain ⟨c, hc⟩ := k.exists_encode_publicKey
  have hkey : k.publicKey.asEd25519? = some (Ed25519PublicKey.ofSeed k.seed) :=
    Identity.asEd25519?_identity (Ed25519PublicKey.ofSeed k.seed)
  have hverify : Ed25519PublicKey.verifier.verify k.publicKey data (k.sign data) = .ok () :=
    Ed25519PublicKey.verifier_eq_ok_iff.2 ⟨rfl, _, hkey, hcurve⟩
  exact ⟨b, c, hb, hc, k.sign data, k.publicKey, decode_eq_ok_iff_encode.2 hb,
    decode_eq_ok_iff_encode.2 hc, fun x ↦ ⟨_, Registry.instantiate_builtinPublicKey x, hverify⟩⟩

end Ed25519SigningKey

variable {κ π ι μ : Type} [SigningKey κ] [Policy π]

/-- What comes of a request for a signature of a stored key is up to its private key, if the policy
allows the use. -/
theorem Keyring.signed_of_record? {s : Keyring κ π} {k : Identity} {r : KeyRecord κ π} {now : ℕ}
    (hr : s.record? k = some r) (hadmits : Policy.admits r.policy now = true) (data : Bytes) :
    s.signed now k data =
      (SigningKey.sign r.privateKey data).1.mapError fun _ ↦ .signingFailed := by
  rw [signed, granted_of_record? hr, if_pos hadmits]

namespace Agent

variable [DecidableEq ι]

/-! ### One record for each key -/

/-- **An identity is a key if it is the encoding of the key**, and then it has the name of the
algorithm. So two identities are two keys, the verifier looks at nothing but the encoded point of
the key, and after no run of an agent are there two records of one key. -/
theorem identities_of_keys [Listener ι κ π μ] (history : List (Moment μ × Request κ π ι)) :
    (∀ (b : Identity) (k : Ed25519PublicKey), (b.asEd25519? = some k ↔ encode k = .ok b.blob) ∧
      (b.asEd25519? = some k → b.algorithm = "ssh-ed25519")) ∧
    (∀ (b : Identity) (message : Bytes) (s : Signature),
      Ed25519PublicKey.verifier.verify b message s = .ok () ↔ s.algorithm = "ssh-ed25519" ∧
        ∃ k, b.asEd25519? = some k ∧ Curve.Ed25519.verify k.bytes message s.data = true) ∧
    (∀ (b c : Identity) (k l : Ed25519PublicKey), b.asEd25519? = some k → c.asEd25519? = some l →
      b ≠ c → k.bytes ≠ l.bytes) ∧
    (ofRun history : Agent κ π ι).keyring.records.Pairwise fun q r ↦
      ∀ k l, q.publicKey.asEd25519? = some k → r.publicKey.asEd25519? = some l →
        k.bytes ≠ l.bytes := by
  have hdifferent : ∀ (b c : Identity) (k l : Ed25519PublicKey), b.asEd25519? = some k →
      c.asEd25519? = some l → b ≠ c → k.bytes ≠ l.bytes := fun b c k l hb hc hne h ↦
    hne (Identity.eq_of_asEd25519? hb hc h)
  refine ⟨fun b k ↦ ⟨Identity.asEd25519?_eq_some_iff_encode, Identity.algorithm_of_asEd25519?⟩,
    fun b message s ↦ Ed25519PublicKey.verifier_eq_ok_iff, hdifferent, ?_⟩
  have hdistinct : (ofRun history : Agent κ π ι).keyring.records.Pairwise
      fun q r ↦ q.publicKey ≠ r.publicKey := List.pairwise_map.1 (distinct_ofRun history)
  exact hdistinct.imp fun hne k l hk hl ↦ hdifferent _ _ k l hk hl hne

/-! ### Signatures of a stored key -/

/-- A signature is the answer, unless a listener raises when it is told. -/
theorem answer_of_signed_eq_ok [Listener ι κ π μ] {a : Agent κ π ι} {now : Moment μ}
    {k : Identity} {data : Bytes} {s : Signature} (h : a.keyring.signed now.clock k data = .ok s)
    (path : List ForwardingHop) :
    (a.serve now (.sign k path data)).answer =
      if (a.serve now (.sign k path data)).agent.raises now.memory (.used hashAndSign) then none
      else some (.signature (.ok s)) := by
  have hevent : a.keyring.event? now.clock (.sign k path data : Request κ π ι) =
      some (.used hashAndSign) := by
    rw [Keyring.event?, h]
    rfl
  rw [(announces_of_event?_eq_some now _ hevent).answer, answerTo, h]

/-- **Signatures of an agent are accepted by those who receive them.** A seed of thirty-two bytes
gives a key, and for all data there is a signature that is accepted under the identity of this key.
It is what the agent answers after every run that leaves the key stored under its own identity with
a policy that allows the use, whatever way the request came, whether the agent is locked or not,
and whatever other keys there are; only a listener that raises can take the answer away. It is
assumed that the curve accepts what it has signed. -/
theorem signatures_accepted [Listener ι (Ed25519SigningKey ⊕ κ) π μ] {seed data : Bytes}
    (hseed : seed.length = 32)
    (hcurve : Curve.Ed25519.verify (Curve.Ed25519.publicKey seed) data
      (Curve.Ed25519.sign seed data) = true) :
    ∃ k s, Ed25519SigningKey.ofSeed seed = .ok k ∧ s.AcceptedUnder k.publicKey data ∧
      ∀ (history : List (Moment μ × Request (Ed25519SigningKey ⊕ κ) π ι)) (now : Moment μ)
        (path : List ForwardingHop) (r : KeyRecord (Ed25519SigningKey ⊕ κ) π),
        (ofRun history).keyring.record? k.publicKey = some r → r.privateKey = .inl k →
        Policy.admits r.policy now.clock = true →
          let o := (ofRun history).serve now (.sign k.publicKey path data)
          o.answer = if o.agent.raises now.memory (.used hashAndSign) then none
            else some (.signature (.ok s)) := by
  have hkey : Ed25519SigningKey.ofSeed seed = .ok ⟨seed, hseed⟩ := dif_pos hseed
  refine ⟨⟨seed, hseed⟩, _, hkey, Ed25519SigningKey.acceptedUnder_sign ⟨seed, hseed⟩ hcurve,
    fun history now path r hr hprivate hadmits ↦ answer_of_signed_eq_ok ?_ path⟩
  rw [Keyring.signed_of_record? hr hadmits, hprivate]
  rfl

/-! ### A key next to another one -/

/-- A key that may be used once. -/
def onceRecord : KeyRecord (Ed25519SigningKey ⊕ Ed25519SigningKey) UsageLimits :=
  let k : Ed25519SigningKey := ⟨List.replicate 32 7, rfl⟩
  ⟨k.publicKey, .inl k, "once", ⟨some 1, none, 0, 0⟩⟩

/-- There are a listener and another key, and the agent is locked, when the key is added. -/
def crowdedRun :
    List (Moment Unit × Request (Ed25519SigningKey ⊕ Ed25519SigningKey) UsageLimits Watcher) :=
  [(0, .listen ⟨1⟩), (1, .add ⟨⟨[2]⟩, .inr ⟨List.replicate 32 2, rfl⟩, "other", .unlimited 1⟩),
    (2, .lock "x")]

/-- The key is stored as it was added. -/
theorem record?_crowdedRun : (ofRun (crowdedRun ++ [(3, .add onceRecord)])).keyring.record?
    onceRecord.publicKey = some onceRecord := by
  have habsent : onceRecord.publicKey ∉ (ofRun crowdedRun).keyring.keys := by
    intro h
    have hother : onceRecord.publicKey = ⟨[2]⟩ := List.mem_singleton.1 h
    have hlength : onceRecord.publicKey.blob.length = 51 :=
      Ed25519SigningKey.length_blob_publicKey _
    rw [hother] at hlength
    cases hlength
  have hadd : (ofRun (crowdedRun ++ [(3, .add onceRecord)])).keyring =
      ((ofRun crowdedRun).keyring.insert onceRecord).2 := by
    rw [ofRun_append]
    exact keyring_serve _ (3 : Moment Unit) (.add onceRecord)
  refine (Keyring.record?_eq_some_iff (distinct_ofRun _)).2 ⟨?_, rfl⟩
  rw [hadd, Keyring.insert_eq, if_neg habsent]
  exact List.mem_append_right _ List.mem_cons_self

/-- The curve accepts what it has signed with the seed of the key. -/
theorem verify_sign_once : Curve.Ed25519.verify (Curve.Ed25519.publicKey (List.replicate 32 7))
    [97, 98, 99] (Curve.Ed25519.sign (List.replicate 32 7) [97, 98, 99]) = true := by
  decide +kernel

/-- A locked agent signs for a request that was forwarded, and the signature is accepted. -/
theorem signatures_accepted_once :
    ∃ s, s.AcceptedUnder onceRecord.publicKey [97, 98, 99] ∧
      ((ofRun (crowdedRun ++ [(3, .add onceRecord)])).serve (4 : Moment Unit)
        (.sign onceRecord.publicKey [⟨"a", "::1", 22⟩] [97, 98, 99])).answer =
          some (.signature (.ok s)) := by
  obtain ⟨k, s, hk, haccepted, hanswer⟩ :=
    signatures_accepted (κ := Ed25519SigningKey) (π := UsageLimits) (ι := Watcher) (μ := Unit) rfl
      verify_sign_once
  obtain rfl : _ = k := Except.ok.inj hk
  refine ⟨s, haccepted,
    (hanswer _ 4 [⟨"a", "::1", 22⟩] onceRecord record?_crowdedRun rfl rfl).trans (if_neg ?_)⟩
  rw [raises_of_calm Watcher.calm]
  exact Bool.false_ne_true

end Agent

end SecureShell
