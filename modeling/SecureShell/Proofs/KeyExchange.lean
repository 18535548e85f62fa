import SecureShell.KeyExchange
import SecureShell.Proofs.Curve.X25519

/-!
# A secret is used once

An instance of a key exchange method is asked for a shared secret any number of times, with any
public keys. What is left of it says whether one of these had the right form
(`KeyExchange.after_eq`), and with that each answer is known: a public key of the wrong form is
refused and changes nothing, the first one of the right form uses the secret up, and for the others
there is none left (`KeyExchange.UsedOnce`). This is so for all methods; that the secret is used up
also when the shared secret is refused is because a method cannot give it back.

Over Curve25519 two sides that are given each other's public keys come to the same result
(`Curve25519Sha256.agree_comm`).
-/

namespace SecureShell

namespace KeyExchange

/-- An instance after it was asked for a shared secret with one public key after the other. -/
def after (x : KeyExchange) (peers : List Bytes) : KeyExchange :=
  peers.foldl (fun x peer ↦ (x.sharedSecret peer).2) x

/-- What an instance answers to one public key after the other. -/
def answers (x : KeyExchange) : List Bytes → List (Except CryptoError Secret)
  | [] => []
  | peer :: peers => (x.sharedSecret peer).1 :: answers (x.sharedSecret peer).2 peers

/-- An instance whose secret is used up. -/
def spent (x : KeyExchange) : KeyExchange := { x with secret := none }

variable {x : KeyExchange} {peer s : Bytes}

/-! ### One public key -/

theorem sharedSecret_of_not_accepts (h : x.method.accepts peer = false) :
    x.sharedSecret peer = (.error .invalidPublicKey, x) := by
  rw [sharedSecret, h]
  rfl

theorem sharedSecret_of_accepts (h : x.method.accepts peer = true) (hs : x.secret = some s) :
    x.sharedSecret peer = (x.method.agree s peer, x.spent) := by
  rw [sharedSecret, if_pos h, hs]
  rfl

theorem sharedSecret_of_secret_eq_none (h : x.method.accepts peer = true)
    (hs : x.secret = none) : x.sharedSecret peer = (.error .notInitialized, x) := by
  rw [sharedSecret, if_pos h, hs]

/-- Without a secret there is an error, and nothing changes. -/
theorem exists_error_of_secret_eq_none (hs : x.secret = none) (peer : Bytes) :
    ∃ e, x.sharedSecret peer = (.error e, x) := by
  rcases h : x.method.accepts peer with - | -
  · exact ⟨_, sharedSecret_of_not_accepts h⟩
  · exact ⟨_, sharedSecret_of_secret_eq_none h hs⟩

/-- **What one public key makes of an instance** depends on its form only. -/
theorem sharedSecret_snd (x : KeyExchange) (peer : Bytes) :
    (x.sharedSecret peer).2 = if x.method.accepts peer then x.spent else x := by
  rw [sharedSecret]
  split
  · rcases hs : x.secret with - | s
    · obtain ⟨method, publicKey, secret⟩ := x
      cases hs
      rfl
    · rfl
  · rfl

/-! ### Runs -/

/-- **What is left of an instance**: the secret, until a public key has the right form. -/
theorem after_eq (x : KeyExchange) (peers : List Bytes) :
    x.after peers = if peers.any x.method.accepts then x.spent else x := by
  induction peers generalizing x with
  | nil => rfl
  | cons peer peers ih =>
    show (x.sharedSecret peer).2.after peers = _
    rw [sharedSecret_snd, List.any_cons]
    rcases h : x.method.accepts peer with - | -
    · exact ih x
    · rw [if_pos rfl, ih x.spent, Bool.true_or, if_pos rfl]
      exact ite_self x.spent

/-- What an instance with a secret answers at any time. -/
structure UsedOnce (x : KeyExchange) (s : Bytes) : Prop where
  /-- A public key of the wrong form is refused, and nothing changes. -/
  refused : ∀ before peer, x.method.accepts peer = false →
    (x.after before).sharedSecret peer = (.error .invalidPublicKey, x.after before)
  /-- The first public key of the right form is combined with the secret, which is used up whatever
  comes of it. -/
  used : ∀ before peer, x.method.accepts peer = true →
    (∀ p ∈ before, x.method.accepts p = false) →
    (x.after before).sharedSecret peer = (x.method.agree s peer, x.spent)
  /-- For all others there is no secret left, and nothing changes. -/
  spent : ∀ before peer, x.method.accepts peer = true →
    (∃ p ∈ before, x.method.accepts p = true) →
    (x.after before).sharedSecret peer = (.error .notInitialized, x.after before)

/-- **A secret is used once.** -/
theorem usedOnce (hs : x.secret = some s) : x.UsedOnce s where
  refused before peer h := by
    have hmethod : (x.after before).method = x.method := by
      rw [after_eq]
      split <;> rfl
    exact sharedSecret_of_not_accepts (by rw [hmethod, h])
  used before peer h hbefore := by
    have hnone : ¬before.any x.method.accepts = true := by
      simpa using hbefore
    rw [after_eq, if_neg hnone, sharedSecret_of_accepts h hs]
  spent before peer h hbefore := by
    rw [after_eq, if_pos (List.any_eq_true.2 hbefore)]
    exact sharedSecret_of_secret_eq_none h rfl

/-- Without a secret there are no shared secrets. -/
theorem isOk_of_mem_answers (hs : x.secret = none) {peers : List Bytes}
    {r : Except CryptoError Secret} (hr : r ∈ x.answers peers) : r.isOk = false := by
  induction peers with
  | nil => cases hr
  | cons peer peers ih =>
    obtain ⟨e, herror⟩ := exists_error_of_secret_eq_none hs peer
    rw [answers, herror] at hr
    rcases List.mem_cons.1 hr with rfl | hr
    · rfl
    · exact ih hr

/-- **There is at most one shared secret**, however often an instance is asked. -/
theorem countP_isOk_answers_le (x : KeyExchange) (peers : List Bytes) :
    (x.answers peers).countP (·.isOk) ≤ 1 := by
  induction peers generalizing x with
  | nil => exact Nat.zero_le 1
  | cons peer peers ih =>
    rw [answers, sharedSecret_snd]
    rcases h : x.method.accepts peer with - | -
    · rw [sharedSecret_of_not_accepts h, List.countP_cons_of_neg Bool.false_ne_true]
      exact ih x
    -- The secret is used up now, so this is the last answer that can be one.
    · have hrest : (x.spent.answers peers).countP (·.isOk) = 0 :=
        List.countP_eq_zero.2 fun r hr ↦ Bool.eq_false_iff.1 (isOk_of_mem_answers rfl hr)
      rw [List.countP_cons, if_pos rfl, hrest]
      split
      · exact Nat.le_refl 1
      · exact Nat.zero_le 1

end KeyExchange

/-! ### The method over Curve25519 -/

namespace Curve25519Sha256

theorem accepts_iff {peer : Bytes} : method.accepts peer = true ↔ peer.length = 32 := beq_iff_eq

theorem not_accepts_iff {peer : Bytes} : method.accepts peer = false ↔ peer.length ≠ 32 := by
  rw [← Bool.not_eq_true, accepts_iff]

theorem agree_ofSecret (a : Bytes) : (ofSecret a).method.agree = agree := by
  rw [ofSecret, method]

/-- **Two sides come to the same result**, since multiples of multiples do not depend on the
order. -/
theorem agree_comm (a b : Bytes) :
    agree a (Curve.X25519.publicKey b) = agree b (Curve.X25519.publicKey a) := by
  rw [agree, agree, Curve.X25519.multiply_comm]

/-- A shared secret is the product of the own secret and the point of the peer, unless that is all
zero. -/
theorem agree_eq_ok_iff {a peer : Bytes} {s : Secret} :
    agree a peer = .ok s ↔
      s.bytes = Curve.X25519.multiply a peer ∧ ∃ y ∈ s.bytes, y ≠ 0 := by
  have hzero : (Curve.X25519.multiply a peer).all (· == 0) = true ↔
      ¬∃ y ∈ Curve.X25519.multiply a peer, y ≠ 0 := by
    simp only [List.all_eq_true, beq_iff_eq, not_exists, not_and, not_not]
  rw [agree]
  simp only [hzero]
  split
  · rename_i h
    refine ⟨fun hok ↦ (nomatch hok), ?_⟩
    rintro ⟨hbytes, hs⟩
    exact absurd (hbytes ▸ hs) h
  · rename_i h
    constructor
    · rintro ⟨⟩
      exact ⟨rfl, not_not.1 h⟩
    · rintro ⟨hbytes, -⟩
      rw [← hbytes]

section Calls

variable {a : Bytes} {before : List Bytes} {peer : Bytes}

theorem sharedSecret_of_length_ne (hpeer : peer.length ≠ 32) :
    ((ofSecret a).after before).sharedSecret peer =
      (.error .invalidPublicKey, (ofSecret a).after before) :=
  (KeyExchange.usedOnce rfl).refused before peer (not_accepts_iff.2 hpeer)

/-- The first public key of thirty-two bytes. -/
theorem sharedSecret_of_first (hpeer : peer.length = 32) (hbefore : ∀ p ∈ before, p.length ≠ 32) :
    ((ofSecret a).after before).sharedSecret peer = (agree a peer, (ofSecret a).spent) := by
  rw [← agree_ofSecret]
  exact (KeyExchange.usedOnce rfl).used before peer (accepts_iff.2 hpeer)
    fun p hp ↦ not_accepts_iff.2 (hbefore p hp)

/-- Those after it. -/
theorem sharedSecret_of_later (hpeer : peer.length = 32) (hbefore : ∃ p ∈ before, p.length = 32) :
    ((ofSecret a).after before).sharedSecret peer =
      (.error .notInitialized, (ofSecret a).after before) := by
  obtain ⟨p, hp, hlength⟩ := hbefore
  exact (KeyExchange.usedOnce rfl).spent before peer (accepts_iff.2 hpeer)
    ⟨p, hp, accepts_iff.2 hlength⟩

/-- **A shared secret has thirty-two bytes that are not all zero.** -/
theorem length_of_sharedSecret_eq_ok {s : Secret}
    (h : (((ofSecret a).after before).sharedSecret peer).1 = .ok s) :
    s.bytes.length = 32 ∧ ∃ y ∈ s.bytes, y ≠ 0 := by
  by_cases hpeer : peer.length = 32
  · by_cases hbefore : ∃ p ∈ before, p.length = 32
    · rw [sharedSecret_of_later hpeer hbefore] at h
      cases h
    · rw [sharedSecret_of_first hpeer fun p hp hlength ↦ hbefore ⟨p, hp, hlength⟩] at h
      dsimp only at h
      obtain ⟨hbytes, hnonzero⟩ := agree_eq_ok_iff.1 h
      exact ⟨hbytes ▸ Curve.X25519.length_multiply a peer, hnonzero⟩
  · rw [sharedSecret_of_length_ne hpeer] at h
    cases h

end Calls

/-- What a new instance answers to the public key of another one. -/
theorem answer_to_publicKey (a b : Bytes) : ((ofSecret a).sharedSecret (ofSecret b).publicKey).1 =
    agree a (Curve.X25519.publicKey b) := by
  show ((ofSecret a).sharedSecret (Curve.X25519.publicKey b)).1 = _
  have hlength := accepts_iff.2 (Curve.X25519.length_publicKey b)
  rw [KeyExchange.sharedSecret_of_accepts hlength rfl, agree_ofSecret]

/-- **An instance over Curve25519 agrees on one secret at most, and both sides on the same one.** A
public key that does not have thirty-two bytes is refused at any time, and nothing changes. The
first one that has is combined with the secret, which is used up, also if the product is all zero
and refused; all others find no secret. What comes of it has thirty-two bytes that are not all zero,
and there is at most one of them. Two instances that are given each other's public keys answer the
same, be it a shared secret or an error. -/
theorem secret_used_once (a : Bytes) :
    let x := ofSecret a
    (∀ before peer, peer.length ≠ 32 →
      (x.after before).sharedSecret peer = (.error .invalidPublicKey, x.after before)) ∧
    (∀ before peer, peer.length = 32 → (∀ p ∈ before, p.length ≠ 32) →
      (x.after before).sharedSecret peer =
        (if (Curve.X25519.multiply a peer).all (· == 0) then .error .invalidPublicKey
          else .ok ⟨Curve.X25519.multiply a peer⟩, { x with secret := none })) ∧
    (∀ before peer, peer.length = 32 → (∃ p ∈ before, p.length = 32) →
      (x.after before).sharedSecret peer = (.error .notInitialized, x.after before)) ∧
    (∀ before peer s, ((x.after before).sharedSecret peer).1 = .ok s →
      s.bytes.length = 32 ∧ ∃ y ∈ s.bytes, y ≠ 0) ∧
    (∀ peers, (x.answers peers).countP (·.isOk) ≤ 1) ∧
    ∀ b, (x.sharedSecret (ofSecret b).publicKey).1 =
      ((ofSecret b).sharedSecret x.publicKey).1 := by
  intro x
  refine ⟨fun before peer ↦ sharedSecret_of_length_ne, fun before peer hpeer hbefore ↦ ?_,
    fun before peer ↦ sharedSecret_of_later, fun before peer s ↦ length_of_sharedSecret_eq_ok,
    KeyExchange.countP_isOk_answers_le x, fun b ↦ ?_⟩
  · rw [sharedSecret_of_first hpeer hbefore, agree]
    rfl
  · rw [answer_to_publicKey a b, agree_comm, ← answer_to_publicKey b a]

end Curve25519Sha256

end SecureShell
