import SecureShell.Negotiation.Offer
import SecureShell.Proofs.Algorithm.Suite
import SecureShell.Proofs.Negotiation.Choice
import SecureShell.Proofs.Negotiation.RoundTrip

/-!
# Offers: the lists of a message

Every list of an offer is a list of names of its category with one of them moved to the front
(`Slot.names_offer`), so it can travel as soon as the names can be advertised and the category is
not too long (`KexInit.travels_of_mem_lists_offer`). How long a list is when joined does not depend
on the order of its names, so the question is one of the category and not of the slot.
-/

namespace SecureShell

open Wire

/-! ### Slots -/

/-- The eight lists of a message that decide on an algorithm. -/
inductive Slot where
  /-- Key exchange methods. -/
  | kex
  /-- Host key algorithms. -/
  | hostKey
  /-- Encryption from the client to the server. -/
  | cipherToServer
  /-- Encryption from the server to the client. -/
  | cipherToClient
  /-- Message authentication from the client to the server. -/
  | macToServer
  /-- Message authentication from the server to the client. -/
  | macToClient
  /-- Compression from the client to the server. -/
  | compressionToServer
  /-- Compression from the server to the client. -/
  | compressionToClient

namespace Slot

/-- The category whose names stand in a slot. -/
def category : Slot → Category
  | kex => .kex
  | hostKey => .publicKey
  | cipherToServer | cipherToClient => .cipher
  | macToServer | macToClient => .mac
  | compressionToServer | compressionToClient => .compression

/-- The list of a message in a slot. -/
def names (m : KexInit) : Slot → List String
  | kex => m.kex
  | hostKey => m.hostKey
  | cipherToServer => m.cipher.clientToServer
  | cipherToClient => m.cipher.serverToClient
  | macToServer => m.mac.clientToServer
  | macToClient => m.mac.serverToClient
  | compressionToServer => m.compression.clientToServer
  | compressionToClient => m.compression.serverToClient

/-- The preference for a slot. -/
def preferred (p : Preferences) : Slot → String
  | kex => p.kex
  | hostKey => p.hostKey
  | cipherToServer => p.cipher.clientToServer
  | cipherToClient => p.cipher.serverToClient
  | macToServer => p.mac.clientToServer
  | macToClient => p.mac.serverToClient
  | compressionToServer => p.compression.clientToServer
  | compressionToClient => p.compression.serverToClient

/-- **The wiring of an offer**: each slot has the names of its category, with the preference for
that very slot in front. -/
theorem names_offer {σ : Type} (x : Suite σ) (p : Preferences) (c : Cookie) (slot : Slot) :
    slot.names (KexInit.offer x p c) = moveToFront (x.names slot.category) (slot.preferred p) := by
  cases slot <;> rfl

end Slot

/-! ### Offers can travel -/

/-- The joined names are as long in any order. -/
theorem Wire.NameList.length_join_of_perm {names names' : List String} (h : names'.Perm names) :
    (utf8 (join names')).length = (utf8 (join names)).length := by
  have hsum := h.foldr_eq' (f := fun (name : String) size ↦ (utf8 name).length + size)
    (fun _ _ _ _ _ ↦ Nat.add_left_comm _ _ _) 0
  rw [← joinedSize_eq, ← joinedSize_eq, joinedSize, joinedSize, h.length_eq, hsum]

/-- The joined names of every category are not longer than a length field can say. -/
def Suite.Fits {σ : Type} (x : Suite σ) : Prop :=
  ∀ category, (utf8 (",".intercalate (x.names category))).length ≤ 0xffffffff

namespace KexInit

variable {σ : Type} {x : Suite σ}

/-- A list of an offer is empty or the list of a slot. -/
theorem mem_lists_offer {p : Preferences} {c : Cookie} {names : List String}
    (h : names ∈ (offer x p c).lists) :
    names = [] ∨ ∃ slot : Slot, names = slot.names (offer x p c) := by
  simp only [lists, List.mem_cons, List.not_mem_nil, or_false] at h
  obtain h | h | h | h | h | h | h | h | h | h := h
  · exact Or.inr ⟨.kex, h⟩
  · exact Or.inr ⟨.hostKey, h⟩
  · exact Or.inr ⟨.cipherToServer, h⟩
  · exact Or.inr ⟨.cipherToClient, h⟩
  · exact Or.inr ⟨.macToServer, h⟩
  · exact Or.inr ⟨.macToClient, h⟩
  · exact Or.inr ⟨.compressionToServer, h⟩
  · exact Or.inr ⟨.compressionToClient, h⟩
  · exact Or.inl h
  · exact Or.inl h

theorem travels_nil : NameList.Travels [] := by
  decide

/-- **What a side offers can be sent**, if its names can be advertised and its categories fit. -/
theorem travels_of_mem_lists_offer
    (hvalid : ∀ category, ∀ n ∈ x.names category, isAlgorithmName n = true) (hfits : x.Fits)
    (p : Preferences) (c : Cookie) :
    ∀ names ∈ (offer x p c).lists, NameList.Travels names := by
  intro names hmem
  obtain rfl | ⟨slot, rfl⟩ := mem_lists_offer hmem
  · exact travels_nil
  · have hperm : (slot.names (offer x p c)).Perm (x.names slot.category) := by
      rw [Slot.names_offer]
      exact moveToFront_perm _ _
    have hlistable : ∀ n ∈ slot.names (offer x p c), n ≠ "" ∧ ',' ∉ n.toList := fun n hn ↦
      listable_of_isAlgorithmName (hvalid slot.category n (hperm.mem_iff.1 hn))
    refine ⟨fun n hn ↦ (hlistable n hn).1, fun n hn ↦ (hlistable n hn).2, ?_⟩
    have hlength := NameList.length_join_of_perm hperm
    exact hlength.trans_le (hfits slot.category)

end KexInit

end SecureShell
