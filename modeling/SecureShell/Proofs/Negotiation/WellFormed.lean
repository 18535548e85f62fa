import SecureShell.Proofs.Algorithm.Reachable
import SecureShell.Proofs.Negotiation.Agreement

/-!
# Offers are well-formed

Whatever has been done to the registries of a suite, its offer lists every category once over, with
the preferred name of each list in front, and arrives as it was sent (`KexInit.offer_wellFormed`).

Three facts about reachable suites go into this, each at its own place. That names are distinct
makes the preferred name stand in front only; that they can be advertised lets the lists be written
and read, although the codec checks names by other rules; and that the default is a name puts it in
front if the defaults are what is preferred.
-/

namespace SecureShell

/-- A list has the given names, each of them once, with a preferred name in front of the others if
it is one of them. -/
structure Biased (names : List String) (preferred : String) (list : List String) : Prop where
  /-- No name is repeated. -/
  nodup : list.Nodup
  /-- The list has the names and no others. -/
  perm : list.Perm names
  /-- The preferred name is in front, and the others keep their order. -/
  of_mem : preferred ∈ names → list = preferred :: names.filter (· ≠ preferred)
  /-- A preferred name that is none of them has no effect. -/
  of_not_mem : preferred ∉ names → list = names

/-- Of distinct names only one is moved to the front. -/
theorem moveToFront_biased {names : List String} (hnodup : names.Nodup) (preferred : String) :
    Biased names preferred (moveToFront names preferred) where
  nodup := (moveToFront_perm names preferred).nodup_iff.2 hnodup
  perm := moveToFront_perm names preferred
  of_mem h := by
    rw [moveToFront_eq, if_pos h, hnodup.erase_eq_filter]
    congr
    funext n
    exact Bool.eq_iff_iff.2 (by simp)
  of_not_mem h := by
    rw [moveToFront_eq, if_neg h]

namespace KexInit

variable {σ : Type} {x : Suite σ}

/-- Preferring the defaults is preferring that of the category in every slot. -/
theorem preferred_ofDefaults (x : Suite σ) (slot : Slot) :
    slot.preferred (.ofDefaults x) = x.defaultName slot.category := by
  cases slot <;> rfl

/-- The lists of an offer, slot by slot. -/
theorem biased_offer (hx : x.WellFormed) (p : Preferences) (c : Cookie) (slot : Slot) :
    Biased (x.names slot.category) (slot.preferred p) (slot.names (offer x p c)) := by
  rw [Slot.names_offer]
  exact moveToFront_biased (hx.of_category slot.category).1 (slot.preferred p)

/-- If the defaults are preferred, each list that is not empty starts with the default. -/
theorem head?_offer_ofDefaults (hx : x.WellFormed) (c : Cookie) {slot : Slot}
    (hne : slot.names (offer x (.ofDefaults x) c) ≠ []) :
    (slot.names (offer x (.ofDefaults x) c)).head? = some (x.defaultName slot.category) := by
  have hbiased := biased_offer hx (.ofDefaults x) c slot
  rw [preferred_ofDefaults] at hbiased
  have hnames : x.names slot.category ≠ [] := fun hnil ↦
    hne (List.Perm.eq_nil (hnil ▸ hbiased.perm))
  rw [hbiased.of_mem ((hx.of_category slot.category).2.2 hnames)]
  rfl

variable [Entropy σ]

/-- **Every offer of a suite that can come about is well-formed.** In each of the eight slots it has
the names of the category, each of them once, with the preferred name of that very slot in front if
it is registered and the others in the order of registration; if the joined names of the categories
are not longer than a length field can say, it has a payload, which is read as the same message; and
if the defaults are what is preferred, every list that is not empty starts with the default of its
category. -/
theorem offer_wellFormed (hx : x.Reachable) (p : Preferences) (c : Cookie) :
    (∀ slot : Slot, Biased (x.names slot.category) (slot.preferred p) (slot.names (offer x p c))) ∧
      (x.Fits → (offer x p c).Arrives (offer x p c)) ∧
      ∀ slot : Slot, slot.names (offer x (.ofDefaults x) c) ≠ [] →
        (slot.names (offer x (.ofDefaults x) c)).head? = some (x.defaultName slot.category) := by
  have hwell : x.WellFormed := hx.wellFormed
  have hvalid : ∀ category, ∀ n ∈ x.names category, isAlgorithmName n = true := fun category ↦
    (hwell.of_category category).2.1
  exact ⟨biased_offer hwell p c, fun hfits ↦ arrives_offer hvalid hfits p c,
    fun _ ↦ head?_offer_ofDefaults hwell c⟩

/-! ### A suite that was changed after it was configured -/

/-- A configured suite with an extension that has become the default, and with encryption algorithms
made anew: a name with a comma was refused, and the next name is the first one. -/
def changedSuite : Suite Wear :=
  let x := Side.extended hmacSha256Factory ["x"]
  let refused := (Registry.empty .cipher).change (.register "a,b" none)
  { x with
    mac := (x.mac.change (.setDefault "x")).2
    cipher := (refused.2.change (.register "plain" none)).2 }

theorem reachable_changedSuite : changedSuite.Reachable := by
  have hconfigured : ∀ {α : Type} (place : Suite Wear → Registry Wear α),
      Suite.Arises place (place (Side.extended hmacSha256Factory ["x"])) := fun _ ↦
    .configured (Side.suite_extending hmacSha256Factory ["x"] "")
  constructor
  · exact hconfigured _
  · exact hconfigured _
  · exact ((Suite.Arises.empty _).changed _).changed _
  · exact (hconfigured Suite.mac).changed _
  · exact hconfigured _

/-- A name that is preferred in one direction, one that is not registered, and the defaults. -/
theorem offer_wellFormed_changed :
    let p : Preferences := { Preferences.empty with mac := ⟨"hmac-sha1", "y"⟩ }
    let c : Cookie := ⟨List.replicate 16 0, rfl⟩
    (offer changedSuite p c).mac.clientToServer = ["hmac-sha1", "hmac-sha2-256", "x"] ∧
      (offer changedSuite p c).mac.serverToClient = ["hmac-sha2-256", "hmac-sha1", "x"] ∧
      (offer changedSuite p c).Arrives (offer changedSuite p c) ∧
      (offer changedSuite (.ofDefaults changedSuite) c).mac.clientToServer.head? = some "x" ∧
      (offer changedSuite (.ofDefaults changedSuite) c).cipher.serverToClient.head? =
        some "plain" := by
  intro p c
  obtain ⟨hslots, harrives, hdefaults⟩ := offer_wellFormed reachable_changedSuite p c
  have hfits : changedSuite.Fits := by
    rintro (_ | _ | _ | _ | _) <;> decide
  exact ⟨((hslots .macToServer).of_mem (by decide)).trans (by decide),
    ((hslots .macToClient).of_not_mem (by decide)).trans (by decide), harrives hfits,
    hdefaults .macToServer (by decide), hdefaults .cipherToClient (by decide)⟩

end KexInit

end SecureShell
