import SecureShell.Proofs.Algorithm.Supply
import SecureShell.Proofs.Negotiation.Agreement

/-!
# What two sides agree on can be constructed

A side chooses among the names that both sides have sent, and it has sent nothing but what is
registered. A side with constant factories supplies all that it has registered
(`Suite.supplies_of_configure`), so two such sides can both construct what they agree on, whatever
extensions they have and whichever of these cannot be had.
-/

namespace SecureShell

/-- A message that has arrived is the one that was sent. -/
theorem KexInit.Arrives.eq {sent received : KexInit} (h : sent.Arrives received) :
    received = sent := by
  obtain ⟨payload, hsent, hreceived⟩ := h
  by_cases htravels : ∀ names ∈ sent.lists, Wire.NameList.Travels names
  · rw [toBytes_of_travels htravels] at hsent
    obtain rfl := Except.ok.inj hsent
    rw [ofBytes_body htravels] at hreceived
    exact (Except.ok.inj hreceived).symm
  · rw [toBytes_of_not_travels htravels] at hsent
    cases hsent

namespace Side

variable {σ τ : Type} [Entropy σ]

/-- A configured side supplies the names that it sends. -/
theorem instantiate_of_mem_message {x : Side σ} {a : Suite σ} (hcatalog : x.catalog.Constant)
    (ha : x.suite = .ok a) {slot : Slot} {n : String} (hn : n ∈ slot.names (x.message a)) (s : σ) :
    ∃ b, ((a.registry slot.category).instantiate n s).1 = .quiet (.ok b) := by
  rw [mem_names_message, ← Suite.names_registry] at hn
  obtain ⟨b, hb, -⟩ :=
    ((Suite.supplies_of_configure hcatalog ha).registry slot.category).instantiate n hn s
  exact ⟨b, hb⟩

end Side

/-- **Everything that is advertised can be constructed.** Whatever is asked for, and whatever
implementations there are, as long as each of them has the same outcome at any time: once a side is
configured, every name in its six registries can be instantiated, at any time, with nothing for the
entries without a factory only, and so can the defaults; the built-in names are all registered, and
those that are reused only by extensions that cannot be had have their built-in entries. So of two
such sides both can instantiate whatever either of them chooses from what it has sent and what has
arrived from the other, as a client or as a server. -/
theorem advertised_instantiates {σ : Type} [Entropy σ] {side : Side σ} {x : Suite σ}
    (hcatalog : side.catalog.Constant) (hx : side.suite = .ok x) :
    x.Supplies ∧
    (∀ category, ∀ n ∈ ((Suite.builtin : Suite σ).registry category).names,
      n ∈ (x.registry category).names ∧
      ((∀ e ∈ (side.config.category category).extensions, e.name = n →
          ¬Registry.Constructs (side.catalog.table category) e) →
        (x.registry category).listed? n =
          ((Suite.builtin : Suite σ).registry category).listed? n)) ∧
    (∀ n ∈ (Suite.builtin : Suite σ).keyFormat.names,
      n ∈ x.keyFormat.names ∧
      ((∀ id ∈ side.config.keyFormats, ¬Suite.Presents side.catalog.keyFormat id n) →
        x.keyFormat.listed? n = (Suite.builtin : Suite σ).keyFormat.listed? n)) ∧
    ∀ {τ : Type} [Entropy τ] (peer : Side τ) (y : Suite τ), peer.catalog.Constant →
      peer.suite = .ok y → ∀ fromPeer, (peer.message y).Arrives fromPeer →
      ∀ (slot : Slot) (name : String),
        (commonAlgorithm (slot.names (side.message x)) (slot.names fromPeer) = some name ∨
          commonAlgorithm (slot.names fromPeer) (slot.names (side.message x)) = some name) →
        (∀ s, ∃ a, ((x.registry slot.category).instantiate name s).1 = .quiet (.ok a)) ∧
        ∀ t, ∃ a, ((y.registry slot.category).instantiate name t).1 = .quiet (.ok a) := by
  refine ⟨Suite.supplies_of_configure hcatalog hx, fun category n hn ↦ ⟨?_, ?_⟩,
    fun n hn ↦ ⟨?_, ?_⟩, ?_⟩
  · rw [Suite.names_registry] at hn ⊢
    exact (Suite.builtin_prefix_of_configure hx category).subset hn
  · exact Suite.listed?_of_configure hcatalog.toSteady hx
  · obtain rfl := List.mem_singleton.1 hn
    exact Suite.openssh_mem_names_keyFormat hcatalog hx
  · exact Suite.keyFormat_listed?_of_configure hcatalog hx
  · rintro τ _ peer y hpeer hy fromPeer harrives slot name hchosen
    obtain rfl := harrives.eq
    have hboth : name ∈ slot.names (side.message x) ∧ name ∈ slot.names (peer.message y) := by
      rcases hchosen with hclient | hserver
      · exact mem_of_commonAlgorithm hclient
      · exact (mem_of_commonAlgorithm hserver).symm
    exact ⟨Side.instantiate_of_mem_message hcatalog hx hboth.1,
      Side.instantiate_of_mem_message hpeer hy hboth.2⟩

/-- A factory that always fails. -/
def brokenFactory : Factory Wear MacContext := fun s ↦ (.error (.unknown "broken"), ⟨s.runs + 1⟩)

theorem Catalog.constant_extending {factory : Factory Wear MacContext} (h : factory.Steady)
    (names : List String) (preferred : String) :
    (Side.extending factory names preferred).catalog.Constant :=
  { steady_extending h names preferred with keyFormat := nofun }

/-- Extensions that cannot be had reuse a built-in name and bring a new one, which the other side
has: the built-in algorithm stays, and both sides agree on another one that both can instantiate. -/
theorem advertised_instantiates_broken :
    let client := Side.extending brokenFactory ["hmac-sha1", "x"] "x"
    let server := Side.extending hmacSha256Factory ["hmac-sha1", "x"] "x"
    ∃ c s, client.suite = .ok c ∧ server.suite = .ok s ∧ c.Supplies ∧ s.Supplies ∧
      c.mac.listed? "hmac-sha1" = (Suite.builtin : Suite Wear).mac.listed? "hmac-sha1" ∧
      commonAlgorithm (client.message c).mac.clientToServer
        (server.message s).mac.clientToServer = some "hmac-sha2-256" ∧
      (∀ w, ∃ a, (c.mac.instantiate "hmac-sha2-256" w).1 = .quiet (.ok a)) ∧
      ∀ w, ∃ a, (s.mac.instantiate "hmac-sha2-256" w).1 = .quiet (.ok a) := by
  intro client server
  have hclient : client.catalog.Constant := Catalog.constant_extending (fun _ _ ↦ rfl) _ _
  have hserver : server.catalog.Constant := Catalog.constant_extending (fun _ _ ↦ rfl) _ _
  have hc : client.suite = .ok (Side.extended brokenFactory ["hmac-sha1", "x"]) :=
    Side.suite_extending _ _ _
  have hs : server.suite = .ok (Side.extended hmacSha256Factory ["hmac-sha1", "x"]) :=
    Side.suite_extending _ _ _
  obtain ⟨hsupplies, hbuiltin, -, hchoice⟩ := advertised_instantiates hclient hc
  have hbroken : ∀ e ∈ (client.config.category .mac).extensions, e.name = "hmac-sha1" →
      ¬Registry.Constructs (client.catalog.table .mac) e := by
    rintro e he - ⟨f, hf, w, hok⟩
    obtain ⟨name, -, rfl⟩ := List.mem_map.1 he
    obtain rfl := Option.some.inj hf
    cases hok
  have hfits : (Side.extended hmacSha256Factory ["hmac-sha1", "x"]).Fits := by
    rintro (_ | _ | _ | _ | _) <;> decide
  have hcommon : commonAlgorithm
      (client.message (Side.extended brokenFactory ["hmac-sha1", "x"])).mac.clientToServer
      (server.message (Side.extended hmacSha256Factory ["hmac-sha1", "x"])).mac.clientToServer =
        some "hmac-sha2-256" := by
    decide
  obtain ⟨hfirst, hsecond⟩ := hchoice server _ hserver hs _ (Side.arrives hs hfits) .macToServer
    "hmac-sha2-256" (Or.inl hcommon)
  exact ⟨_, _, hc, hs, hsupplies, (advertised_instantiates hserver hs).1,
    (hbuiltin .mac "hmac-sha1" (by decide)).2 hbroken, hcommon, hfirst, hsecond⟩

end SecureShell
