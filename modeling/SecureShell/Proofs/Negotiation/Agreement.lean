import SecureShell.Proofs.Negotiation.Offer

/-!
# What two sides agree on

Two sides configure themselves independently, send each other what they offer and choose from what
they have sent and received. This module follows the whole way and says what comes out, slot by
slot: the name that the client prefers if both sides have it, and the first built-in name otherwise.

The built-in names are what makes this work. They stand at the front of every configured suite
(`Suite.builtin_prefix_of_configure`), so the client's list has a name in front, or right behind the
preferred one, that the server has whatever its configuration is.

The server counts only through which names it has registered. The order of its extensions can
change that, since factories run one after the other in a state that each of them may change; with
steady factories it cannot (`Side.Reorders.mem_names_iff`).
-/

namespace SecureShell

/-- One side of a connection, before it has configured itself. -/
structure Side (σ : Type) where
  /-- What its operator asks for. -/
  config : Configuration
  /-- The implementations that there are. -/
  catalog : Catalog σ
  /-- The state in which its factories start to run. -/
  state : σ
  /-- What it prefers. -/
  preferences : Preferences
  /-- The random bytes of its message. -/
  cookie : Cookie

/-- A message is written as some payload, and this payload is read as another message. -/
def KexInit.Arrives (sent received : KexInit) : Prop :=
  ∃ payload, sent.toBytes = .ok payload ∧ KexInit.ofBytes payload = .ok received

/-- **An offer arrives as it was sent**, if its names can be advertised and its categories fit. -/
theorem KexInit.arrives_offer {σ : Type} {x : Suite σ}
    (hvalid : ∀ category, ∀ n ∈ x.names category, isAlgorithmName n = true) (hfits : x.Fits)
    (p : Preferences) (c : Cookie) : (offer x p c).Arrives (offer x p c) := by
  have htravels := travels_of_mem_lists_offer hvalid hfits p c
  exact ⟨_, toBytes_of_travels htravels, ofBytes_body htravels⟩

namespace Side

variable {σ τ : Type}

/-- The message that a side sends once it is configured. -/
def message (x : Side σ) (suite : Suite σ) : KexInit :=
  KexInit.offer suite x.preferences x.cookie

/-- The names of a list that a side sends are those of the category. -/
theorem mem_names_message {x : Side σ} {a : Suite σ} {slot : Slot} {n : String} :
    n ∈ slot.names (x.message a) ↔ n ∈ a.names slot.category := by
  rw [message, Slot.names_offer]
  exact (moveToFront_perm _ _).mem_iff

variable [Entropy σ] [Entropy τ]

/-- The suite that a side configures, if it can. -/
def suite (x : Side σ) : Except AlgorithmError (Suite σ) :=
  (Suite.configure x.config x.catalog x.state).1.result

/-- A side with the implementations and the extensions of another, in whatever order the extensions
come. -/
structure Reorders (x y : Side σ) : Prop where
  /-- The implementations are the same. -/
  catalog : x.catalog = y.catalog
  /-- The extensions of every category are the same, in whatever order. -/
  extensions : ∀ category,
    (x.config.category category).extensions.Perm (y.config.category category).extensions

/-- **With steady factories the order of the extensions does not matter** to what is registered. -/
theorem Reorders.mem_names_iff {x y : Side σ} {a b : Suite σ} (h : x.Reorders y)
    (hsteady : y.catalog.Steady) (ha : x.suite = .ok a) (hb : y.suite = .ok b)
    (category : Category) (n : String) : n ∈ a.names category ↔ n ∈ b.names category := by
  rw [suite, h.catalog] at ha
  rw [Suite.names_of_configure_eq ha, Suite.names_of_configure_eq hb]
  exact Suite.mem_names_discover_perm y.state hsteady h.extensions x.state category n

/-- **What a configured side sends arrives as it was sent.** -/
theorem arrives {x : Side σ} {a : Suite σ} (ha : x.suite = .ok a) (hfits : a.Fits) :
    (x.message a).Arrives (x.message a) :=
  KexInit.arrives_offer (fun _ _ hn ↦ Suite.valid_of_configure ha hn) hfits x.preferences x.cookie

/-- **What two configured sides have in common in a slot.** -/
theorem commonAlgorithm_messages {client : Side σ} {server : Side τ} {c : Suite σ} {s : Suite τ}
    (hc : client.suite = .ok c) (hs : server.suite = .ok s) (slot : Slot) :
    ∃ first, ((Suite.builtin : Suite σ).names slot.category).head? = some first ∧
      commonAlgorithm (slot.names (client.message c)) (slot.names (server.message s)) =
        some (if slot.preferred client.preferences ∈ c.names slot.category ∧
            slot.preferred client.preferences ∈ s.names slot.category then
          slot.preferred client.preferences else first) := by
  -- The first built-in name is in front of the names of the client, and somewhere in the server's.
  obtain ⟨added, hadded⟩ := Suite.builtin_prefix_of_configure hc slot.category
  have hserver := (Suite.builtin_prefix_of_configure hs slot.category).subset
  have hsame : (Suite.builtin : Suite τ).names slot.category =
      (Suite.builtin : Suite σ).names slot.category := by
    rw [Suite.names_builtin, Suite.names_builtin]
  rcases hb : (Suite.builtin : Suite σ).names slot.category with - | ⟨first, rest⟩
  · rw [Suite.names_builtin] at hb
    split at hb <;> cases hb
  refine ⟨first, rfl, ?_⟩
  have hfirst : first ∈ s.names slot.category := by
    refine hserver ?_
    rw [hsame, hb]
    exact List.mem_cons_self
  rw [commonAlgorithm_congr fun _ ↦ mem_names_message, message, Slot.names_offer, ← hadded, hb,
    List.cons_append, commonAlgorithm_moveToFront hfirst]

end Side

/-! ### Sides with one implementation -/

/-- A state that counts the runs of factories, and whose random bytes are all zero. -/
structure Wear where
  /-- How many runs there have been. -/
  runs : ℕ

instance : Entropy Wear where
  draw n s := (List.replicate n 0, s)
  length_draw _ _ := List.length_replicate

/-- A side with extensions for message authentication, all of one implementation, that prefers a
name for what the client sends. -/
def Side.extending (factory : Factory Wear MacContext) (names : List String) (preferred : String) :
    Side Wear where
  config := { mac := { extensions := names.map fun name ↦ ⟨name, "W"⟩ } }
  catalog := { (Catalog.empty : Catalog Wear) with mac := [("W", factory)] }
  state := ⟨0⟩
  preferences := { Preferences.empty with mac := ⟨preferred, ""⟩ }
  cookie := ⟨List.replicate 16 0, rfl⟩

/-- The suite of a side with such extensions. -/
def Side.extended (factory : Factory Wear MacContext) (names : List String) : Suite Wear :=
  let x := extending factory names ""
  (Suite.discover x.config x.catalog x.state).value

theorem Side.suite_extending (factory : Factory Wear MacContext) (names : List String)
    (preferred : String) :
    (extending factory names preferred).suite = .ok (extended factory names) :=
  rfl

theorem Catalog.steady_extending {factory : Factory Wear MacContext} (h : factory.Steady)
    (names : List String) (preferred : String) :
    (Side.extending factory names preferred).catalog.Steady := by
  refine ⟨?_, ?_, ?_, ?_, ?_⟩ <;> rintro id f hf
  · cases hf
  · cases hf
  · cases hf
  · by_cases hid : "W" = id
    · subst hid
      obtain rfl := Option.some.inj hf
      exact h
    · simp [Side.extending, Roster.get?, hid] at hf
  · cases hf

theorem Side.reorders_extending (factory : Factory Wear MacContext) {names names' : List String}
    (h : names'.Perm names) (preferred preferred' : String) :
    (extending factory names' preferred').Reorders (extending factory names preferred) := by
  refine ⟨rfl, fun category ↦ ?_⟩
  cases category with
  | mac => exact h.map _
  | kex | publicKey | cipher | compression => exact List.Perm.refl []

/-! ### The agreement -/

variable {σ τ : Type} [Entropy σ] [Entropy τ]

/-- **Both sides agree, on the name that the preferences of the client ask for.** Whatever the two
sides are, as long as both can be configured and their names fit into name lists: each message
arrives; in every slot both sides choose the same name, each from its own list and the list that it
has received; this is the name that the client prefers in that slot if both have registered it, and
the first built-in name of the category otherwise. Another server leads to the same choice if it has
registered the same names, whatever it prefers, and so does one with its extensions in another
order, if no factory of its catalog succeeds at one time and fails at another. -/
theorem agreement_decided {client : Side σ} {server : Side τ} {c : Suite σ} {s : Suite τ}
    (hc : client.suite = .ok c) (hs : server.suite = .ok s) (hcfits : c.Fits) (hsfits : s.Fits) :
    ∃ fromClient fromServer,
      (client.message c).Arrives fromClient ∧ (server.message s).Arrives fromServer ∧
      ∀ slot : Slot, ∃ name,
        commonAlgorithm (slot.names (client.message c)) (slot.names fromServer) = some name ∧
        commonAlgorithm (slot.names fromClient) (slot.names (server.message s)) = some name ∧
        (if slot.preferred client.preferences ∈ c.names slot.category ∧
            slot.preferred client.preferences ∈ s.names slot.category then
          name = slot.preferred client.preferences
        else ((Suite.builtin : Suite σ).names slot.category).head? = some name) ∧
        ∀ (other : Side τ) (o : Suite τ), other.suite = .ok o →
          (∀ n, n ∈ o.names slot.category ↔ n ∈ s.names slot.category) ∨
            server.catalog.Steady ∧ other.Reorders server →
          commonAlgorithm (slot.names (client.message c)) (slot.names (other.message o)) =
            some name := by
  refine ⟨_, _, Side.arrives hc hcfits, Side.arrives hs hsfits, fun slot ↦ ?_⟩
  obtain ⟨first, hfirst, hcommon⟩ := Side.commonAlgorithm_messages hc hs slot
  refine ⟨_, hcommon, hcommon, ?_, fun other o ho hother ↦ ?_⟩
  · split
    · rfl
    · exact hfirst
  · have hmem : ∀ n, n ∈ o.names slot.category ↔ n ∈ s.names slot.category := by
      rcases hother with hsame | ⟨hsteady, hreorders⟩
      · exact hsame
      · exact fun n ↦ hreorders.mem_names_iff hsteady ho hs slot.category n
    rw [← hcommon]
    exact commonAlgorithm_congr fun n ↦ by
      rw [Side.mem_names_message, Side.mem_names_message, hmem]

/-- An extension that the client prefers in one direction is used in that direction, in whatever
order the server has its extensions and whatever it prefers. -/
theorem agreement_on_extension :
    let client := Side.extending hmacSha256Factory ["x"] "x"
    let server := Side.extending hmacSha256Factory ["y", "x"] "y"
    let other := Side.extending hmacSha256Factory ["x", "y"] ""
    ∃ c s o, client.suite = .ok c ∧ server.suite = .ok s ∧ other.suite = .ok o ∧
      ∃ fromServer, (server.message s).Arrives fromServer ∧
        commonAlgorithm (client.message c).mac.clientToServer fromServer.mac.clientToServer =
          some "x" ∧
        commonAlgorithm (client.message c).mac.clientToServer
          (other.message o).mac.clientToServer = some "x" := by
  intro client server other
  let extended := Side.extended hmacSha256Factory
  have hcfits : (extended ["x"]).Fits := by
    rintro (_ | _ | _ | _ | _) <;> decide
  have hsfits : (extended ["y", "x"]).Fits := by
    rintro (_ | _ | _ | _ | _) <;> decide
  have hc : client.suite = .ok (extended ["x"]) := Side.suite_extending _ _ _
  have hs : server.suite = .ok (extended ["y", "x"]) := Side.suite_extending _ _ _
  have ho : other.suite = .ok (extended ["x", "y"]) := Side.suite_extending _ _ _
  obtain ⟨_, fromServer, -, hserver, hslots⟩ := agreement_decided hc hs hcfits hsfits
  obtain ⟨name, hname, -, hchoice, hother⟩ := hslots .macToServer
  have hboth : "x" ∈ (extended ["x"]).names .mac ∧ "x" ∈ (extended ["y", "x"]).names .mac := by
    decide
  obtain rfl : name = "x" := (if_pos hboth).mp hchoice
  have hsteady : server.catalog.Steady := Catalog.steady_extending (fun _ _ ↦ rfl) _ _
  have hreorders : other.Reorders server :=
    Side.reorders_extending _ (List.Perm.swap "y" "x" []) _ _
  exact ⟨_, _, _, hc, hs, ho, fromServer, hserver, hname, hother other _ ho
    (Or.inr ⟨hsteady, hreorders⟩)⟩

/-! ### Factories that wear out -/

/-- A factory that succeeds in its first run only. -/
def onceFactory : Factory Wear MacContext := fun s ↦
  if s.runs = 0 then (.ok MacAlgorithm.hmacSha256.fresh, ⟨s.runs + 1⟩)
  else (.error (.unknown "worn out"), ⟨s.runs + 1⟩)

/-- **The order of the extensions can decide**, if a factory of the server gives out: of two
extensions with one implementation that can be constructed only once, the first is registered and
the second is not. -/
theorem agreement_of_extension_order :
    let client := Side.extending hmacSha256Factory ["x"] "x"
    let server := Side.extending onceFactory ["x", "y"] ""
    let other := Side.extending onceFactory ["y", "x"] ""
    ∃ c s o, client.suite = .ok c ∧ server.suite = .ok s ∧ other.suite = .ok o ∧
      c.Fits ∧ s.Fits ∧ o.Fits ∧ other.Reorders server ∧
      commonAlgorithm (client.message c).mac.clientToServer
        (server.message s).mac.clientToServer = some "x" ∧
      commonAlgorithm (client.message c).mac.clientToServer
        (other.message o).mac.clientToServer = some "hmac-sha2-256" := by
  intro client server other
  refine ⟨_, _, _, Side.suite_extending _ _ _, Side.suite_extending _ _ _,
    Side.suite_extending _ _ _, ?_, ?_, ?_, ?_, ?_, ?_⟩
  · rintro (_ | _ | _ | _ | _) <;> decide
  · rintro (_ | _ | _ | _ | _) <;> decide
  · rintro (_ | _ | _ | _ | _) <;> decide
  · exact Side.reorders_extending _ (List.Perm.swap "x" "y" []) _ _
  · decide
  · decide

end SecureShell
