import SecureShell.Algorithm.SharedSuite
import SecureShell.Proofs.Algorithm.Configured

/-!
# Shared suites: configuration without a history

A suite in service changes by calls of two kinds. Each of them puts a whole suite into service or
leaves the one that is there (`SharedSuite.call_snd`), so what is in service after a run of calls is
the suite that was put there last (`SharedSuite.current_after`), and nothing that was there before
goes into it.

Together with what a configuration comes to (`Suite.exists_configure_eq_ok_iff`,
`Suite.default?_of_configure`, `Suite.configure_eq_error_iff`), that says all there is to say about
a reconfiguration, at any time.
-/

namespace SecureShell.SharedSuite

variable {σ : Type} [Entropy σ]

/-! ### Calls -/

/-- A call on a suite in service. -/
inductive Call (σ : Type) where
  /-- Asks for the suite of a configuration; factories start to run in the given state. -/
  | reconfigure (config : Configuration) (catalog : Catalog σ) (state : σ)
  /-- Puts a suite into service. -/
  | replace (suite : Suite σ)

/-- What a caller gets. -/
inductive Reply (σ : Type) where
  /-- Whether the configuration has been put into service. -/
  | reconfigured (result : Except AlgorithmError Unit)
  /-- The suite that was in service. -/
  | replaced (old : Suite σ)

/-- The reply to a call, and what is in service after it. -/
def call (shared : SharedSuite σ) : Call σ → Reply σ × SharedSuite σ
  | .reconfigure config catalog state =>
    let (a, shared, _) := shared.reconfigure config catalog state
    (.reconfigured a.result, shared)
  | .replace suite =>
    let (old, shared) := shared.replace suite
    (.replaced old, shared)

/-- What is in service after several calls. -/
def after (shared : SharedSuite σ) (calls : List (Call σ)) : SharedSuite σ :=
  calls.foldl (fun shared c ↦ (shared.call c).2) shared

/-- The suite that a call puts into service, if it does. -/
def Call.published? : Call σ → Option (Suite σ)
  | .reconfigure config catalog state => (Suite.configure config catalog state).1.result.toOption
  | .replace suite => some suite

theorem call_reconfigure_of_ok {config : Configuration} {catalog : Catalog σ} {s : σ} {x : Suite σ}
    (h : (Suite.configure config catalog s).1.result = .ok x) (shared : SharedSuite σ) :
    shared.call (.reconfigure config catalog s) = (.reconfigured (.ok ()), ⟨x⟩) := by
  simp only [call, reconfigure, h]
  rfl

theorem call_reconfigure_of_error {config : Configuration} {catalog : Catalog σ} {s : σ}
    {e : AlgorithmError} (h : (Suite.configure config catalog s).1.result = .error e)
    (shared : SharedSuite σ) :
    shared.call (.reconfigure config catalog s) = (.reconfigured (.error e), shared) := by
  simp only [call, reconfigure, h]

/-- **A call puts a whole suite into service, or nothing.** -/
theorem call_snd (shared : SharedSuite σ) (c : Call σ) :
    (shared.call c).2 = ⟨c.published?.getD shared.current⟩ := by
  cases c with
  | reconfigure config catalog s =>
    rcases h : (Suite.configure config catalog s).1.result with e | x
    · rw [call_reconfigure_of_error h, Call.published?, h]
      rfl
    · rw [call_reconfigure_of_ok h, Call.published?, h]
      rfl
  | replace suite => rfl

/-- **The suite that was put into service last is there**, or the first one if none was. -/
theorem current_after (shared : SharedSuite σ) (calls : List (Call σ)) :
    (shared.after calls).current =
      (calls.filterMap Call.published?).getLast?.getD shared.current := by
  -- From the end of the run, since an earlier suite matters only if the last call puts none there.
  induction calls using List.reverseRecOn with
  | nil => rfl
  | append_singleton calls c ih =>
    have hlast : shared.after (calls ++ [c]) = ((shared.after calls).call c).2 :=
      List.foldl_concat ..
    rw [hlast, call_snd, ih, List.filterMap_append, List.getLast?_append]
    rcases hc : c.published? with - | x
    · simp [hc]
    · simp [hc]

/-! ### Configuration, all or nothing -/

/-- **A configuration is applied as a whole or not at all, and without regard to what was in service
before**, as long as every factory of its catalog has the same outcome at any time. It succeeds, at
any time, if each name that it asks for is there: built in, or brought by an extension of the same
category or by a format, or in the list of private key formats. Then each default is the one that it
asks for, or the standard one. Otherwise the error tells the first name that is not there, in the
order of the overrides.

On a suite in service, after whatever calls, a reconfiguration that succeeds puts precisely the
suite of its own configuration and catalog into service, and one that fails leaves all as it is. A
replacement gives back what was in service. So there is always the suite that was put into service
last. -/
theorem configuration_applied (config : Configuration) {catalog : Catalog σ}
    (hcatalog : catalog.Constant) :
    (∀ s, (∃ x, (Suite.configure config catalog s).1.result = .ok x) ↔
      ∀ o, config.Fulfils catalog o) ∧
    (∀ s x, (Suite.configure config catalog s).1.result = .ok x →
      ∀ o, x.default? o = (config.asked o).or (config.standard σ o)) ∧
    (∀ s e, (Suite.configure config catalog s).1.result = .error e ↔
      ∃ before o after n, Override.all = before ++ o :: after ∧
        (∀ p ∈ before, config.Fulfils catalog p) ∧ config.asked o = some n ∧
        ¬config.Offers catalog o n ∧ e = .unknown n) ∧
    ∀ (shared : SharedSuite σ) (calls : List (Call σ)),
      (∀ s t x, (Suite.configure config catalog s).1.result = .ok x →
        (shared.after calls).call (.reconfigure config catalog t) =
          (.reconfigured (.ok ()), ⟨x⟩)) ∧
      (∀ s t e, (Suite.configure config catalog s).1.result = .error e →
        (shared.after calls).call (.reconfigure config catalog t) =
          (.reconfigured (.error e), shared.after calls)) ∧
      (∀ x, (shared.after calls).call (.replace x) =
        (.replaced (shared.after calls).current, ⟨x⟩)) ∧
      (shared.after calls).current =
        (calls.filterMap Call.published?).getLast?.getD shared.current := by
  refine ⟨fun s ↦ Suite.exists_configure_eq_ok_iff hcatalog,
    fun s x h o ↦ Suite.default?_of_configure hcatalog h o,
    fun s e ↦ Suite.configure_eq_error_iff hcatalog,
    fun shared calls ↦
      ⟨fun s t x h ↦ ?_, fun s t e h ↦ ?_, fun x ↦ rfl, current_after shared calls⟩⟩
  · rw [Suite.result_configure_congr config hcatalog s t] at h
    exact call_reconfigure_of_ok h _
  · rw [Suite.result_configure_congr config hcatalog s t] at h
    exact call_reconfigure_of_error h _

instance : Entropy Unit where
  draw n s := (List.replicate n 0, s)
  length_draw _ _ := List.length_replicate

/-- An extension cannot be the default of another category. The configuration that asks for that
fails, though the extension is there, and the one before it stays in service. -/
theorem configuration_applied_crossed :
    let extension : Extension := ⟨"x", "HmacSha256"⟩
    let own : Configuration := { mac := ⟨[extension], some "x"⟩ }
    let crossed : Configuration := { kex := ⟨[], some "x"⟩, mac := ⟨[extension], some "y"⟩ }
    let catalog : Catalog Unit := .builtin
    ∃ x, (Suite.configure own catalog ()).1.result = .ok x ∧
      x.default? (.category .mac) = some "x" ∧
      ∀ shared : SharedSuite Unit,
        shared.after [.reconfigure own catalog (), .reconfigure crossed catalog ()] = ⟨x⟩ ∧
        ((shared.after [.reconfigure own catalog ()]).call (.reconfigure crossed catalog ())).1 =
          .reconfigured (.error (.unknown "x")) := by
  intro extension own crossed catalog
  obtain ⟨hsucceeds, hdefault, -, hshared⟩ :=
    configuration_applied own (Catalog.constant_builtin : catalog.Constant)
  obtain ⟨-, -, herror, hcrossed⟩ :=
    configuration_applied crossed (Catalog.constant_builtin : catalog.Constant)
  have hfulfils : ∀ o, own.Fulfils catalog o := by
    intro o n hn
    rcases o with (_ | _ | _ | _ | _) | _ | _
    case category.mac =>
      obtain rfl := Option.some.inj hn
      exact Or.inr ⟨by decide, extension, List.mem_singleton_self _, rfl, hmacSha256Factory, rfl,
        (), rfl⟩
    all_goals cases hn
  have hfails : (Suite.configure crossed catalog ()).1.result = .error (.unknown "x") := by
    refine (herror () _).2 ⟨[], .category .kex, _, "x", rfl, nofun, rfl, ?_, rfl⟩
    rintro (hbuiltin | ⟨-, e, he, -⟩)
    · exact absurd hbuiltin (by decide)
    · cases he
  obtain ⟨x, hx⟩ := (hsucceeds ()).2 hfulfils
  refine ⟨x, hx, hdefault () x hx (.category .mac), fun shared ↦ ⟨?_, ?_⟩⟩
  · have hown := (hshared shared []).1 () () x hx
    have hkept := (hcrossed shared [.reconfigure own catalog ()]).2.1 () () _ hfails
    show ((shared.after [.reconfigure own catalog ()]).call (.reconfigure crossed catalog ())).2 = _
    rw [hkept]
    exact congrArg Prod.snd hown
  · rw [(hcrossed shared [.reconfigure own catalog ()]).2.1 () () _ hfails]

end SecureShell.SharedSuite
