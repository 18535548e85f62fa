import SecureShell.Proofs.Algorithm.Candidates

/-!
# The course of discovery

Discovery takes one extension after the other. What comes of an extension depends on those before it
in two ways: through the state that their factories have left, and through the names that they have
registered. Only the first has to be followed step by step (`Registry.turns`). With the turns at
hand discovery is the registration of those that are installed (`Registry.discover_eq`), and what
registration does to names, factories and the default has a closed form, with no condition on the
factories: they may fail at any call.

Which factories are called is a question of the states alone. It is answered twice: by the state at
the end, and by factories that record their own calls (`Factory.recording`).
-/

namespace SecureShell

variable {σ α : Type}

/-! ### Turns -/

/-- The turn of an extension in discovery. -/
structure Turn (σ α : Type) where
  /-- The extension. -/
  extension : Extension
  /-- The factory of its implementation, if the table has one. -/
  factory : Option (Factory σ α)
  /-- The state at the beginning of the turn. -/
  state : σ

namespace Turn

/-- The name that the extension asks for. -/
def name (t : Turn σ α) : String := t.extension.name

/-- What the call of the factory gives. Without a factory there is no call. -/
def result? (t : Turn σ α) : Option (Except AlgorithmError α) :=
  t.factory.map fun f ↦ (f t.state).1

/-- The state at the end of the turn. -/
def next (t : Turn σ α) : σ :=
  match t.factory with
  | none => t.state
  | some f => (f t.state).2

/-- Whether the extension is installed: the call succeeds, and the name can be advertised. -/
def installs (t : Turn σ α) : Bool :=
  t.result?.any Except.isOk && isAlgorithmName t.name

/-- What is reported of the turn. -/
def report (category : Category) (t : Turn σ α) : AlgorithmReport :=
  match t.result? with
  | none => .missing category t.name t.extension.implementation
  | some (.error e) => .skipped category t.name e
  | some (.ok _) =>
    if isAlgorithmName t.name then .installed category t.name else .rejected category t.name

/-- What is registered if the extension is installed. -/
def entry (t : Turn σ α) : String × Option (Factory σ α) := (t.name, t.factory)

theorem installs_iff {t : Turn σ α} :
    t.installs = true ↔
      (∃ f a, t.factory = some f ∧ (f t.state).1 = .ok a) ∧ isAlgorithmName t.name = true := by
  rw [installs, result?, Bool.and_eq_true]
  refine and_congr_left fun _ ↦ ?_
  rcases t.factory with - | f
  · simp
  · rcases hf : (f t.state).1 with e | a
    · simp [hf, Except.isOk, Except.toBool]
    · simp [hf, Except.isOk, Except.toBool]

/-- **An extension that is installed makes an information, and one that is left out a warning.** -/
theorem level_report (category : Category) (t : Turn σ α) :
    (t.report category).record.level = if t.installs then .info else .warn := by
  rcases hresult : t.result? with - | ⟨e | a⟩
  · simp [report, installs, hresult, AlgorithmReport.record]
  · simp [report, installs, hresult, AlgorithmReport.record, Except.isOk, Except.toBool]
  · by_cases hvalid : isAlgorithmName t.name = true
    · simp [report, installs, hresult, hvalid, AlgorithmReport.record, Except.isOk, Except.toBool]
    · simp [report, installs, hresult, hvalid, AlgorithmReport.record]

end Turn

namespace Registry

variable {table : Table σ α} {r : Registry σ α} {l : Roster (Option (Factory σ α))}

/-- The turns of extensions, each of which starts in the state that the one before has left. -/
def turns (table : Table σ α) (s : σ) : List Extension → List (Turn σ α)
  | [] => []
  | e :: es =>
    let t : Turn σ α := ⟨e, Roster.get? table e.implementation, s⟩
    t :: turns table t.next es

/-- The turns of the extensions that are installed. -/
def installed (table : Table σ α) (s : σ) (es : List Extension) : List (Turn σ α) :=
  (turns table s es).filter Turn.installs

/-- The factories that the table has for extensions, in the order of the extensions. -/
def resolved (table : Table σ α) (es : List Extension) : List (Factory σ α) :=
  es.filterMap fun e ↦ Roster.get? table e.implementation

/-- The state after calls of factories, one after the other. -/
def afterCalls (fs : List (Factory σ α)) (s : σ) : σ :=
  fs.foldl (fun s f ↦ (f s).2) s

theorem afterCalls_resolved_cons (table : Table σ α) (e : Extension) (es : List Extension) (s : σ) :
    afterCalls (resolved table (e :: es)) s = afterCalls (resolved table es)
      (Turn.mk e (Roster.get? table e.implementation) s).next := by
  rw [resolved, List.filterMap_cons, Turn.next]
  rcases Roster.get? table e.implementation with - | f
  · rfl
  · rfl

/-- **Where a turn starts** can be told from the extensions before it. -/
theorem getElem?_turns (table : Table σ α) (s : σ) (es : List Extension) (i : ℕ) :
    (turns table s es)[i]? = es[i]?.map fun e ↦
      ⟨e, Roster.get? table e.implementation, afterCalls (resolved table (es.take i)) s⟩ := by
  induction es generalizing s i with
  | nil => rfl
  | cons e es ih =>
    rcases i with - | i
    · rfl
    · rw [turns, List.getElem?_cons_succ, List.getElem?_cons_succ, ih, List.take_succ_cons,
        afterCalls_resolved_cons]

/-! ### Discovery in turns -/

theorem category_register (r : Registry σ α) (name : String) (f : Option (Factory σ α)) :
    (r.register name f).2.category = r.category := by
  rw [register]
  split <;> rfl

theorem category_registerAll (r : Registry σ α) (l : Roster (Option (Factory σ α))) :
    (r.registerAll l).category = r.category :=
  registerAll_keeps (P := fun s ↦ s.category = r.category)
    (fun s p _ hs ↦ (category_register s p.1 p.2).trans hs) rfl

/-- **What one turn does**: it registers the name with its factory if the extension is installed, it
leaves the state that the factory has left, and it makes one report. -/
theorem install_eq (table : Table σ α) (p : Progress σ (Registry σ α)) (e : Extension) :
    let t : Turn σ α := ⟨e, Roster.get? table e.implementation, p.state⟩
    install table p e =
      ⟨if t.installs then (p.value.register t.name t.factory).2 else p.value, t.next,
        p.log ++ [t.report p.value.category]⟩ := by
  intro t
  rcases hf : Roster.get? table e.implementation with - | f
  · simp [install, t, hf, Turn.installs, Turn.result?, Turn.next, Turn.report, Turn.name]
  · rcases hrun : f p.state with ⟨e' | a, s⟩
    · simp [install, t, hf, hrun, Turn.installs, Turn.result?, Turn.next, Turn.report, Turn.name,
        Except.isOk, Except.toBool]
    · by_cases hvalid : isAlgorithmName e.name = true
      · simp [install, t, hf, hrun, hvalid, Turn.installs, Turn.result?, Turn.next, Turn.report,
          Turn.name, register_of_valid p.value hvalid, Except.isOk, Except.toBool]
      · simp [install, t, hf, hrun, hvalid, Turn.installs, Turn.result?, Turn.next, Turn.report,
          Turn.name, register_of_not_valid p.value hvalid, registerReports]

/-- **Discovery is the registration of all that is installed.** -/
theorem discover_eq (table : Table σ α) (es : List Extension) (p : Progress σ (Registry σ α)) :
    discover table es p =
      ⟨p.value.registerAll ((installed table p.state es).map Turn.entry),
        afterCalls (resolved table es) p.state,
        p.log ++ (turns table p.state es).map (Turn.report p.value.category)⟩ := by
  induction es generalizing p with
  | nil => simp [discover, turns, installed, resolved, afterCalls, registerAll]
  | cons e es ih =>
    have hstep : discover table (e :: es) p = discover table es (install table p e) := rfl
    rw [hstep, ih, install_eq, afterCalls_resolved_cons, installed, installed, turns]
    generalize Turn.mk e (Roster.get? table e.implementation) p.state = t
    by_cases ht : t.installs = true
    · simp [ht, registerAll, Turn.entry, category_register]
    · simp [ht, registerAll]

/-! ### Registering several names -/

/-- The names that are new come after all others, in the order of their first registration. -/
theorem names_registerAll (hvalid : ∀ p ∈ l, isAlgorithmName p.1 = true) :
    (r.registerAll l).names =
      r.names ++ ((Roster.names l).filter fun n ↦ n ∉ r.names).eraseDups := by
  induction l generalizing r with
  | nil => simp [registerAll, Roster.names]
  | cons p l ih =>
    have hp := hvalid p List.mem_cons_self
    have hstep : r.registerAll (p :: l) = (r.register p.1 p.2).2.registerAll l := rfl
    have hcons : Roster.names (p :: l) = p.1 :: Roster.names l := rfl
    rw [hstep, ih fun q hq ↦ hvalid q (List.mem_cons_of_mem _ hq), names_register, hcons]
    by_cases hmem : p.1 ∈ r.names
    · rw [if_neg fun hnew ↦ hnew.2 hmem, List.filter_cons_of_neg (by simpa using hmem)]
    -- The rest may register the name again, which is then no longer new.
    · rw [if_pos ⟨hp, hmem⟩, List.filter_cons_of_pos (by simpa using hmem), List.eraseDups_cons,
        List.filter_filter, List.append_assoc, List.singleton_append]
      refine congrArg (fun m ↦ r.names ++ p.1 :: m.eraseDups) (List.filter_congr fun n _ ↦ ?_)
      rw [Bool.eq_iff_iff]
      simp [not_or, and_comm]

/-- The factory of a name is the one that was registered last. -/
theorem listed?_registerAll (hvalid : ∀ p ∈ l, isAlgorithmName p.1 = true) (n : String) :
    (r.registerAll l).listed? n =
      (((l.filter fun p ↦ p.1 = n).getLast?).map Prod.snd).or (r.listed? n) := by
  induction l using List.reverseRecOn with
  | nil => rfl
  | append_singleton l p ih =>
    have hp := hvalid p (by simp)
    have hlast : r.registerAll (l ++ [p]) = ((r.registerAll l).register p.1 p.2).2 :=
      registerAll_append r l [p]
    rw [hlast, listed?_register, ih fun q hq ↦ hvalid q (List.mem_append_left _ hq),
      List.filter_append]
    by_cases hn : p.1 = n
    · rw [if_pos ⟨hp, hn⟩, List.filter_cons_of_pos (by simpa using hn), List.filter_nil,
        List.getLast?_concat]
      rfl
    · simp [hn]

/-- The default of a registry without names is the first name that is registered. -/
theorem defaultName_registerAll_of_nil (hnil : r.names = [])
    (hvalid : ∀ p ∈ l, isAlgorithmName p.1 = true) :
    (r.registerAll l).defaultName = ((Roster.names l).head?).getD r.defaultName := by
  rcases l with - | ⟨p, l⟩
  · rfl
  · have hp := hvalid p List.mem_cons_self
    have hmem : p.1 ∈ (r.register p.1 p.2).2.names := mem_names_register.2 (Or.inr ⟨hp, rfl⟩)
    show ((r.register p.1 p.2).2.registerAll l).defaultName = p.1
    rw [defaultName_registerAll (List.ne_nil_of_mem hmem), defaultName_register, if_pos ⟨hp, hnil⟩]

end Registry

/-! ### Recording calls -/

/-- A factory that records its calls under a label, beside the state that it runs in. -/
def Factory.recording (label : String) (f : Factory σ α) : Factory (σ × List String) α := fun s ↦
  ((f s.1).1, (f s.1).2, s.2 ++ [label])

/-- A table whose factories record their calls under their identifiers. -/
def Table.recording (table : Table σ α) : Table (σ × List String) α :=
  table.map fun p ↦ (p.1, p.2.recording p.1)

theorem Table.get?_recording (table : Table σ α) (id : String) :
    Roster.get? table.recording id = (Roster.get? table id).map (Factory.recording id) := by
  induction table with
  | nil => rfl
  | cons p table ih =>
    simp only [Roster.get?, recording] at ih ⊢
    by_cases hid : p.1 = id
    · rw [List.map_cons, List.find?_cons_of_pos (by simpa using hid),
        List.find?_cons_of_pos (by simpa using hid), ← hid]
      rfl
    · rw [List.map_cons, List.find?_cons_of_neg (by simpa using hid),
        List.find?_cons_of_neg (by simpa using hid), ih]

namespace Registry

/-- The identifiers of extensions that a table has, in the order of the extensions. -/
def identified (table : Table σ α) (es : List Extension) : List String :=
  (es.filter fun e ↦ (Roster.get? table e.implementation).isSome).map Extension.implementation

theorem afterCalls_recording (table : Table σ α) (es : List Extension) (s : σ)
    (calls : List String) :
    afterCalls (resolved table.recording es) (s, calls) =
      (afterCalls (resolved table es) s, calls ++ identified table es) := by
  induction es generalizing s calls with
  | nil => simp [resolved, afterCalls, identified]
  | cons e es ih =>
    rw [afterCalls_resolved_cons, afterCalls_resolved_cons, Table.get?_recording, identified]
    rcases hf : Roster.get? table e.implementation with - | f
    · simp only [Turn.next, Option.map_none]
      rw [ih, identified, List.filter_cons_of_neg (by simp [hf])]
    · simp only [Turn.next, Option.map_some, Factory.recording]
      rw [ih, identified, List.filter_cons_of_pos (by simp [hf]), List.map_cons, List.append_assoc,
        List.singleton_append]

/-! ### All of it -/

/-- What discovery makes of a registry, of the state of the factories and of the log. -/
structure Course (table : Table σ α) (es : List Extension) (p q : Progress σ (Registry σ α)) :
    Prop where
  /-- Every extension has one turn, in their order, with the factory that the table has for it, and
  in the state that the factories of the extensions before it have left. -/
  turn : ∀ i : ℕ, (turns table p.state es)[i]? = es[i]?.map fun e ↦
    ⟨e, Roster.get? table e.implementation, afterCalls (resolved table (es.take i)) p.state⟩
  /-- The factories that the table has for the extensions are called one after the other. -/
  state : q.state = afterCalls (resolved table es) p.state
  /-- They are called once for each extension, and no other factory is called, be it one of the
  table or of the registry: this is what the calls come to that are recorded. -/
  calls : ∀ (r : Registry (σ × List String) α) (log : List AlgorithmReport),
    (discover table.recording es ⟨r, (p.state, []), log⟩).state = (q.state, identified table es)
  /-- An extension is installed exactly if the call of its factory succeeds and its name can be
  advertised. -/
  installed_iff : ∀ t, t ∈ installed table p.state es ↔ t ∈ turns table p.state es ∧
    (∃ f a, t.factory = some f ∧ (f t.state).1 = .ok a) ∧ isAlgorithmName t.name = true
  /-- The names of what is installed come after those that there were, each where it is installed
  first. -/
  names : q.value.names = p.value.names ++
    (((installed table p.state es).map Turn.name).filter
      fun n ↦ n ∉ p.value.names).eraseDups
  /-- A name has the factory of the last extension that is installed under it, or the one that it
  had. -/
  factory : ∀ n, q.value.listed? n =
    ((((installed table p.state es).filter fun t ↦ t.name = n).getLast?).map
      Turn.factory).or (p.value.listed? n)
  /-- The default changes only if there were no names, and then to the first name installed. -/
  defaultName : q.value.defaultName =
    if p.value.names = [] then
      ((installed table p.state es).head?.map Turn.name).getD p.value.defaultName
    else p.value.defaultName
  /-- The category does not change. -/
  category : q.value.category = p.value.category
  /-- There is one report of each turn. -/
  log : q.log = p.log ++ (turns table p.state es).map (Turn.report p.value.category)
  /-- It is an information if the extension is installed, and a warning if it is left out. -/
  level : ∀ t : Turn σ α,
    (t.report p.value.category).record.level = if t.installs then .info else .warn

/-- **The course of discovery**, whatever the registry, the extensions and the table, and whatever
the factories do at each of their calls. -/
theorem discover_course (table : Table σ α) (es : List Extension)
    (p : Progress σ (Registry σ α)) : Course table es p (discover table es p) := by
  have hvalid : ∀ q ∈ (installed table p.state es).map Turn.entry,
      isAlgorithmName q.1 = true := by
    intro q hq
    obtain ⟨t, ht, rfl⟩ := List.mem_map.1 hq
    exact (Turn.installs_iff.1 (List.mem_filter.1 ht).2).2
  have hnames : Roster.names ((installed table p.state es).map Turn.entry) =
      (installed table p.state es).map Turn.name := by
    rw [Roster.names, List.map_map]
    rfl
  rw [discover_eq]
  refine
    { turn := getElem?_turns table p.state es
      state := rfl
      calls := fun r log ↦ ?_
      installed_iff := fun t ↦ ?_
      names := ?_
      factory := fun n ↦ ?_
      defaultName := ?_
      category := category_registerAll _ _
      log := rfl
      level := Turn.level_report p.value.category }
  · rw [discover_eq]
    exact afterCalls_recording table es p.state []
  · rw [installed, List.mem_filter, Turn.installs_iff]
  · rw [names_registerAll hvalid, hnames]
  · rw [listed?_registerAll hvalid, List.filter_map, List.getLast?_map, Option.map_map]
    rfl
  · split
    · rename_i hnil
      rw [defaultName_registerAll_of_nil hnil hvalid, hnames, List.head?_map]
    · rename_i hne
      exact defaultName_registerAll hne _

/-- A factory that succeeds at its first call only: it is called under a name that is refused, and
then there is nothing left for the name that is not. -/
example :
    let once : Factory ℕ Unit := fun n ↦
      (if n = 0 then .ok () else .error (.notSupported "gone"), n + 1)
    let q := discover [("once", once)] [⟨"a,b", "once"⟩, ⟨"c", "once"⟩, ⟨"d", "none"⟩]
      ⟨empty .mac, 0, []⟩
    (q.value.names, q.state, q.log) =
      ([], 2, [.rejected .mac "a,b", .skipped .mac "c" (.notSupported "gone"),
        .missing .mac "d" "none"]) := by
  decide

end Registry

end SecureShell
