import ShiftReduce.Proofs.Automaton.Viable

/-!
# Items with a terminal that may follow

`Expects` gives the terminals that may come behind the production of an item after a string. They
are generated where something begins behind the nonterminal that calls for the production, and
passed on where what comes behind it can vanish. `ValidFor` gives them through what begins behind
the nonterminal together with the terminal passed on. The two agree in a grammar in which every
nonterminal can begin or vanish: `expects_iff_validFor`.
-/

namespace ShiftReduce.Grammar

variable {α : Type} {g : Grammar α} {γ : List Symbol} {i j dot : Nat} {name : String}
  {symbol t u : Symbol} {p : Production α}

/-- The terminals that an item expects behind its production after a string. -/
inductive Expects (g : Grammar α) : List Symbol → Nat → Nat → Symbol → Prop
  | start : Expects g [] 0 0 .endOfInput
  | read {γ : List Symbol} {i dot : Nat} {symbol t : Symbol} : Expects g γ i dot t →
      g.symbolAt i dot = some symbol → Expects g (γ ++ [symbol]) i (dot + 1) t
  | generate {γ : List Symbol} {i dot j : Nat} {name : String} {t : Symbol} : g.Viable γ i dot →
      g.symbolAt i dot = some (.nonterminal name) → j ∈ g.ruleIndices name →
      g.BeginsWith (g.rest i (dot + 1)) t → Expects g γ j 0 t
  | pass {γ : List Symbol} {i dot j : Nat} {name : String} {t : Symbol} : Expects g γ i dot t →
      g.symbolAt i dot = some (.nonterminal name) → j ∈ g.ruleIndices name →
      g.Vanishes (g.rest i (dot + 1)) → Expects g γ j 0 t

/-- The items that are valid for a string together with a terminal: where a nonterminal stands after
the dot, its first items are valid with each terminal that begins what comes behind it, the terminal
of the item included. -/
inductive ValidFor (g : Grammar α) : List Symbol → Nat → Nat → Symbol → Prop
  | start : ValidFor g [] 0 0 .endOfInput
  | read {γ : List Symbol} {i dot : Nat} {symbol t : Symbol} : ValidFor g γ i dot t →
      g.symbolAt i dot = some symbol → ValidFor g (γ ++ [symbol]) i (dot + 1) t
  | expand {γ : List Symbol} {i dot j : Nat} {name : String} {t u : Symbol} :
      ValidFor g γ i dot t → g.symbolAt i dot = some (.nonterminal name) →
      j ∈ g.ruleIndices name → g.BeginsWith (g.rest i (dot + 1) ++ [t]) u → ValidFor g γ j 0 u

/-- What may come behind a nonterminal after a string. -/
def Behind (g : Grammar α) (γ : List Symbol) (name : String) (t : Symbol) : Prop :=
  ∃ i dot, g.Viable γ i dot ∧ g.symbolAt i dot = some (.nonterminal name) ∧
    (g.BeginsWith (g.rest i (dot + 1)) t ∨
      g.Vanishes (g.rest i (dot + 1)) ∧ g.Expects γ i dot t)

/-! ## Items that expect something -/

/-- An item that expects something is valid. -/
theorem Expects.viable (h : g.Expects γ i dot t) : g.Viable γ i dot := by
  induction h with
  | start => exact .start
  | read _ hsymbol ih => exact .read ih hsymbol
  | generate hat hname hj _ => exact .expand hat hname hj
  | pass _ hname hj _ ih => exact .expand ih hname hj

/-- Only terminals are expected. -/
theorem Expects.isTerminal (h : g.Expects γ i dot t) : t.isTerminal = true := by
  induction h with
  | start => rfl
  | read _ _ ih => exact ih
  | generate _ _ _ hbegins => exact hbegins.1
  | pass _ _ _ _ ih => exact ih

/-- What is expected is the end of input or stands on a right side. -/
theorem Expects.eq_endOfInput_or_mem (h : g.Expects γ i dot t) :
    t = .endOfInput ∨ ∃ j p, g.production? j = some p ∧ t ∈ p.symbols := by
  induction h with
  | start => exact Or.inl rfl
  | read _ _ ih => exact ih
  | generate _ _ _ hbegins =>
      refine Or.inr ((starting_iff.mpr hbegins).mem.elim (fun hmem => ?_) id)
      obtain ⟨p, hp, hin⟩ := mem_of_mem_rest hmem
      exact ⟨_, p, hp, hin⟩
  | pass _ _ _ _ ih => exact ih

/-- A first item expects what may come behind its name. -/
theorem Behind.expects (h : g.Behind γ name t) (hj : j ∈ g.ruleIndices name) :
    g.Expects γ j 0 t := by
  obtain ⟨i, dot, hat, hname, hbegins | ⟨hvanishes, hexpects⟩⟩ := h
  · exact .generate hat hname hj hbegins
  · exact .pass hexpects hname hj hvanishes

/-- From a first item the dot can be moved over all symbols, and the same is expected. -/
theorem Expects.along (hp : g.production? i = some p) (h : g.Expects γ i 0 t)
    (hdot : dot ≤ p.symbols.length) : g.Expects (γ ++ g.seen i dot) i dot t :=
  seen_induction (P := fun γ dot => g.Expects γ i dot t) hp .read h hdot

/-- What an item expects its first item expects where the right side begins. -/
theorem Expects.front (h : g.Expects γ i dot t) :
    ∃ δ, γ = δ ++ g.seen i dot ∧ g.Expects δ i 0 t := by
  induction h with
  | start => exact ⟨[], by rw [seen_zero]; rfl, .start⟩
  | read _ hsymbol ih =>
      obtain ⟨δ, rfl, hfront⟩ := ih
      exact ⟨δ, by rw [seen_succ hsymbol, List.append_assoc], hfront⟩
  | generate hat hname hj hbegins =>
      exact ⟨_, by rw [seen_zero, List.append_nil], .generate hat hname hj hbegins⟩
  | pass hat hname hj hvanishes _ =>
      exact ⟨_, by rw [seen_zero, List.append_nil], .pass hat hname hj hvanishes⟩

/-! ## Comparing the two -/

/-- Every nonterminal of a right side begins with a terminal or vanishes. -/
def Beginning (g : Grammar α) : Prop :=
  ∀ {i : Nat} {p : Production α} {name : String}, g.production? i = some p →
    .nonterminal name ∈ p.symbols →
    (∃ t, g.BeginsWith [.nonterminal name] t) ∨ g.Vanishes [.nonterminal name]

/-- What is valid with a terminal expects it. -/
theorem ValidFor.expects (h : g.ValidFor γ i dot t) : g.Expects γ i dot t := by
  induction h with
  | start => exact .start
  | read _ hsymbol ih => exact .read ih hsymbol
  | expand _ hname hj hbegins ih =>
      rcases (beginsWith_append_terminal ih.isTerminal).mp hbegins with hbegins | ⟨hvanishes, rfl⟩
      · exact .generate ih.viable hname hj hbegins
      · exact .pass ih hname hj hvanishes

/-- With a terminal behind it every part of a right side begins with something. -/
theorem Beginning.exists_beginsWith (h : g.Beginning) (ht : t.isTerminal = true) {xs : List Symbol}
    (hxs : ∀ name, .nonterminal name ∈ xs → ∃ i p, g.production? i = some p ∧
      .nonterminal name ∈ p.symbols) : ∃ u, g.BeginsWith (xs ++ [t]) u := by
  simp only [← starting_iff]
  induction xs with
  | nil => exact ⟨t, .terminal ht⟩
  | cons first rest ih =>
      obtain ⟨u, hrest⟩ := ih fun name hname => hxs name (List.mem_cons_of_mem _ hname)
      have hterminal : first.isTerminal = true → ∃ u, g.Starting (first :: rest ++ [t]) u :=
        fun hfirst => ⟨first, .terminal hfirst⟩
      cases first with
      | token _ => exact hterminal rfl
      | literal _ => exact hterminal rfl
      | nonterminal name =>
          obtain ⟨i, p, hp, hmem⟩ := hxs name List.mem_cons_self
          rw [List.cons_append, ← List.singleton_append]
          rcases h hp hmem with ⟨v, hbegins⟩ | hvanishes
          · exact ⟨v, starting_append.mpr (Or.inl (starting_iff.mpr hbegins))⟩
          · exact ⟨u, starting_append.mpr (Or.inr ⟨vanishing_iff.mpr hvanishes, hrest⟩)⟩

/-- Where every nonterminal begins or vanishes, a valid item is valid with some terminal. -/
theorem Viable.exists_validFor (hbegin : g.Beginning) (h : g.Viable γ i dot) :
    ∃ t, g.ValidFor γ i dot t := by
  induction h with
  | start => exact ⟨_, .start⟩
  | read _ hsymbol ih =>
      obtain ⟨t, ht⟩ := ih
      exact ⟨t, .read ht hsymbol⟩
  | @expand γ i dot j name _ hname hj ih =>
      obtain ⟨t, ht⟩ := ih
      have hrest : ∀ name, .nonterminal name ∈ g.rest i (dot + 1) → ∃ j p,
          g.production? j = some p ∧ .nonterminal name ∈ p.symbols := by
        intro name hmem
        obtain ⟨p, hp, hin⟩ := mem_of_mem_rest hmem
        exact ⟨i, p, hp, hin⟩
      obtain ⟨u, hu⟩ := hbegin.exists_beginsWith ht.expects.isTerminal hrest
      exact ⟨u, .expand ht hname hj hu⟩

/-- Where every nonterminal begins or vanishes, an item is valid with what it expects. -/
theorem expects_iff_validFor (hbegin : g.Beginning) :
    g.Expects γ i dot t ↔ g.ValidFor γ i dot t := by
  refine ⟨fun h => ?_, ValidFor.expects⟩
  induction h with
  | start => exact .start
  | read _ hsymbol ih => exact .read ih hsymbol
  | generate hat hname hj hbegins =>
      obtain ⟨u, hu⟩ := hat.exists_validFor hbegin
      have hmore := (beginsWith_append_terminal hu.expects.isTerminal).mpr (Or.inl hbegins)
      exact .expand hu hname hj hmore
  | pass _ hname hj hvanishes ih =>
      have hmore :=
        (beginsWith_append_terminal ih.expects.isTerminal).mpr (Or.inr ⟨hvanishes, rfl⟩)
      exact .expand ih hname hj hmore

end ShiftReduce.Grammar
