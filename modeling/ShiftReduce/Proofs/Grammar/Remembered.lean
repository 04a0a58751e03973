import ShiftReduce.Proofs.Grammar.Follow

/-!
# Remembered sets are those of the grammar

A grammar remembers the FIRST and FOLLOW sets that were computed from it, and forgets them whenever
its productions or its start symbol change. So what it remembers are the sets in which the rounds
over its own productions end.
-/

namespace ShiftReduce.Grammar

variable {α : Type} {g other final : Grammar α} {start : String} {name : Option String}

/-- The remembered sets of a grammar are those computed from it. -/
structure Remembers (g : Grammar α) : Prop where
  first : g.first.entries ≠ [] → g.undefined? = none ∧ g.first = g.firstSets
  follow : ∀ {start : String}, g.followStart = some start →
    g.undefined? = none ∧ g.first = g.firstSets ∧ g.follow = g.followSets start

/-! ## What the sets are computed from -/

/-- Two grammars have the same rules: the same names and right sides of productions, and the same
registries. -/
structure SameRules (g other : Grammar α) : Prop where
  productions : (other.productions.map fun p => (p.name, p.symbols)) =
    g.productions.map fun p => (p.name, p.symbols)
  rules : other.rules = g.rules
  terminals : other.terminals = g.terminals
  nonterminals : other.nonterminals = g.nonterminals

/-- Building the items changes no rule. -/
theorem sameRules_buildItems (g : Grammar α) : g.SameRules g.buildItems :=
  ⟨map_buildItems (fun _ _ => rfl) g, rfl, rfl, rfl⟩

/-- A round looks at the names and right sides of the productions only. -/
theorem followSweep_eq (g : Grammar α) (follow : Registry String (List Symbol)) :
    g.followSweep follow = sweep (fun follow p => extendFollow g.first p.1 follow p.2) follow
      (g.productions.map fun p => (p.name, p.symbols)).tail := by
  rw [← List.map_tail, sweep_map]
  rfl

namespace SameRules

theorem symbols (h : g.SameRules other) (i : Nat) :
    (other.production? i).map Production.symbols = (g.production? i).map Production.symbols := by
  have hi := congrArg (fun rules => rules[i]?.map Prod.snd) h.productions
  simpa [production?, Function.comp_def] using hi

theorem undefined? (h : g.SameRules other) : other.undefined? = g.undefined? := by
  rw [Grammar.undefined?, h.nonterminals, h.rules, Grammar.undefined?]

theorem firstName? (h : g.SameRules other) : other.firstName? = g.firstName? := by
  have hname := congrArg (fun rules => rules[1]?.map Prod.fst) h.productions
  simpa [Grammar.firstName?, production?, Function.comp_def] using hname

/-- The FIRST sets depend on the rules only. -/
theorem firstSets (h : g.SameRules other) : other.firstSets = g.firstSets := by
  have hsides : other.rightSides = g.rightSides := by
    funext name
    simp only [rightSides, h.rules, h.symbols]
  have hround : other.firstSweep = g.firstSweep := by
    funext first
    rw [firstSweep, firstSweep, hsides, h.nonterminals]
  have hfuel : other.firstFuel = g.firstFuel := by
    rw [firstFuel, h.terminals, h.nonterminals, firstFuel]
  have hseed : other.firstSeed = g.firstSeed := by
    rw [firstSeed, h.terminals, h.nonterminals, firstSeed]
  rw [Grammar.firstSets, hround, hfuel, hseed, Grammar.firstSets]

/-- The FOLLOW sets depend on the rules and the FIRST sets only. -/
theorem followSets (h : g.SameRules other) (hfirst : other.first = g.first) (start : String) :
    other.followSets start = g.followSets start := by
  have hround : other.followSweep = g.followSweep := by
    funext follow
    rw [followSweep_eq, followSweep_eq, h.productions, hfirst]
  have hfuel : other.followFuel = g.followFuel := by
    rw [followFuel, h.terminals, h.nonterminals, followFuel]
  have hseed : other.followSeed start = g.followSeed start := by
    rw [followSeed, h.nonterminals, followSeed]
  rw [Grammar.followSets, hround, hfuel, hseed, Grammar.followSets]

end SameRules

/-! ## Declarations -/

/-- FIRST sets are computed unless some nonterminal is undefined, also if they were computed
before. -/
theorem Remembers.computeFirst_eq (h : g.Remembers) :
    g.computeFirst =
      match g.undefined? with
      | some name => (.error (.undefinedNonterminal name), g)
      | none => (.ok g.firstSets, { g with first := g.firstSets }) := by
  unfold Grammar.computeFirst
  split
  · rename_i hknown
    obtain ⟨hdefined, hsame⟩ := h.first hknown
    rw [hdefined, ← hsame]
  · rfl

/-- With the FIRST sets remembered, so are FOLLOW sets that were remembered before. -/
theorem Remembers.withFirst (h : g.Remembers) (hdefined : g.undefined? = none) :
    ({ g with first := g.firstSets } : Grammar α).Remembers := by
  refine ⟨fun _ => ⟨hdefined, rfl⟩, fun {start} hstart => ?_⟩
  obtain ⟨_, hfirst, hfollow⟩ := h.follow hstart
  have hsame : ({ g with first := g.firstSets } : Grammar α) = g := by rw [← hfirst]
  rw [hsame]
  exact ⟨hdefined, hfirst, hfollow⟩

theorem Remembers.computeFirst (h : g.Remembers) : g.computeFirst.2.Remembers := by
  rw [h.computeFirst_eq]
  split
  · exact h
  · rename_i hdefined
    exact h.withFirst hdefined

/-- A grammar that has computed its FIRST sets and its FOLLOW sets for a start symbol. -/
def withSets (g : Grammar α) (start : String) : Grammar α :=
  { g with
    first := g.firstSets
    follow := ({ g with first := g.firstSets } : Grammar α).followSets start
    followStart := some start }

/-- The sets that are computed depend on the rules only. -/
theorem SameRules.follow_withSets (h : g.SameRules other) (start : String) :
    (other.withSets start).follow = (g.withSets start).follow := by
  have hrules : SameRules { g with first := g.firstSets }
      { other with first := other.firstSets } :=
    ⟨h.productions, h.rules, h.terminals, h.nonterminals⟩
  exact hrules.followSets h.firstSets start

/-- FOLLOW sets are computed unless there is no production or some nonterminal is undefined, also if
they were computed before. -/
theorem Remembers.computeFollow_eq (h : g.Remembers) (name : Option String) :
    g.computeFollow name =
      match name.or g.firstName? with
      | none => (.error .noProductions, g)
      | some start =>
          match g.undefined? with
          | some name => (.error (.undefinedNonterminal name), g)
          | none => (.ok (g.withSets start).follow, g.withSets start) := by
  unfold Grammar.computeFollow
  cases name.or g.firstName? with
  | none => rfl
  | some start =>
      dsimp only
      split
      · rename_i hknown
        obtain ⟨hdefined, hfirst, hfollow⟩ := h.follow hknown
        have hsame : g.withSets start = g := by
          have hcomputed : ({ g with first := g.firstSets } : Grammar α) = g := by rw [← hfirst]
          rw [withSets, hcomputed, ← hfirst, ← hfollow, ← hknown]
        rw [hdefined, hsame]
      · rw [h.computeFirst_eq]
        cases g.undefined? <;> rfl

/-- With a start symbol and all nonterminals defined, computing FOLLOW sets leaves all sets
computed. -/
theorem Remembers.computeFollow_of_defined (h : g.Remembers)
    (hname : name.or g.firstName? = some start) (hdefined : g.undefined? = none) :
    g.computeFollow name = (.ok (g.withSets start).follow, g.withSets start) := by
  rw [h.computeFollow_eq, hname, hdefined]

/-- Computed sets are remembered. -/
theorem remembers_withSets (hdefined : g.undefined? = none) (start : String) :
    (g.withSets start).Remembers := by
  refine ⟨fun _ => ⟨hdefined, rfl⟩, fun {start'} hstart => ?_⟩
  cases hstart
  exact ⟨hdefined, rfl, rfl⟩

/-- Computing FOLLOW sets leaves those of the grammar for the start symbol. -/
theorem computeFollow_spec (h : g.Remembers) {follow : Registry String (List Symbol)}
    (hcompute : g.computeFollow (some start) = (.ok follow, final)) :
    final.Remembers ∧ final.followStart = some start := by
  rw [h.computeFollow_eq] at hcompute
  dsimp only [Option.some_or] at hcompute
  split at hcompute
  · cases hcompute
  · rename_i hdefined
    cases hcompute
    exact ⟨remembers_withSets hdefined start, rfl⟩

theorem Remembers.computeFollow (h : g.Remembers) (name : Option String) :
    (g.computeFollow name).2.Remembers := by
  rw [h.computeFollow_eq]
  split
  · exact h
  · rename_i start _
    split
    · exact h
    · rename_i hdefined
      exact remembers_withSets hdefined start

/-- Building the items changes no right side, so the sets stay those of the grammar. -/
theorem Remembers.buildItems (h : g.Remembers) : g.buildItems.Remembers := by
  have hrules := sameRules_buildItems g
  refine ⟨fun hknown => ?_, fun {start} hstart => ?_⟩
  · rw [hrules.undefined?, hrules.firstSets]
    exact h.first hknown
  · rw [hrules.undefined?, hrules.firstSets, hrules.followSets rfl]
    exact h.follow hstart

/-- A grammar that has forgotten its sets remembers nothing wrong. -/
theorem remembers_forget (g : Grammar α) : g.forget.Remembers :=
  ⟨fun hknown => absurd rfl hknown, fun hstart => nomatch hstart⟩

/-- Every grammar that declarations can make remembers its own sets. -/
theorem Made.remembers (h : g.Made) : g.Remembers := by
  induction h with
  | ofTokens h =>
      unfold Grammar.ofTokens at h
      split at h
      · cases h
      · cases h
        exact ⟨fun hknown => absurd rfl hknown, fun hstart => nomatch hstart⟩
  | @setPrecedence g s assoc level _ ih =>
      obtain ⟨_, hsame⟩ := setPrecedence_grammar g s assoc level
      rw [hsame]
      exact ⟨ih.first, ih.follow⟩
  | @addProduction g name symbols tag action _ ih =>
      obtain ⟨_, hsame | ⟨p, hsame⟩⟩ := addProduction_grammar g name symbols tag action
      · rw [hsame]
        exact ⟨ih.first, ih.follow⟩
      · -- a new production forgets the sets
        rw [hsame]
        exact remembers_forget _
  | @setStart g name _ ih =>
      rcases setStart_grammar g name with hsame | ⟨start, _, hsame⟩
      · rw [hsame]
        exact ih
      · rw [hsame]
        exact remembers_forget _
  | buildItems _ ih => exact ih.buildItems
  | computeFirst _ ih => exact ih.computeFirst
  | computeFollow start _ ih => exact ih.computeFollow start

end ShiftReduce.Grammar
