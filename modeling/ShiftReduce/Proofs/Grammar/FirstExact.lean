import ShiftReduce.Proofs.Grammar.Parentheses
import ShiftReduce.Proofs.Grammar.Registered
import ShiftReduce.Proofs.Grammar.Remembered

/-!
# Computing FIRST sets

The rounds over the productions of a grammar come to an end, and what is computed is what they end
in, also if it was remembered from an earlier computation. Only a nonterminal without production
makes the computation fail. Then FIRST of any sequence of the grammar's symbols is read off its
derivations. Read `computeFirst_exact` first.
-/

namespace ShiftReduce.Grammar

variable {α : Type} {g : Grammar α} {name : String} {s : Symbol}

/-- A registered nonterminal that has no production. -/
structure Undefined (g : Grammar α) (name : String) : Prop where
  registered : name ∈ g.nonterminals.keys
  production : ∀ {i : Nat} {p : Production α}, g.production? i = some p → p.name ≠ name

/-- The sets that a grammar has computed are those in which the rounds end, and FIRST of a sequence
of the grammar's symbols holds just the terminals that the sequence begins with. -/
structure ExactFirst (g computed : Grammar α) : Prop where
  settles : Settles g.firstRound g.firstSeed computed.first
  terminals : ∀ {xs : List Symbol} {t : Symbol}, (∀ s ∈ xs, s ∈ g.terminals.keys ++ g.growing) →
    (t ∈ (computed.firstOf xs).terminals ↔ g.BeginsWith xs t)
  empty : ∀ {xs : List Symbol}, (∀ s ∈ xs, s ∈ g.terminals.keys ++ g.growing) →
    ((computed.firstOf xs).empty = true ↔ g.Vanishes xs)

/-! ## The symbols of a grammar -/

/-- A registered nonterminal is written like one: it is a left side or stands on a right side. -/
theorem Made.isNonterminalName (h : g.Made) (hname : name ∈ g.nonterminals.keys) :
    isNonterminalName name = true := by
  obtain hleft | ⟨i, hi⟩ := h.registered.known name hname
  · obtain ⟨i, p, hp, rfl⟩ := exists_mem_tail_iff.mp hleft
    exact (h.wellFormed.name hp).1
  · obtain ⟨p, hp, hs⟩ := exists_production?_of_mem_rightSide hi
    exact (h.wellFormed.knows hp hs).1

/-- The symbols of a grammar are those its registries know. -/
theorem Made.knows (h : g.Made) (hs : s ∈ g.terminals.keys ++ g.growing) : g.Knows s := by
  rcases List.mem_append.mp hs with hterminal | hgrowing
  · cases s with
    | nonterminal name => cases h.wellFormed.terminal hterminal
    | token name => exact hterminal
    | literal c => exact hterminal
  · obtain ⟨name, hname, rfl⟩ := List.mem_map.mp hgrowing
    exact ⟨h.isNonterminalName hname, hname⟩

/-! ## Nonterminals without production -/

/-- A registered nonterminal has a production unless it has no rules. -/
theorem Made.undefined_iff (h : g.Made) (hname : name ∈ g.nonterminals.keys) :
    g.Undefined name ↔ name ∉ g.rules.keys := by
  rw [h.wellFormed.mem_rules_iff]
  constructor
  · rintro hundefined ⟨i, p, hp, hpname⟩
    exact hundefined.production hp hpname
  · refine fun hnone => ⟨hname, fun {i p} hp hpname => ?_⟩
    -- production 0 is not written like a registered nonterminal
    have hi : i ≠ 0 := by
      refine ne_zero_of_knows h.wellFormed hp ?_
      rw [hpname]
      exact ⟨h.isNonterminalName hname, hname⟩
    obtain ⟨j, rfl⟩ := Nat.exists_eq_succ_of_ne_zero hi
    exact hnone ⟨j, p, hp, hpname⟩

/-- The nonterminal that is found to be undefined has no production. -/
theorem Made.undefined_of_undefined? (h : g.Made) (hfind : g.undefined? = some name) :
    g.Undefined name := by
  obtain ⟨hnone, before, behind, hkeys, _⟩ := List.find?_eq_some_iff_append.mp hfind
  have hname : name ∈ g.nonterminals.keys := by simp [hkeys]
  refine (h.undefined_iff hname).mpr fun hkey => ?_
  simp [Registry.contains_iff.mpr hkey] at hnone

/-- If none is found to be undefined, all have productions. -/
theorem Made.not_undefined (h : g.Made) (hfind : g.undefined? = none) : ¬ g.Undefined name := by
  intro hundefined
  have hrule := List.find?_eq_none.mp hfind name hundefined.registered
  refine (h.undefined_iff hundefined.registered).mp hundefined (Registry.contains_iff.mp ?_)
  simpa using hrule

/-! ## The computation -/

/-- The FIRST sets of a grammar are exact. -/
theorem Made.exactFirst (h : g.Made) :
    g.ExactFirst { g with first := g.firstSets } where
  settles := settles_firstSets h.wellFormed
  terminals hxs := mem_ofSequence_iff h.wellFormed fun s hs => h.knows (hxs s hs)
  empty hxs := empty_ofSequence_iff h.wellFormed fun s hs => h.knows (hxs s hs)

/-- If every nonterminal of a right side has a production, the FIRST sets can be computed. -/
theorem Made.computeFirst_of_defined (h : g.Made)
    (hdefined : ∀ i p name, g.production? i = some p → .nonterminal name ∈ p.symbols →
      g.ruleIndices name ≠ []) :
    g.computeFirst = (.ok g.firstSets, { g with first := g.firstSets }) := by
  have hfind : g.undefined? = none := by
    cases hfind : g.undefined? with
    | none => rfl
    | some name =>
        obtain ⟨hname, hnone⟩ := h.undefined_of_undefined? hfind
        obtain hleft | ⟨i, hi⟩ := h.registered.known name hname
        · obtain ⟨i, p, hp, hpname⟩ := exists_mem_tail_iff.mp hleft
          exact absurd hpname (hnone hp)
        · obtain ⟨p, hp, hmem⟩ := exists_production?_of_mem_rightSide hi
          obtain ⟨j, hj⟩ := List.exists_mem_of_ne_nil _ (hdefined i p name hp hmem)
          obtain ⟨_, q, hq, hqname⟩ := h.wellFormed.rules.mp hj
          exact absurd hqname (hnone hq)
  rw [h.remembers.computeFirst_eq, hfind]

/-- In every grammar that declarations can make, computing FIRST sets comes to an end; it fails just
when a registered nonterminal has no production, which it names, and otherwise the sets are
exact. -/
theorem computeFirst_exact (h : g.Made) :
    ((∃ e, g.computeFirst.1 = .error e) ↔ ∃ name, g.Undefined name) ∧
      (∀ e, g.computeFirst.1 = .error e →
        ∃ name, e = .undefinedNonterminal name ∧ g.Undefined name) ∧
      ∀ first, g.computeFirst.1 = .ok first →
        g.computeFirst.2.first = first ∧ g.ExactFirst g.computeFirst.2 := by
  rw [h.remembers.computeFirst_eq]
  cases hfind : g.undefined? with
  | some name =>
      have hundefined := h.undefined_of_undefined? hfind
      refine ⟨⟨fun _ => ⟨name, hundefined⟩, fun _ => ⟨_, rfl⟩⟩, ?_, nofun⟩
      rintro _ ⟨⟩
      exact ⟨name, rfl, hundefined⟩
  | none =>
      refine ⟨⟨nofun, fun ⟨_, hundefined⟩ => absurd hundefined (h.not_undefined hfind)⟩, nofun, ?_⟩
      rintro _ ⟨⟩
      exact ⟨rfl, h.exactFirst⟩

theorem computeFirst_exact_parentheses :
    (parentheses (none : Option Unit)).Made ∧
      (¬ ∃ name, (parentheses (none : Option Unit)).Undefined name) ∧
      (parentheses (none : Option Unit)).ExactFirst (parentheses none).computeFirst.2 := by
  have hmade := made_parentheses (none : Option Unit)
  obtain ⟨hfails, _, hexact⟩ := computeFirst_exact hmade
  have hanswer : ∃ first, (parentheses (none : Option Unit)).computeFirst.1 = .ok first :=
    ⟨_, rfl⟩
  obtain ⟨first, hfirst⟩ := hanswer
  refine ⟨hmade, fun hundefined => ?_, (hexact first hfirst).2⟩
  obtain ⟨e, he⟩ := hfails.mpr hundefined
  rw [hfirst] at he
  cases he

example : (parentheses (none : Option Unit)).computeFirst.2.firstOf
      [.nonterminal "items", .literal ')'] =
    ⟨[.literal '(', .literal ')'], false⟩ := by decide +kernel

end ShiftReduce.Grammar
