import ShiftReduce.Proofs.Grammar.Core

/-!
# Answers that do not depend on what was computed before

A grammar remembers what was computed from it, and what is asked of it next may be answered from
memory. Each answer is the one that the bare grammar gives, which remembers nothing: the sets are
those in which the rounds end, and a table is built from items, sets and a start symbol that are all
made from the bare grammar. So two histories with the same accepted declarations and the same start
symbol in the end lead to the same answers. Read `answers_of_history` first.
-/

namespace ShiftReduce

variable {α : Type} {g other : Grammar α} {start : String} {method : Method}

/-! ## What the automaton is read off -/

namespace Automaton

section Congr

variable (hproductions : other.productions = g.productions) (hitems : other.items = g.items)
include hproductions hitems

theorem closeFrom_congr (fuel : Nat) (added pending : List Nat) :
    closeFrom other fuel added pending = closeFrom g fuel added pending := by
  have hafter : other.productionsAfter = g.productionsAfter := by
    funext id
    rw [Grammar.productionsAfter, Grammar.item?, hitems, Grammar.productionsAfter, Grammar.item?]
  have hfirst : other.firstItemOf? = g.firstItemOf? := by
    funext index
    rw [Grammar.firstItemOf?, Grammar.production?, hproductions, Grammar.firstItemOf?,
      Grammar.production?]
  induction fuel generalizing added pending with
  | zero => rfl
  | succ fuel ih =>
      cases pending with
      | nil => rfl
      | cons id pending => simp only [closeFrom, hafter, hfirst, ih]

theorem closure_congr (items : List Nat) : closure other items = closure g items := by
  rw [closure, hproductions, closeFrom_congr hproductions hitems, closure]

theorem goto_congr (items : List Nat) (s : Symbol) : goto other items s = goto g items s := by
  have hitem : other.item? = g.item? := by
    funext id
    rw [Grammar.item?, hitems, Grammar.item?]
  have hadvance : advance? other s = advance? g s := by
    funext id
    rw [advance?, hitem, advance?]
  rw [goto, kernel, hadvance, closure_congr hproductions hitems, goto, kernel]

theorem leave_congr (current : List Nat) (found : Found) (symbols : List Symbol) :
    leave other current found symbols = leave g current found symbols := by
  induction symbols generalizing found with
  | nil => rfl
  | cons s rest ih => simp only [leave, goto_congr hproductions hitems, ih]

theorem explore_congr (fuel number : Nat) (found : Found) :
    explore other fuel number found = explore g fuel number found := by
  have hsymbols : symbolsOf other = symbolsOf g := by
    funext items
    have hdot : other.atDot? = g.atDot? := by
      funext id
      rw [Grammar.atDot?, Grammar.item?, hitems, Grammar.atDot?, Grammar.item?]
    rw [symbolsOf, hdot, symbolsOf]
  induction fuel generalizing number found with
  | zero => rfl
  | succ fuel ih => simp only [explore, hsymbols, leave_congr hproductions hitems, ih]

/-- The states are read off the productions and the items alone. -/
theorem states_congr : states other = states g := by
  have hfirst : other.firstItemOf? 0 = g.firstItemOf? 0 := by
    rw [Grammar.firstItemOf?, Grammar.production?, hproductions, Grammar.firstItemOf?,
      Grammar.production?]
  simp only [states, hfirst, hitems, closure_congr hproductions hitems,
    explore_congr hproductions hitems]

end Congr

end Automaton

namespace Grammar

/-- A table does not depend on which tags were noted. -/
theorem ofStates_usedTags (g : Grammar α) (usedTags : List Symbol) (method : Method) :
    Table.ofStates { g with usedTags } (Automaton.states { g with usedTags }) method =
      Table.ofStates g (Automaton.states g) method := by
  have hstates : Automaton.states { g with usedTags } = Automaton.states g :=
    Automaton.states_congr rfl rfl
  rw [hstates]
  rfl

/-! ## The bare grammar -/

/-- The bare grammar has the same rules. -/
theorem sameRules_bare (g : Grammar α) : g.SameRules g.bare where
  productions := by
    show (g.productions.map Production.unplaced).map _ = _
    rw [List.map_map]
    rfl
  rules := rfl
  terminals := rfl
  nonterminals := rfl

/-- The bare grammar remembers nothing. -/
theorem remembers_bare (g : Grammar α) : g.bare.Remembers :=
  remembers_forget { g with productions := g.productions.map Production.unplaced, usedTags := [] }

/-- Items are laid out by the rules, wherever the items of a production were before. -/
theorem layOut_bare (base : Nat) (ps : List (Production α)) :
    g.bare.layOut base (ps.map Production.unplaced) = g.layOut base ps := by
  induction ps generalizing base with
  | nil => rfl
  | cons p rest ih =>
      simp only [List.map_cons, layOut]
      rw [show p.unplaced.symbols = p.symbols from rfl, ih]
      rfl

theorem buildItems_bare (g : Grammar α) : g.bare.buildItems =
    { g.buildItems with usedTags := [], first := {}, follow := {}, followStart := none } := by
  have hlayOut : g.bare.layOut 0 g.bare.productions = g.layOut 0 g.productions :=
    layOut_bare 0 g.productions
  rw [buildItems, hlayOut, buildItems]
  rfl

/-- Items and sets made from the bare grammar are those made from the grammar. -/
theorem withSets_bare (g : Grammar α) (start : String) :
    g.bare.buildItems.withSets start = { g.buildItems.withSets start with usedTags := [] } := by
  rw [buildItems_bare]
  rfl

theorem remembers_restart (g : Grammar α) (start : String) : (g.restart start).Remembers :=
  remembers_forget _

/-- It does not matter when what was computed is forgotten, before a start symbol is chosen or
after. -/
theorem bare_restart (g : Grammar α) (start : String) :
    (g.bare.restart start).bare = (g.restart start).bare := by
  have htail : (g.productions.map Production.unplaced).tail.map Production.unplaced =
      g.productions.tail.map Production.unplaced := by
    rw [← List.map_tail, List.map_map]
    rfl
  exact congrArg (fun tail =>
    { (g.restart start).bare with
      productions := { unstarted with symbols := [.nonterminal start] } :: tail }) htail

/-! ## Answers -/

/-- Two grammars give the same answers to all that can be computed from them. -/
structure SameAnswers (g other : Grammar α) : Prop where
  first : g.computeFirst.1 = other.computeFirst.1
  follow : ∀ start, (g.computeFollow start).1 = (other.computeFollow start).1
  table : ∀ method, (g.buildTable method).1 = (other.buildTable method).1

theorem computeFirst_bare (h : g.Remembers) : g.computeFirst.1 = g.bare.computeFirst.1 := by
  have hrules := sameRules_bare g
  rw [h.computeFirst_eq, (remembers_bare g).computeFirst_eq, hrules.undefined?, hrules.firstSets]
  cases g.undefined? <;> rfl

theorem computeFollow_bare (h : g.Remembers) (start : Option String) :
    (g.computeFollow start).1 = (g.bare.computeFollow start).1 := by
  have hrules := sameRules_bare g
  rw [h.computeFollow_eq, (remembers_bare g).computeFollow_eq, hrules.undefined?,
    hrules.firstName?]
  cases start.or g.firstName? with
  | none => rfl
  | some start =>
      cases g.undefined? with
      | some name => rfl
      | none => exact congrArg Except.ok (hrules.follow_withSets start).symm

/-- A grammar with a start symbol is prepared by building its items and computing its sets, unless
some nonterminal is undefined. -/
theorem Remembers.prepare_eq (h : g.Remembers) (hstart : g.start = some start) :
    g.prepare =
      match g.undefined? with
      | some name => (.error (.undefinedNonterminal name), g.buildItems)
      | none => (.ok (), g.buildItems.withSets start) := by
  have hensured : g.ensureStart = (.ok (), g) := by rw [ensureStart, hstart]
  have hundefined := (sameRules_buildItems g).undefined?
  unfold prepare
  rw [hensured]
  dsimp only
  rw [h.buildItems.computeFirst_eq, hundefined]
  cases hdefined : g.undefined? with
  | some name => rfl
  | none =>
      rw [hdefined] at hundefined
      have hname : g.buildItems.start.or g.buildItems.firstName? = some start := by
        rw [show g.buildItems.start = some start from hstart, Option.some_or]
      have hcomputed := h.buildItems.withFirst hundefined
      dsimp only
      rw [hcomputed.computeFollow_of_defined hname hundefined]
      rfl

/-- With a start symbol, the table is that of the bare grammar. -/
theorem buildTable_bare_of_started (h : g.Remembers) (hstart : g.start = some start)
    (method : Method) : (g.buildTable method).1 = (g.bare.buildTable method).1 := by
  have hbare : g.bare.start = some start := hstart
  rw [buildTable_eq, buildTable_eq, h.prepare_eq hstart, (remembers_bare g).prepare_eq hbare,
    (sameRules_bare g).undefined?]
  cases g.undefined? with
  | some name => rfl
  | none =>
      dsimp only
      rw [withSets_bare]
      exact congrArg Except.ok (ofStates_usedTags _ [] method).symm

/-- A table is built from what choosing the default start symbol leaves. -/
theorem buildTable_ensureStart {started : Grammar α} (h : g.ensureStart = (.ok (), started))
    (method : Method) : g.buildTable method = started.buildTable method := by
  obtain ⟨start, hstart⟩ := exists_start_of_ensureStart h
  have hagain : started.ensureStart = (.ok (), started) := by
    rw [ensureStart, hstart]
  have hsame : g.prepare = started.prepare := by
    rw [prepare, h, prepare, hagain]
  rw [buildTable, hsame, buildTable]

/-- Choosing the default start symbol fails for the bare grammar too, or leaves it bare. -/
theorem ensureStart_bare (g : Grammar α) :
    (∃ e, g.ensureStart = (.error e, g) ∧ g.bare.ensureStart = (.error e, g.bare)) ∨
      (∃ start, g.start = some start) ∨
      ∃ start, g.ensureStart = (.ok (), g.restart start) ∧
        g.bare.ensureStart = (.ok (), g.bare.restart start) := by
  have hname := (sameRules_bare g).firstName?
  have hrules : g.bare.rules = g.rules := rfl
  have hbare : g.bare.start = g.start := rfl
  cases hstart : g.start with
  | some start => exact Or.inr (Or.inl ⟨start, rfl⟩)
  | none =>
      rw [ensureStart, ensureStart, hbare, hstart]
      dsimp only
      rw [setStart, setStart, hname, hrules]
      cases g.firstName? with
      | none => exact Or.inl ⟨_, rfl, rfl⟩
      | some first =>
          dsimp only
          split
          · exact Or.inr (Or.inr ⟨_, rfl, rfl⟩)
          · exact Or.inl ⟨_, rfl, rfl⟩

theorem buildTable_bare (h : g.Remembers) (method : Method) :
    (g.buildTable method).1 = (g.bare.buildTable method).1 := by
  obtain ⟨e, herror, hbare⟩ | ⟨start, hstart⟩ | ⟨start, hstarted, hbare⟩ := ensureStart_bare g
  · rw [buildTable, prepare, herror, buildTable, prepare, hbare]
  · exact buildTable_bare_of_started h hstart method
  · rw [buildTable_ensureStart hstarted, buildTable_ensureStart hbare,
      buildTable_bare_of_started (remembers_restart g start) rfl,
      buildTable_bare_of_started (remembers_restart g.bare start) rfl, bare_restart]

/-- A grammar answers as if it remembered nothing. -/
theorem sameAnswers_bare (h : g.Remembers) : g.SameAnswers g.bare :=
  ⟨computeFirst_bare h, computeFollow_bare h, buildTable_bare h⟩

/-- Grammars that differ in what they have computed only give the same answers. -/
theorem SameAnswers.of_bare (h : g.Remembers) (hother : other.Remembers)
    (hbare : g.bare = other.bare) : g.SameAnswers other := by
  obtain ⟨hfirst, hfollow, htable⟩ := sameAnswers_bare h
  obtain ⟨hfirst', hfollow', htable'⟩ := sameAnswers_bare hother
  rw [← hbare] at hfirst' hfollow' htable'
  exact ⟨hfirst.trans hfirst'.symm, fun start => (hfollow start).trans (hfollow' start).symm,
    fun method => (htable method).trans (htable' method).symm⟩

/-- Two histories of a grammar with the same accepted declarations and, in the end, the same start
symbol lead to the same answers, whatever else was called or refused in between; and what was
computed on the way might as well have been forgotten. -/
theorem answers_of_history {tokens : List String} (h : ofTokens tokens = .ok g)
    {calls calls' : List (Call α)} (haccepted : g.accepted calls = g.accepted calls')
    (hstart : (g.performAll calls).start = (g.performAll calls').start) :
    (g.performAll calls).SameAnswers (g.performAll calls') ∧
      (g.performAll calls).SameAnswers (g.performAll calls).forget := by
  have hmade : g.Made := .ofTokens h
  have hlast := hmade.performAll calls
  have hlast' := hmade.performAll calls'
  have hcore : (g.performAll calls).core = (g.performAll calls').core := by
    rw [core_performAll hmade, core_performAll hmade, haccepted]
  refine ⟨.of_bare hlast.remembers hlast'.remembers ?_,
    .of_bare hlast.remembers (remembers_forget _) rfl⟩
  rw [hlast.bare_eq, hlast'.bare_eq, hcore, hstart]

/-- The declarations of `sumCalls` again, with other computations and refusals between them. -/
def otherSumCalls : List (Call Unit) :=
  [.computeFirst, .setPrecedence (.literal '+') .left 1, .setStart none,
    .addProduction "sum" [.token "NUMBER"] none none, .computeFollow (some "none"),
    .addProduction "sum" [.nonterminal "sum", .literal '+', .nonterminal "sum"] none none,
    .buildTable .slr, .setPrecedence (.token "NUMBER") .left 3, .computeFirst,
    .addProduction "sums" [.nonterminal "sums", .nonterminal "sum"] none none,
    .addProduction "sums" [.nonterminal "sums", .nonterminal "sum"] (some (.literal '+')) none,
    .setStart (some "sums"), .buildItems]

theorem answers_of_history_sums :
    numbers.accepted sumCalls = numbers.accepted otherSumCalls ∧
      (numbers.performAll sumCalls).start = (numbers.performAll otherSumCalls).start ∧
      (numbers.performAll sumCalls).SameAnswers (numbers.performAll otherSumCalls) ∧
      (numbers.performAll sumCalls).SameAnswers (numbers.performAll sumCalls).forget := by
  have hmade : ofTokens ["NUMBER"] = .ok numbers := rfl
  have haccepted : numbers.accepted sumCalls = numbers.accepted otherSumCalls := by
    decide +kernel
  have hstart : (numbers.performAll sumCalls).start =
      (numbers.performAll otherSumCalls).start := by decide +kernel
  exact ⟨haccepted, hstart, answers_of_history hmade haccepted hstart⟩

end Grammar

end ShiftReduce
