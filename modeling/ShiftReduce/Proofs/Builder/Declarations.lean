import ShiftReduce.Builder.Basic
import ShiftReduce.Proofs.Table.Built

/-!
# Declarations in turn

Precedence levels and the productions of one name are declared one after the other. As long as every
terminal is new and every right side too, nothing is refused; then the precedences are those of the
levels and the productions those of the right sides, in order. A table can be built where every
nonterminal has a production. Read `precedences_spec`, `productions_spec` and `exists_buildTable`
first.
-/

namespace ShiftReduce

variable {α V C : Type} {g : Grammar α} {name start : String} {symbols : List Symbol}
  {rules done : List (List Symbol × Option α)} {method : Method}

/-- The precedence that levels declare for a symbol, where `below` levels were declared before. -/
def levelPrecedence : Nat → List (Assoc × List Symbol) → Symbol → Precedence
  | _, [], _ => {}
  | below, (assoc, terminals) :: levels, s =>
      if s ∈ terminals then ⟨assoc, below + 1⟩ else levelPrecedence (below + 1) levels s

namespace Builder

/-- Declares precedence levels in turn, up to the first that is refused. -/
def precedences (b : Builder V C) : List (Assoc × List Symbol) → Built V C
  | [] => (.ok (), b)
  | (assoc, terminals) :: levels =>
      match b.precedence assoc terminals with
      | (.error e, b) => (.error e, b)
      | (.ok _, b) => b.precedences levels

/-- Adds productions of one name in turn, with or without a reduction, up to the first that is
refused. -/
def productions (b : Builder V C) (name : String) :
    List (List Symbol × Option (Reduction V C)) → Built V C
  | [] => (.ok (), b)
  | (symbols, action) :: rules =>
      match b.declare (b.grammar.addProduction name symbols none action) with
      | (.error e, b) => (.error e, b)
      | (.ok _, b) => b.productions name rules

end Builder

/-! ## A new builder -/

/-- Registered tokens are terminals. -/
theorem mem_keys_registerTokens {tokens : List String}
    {terminals result : Registry Symbol (List Nat)}
    (h : registerTokens terminals tokens = .ok result) (hname : name ∈ tokens) :
    .token name ∈ result.keys := by
  induction tokens generalizing terminals with
  | nil => exact absurd hname List.not_mem_nil
  | cons first rest ih =>
      rw [registerTokens] at h
      split at h
      · cases h
      · rcases List.mem_cons.mp hname with rfl | hrest
        · exact (Grammar.registerTokens_spec h).1 _ (Registry.mem_keys_register.mpr (Or.inr rfl))
        · exact ih h hrest

/-- What a grammar of tokens alone is like. -/
structure Grammar.Fresh (g : Grammar α) (tokens : List String) : Prop where
  made : g.Made
  length : g.productions.length = 1
  precedence : g.precedence = {}
  declared : g.declared = []
  nonterminals : g.nonterminals = {}
  named : ∀ name ∈ tokens, .token name ∈ g.terminals.keys

theorem Grammar.fresh_ofTokens {tokens : List String} (h : Grammar.ofTokens tokens = .ok g) :
    g.Fresh tokens := by
  have hmade : g.Made := .ofTokens h
  unfold Grammar.ofTokens at h
  split at h
  · cases h
  · rename_i terminals hterminals
    cases h
    exact ⟨hmade, rfl, rfl, rfl, rfl, fun name hname => mem_keys_registerTokens hterminals hname⟩

/-- A new builder has a grammar of tokens alone. -/
theorem Builder.ofLexer_spec {lexer : Lexer} {b : Builder V C} (h : Builder.ofLexer lexer = .ok b) :
    b.grammar.Fresh lexer.tokenNames ∧ b.level = 0 ∧ b.start = none := by
  unfold Builder.ofLexer at h
  split at h
  · cases h
  · rename_i grammar hgrammar
    cases h
    exact ⟨Grammar.fresh_ofTokens hgrammar, rfl, rfl⟩

/-! ## Precedence levels -/

/-- Levels are numbered upwards. -/
theorem lt_level_of_mem {below : Nat} {levels : List (Assoc × List Symbol)} {s : Symbol}
    (h : s ∈ levels.flatMap Prod.snd) : below < (levelPrecedence below levels s).level := by
  induction levels generalizing below with
  | nil => exact absurd h List.not_mem_nil
  | cons level levels ih =>
      rw [List.flatMap_cons, List.mem_append] at h
      rw [levelPrecedence]
      split
      · exact Nat.lt_succ_self below
      · rename_i hother
        exact Nat.lt_of_succ_lt (ih (h.resolve_left hother))

/-- A symbol of no level has the default precedence. -/
theorem levelPrecedence_of_notMem {below : Nat} {levels : List (Assoc × List Symbol)} {s : Symbol}
    (h : s ∉ levels.flatMap Prod.snd) : levelPrecedence below levels s = {} := by
  induction levels generalizing below with
  | nil => rfl
  | cons level levels ih =>
      rw [List.flatMap_cons, List.mem_append, not_or] at h
      rw [levelPrecedence, if_neg h.1, ih h.2]

/-- A level is that of one declaration, which says the associativity. -/
theorem assoc_levelPrecedence {below : Nat} {levels : List (Assoc × List Symbol)} {s t : Symbol}
    (h : (levelPrecedence below levels s).level = (levelPrecedence below levels t).level) :
    (levelPrecedence below levels s).assoc = (levelPrecedence below levels t).assoc := by
  -- a symbol of the levels behind the first one has another level than that
  have hbehind : ∀ {below : Nat} {levels : List (Assoc × List Symbol)} {s : Symbol},
      (levelPrecedence (below + 1) levels s).level ≠ below + 1 := by
    intro below levels s
    by_cases hmem : s ∈ levels.flatMap Prod.snd
    · exact Nat.ne_of_gt (lt_level_of_mem hmem)
    · rw [levelPrecedence_of_notMem hmem]
      exact Nat.ne_of_lt (Nat.succ_pos below)
  induction levels generalizing below with
  | nil => rfl
  | cons level levels ih =>
      rw [levelPrecedence, levelPrecedence] at h ⊢
      by_cases hs : s ∈ level.2 <;> by_cases ht : t ∈ level.2
      · rw [if_pos hs, if_pos ht]
      · rw [if_pos hs, if_neg ht] at h
        exact absurd h.symm hbehind
      · rw [if_neg hs, if_pos ht] at h
        exact absurd h hbehind
      · rw [if_neg hs, if_neg ht] at h ⊢
        exact ih h

namespace Grammar

/-- New terminals get the precedence of their level. -/
theorem setPrecedences_spec {terminals : List Symbol} (assoc : Assoc) (level : Nat)
    (hproductions : g.productions.length ≤ 1) (hterminal : ∀ s ∈ terminals, s.isTerminal = true)
    (hnodup : terminals.Nodup) (hnew : ∀ s ∈ terminals, g.precedence.get? s = none) :
    ∃ precedence, g.setPrecedences assoc level terminals = (.ok (), { g with precedence }) ∧
      ∀ s, precedence.get? s =
        if s ∈ terminals then some ⟨assoc, level⟩ else g.precedence.get? s := by
  induction terminals generalizing g with
  | nil => exact ⟨g.precedence, rfl, fun s => rfl⟩
  | cons first rest ih =>
      obtain ⟨hfirst, hrest⟩ := List.nodup_cons.mp hnodup
      have hset : g.setPrecedence first assoc level =
          (.ok (), { g with precedence := g.precedence.register first ⟨assoc, level⟩ }) := by
        have hkind : first.isNonterminal = false := by
          simpa [Symbol.isTerminal] using hterminal first List.mem_cons_self
        have hcontains : g.precedence.contains first = false := by
          rw [Registry.contains, hnew first List.mem_cons_self]
          rfl
        simp [setPrecedence, Nat.not_lt.mpr hproductions, hkind, hcontains]
      obtain ⟨precedence, hall, hget⟩ :=
        ih (g := { g with precedence := g.precedence.register first ⟨assoc, level⟩ }) hproductions
          (fun s hs => hterminal s (List.mem_cons_of_mem _ hs)) hrest fun s hs =>
            (Registry.get?_register_of_ne (ne_of_mem_of_not_mem hs hfirst)).trans
              (hnew s (List.mem_cons_of_mem _ hs))
      refine ⟨precedence, ?_, fun s => ?_⟩
      · rw [setPrecedences, hset]
        exact hall
      · rw [hget s]
        by_cases hs : s ∈ rest
        · rw [if_pos hs, if_pos (List.mem_cons_of_mem _ hs)]
        · rw [if_neg hs]
          by_cases hsame : s = first
          · subst hsame
            rw [Registry.get?_register_self, hnew s List.mem_cons_self, if_pos List.mem_cons_self]
            rfl
          · rw [Registry.get?_register_of_ne hsame, if_neg (by simp [hsame, hs])]

end Grammar

/-- Levels of new terminals that are distinct are declared, each above the ones before it. -/
theorem Builder.precedences_spec {b : Builder V C} {levels : List (Assoc × List Symbol)}
    (hproductions : b.grammar.productions.length ≤ 1)
    (hterminal : ∀ s ∈ levels.flatMap Prod.snd, s.isTerminal = true)
    (hnodup : (levels.flatMap Prod.snd).Nodup)
    (hnew : ∀ s ∈ levels.flatMap Prod.snd, b.grammar.precedence.get? s = none) :
    ∃ level precedence,
      b.precedences levels = (.ok (), { b with level, grammar := { b.grammar with precedence } }) ∧
      ∀ s, precedence.get? s =
        if s ∈ levels.flatMap Prod.snd then some (levelPrecedence b.level levels s)
        else b.grammar.precedence.get? s := by
  induction levels generalizing b with
  | nil => exact ⟨b.level, b.grammar.precedence, rfl, fun s => rfl⟩
  | cons first rest ih =>
      obtain ⟨assoc, terminals⟩ := first
      rw [List.flatMap_cons] at hterminal hnodup hnew
      obtain ⟨hfirst, hrest, hapart⟩ := List.nodup_append.mp hnodup
      obtain ⟨own, hown, hget⟩ := Grammar.setPrecedences_spec assoc (b.level + 1) hproductions
        (fun s hs => hterminal s (List.mem_append_left _ hs)) hfirst
        fun s hs => hnew s (List.mem_append_left _ hs)
      have hset : b.precedence assoc terminals = (.ok (),
          { b with level := b.level + 1, grammar := { b.grammar with precedence := own } }) := by
        rw [precedence, declare]
        simp only [hown]
      obtain ⟨level, precedence, hall, hgetAll⟩ :=
        ih (b := { b with level := b.level + 1, grammar := { b.grammar with precedence := own } })
          hproductions (fun s hs => hterminal s (List.mem_append_right _ hs)) hrest fun s hs => by
            refine (hget s).trans ?_
            rw [if_neg fun hmem => hapart s hmem s hs rfl]
            exact hnew s (List.mem_append_right _ hs)
      refine ⟨level, precedence, ?_, fun s => ?_⟩
      · rw [precedences, hset]
        exact hall
      · rw [hgetAll s, List.flatMap_cons, levelPrecedence]
        by_cases hs : s ∈ terminals
        · have hother : s ∉ rest.flatMap Prod.snd := fun hmem => hapart s hs s hmem rfl
          rw [if_neg hother, if_pos (List.mem_append_left _ hs), if_pos hs]
          exact (hget s).trans (if_pos hs)
        · by_cases hmem : s ∈ rest.flatMap Prod.snd
          · rw [if_pos hmem, if_pos (List.mem_append_right _ hmem), if_neg hs]
          · rw [if_neg hmem, if_neg (by simp only [List.mem_append, hs, hmem, or_self,
              not_false_eq_true])]
            exact (hget s).trans (if_neg hs)

theorem Grammar.Made.setPrecedences (h : g.Made) (assoc : Assoc) (level : Nat)
    (terminals : List Symbol) : (g.setPrecedences assoc level terminals).2.Made := by
  induction terminals generalizing g with
  | nil => exact h
  | cons first rest ih =>
      have hfirst := h.setPrecedence first assoc level
      rw [Grammar.setPrecedences]
      split <;> rename_i hset <;> rw [hset] at hfirst
      · exact hfirst
      · exact ih hfirst

theorem Builder.declare_grammar {β : Type} (b : Builder V C) (d : Declared (Reduction V C) β) :
    (b.declare d).2.grammar = d.2 := by
  unfold declare
  dsimp only
  split <;> rfl

theorem Builder.made_precedences {b : Builder V C} (h : b.grammar.Made)
    (levels : List (Assoc × List Symbol)) : (b.precedences levels).2.grammar.Made := by
  induction levels generalizing b with
  | nil => exact h
  | cons first rest ih =>
      have hfirst : (b.precedence first.1 first.2).2.grammar.Made := by
        rw [precedence, declare_grammar]
        exact h.setPrecedences first.1 (b.level + 1) first.2
      rw [precedences]
      split <;> rename_i hset <;> rw [hset] at hfirst
      · exact hfirst
      · exact ih hfirst

/-! ## Productions of one name -/

/-- What a declaration says of a production. -/
def Production.declaration (p : Production α) : String × List Symbol × Precedence × Option α :=
  (p.name, p.symbols, p.prec, p.action)

namespace Grammar

/-- All productions but production 0 have one name and, in order, the given right sides, with the
precedence of their rightmost terminals. -/
def Lists (g : Grammar α) (name : String) (rules : List (List Symbol × Option α)) : Prop :=
  g.productions.tail.map Production.declaration =
    rules.map fun rule => (name, rule.1, g.rightmostPrecedence rule.1, rule.2)

theorem Lists.getElem? (h : g.Lists name rules) (k : Nat) :
    (g.production? (k + 1)).map Production.declaration =
      rules[k]?.map fun rule => (name, rule.1, g.rightmostPrecedence rule.1, rule.2) := by
  rw [production?, ← List.getElem?_tail, ← List.getElem?_map, h, List.getElem?_map]

/-- A production is one of the right sides. -/
theorem Lists.exists_rule (h : g.Lists name rules) {k : Nat} {p : Production α}
    (hp : g.production? (k + 1) = some p) : ∃ rule, rules[k]? = some rule ∧ p.name = name ∧
      p.symbols = rule.1 ∧ p.prec = g.rightmostPrecedence rule.1 ∧ p.action = rule.2 := by
  have hsame := h.getElem? k
  rw [hp, Option.map_some] at hsame
  obtain ⟨rule, hrule, hdeclaration⟩ := Option.map_eq_some_iff.mp hsame.symm
  simp only [Production.declaration, Prod.mk.injEq] at hdeclaration
  obtain ⟨hname, hsymbols, hprec, haction⟩ := hdeclaration
  exact ⟨rule, hrule, hname.symm, hsymbols.symm, hprec.symm, haction.symm⟩

/-- A right side has a production. -/
theorem Lists.exists_production? (h : g.Lists name rules)
    (hsymbols : symbols ∈ rules.map Prod.fst) :
    ∃ i p, i ≠ 0 ∧ g.production? i = some p ∧ p.symbols = symbols := by
  obtain ⟨rule, hrule, rfl⟩ := List.mem_map.mp hsymbols
  obtain ⟨k, hk⟩ := List.getElem?_of_mem hrule
  have hsame := h.getElem? k
  rw [hk, Option.map_some] at hsame
  obtain ⟨p, hp, hdeclaration⟩ := Option.map_eq_some_iff.mp hsame
  exact ⟨k + 1, p, Nat.succ_ne_zero k, hp, (Prod.mk.inj (Prod.mk.inj hdeclaration).2).1⟩

/-- The production that a right side without a tag becomes. -/
def nextProduction (g : Grammar α) (name : String) (symbols : List Symbol) (action : Option α) :
    Production α :=
  { index := g.productions.length, name, symbols, prec := g.rightmostPrecedence symbols, action }

theorem lists_append (h : g.Lists name done) (hlength : g.productions.length ≠ 0)
    (action : Option α) :
    (g.append (g.nextProduction name symbols action)).Lists name (done ++ [(symbols, action)]) := by
  have hprecedence : ∀ p symbols, (g.append p).rightmostPrecedence symbols =
      g.rightmostPrecedence symbols := by
    intro p symbols
    simp only [rightmostPrecedence, precedenceOf, append_precedence]
  rw [Lists, append_productions,
    List.tail_append_of_ne_nil (List.ne_nil_of_length_pos (Nat.pos_of_ne_zero hlength)),
    List.map_append, h]
  simp only [List.map_append, hprecedence]
  rfl

/-- What a grammar knows, it knows after a production was appended. -/
theorem symbolFault?_append {s : Symbol} (h : g.symbolFault? s = none) (p : Production α) :
    (g.append p).symbolFault? s = none := by
  cases s with
  | nonterminal name => exact h
  | literal c => rfl
  | token name =>
      simp only [symbolFault?] at h ⊢
      split at h
      · rename_i hcontains
        rw [if_pos]
        exact Registry.contains_iff.mpr
          ((mem_append_terminals g p).mpr (Or.inl (Registry.contains_iff.mp hcontains)))
      · cases h

/-- A new right side without a fault is appended. -/
theorem addProduction_eq (hname : leftSideFault? name = none)
    (hsymbols : ∀ s ∈ symbols, g.symbolFault? s = none) (hnew : (name, symbols) ∉ g.declared)
    (action : Option α) :
    g.addProduction name symbols none action =
      (.ok (g.nextProduction name symbols action),
        g.append (g.nextProduction name symbols action)) := by
  have hfault : g.ruleFault? name symbols = none := by
    rw [ruleFault?, hname]
    exact List.findSome?_eq_none_iff.mpr hsymbols
  simp [addProduction, hfault, rulePrecedence, noteTag, hnew, nextProduction]

/-- What adding productions of one name makes of a grammar. -/
structure Extends (g final : Grammar α) (name : String) (rules : List (List Symbol × Option α)) :
    Prop where
  lists : ∀ {done : List (List Symbol × Option α)}, g.Lists name done →
    final.Lists name (done ++ rules)
  precedence : final.precedence = g.precedence
  start : final.start = g.start
  nonterminals : ∀ other ∈ final.nonterminals.keys, other ∈ g.nonterminals.keys ∨ other = name ∨
    ∃ rule ∈ rules, .nonterminal other ∈ rule.1
  made : g.Made → final.Made

end Grammar

open Grammar in
/-- Right sides that are distinct, new and without a fault become productions. -/
theorem Builder.productions_spec {b : Builder V C}
    {rules : List (List Symbol × Option (Reduction V C))} (hname : leftSideFault? name = none)
    (hlength : b.grammar.productions.length ≠ 0)
    (hsymbols : ∀ rule ∈ rules, ∀ s ∈ rule.1, b.grammar.symbolFault? s = none)
    (hnodup : (rules.map Prod.fst).Nodup)
    (hnew : ∀ rule ∈ rules, (name, rule.1) ∉ b.grammar.declared) :
    ∃ final, b.productions name rules = (.ok (), { b with grammar := final }) ∧
      b.grammar.Extends final name rules := by
  induction rules generalizing b with
  | nil =>
      refine ⟨b.grammar, rfl, ⟨fun h => ?_, rfl, rfl, fun _ h => Or.inl h, id⟩⟩
      rwa [List.append_nil]
  | cons rule rules ih =>
      obtain ⟨symbols, action⟩ := rule
      obtain ⟨hfirst, hrest⟩ := List.nodup_cons.mp hnodup
      have hadd := addProduction_eq hname (hsymbols _ List.mem_cons_self)
        (hnew _ List.mem_cons_self) action
      have hlists : ∀ {done}, b.grammar.Lists name done →
          (b.grammar.append (b.grammar.nextProduction name symbols action)).Lists name
            (done ++ [(symbols, action)]) := fun h => lists_append h hlength action
      obtain ⟨hname', hsymbols'⟩ : (b.grammar.nextProduction name symbols action).name = name ∧
          (b.grammar.nextProduction name symbols action).symbols = symbols := ⟨rfl, rfl⟩
      generalize b.grammar.nextProduction name symbols action = p at hadd hlists hname' hsymbols'
      obtain ⟨final, hall, hextends⟩ := ih (b := { b with grammar := b.grammar.append p })
        (by simp [append_productions])
        (fun rule hrule s hs => symbolFault?_append
          (hsymbols rule (List.mem_cons_of_mem _ hrule) s hs) p) hrest fun rule hrule hmem => by
          rw [append_declared, List.mem_append, List.mem_singleton, hname', hsymbols'] at hmem
          rcases hmem with hold | hsecond
          · exact hnew rule (List.mem_cons_of_mem _ hrule) hold
          · exact hfirst (List.mem_map.mpr ⟨rule, hrule, (Prod.mk.inj hsecond).2⟩)
      refine ⟨final, ?_, ⟨fun h => ?_, ?_, ?_, fun other hother => ?_, fun hmade => ?_⟩⟩
      · rw [productions, declare, hadd]
        exact hall
      · have hall := hextends.lists (hlists h)
        rwa [List.append_assoc] at hall
      · exact hextends.precedence.trans (append_precedence _ _)
      · exact hextends.start.trans (append_start _ _)
      · rcases hextends.nonterminals other hother with hold | hown | ⟨rule, hrule, hmem⟩
        · rcases (mem_append_nonterminals _ _).mp hold with (hbefore | hown) | hmem
          · exact Or.inl hbefore
          · exact Or.inr (Or.inl (hown.trans hname'))
          · exact Or.inr (Or.inr ⟨_, List.mem_cons_self, hsymbols' ▸ hmem⟩)
        · exact Or.inr (Or.inl hown)
        · exact Or.inr (Or.inr ⟨rule, List.mem_cons_of_mem _ hrule, hmem⟩)
      · refine hextends.made ?_
        have hadded := hmade.addProduction name symbols none action
        rwa [hadd] at hadded

/-! ## Building -/

namespace Grammar

/-- Where every nonterminal has a production the FIRST sets can be computed. -/
theorem exists_computeFirst (h : g.undefined? = none) :
    ∃ sets first, g.computeFirst = (.ok sets, { g with first }) := by
  unfold computeFirst
  split
  · exact ⟨_, _, rfl⟩
  · rw [h]
    exact ⟨_, _, rfl⟩

/-- Then the FOLLOW sets can be computed for a start symbol. -/
theorem exists_computeFollow (h : g.undefined? = none) (start : String) :
    ∃ sets first follow followStart,
      g.computeFollow (some start) = (.ok sets, { g with first, follow, followStart }) := by
  obtain ⟨sets, first, hfirst⟩ := exists_computeFirst h
  rw [computeFollow, Option.some_or]
  dsimp only
  split
  · exact ⟨_, _, _, _, rfl⟩
  · rw [hfirst]
    exact ⟨_, _, _, _, rfl⟩

/-- Both can be computed one after the other. -/
theorem exists_computeSets (h : g.undefined? = none) (hstart : g.start = some start) :
    ∃ sets sets' computed first follow followStart, g.computeFirst = (.ok sets, computed) ∧
      computed.computeFollow computed.start =
        (.ok sets', { g with first, follow, followStart }) := by
  obtain ⟨sets, first, hfirst⟩ := exists_computeFirst h
  obtain ⟨sets', first', follow, followStart, hfollow⟩ :=
    exists_computeFollow (g := { g with first }) h start
  rw [← hstart] at hfollow
  exact ⟨sets, sets', _, first', follow, followStart, hfirst, hfollow⟩

/-- Where every nonterminal has a production and a start symbol is chosen a table can be built. -/
theorem exists_buildTable (h : g.undefined? = none) (hstart : g.start = some start)
    (method : Method) : ∃ table first follow followStart, g.buildTable method =
      (.ok table, { g.buildItems with first, follow, followStart }) := by
  obtain ⟨sets, sets', computed, first, follow, followStart, hfirst, hfollow⟩ :=
    exists_computeSets (g := g.buildItems) h hstart
  have hensure : g.ensureStart = (.ok (), g) := by rw [ensureStart, hstart]
  rw [buildTable_eq, prepare, hensure]
  dsimp only
  rw [hfirst]
  dsimp only
  rw [hfollow]
  exact ⟨_, first, follow, followStart, rfl⟩

/-- Building the items leaves the declarations alone. -/
theorem declarations_buildItems (g : Grammar α) :
    g.buildItems.productions.map Production.declaration =
      g.productions.map Production.declaration :=
  map_buildItems (fun _ _ => rfl) g

theorem lists_buildItems (h : g.Lists name rules) : g.buildItems.Lists name rules := by
  rw [Lists, List.map_tail, declarations_buildItems, ← List.map_tail]
  exact h

end Grammar

/-- A builder with productions of one name, which no other nonterminal stands beside, gives a parser
that starts with that name. -/
theorem Builder.exists_build {b : Builder V C} {rules : List (List Symbol × Option (Reduction V C))}
    (hmade : b.grammar.Made) (hstart : b.start = none) (hlists : b.grammar.Lists name rules)
    (hrules : rules ≠ []) (hnames : ∀ other ∈ b.grammar.nonterminals.keys, other = name)
    (method : Method) :
    ∃ parser, b.build method = .ok parser ∧ parser.toMachine.Built method ∧
      parser.grammar.Lists name rules ∧
      (∃ zero, parser.grammar.production? 0 = some zero ∧ zero.action = none) ∧
      parser.grammar.start = some name ∧
      parser.grammar.precedence = b.grammar.precedence := by
  -- the first production is of that name
  obtain ⟨rule, rest, rfl⟩ := List.exists_cons_of_ne_nil hrules
  obtain ⟨p, hp, hdeclaration⟩ := Option.map_eq_some_iff.mp (hlists.getElem? 0)
  obtain rfl : p.name = name := (Prod.mk.inj hdeclaration).1
  have hcontains : b.grammar.rules.contains p.name = true := by
    have hmem := hmade.wellFormed.rules.mpr ⟨Nat.one_ne_zero, p, hp, rfl⟩
    rw [Grammar.ruleIndices] at hmem
    rw [Registry.contains]
    cases hget : b.grammar.rules.get? p.name with
    | none =>
        rw [hget] at hmem
        exact absurd hmem List.not_mem_nil
    | some indices => rfl
  have hset : b.grammar.setStart none = (.ok (), b.grammar.restart p.name) := by
    have hfirst : b.grammar.firstName? = some p.name := by rw [Grammar.firstName?, hp]; rfl
    rw [Grammar.setStart, hfirst]
    exact if_pos hcontains
  have hdefined : (b.grammar.restart p.name).undefined? = none := by
    refine List.find?_eq_none.mpr fun other hother => ?_
    obtain rfl : other = p.name :=
      (Grammar.mem_restart_nonterminals.mp hother).elim (hnames other) id
    rw [show (b.grammar.restart p.name).rules.contains p.name = true from hcontains]
    exact Bool.false_ne_true
  have hstarted : (b.grammar.restart p.name).start = some p.name := rfl
  obtain ⟨table, first, follow, followStart, hbuild⟩ :=
    Grammar.exists_buildTable hdefined hstarted method
  have hrestarted : (b.grammar.restart p.name).Made := by
    have := hmade.setStart none
    rwa [hset] at this
  have hkept : (b.grammar.restart p.name).Lists p.name (rule :: rest) := hlists
  have hzero : ∃ zero, (b.grammar.restart p.name).buildItems.production? 0 = some zero ∧
      zero.action = none := by
    rw [Grammar.production?_buildItems, Grammar.production?_restart_zero]
    exact ⟨_, rfl, rfl⟩
  refine ⟨_, by rw [build, hstart, hset]; dsimp only; rw [hbuild], ⟨_, hrestarted, hbuild⟩,
    Grammar.lists_buildItems hkept, hzero, rfl, rfl⟩

end ShiftReduce
