import ShiftReduce.Proofs.Builder.Declarations
import ShiftReduce.Proofs.Precedence.Parsing

/-!
# Declared operators

Operators that a builder declares in levels group in its parser as the levels say. The parser can
always be built, with productions in any order and with either method, and its table has no
conflicts. On a line of numbers and operators there is at most one grouping that the levels ask for;
the run builds it if there is one and comes to an error otherwise. Read `operators_grouped` first.
-/

namespace ShiftReduce

open Grammar Engine

variable {α V C : Type} {g : Grammar α} {method : Method} {ops : List Symbol}
  {prec : Symbol → Precedence}

/-- The right sides of an operand: a number, or an operator between operands. -/
def operandSides (ops : List Symbol) : List (List Symbol) :=
  [numeral] :: ops.map fun op => [operand, op, operand]

theorem mem_operandSides {symbols : List Symbol} : symbols ∈ operandSides ops ↔
    symbols = [numeral] ∨ ∃ op ∈ ops, symbols = [operand, op, operand] := by
  simp only [operandSides, List.mem_cons, List.mem_map, eq_comm]

/-- Distinct operators have distinct right sides. -/
theorem nodup_operandSides (h : ops.Nodup) : (operandSides ops).Nodup := by
  refine List.nodup_cons.mpr ⟨fun hmem => ?_, h.map fun op other hsame => ?_⟩
  · obtain ⟨op, _, hsame⟩ := List.mem_map.mp hmem
    cases hsame
  · exact (List.cons.inj (List.cons.inj hsame).2).1

theorem levelled_levelPrecedence (below : Nat) (levels : List (Assoc × List Symbol)) :
    Levelled (levelPrecedence below levels) :=
  fun _ _ h => assoc_levelPrecedence h

/-- The rightmost terminal of an operator between operands is the operator. -/
theorem Grammar.rightmostPrecedence_operator {op : Symbol} (hop : op.isTerminal = true) :
    g.rightmostPrecedence [operand, op, operand] = g.precedenceOf op := by
  have hoperand : operand.isTerminal = false := rfl
  simp [rightmostPrecedence, hop, hoperand]

/-- The productions of operands with declared operators between them. -/
theorem Grammar.operators_of_lists {rules : List (List Symbol × Option α)} (h : g.Lists "e" rules)
    (hstart : g.start = some "e") (hrules : (rules.map Prod.fst).Perm (operandSides ops))
    (hnodup : ops.Nodup) (hprecedence : ∀ op ∈ ops, g.precedenceOf op = prec op)
    (hdeclared : ∀ op ∈ ops, (prec op).level ≠ 0)
    (hterminal : ∀ op ∈ ops, op.isTerminal = true ∧ op ≠ numeral ∧ op ≠ .endOfInput) :
    g.Operators ops prec where
  start := hstart
  rule := by
    intro i p hi hp
    obtain ⟨k, rfl⟩ := Nat.exists_eq_succ_of_ne_zero hi
    obtain ⟨rule, hrule, hname, hsymbols, hprec, _⟩ := h.exists_rule hp
    have hmem : rule.1 ∈ operandSides ops :=
      hrules.mem_iff.mp (List.mem_map_of_mem (List.mem_of_getElem? hrule))
    refine ⟨hname, (mem_operandSides.mp hmem).imp hsymbols.trans ?_⟩
    rintro ⟨op, hop, hsides⟩
    refine ⟨op, hop, hsymbols.trans hsides, ?_⟩
    rw [hprec, hsides, rightmostPrecedence_operator (hterminal op hop).1, hprecedence op hop]
  number := h.exists_production? (hrules.mem_iff.mpr (mem_operandSides.mpr (Or.inl rfl)))
  operator := fun op hop =>
    h.exists_production? (hrules.mem_iff.mpr (mem_operandSides.mpr (Or.inr ⟨op, hop, rfl⟩)))
  unique := by
    intro i j p p' hi hj hp hp' hsame
    obtain ⟨k, rfl⟩ := Nat.exists_eq_succ_of_ne_zero hi
    obtain ⟨l, rfl⟩ := Nat.exists_eq_succ_of_ne_zero hj
    obtain ⟨rule, hrule, _, hsymbols, _⟩ := h.exists_rule hp
    obtain ⟨rule', hrule', _, hsymbols', _⟩ := h.exists_rule hp'
    have hk : (rules.map Prod.fst)[k]? = some rule.1 := by rw [List.getElem?_map, hrule]; rfl
    have hl : (rules.map Prod.fst)[l]? = some rule'.1 := by rw [List.getElem?_map, hrule']; rfl
    have hsides : rule.1 = rule'.1 := hsymbols.symm.trans (hsame.trans hsymbols')
    rw [(List.getElem?_inj (List.getElem?_eq_some_iff.mp hk).1
      (hrules.nodup_iff.mpr (nodup_operandSides hnodup))).mp (hk.trans (hsides ▸ hl.symm))]
  precedenceOf := hprecedence
  declared := hdeclared
  terminal := hterminal

/-- A grammar that knows the terminals finds no fault in the right sides of operands. -/
theorem Grammar.symbolFault?_of_mem_side {symbols : List Symbol} {s : Symbol}
    (hterminal : ∀ op ∈ ops, op.isTerminal = true)
    (hnamed : ∀ name, .token name ∈ numeral :: ops → .token name ∈ g.terminals.keys)
    (hside : symbols ∈ operandSides ops) (hs : s ∈ symbols) : g.symbolFault? s = none := by
  have hknown : ∀ t ∈ numeral :: ops, t.isTerminal = true → g.symbolFault? t = none := by
    intro t ht hkind
    cases t with
    | nonterminal name => cases hkind
    | literal c => rfl
    | token name => exact if_pos (Registry.contains_iff.mpr (hnamed name ht))
  have hoperand : g.symbolFault? operand = none := by
    rw [operand, symbolFault?, if_neg (by decide +kernel)]
  rcases mem_operandSides.mp hside with rfl | ⟨op, hop, rfl⟩
  · obtain rfl := List.mem_singleton.mp hs
    exact hknown numeral List.mem_cons_self rfl
  · simp only [List.mem_cons, List.not_mem_nil, or_false] at hs
    rcases hs with rfl | rfl | rfl
    · exact hoperand
    · exact hknown s (List.mem_cons_of_mem _ hop) (hterminal s hop)
    · exact hoperand

variable {lexer : Lexer} {b : Builder V C} {levels : List (Assoc × List Symbol)}
  {rules : List (List Symbol × Option (Reduction V C))}

/-- Operators in levels, each of them once, and the right sides of operands with these operators, in
any order. The tokens among the terminals are tokens of the lexer. -/
structure Operates (lexer : Lexer) (levels : List (Assoc × List Symbol))
    (rules : List (List Symbol × Option (Reduction V C))) : Prop where
  nodup : (levels.flatMap Prod.snd).Nodup
  terminal : ∀ op ∈ levels.flatMap Prod.snd,
    op.isTerminal = true ∧ op ≠ numeral ∧ op ≠ .endOfInput
  named : ∀ name, .token name ∈ numeral :: levels.flatMap Prod.snd → name ∈ lexer.tokenNames
  sides : (rules.map Prod.fst).Perm (operandSides (levels.flatMap Prod.snd))

namespace Operates

variable (h : Operates lexer levels rules)

include h

theorem side {rule : List Symbol × Option (Reduction V C)} (hrule : rule ∈ rules) :
    rule.1 ∈ operandSides (levels.flatMap Prod.snd) :=
  h.sides.mem_iff.mp (List.mem_map_of_mem hrule)

/-- Operands are the only nonterminals. -/
theorem eq_of_nonterminal_mem {rule : List Symbol × Option (Reduction V C)} {name : String}
    (hrule : rule ∈ rules) (hmem : .nonterminal name ∈ rule.1) : name = "e" := by
  rcases mem_operandSides.mp (h.side hrule) with hside | ⟨op, hop, hside⟩
  · rw [hside] at hmem
    cases List.mem_singleton.mp hmem
  · have hother : .nonterminal name ≠ op := by
      rintro rfl
      cases (h.terminal _ hop).1
    rw [hside] at hmem
    simpa [operand, hother] using hmem

theorem rules_ne_nil : rules ≠ [] := by
  rintro rfl
  cases h.sides.length_eq

/-- The levels and the productions are declared, and then a parser is built. -/
theorem exists_operators (hlexer : Builder.ofLexer lexer = .ok b) (handler : Option (Handler C))
    (method : Method) :
    ∃ levelled ready parser, b.precedences levels = (.ok (), levelled) ∧
      levelled.productions "e" rules = (.ok (), ready) ∧
      { ready with handler }.build method = .ok parser ∧ parser.toMachine.Built method ∧
      parser.grammar.Lists "e" rules ∧
      (∃ zero, parser.grammar.production? 0 = some zero ∧ zero.action = none) ∧
      parser.grammar.Operators (levels.flatMap Prod.snd) (levelPrecedence 0 levels) := by
  obtain ⟨hfresh, hlevel, hstart⟩ := Builder.ofLexer_spec hlexer
  obtain ⟨level, precedence, hlevels, hget⟩ := Builder.precedences_spec
    (Nat.le_of_eq hfresh.length) (fun op hop => (h.terminal op hop).1) h.nodup
    fun s _ => by rw [hfresh.precedence]; rfl
  have hmade := Builder.made_precedences hfresh.made levels
  rw [hlevels] at hmade
  have hname : leftSideFault? "e" = none := by decide +kernel
  obtain ⟨final, hproductions, hextends⟩ := Builder.productions_spec
    (b := { b with level, grammar := { b.grammar with precedence } }) hname
    (Nat.ne_of_gt (Nat.lt_of_lt_of_eq Nat.one_pos hfresh.length.symm))
    (fun rule hrule s hs => symbolFault?_of_mem_side (fun op hop => (h.terminal op hop).1)
      (fun name hname => hfresh.named name (h.named name hname)) (h.side hrule) hs)
    (h.sides.nodup_iff.mpr (nodup_operandSides h.nodup))
    fun rule _ hmem => List.not_mem_nil (hfresh.declared ▸ hmem)
  -- nothing was listed before the productions of operands
  have hnone : Grammar.Lists { b.grammar with precedence } "e" [] := by
    have hempty : b.grammar.productions.tail = [] :=
      List.eq_nil_of_length_eq_zero (by rw [List.length_tail, hfresh.length])
    rw [Grammar.Lists, hempty]
    rfl
  have hlists := hextends.lists hnone
  rw [List.nil_append] at hlists
  have hnames : ∀ other ∈ final.nonterminals.keys, other = "e" := by
    intro other hother
    rcases hextends.nonterminals other hother with hbefore | hown | ⟨rule, hrule, hmem⟩
    · rw [hfresh.nonterminals] at hbefore
      exact absurd hbefore List.not_mem_nil
    · exact hown
    · exact h.eq_of_nonterminal_mem hrule hmem
  obtain ⟨parser, hbuild, hbuilt, hkept, hzero, hstarted, hprecedence⟩ := Builder.exists_build
    (b := { b with level, handler, grammar := final }) (hextends.made hmade) hstart hlists
    h.rules_ne_nil hnames method
  refine ⟨_, _, parser, hlevels, hproductions, hbuild, hbuilt, hkept, hzero,
    operators_of_lists hkept hstarted h.sides h.nodup (fun op hop => ?_)
      (fun op hop => Nat.ne_of_gt (lt_level_of_mem hop)) h.terminal⟩
  rw [precedenceOf, hprecedence, hextends.precedence, hget op, if_pos hop, hlevel]
  rfl

end Operates

namespace Builder

/-- Operators that are declared in levels group as the levels say: the parser can be built, without
conflicts; a line has at most one grouping that the levels ask for, the run builds that one, and it
comes to an error if there is none. -/
theorem operators_grouped (h : Operates lexer levels rules)
    (hlexer : Builder.ofLexer lexer = .ok b)
    (hunfaulting : ∀ rule ∈ rules, ∀ action, rule.2 = some action →
      ∀ reducing, ∃ value after, action.run.run reducing = (.ok value, after))
    (handler : Option (Handler C)) (method : Method) :
    ∃ levelled ready parser, b.precedences levels = (.ok (), levelled) ∧
      levelled.productions "e" rules = (.ok (), ready) ∧
      { ready with handler }.build method = .ok parser ∧ parser.table.conflicts = [] ∧
      ∀ (first : Token) (more : List (Token × Token)) (context : C), first.kind = numeral →
        (∀ pair ∈ more, pair.1.kind ∈ levels.flatMap Prod.snd ∧ pair.2.kind = numeral) →
        (∀ tree other : Grouping, tree.WellGrouped (levelPrecedence 0 levels) →
          tree.yield = line first more → other.WellGrouped (levelPrecedence 0 levels) →
          other.yield = line first more → tree = other) ∧
        (∀ tree : Grouping, tree.WellGrouped (levelPrecedence 0 levels) →
          tree.yield = line first more →
          Builds parser.toMachine (line first more) context operand
            (tree.parseTree parser.grammar)) ∧
        ((∀ tree : Grouping, tree.WellGrouped (levelPrecedence 0 levels) →
            tree.yield ≠ line first more) →
          Errs parser.toMachine (line first more) context) := by
  obtain ⟨levelled, ready, parser, hlevels, hproductions, hbuild, hbuilt, hlists,
    ⟨zero, hzero, hnone⟩, hoperators⟩ := h.exists_operators hlexer handler method
  have hlevelled := levelled_levelPrecedence 0 levels
  have hparser : parser.toMachine.Unfaulting := by
    intro i p action hp haction
    cases i with
    | zero =>
        cases hzero.symm.trans hp
        cases hnone.symm.trans haction
    | succ k =>
        obtain ⟨rule, hrule, _, _, _, hsame⟩ := hlists.exists_rule hp
        exact hunfaulting rule (List.mem_of_getElem? hrule) action (hsame.symm.trans haction)
  refine ⟨levelled, ready, parser, hlevels, hproductions, hbuild, ?_,
    fun first more context hfirst hmore => ⟨?_, ?_, ?_⟩⟩
  · rw [hbuilt.table_eq]
    exact Table.conflicts_eq_nil hbuilt.ready hbuilt.collected fun q hq symbol =>
      hoperators.clear hbuilt.ready hbuilt.collected hq symbol
  · intro tree other hgrouped hyield hgrouped' hyield'
    have htree := (group_eq_some_iff hlevelled).mpr ⟨hgrouped, hyield⟩
    have hother := (group_eq_some_iff hlevelled).mpr ⟨hgrouped', hyield'⟩
    exact Option.some.inj (htree.symm.trans hother)
  · exact fun tree hgrouped hyield =>
      run_of_wellGrouped hbuilt hoperators hparser hfirst hmore hlevelled hgrouped hyield context
  · exact fun hnone =>
      error_of_not_wellGrouped hbuilt hoperators hparser hfirst hmore hlevelled hnone context

/-- A lexer of numbers and two signs. -/
def signsLexer : Lexer :=
  { metatokens := ["NUM"], literals := ['<', '-'] }

/-- Comparisons do not group, and differences, which bind tighter, group to the left. -/
def signsLevels : List (Assoc × List Symbol) :=
  [(.none, [.literal '<']), (.left, [.literal '-'])]

def signsRules : List (List Symbol × Option (Reduction Nat Nat)) :=
  [([operand, .literal '<', operand], none), ([numeral], some Machine.tally),
    ([operand, .literal '-', operand], none)]

/-- A number, and a sign. -/
def one : Token :=
  ⟨numeral, "1", 0, 1⟩

def sign (c : Char) : Token :=
  ⟨.literal c, String.ofList [c], 0, 1⟩

theorem operates_signs : Operates signsLexer signsLevels signsRules where
  nodup := by decide
  terminal := by decide
  named := by
    intro name hname
    obtain rfl : name = "NUM" := by simpa [signsLevels, numeral] using hname
    decide
  sides := by decide

/-- Differences group to the left; comparisons of differences do not group. -/
theorem operators_grouped_differences : ∃ parser : Parser Nat Nat,
    Builds parser.toMachine [one, sign '-', one, sign '-', one] 0 operand
      (Grouping.parseTree parser.grammar
        (.apply (.apply (.number one) (sign '-') (.number one)) (sign '-') (.number one))) ∧
    Errs parser.toMachine [one, sign '<', one, sign '-', one, sign '<', one] 0 := by
  obtain ⟨b, hlexer⟩ : ∃ b : Builder Nat Nat, ofLexer signsLexer = .ok b := ⟨_, rfl⟩
  have hunfaulting : ∀ rule ∈ signsRules, ∀ action, rule.2 = some action →
      ∀ reducing, ∃ value after, action.run.run reducing = (.ok value, after) := by
    intro rule hrule action haction reducing
    simp only [signsRules, List.mem_cons, List.not_mem_nil, or_false] at hrule
    rcases hrule with rfl | rfl | rfl <;> cases haction
    exact ⟨_, _, rfl⟩
  obtain ⟨_, _, parser, _, _, _, _, hlines⟩ :=
    operators_grouped operates_signs hlexer hunfaulting none .lalr
  have hlevelled := levelled_levelPrecedence 0 signsLevels
  refine ⟨parser, ?_, ?_⟩
  · obtain ⟨_, hbuilds, _⟩ := hlines one [(sign '-', one), (sign '-', one)] 0 rfl (by decide)
    have hgroup : Pending.group (levelPrecedence 0 signsLevels) [] (.number one)
        [(sign '-', one), (sign '-', one)] = some (.apply
          (.apply (.number one) (sign '-') (.number one)) (sign '-') (.number one)) := rfl
    obtain ⟨hgrouped, hyield⟩ := (group_eq_some_iff hlevelled).mp hgroup
    exact hbuilds _ hgrouped hyield
  · obtain ⟨_, _, herrs⟩ := hlines one [(sign '<', one), (sign '-', one), (sign '<', one)] 0 rfl
      (by decide)
    refine herrs fun tree hgrouped hyield => ?_
    cases (group_eq_some_iff hlevelled).mpr ⟨hgrouped, hyield⟩

end Builder

end ShiftReduce
