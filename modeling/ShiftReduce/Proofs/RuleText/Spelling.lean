import Mathlib.Tactic.IntervalCases
import ShiftReduce.Proofs.RuleText.Tables

/-!
# The grammar of rules

Tokens spell a rule if they are a name, a colon and alternatives between bars. An alternative is
empty, or it has names and quoted characters, possibly with a tag behind them. The productions from
which the reader of rules is built compute just this: `computes_reader` for what their reductions
make of meanings, and `SpellsRule.grown` for the trees of what is spelled.
-/

namespace ShiftReduce

/-- The symbol that a token of an alternative stands for. -/
inductive Token.Spells (token : Token) : Symbol → Prop
  | name : token.kind = .token "ID" → token.Spells (.ofName token.text)
  | literal {c : Char} : token.kind = .token "LITERAL" → token.text = String.ofList [c] →
      token.Spells (.literal c)

namespace RuleText

variable {tokens more : List Token} {symbols : List Symbol} {alts : List Alternative}
  {alt : Alternative} {rule : RuleDecl} {slots : List (Slot Value)} {value : Value}
  {i : Nat}

/-- Tokens that spell an alternative: symbols, or at least one symbol and a tag. -/
inductive SpellsAlternative : List Token → Alternative → Prop
  | plain {tokens : List Token} {symbols : List Symbol} :
      List.Forall₂ Token.Spells tokens symbols → SpellsAlternative tokens ⟨symbols, none⟩
  | tagged {tokens : List Token} {symbols : List Symbol} {mark tag : Token} :
      List.Forall₂ Token.Spells tokens symbols → tokens ≠ [] → mark.kind = .token "PREC" →
      tag.kind = .token "ID" →
      SpellsAlternative (tokens ++ [mark, tag]) ⟨symbols, some tag.text⟩

/-- Tokens that spell alternatives, with a bar before each but the first. -/
inductive SpellsAlternatives : List Token → List Alternative → Prop
  | first {tokens : List Token} {alt : Alternative} :
      SpellsAlternative tokens alt → SpellsAlternatives tokens [alt]
  | more {tokens more : List Token} {alts : List Alternative} {alt : Alternative} {bar : Token} :
      SpellsAlternatives tokens alts → bar.kind = .literal '|' → SpellsAlternative more alt →
      SpellsAlternatives (tokens ++ bar :: more) (alts ++ [alt])

/-- Tokens that spell a rule. -/
inductive SpellsRule : List Token → RuleDecl → Prop
  | rule {name colon : Token} {tokens : List Token} {alts : List Alternative} :
      name.kind = .token "ID" → colon.kind = .literal ':' → SpellsAlternatives tokens alts →
      SpellsRule (name :: colon :: tokens) ⟨name.text, alts⟩

/-! ## What reductions make of slots -/

/-- The value that a production makes of the slots of its right side. -/
inductive Makes : Nat → List (Slot Value) → Value → Prop
  | rule {name colon : Token} {alts : List Alternative} :
      Makes 1 [.token name, .token colon, .value (.alternatives alts)] (.rule ⟨name.text, alts⟩)
  | moreAlternatives {alts : List Alternative} {bar : Token} {alt : Alternative} :
      Makes 2 [.value (.alternatives alts), .token bar, .value (.alternative alt)]
        (.alternatives (alts ++ [alt]))
  | firstAlternative {alt : Alternative} :
      Makes 3 [.value (.alternative alt)] (.alternatives [alt])
  | plain {symbols : List Symbol} :
      Makes 4 [.value (.symbols symbols)] (.alternative ⟨symbols, none⟩)
  | tagged {symbols : List Symbol} {mark tag : Token} :
      Makes 5 [.value (.symbols symbols), .token mark, .token tag]
        (.alternative ⟨symbols, some tag.text⟩)
  | nothing : Makes 6 [] (.alternative {})
  | moreSymbols {symbols : List Symbol} {s : Symbol} :
      Makes 7 [.value (.symbols symbols), .value (.symbol s)] (.symbols (symbols ++ [s]))
  | firstSymbol {s : Symbol} : Makes 8 [.value (.symbol s)] (.symbols [s])
  | name {token : Token} : Makes 9 [.token token] (.symbol (.ofName token.text))
  | literal {token : Token} {c : Char} (h : token.text = String.ofList [c]) :
      Makes 10 [.token token] (.symbol (.literal c))

/-- The first character of a text is what a literal stands for. -/
theorem run_reduceLiteral {token : Token} {c : Char} (h : token.text = String.ofList [c])
    (errors : Nat) :
    reduceLiteral.run.run ⟨errors, { slots := [.token token] }⟩ =
      (.ok (.symbol (.literal c)), ⟨errors, { slots := [.token token] }⟩) := by
  have htext : (text 0).run.run ⟨errors, { slots := [.token token] }⟩ =
      (.ok token.text, ⟨errors, { slots := [.token token] }⟩) := rfl
  have hchars : token.text.toList = [c] := by rw [h, String.toList_ofList]
  rw [reduceLiteral, ExceptT.run_bind, StateT.run_bind, htext]
  dsimp only [Bind.bind]
  rw [hchars]
  rfl

/-- The action of the production gives the value, and leaves the count of errors alone. -/
theorem Makes.exists_run (h : Makes i slots value) (errors : Nat) :
    ∃ name symbols action after, table[i]? = some (name, symbols, some action) ∧
      action.run.run ⟨errors, { slots }⟩ = (.ok value, after) ∧ after.context = errors := by
  cases h with
  | literal htext => exact ⟨_, _, _, _, rfl, run_reduceLiteral htext errors, rfl⟩
  | _ => exact ⟨_, _, _, _, rfl, rfl, rfl⟩

/-- A production does not complain about such slots, and leaves the value. -/
theorem Makes.reduced {p : Production (Reduction Value Nat)} (h : Makes i slots value)
    (hp : reader.grammar.production? i = some p) (errors : Nat) :
    p.Succeeds slots errors ∧ p.reduced slots errors = (.value value, errors) := by
  obtain ⟨name, symbols, action, after, hentry, hrun, hkept⟩ := h.exists_run errors
  have haction : p.action = some action := by
    have hsame := (production?_reader i).trans hentry
    rw [hp, Option.map_some, Option.some.injEq, Prod.mk.injEq, Prod.mk.injEq] at hsame
    exact hsame.2.2
  refine ⟨fun other hother => ?_, ?_⟩
  · cases haction.symm.trans hother
    exact ⟨value, after, hrun⟩
  · simp only [Production.reduced, haction, hrun, hkept]

/-! ## What slots mean -/

/-- A token as the lexer makes it: it stands for a terminal, and a literal is one character. -/
structure Proper (token : Token) : Prop where
  terminal : token.kind.isTerminal = true
  single : token.kind = .token "LITERAL" → ∃ c, token.text = String.ofList [c]

/-- What a slot holds for a symbol that stands for some tokens. -/
def meaning : Meaning Value
  | .nonterminal "grammar", tokens, slot =>
      ∃ rule, slot = .value (.rule rule) ∧ SpellsRule tokens rule
  | .nonterminal "rules", tokens, slot =>
      ∃ alts, slot = .value (.alternatives alts) ∧ SpellsAlternatives tokens alts
  | .nonterminal "rule", tokens, slot =>
      ∃ alt, slot = .value (.alternative alt) ∧ SpellsAlternative tokens alt
  | .nonterminal "symbols", tokens, slot =>
      ∃ symbols, slot = .value (.symbols symbols) ∧ tokens ≠ [] ∧
        List.Forall₂ Token.Spells tokens symbols
  | .nonterminal "symbol", tokens, slot =>
      ∃ s token, slot = .value (.symbol s) ∧ tokens = [token] ∧ token.Spells s
  | .nonterminal _, _, _ => True
  | symbol, tokens, slot =>
      ∃ token, tokens = [token] ∧ slot = .token token ∧ token.kind = symbol ∧ Proper token

/-- A production makes a meaning of its left side from meanings of its right side. -/
theorem exists_makes {name : String} {symbols : List Symbol} {action : Reading Value}
    (hentry : table[i]? = some (name, symbols, some action))
    (hall : meaning.All symbols tokens slots) :
    ∃ value, Makes i slots value ∧ meaning (.nonterminal name) tokens (.value value) := by
  have hlt : i < 11 := (List.getElem?_eq_some_iff.mp hentry).1
  interval_cases i
  · cases hentry
  · -- grammar -> ID ':' rules
    cases hentry
    obtain ⟨_, _, _, _, rfl, rfl, ⟨name, rfl, rfl, hname, _⟩, _, _, _, _, rfl, rfl,
      ⟨colon, rfl, rfl, hcolon, _⟩, _, _, _, _, rfl, rfl, ⟨alts, rfl, halts⟩, rfl, rfl⟩ := hall
    refine ⟨_, .rule, _, rfl, ?_⟩
    simpa using SpellsRule.rule hname hcolon halts
  · -- rules -> rules '|' rule
    cases hentry
    obtain ⟨_, _, _, _, rfl, rfl, ⟨alts, rfl, halts⟩, _, _, _, _, rfl, rfl,
      ⟨bar, rfl, rfl, hbar, _⟩, _, _, _, _, rfl, rfl, ⟨alt, rfl, halt⟩, rfl, rfl⟩ := hall
    refine ⟨_, .moreAlternatives, _, rfl, ?_⟩
    simpa using SpellsAlternatives.more halts hbar halt
  · -- rules -> rule
    cases hentry
    obtain ⟨_, _, _, _, rfl, rfl, ⟨alt, rfl, halt⟩, rfl, rfl⟩ := hall
    refine ⟨_, .firstAlternative, _, rfl, ?_⟩
    simpa using SpellsAlternatives.first halt
  · -- rule -> symbols
    cases hentry
    obtain ⟨_, _, _, _, rfl, rfl, ⟨symbols, rfl, _, hsymbols⟩, rfl, rfl⟩ := hall
    refine ⟨_, .plain, _, rfl, ?_⟩
    simpa using SpellsAlternative.plain hsymbols
  · -- rule -> symbols PREC ID
    cases hentry
    obtain ⟨_, _, _, _, rfl, rfl, ⟨symbols, rfl, hne, hsymbols⟩, _, _, _, _, rfl, rfl,
      ⟨mark, rfl, rfl, hmark, _⟩, _, _, _, _, rfl, rfl, ⟨tag, rfl, rfl, htag, _⟩, rfl, rfl⟩ := hall
    refine ⟨_, .tagged, _, rfl, ?_⟩
    simpa using SpellsAlternative.tagged hsymbols hne hmark htag
  · -- rule ->
    cases hentry
    obtain ⟨rfl, rfl⟩ := hall
    exact ⟨_, .nothing, _, rfl, .plain .nil⟩
  · -- symbols -> symbols symbol
    cases hentry
    obtain ⟨front, _, _, _, rfl, rfl, ⟨symbols, rfl, hne, hsymbols⟩, _, _, _, _, rfl, rfl,
      ⟨s, token, rfl, rfl, hs⟩, rfl, rfl⟩ := hall
    refine ⟨_, .moreSymbols, _, rfl, by simp, ?_⟩
    simpa using List.rel_append hsymbols (List.Forall₂.cons hs .nil)
  · -- symbols -> symbol
    cases hentry
    obtain ⟨_, _, _, _, rfl, rfl, ⟨s, token, rfl, rfl, hs⟩, rfl, rfl⟩ := hall
    exact ⟨_, .firstSymbol, _, rfl, by simp, .cons hs .nil⟩
  · -- symbol -> ID
    cases hentry
    obtain ⟨_, _, _, _, rfl, rfl, ⟨token, rfl, rfl, hkind, _⟩, rfl, rfl⟩ := hall
    exact ⟨_, .name, _, token, rfl, rfl, .name hkind⟩
  · -- symbol -> LITERAL
    cases hentry
    obtain ⟨_, _, _, _, rfl, rfl, ⟨token, rfl, rfl, hkind, hproper⟩, rfl, rfl⟩ := hall
    obtain ⟨c, hc⟩ := hproper.single hkind
    exact ⟨_, .literal hc, _, token, rfl, rfl, .literal hkind hc⟩

/-- The reader computes what its texts spell. -/
theorem computes_reader : reader.toMachine.Computes meaning Proper where
  token := by
    intro token htoken
    cases hkind : token.kind with
    | nonterminal name => 
        have hterminal := htoken.terminal
        rw [hkind] at hterminal
        cases hterminal
    | token name => exact ⟨token, rfl, rfl, hkind, htoken⟩
    | literal c => exact ⟨token, rfl, rfl, hkind, htoken⟩
  production := by
    intro i p words slots errors hp hall
    have hentry := production?_reader i
    rw [hp, Option.map_some] at hentry
    cases haction : p.action with
    | none =>
        -- only production 0 has no action, and of its left side nothing is asked
        have hname : ∀ entry ∈ table, entry.2.2 = none → entry.1 = "S'" := by simp [table]
        refine ⟨fun _ hother => (by cases haction.symm.trans hother), .empty, ?_, ?_⟩
        · have hstart : p.name = "S'" := hname _ (List.mem_of_getElem? hentry.symm) haction
          rw [hstart]
          trivial
        · simp only [Production.reduced, haction]
    | some action =>
        rw [haction] at hentry
        obtain ⟨value, hmakes, hmeant⟩ := exists_makes hentry.symm hall
        obtain ⟨hsucceeds, hreduced⟩ := hmakes.reduced hp errors
        exact ⟨hsucceeds, _, hmeant, hreduced⟩

/-! ## Trees of what is spelled -/

/-- A symbol has a tree with some leaves that leaves a slot, whatever the count of errors is. -/
def Grown (symbol : Symbol) (tokens : List Token) (slot : Slot Value) : Prop :=
  ∃ tree : ParseTree, tree.Parses reader.grammar symbol ∧ tree.yield = tokens ∧
    ∀ errors, tree.eval reader.grammar errors = (slot, errors)

/-- Symbols have trees with some leaves that leave slots. -/
def GrownAll (symbols : List Symbol) (tokens : List Token) (slots : List (Slot Value)) : Prop :=
  ∃ trees, ParseTree.ParsesAll reader.grammar trees symbols ∧ ParseTree.yields trees = tokens ∧
    ∀ errors, ParseTree.evalAll reader.grammar trees errors = (slots, errors)

theorem grownAll_nil : GrownAll [] [] [] :=
  ⟨[], rfl, rfl, fun _ => rfl⟩

theorem Grown.cons {symbol : Symbol} {slot : Slot Value} (h : Grown symbol tokens slot)
    (hrest : GrownAll symbols more slots) :
    GrownAll (symbol :: symbols) (tokens ++ more) (slot :: slots) := by
  obtain ⟨tree, hparses, hyield, heval⟩ := h
  obtain ⟨trees, hparsesAll, hyields, hevalAll⟩ := hrest
  refine ⟨tree :: trees, ⟨symbol, symbols, rfl, hparses, hparsesAll⟩, ?_, fun errors => ?_⟩
  · rw [ParseTree.yields, hyield, hyields]
  · rw [ParseTree.evalAll_cons, heval, hevalAll]

theorem Grown.single {symbol : Symbol} {slot : Slot Value} (h : Grown symbol tokens slot) :
    GrownAll [symbol] tokens [slot] := by
  rw [← List.append_nil tokens]
  exact h.cons grownAll_nil

/-- A token is a tree of its kind. -/
theorem grown_leaf {token : Token} {symbol : Symbol} (hkind : token.kind = symbol)
    (hterminal : symbol.isTerminal = true) : Grown symbol [token] (.token token) :=
  ⟨.leaf token, ⟨hkind, hterminal⟩, rfl, fun _ => rfl⟩

/-- Trees of a right side make a tree of the left side. -/
theorem GrownAll.node {name : String} {action : Option (Reading Value)}
    (h : GrownAll symbols tokens slots) (hmakes : Makes i slots value)
    (hentry : table[i]? = some (name, symbols, action)) :
    Grown (.nonterminal name) tokens (.value value) := by
  obtain ⟨trees, hparses, hyields, heval⟩ := h
  obtain ⟨p, hp, hsame⟩ := Option.map_eq_some_iff.mp ((production?_reader i).trans hentry)
  obtain ⟨rfl, rfl, _⟩ : p.name = name ∧ p.symbols = symbols ∧ p.action = action := by
    simpa only [Prod.mk.injEq] using hsame
  refine ⟨.node i trees, ⟨p, hp, rfl, hparses⟩, hyields, fun errors => ?_⟩
  rw [ParseTree.eval_node hp, heval, (hmakes.reduced hp errors).2]

theorem grown_symbol {token : Token} {s : Symbol} (h : token.Spells s) :
    Grown (.nonterminal "symbol") [token] (.value (.symbol s)) := by
  cases h with
  | name hkind => exact (grown_leaf hkind rfl).single.node .name rfl
  | literal hkind htext => exact (grown_leaf hkind rfl).single.node (.literal htext) rfl

/-- The symbols of an alternative grow from left to right. -/
theorem grown_symbols (h : List.Forall₂ Token.Spells tokens symbols) (hne : tokens ≠ []) :
    Grown (.nonterminal "symbols") tokens (.value (.symbols symbols)) := by
  induction tokens using List.reverseRecOn generalizing symbols with
  | nil => exact absurd rfl hne
  | append_singleton tokens token ih =>
      obtain ⟨symbols, rfl⟩ := List.reverse_surjective symbols
      rw [← List.forall₂_reverse_iff, List.reverse_concat, List.reverse_reverse] at h
      obtain ⟨s, rest, hs, hrest, rfl⟩ := List.forall₂_cons_left_iff.mp h
      rw [← List.reverse_reverse rest, List.forall₂_reverse_iff] at hrest
      rw [List.reverse_cons]
      by_cases hnil : tokens = []
      · subst hnil
        obtain rfl : rest = [] := by simpa using hrest
        exact (grown_symbol hs).single.node .firstSymbol rfl
      · exact ((ih hrest hnil).cons (grown_symbol hs).single).node .moreSymbols rfl

theorem SpellsAlternative.grown (h : SpellsAlternative tokens alt) :
    Grown (.nonterminal "rule") tokens (.value (.alternative alt)) := by
  cases h with
  | plain hsymbols =>
      by_cases hne : tokens = []
      · subst hne
        cases hsymbols
        exact grownAll_nil.node .nothing rfl
      · exact (grown_symbols hsymbols hne).single.node .plain rfl
  | tagged hsymbols hne hmark htag =>
      exact ((grown_symbols hsymbols hne).cons
        ((grown_leaf hmark rfl).cons (grown_leaf htag rfl).single)).node .tagged rfl

theorem SpellsAlternatives.grown (h : SpellsAlternatives tokens alts) :
    Grown (.nonterminal "rules") tokens (.value (.alternatives alts)) := by
  induction h with
  | first halt => exact halt.grown.single.node .firstAlternative rfl
  | more _ hbar halt ih =>
      exact (ih.cons ((grown_leaf hbar rfl).cons halt.grown.single)).node .moreAlternatives rfl

theorem SpellsRule.grown (h : SpellsRule tokens rule) :
    Grown (.nonterminal "grammar") tokens (.value (.rule rule)) := by
  cases h with
  | rule hname hcolon halts =>
      exact ((grown_leaf hname rfl).cons
        ((grown_leaf hcolon rfl).cons halts.grown.single)).node .rule rfl

end RuleText

end ShiftReduce
