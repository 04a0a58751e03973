import ShiftReduce.Grammar.Basic

/-!
# What a grammar declares in vain

Tokens, rules and precedences that nothing refers to, and names that are referred to and never
defined.
-/

namespace ShiftReduce.Grammar

variable {α : Type}

/-- The tokens that occur in no production; the built-in ones do not count. -/
def unusedTerminals (g : Grammar α) : List Symbol :=
  (g.terminals.entries.filter fun entry =>
    entry.2.isEmpty && !entry.1.isEnd && !entry.1.isError).map Prod.fst

/-- The defined nonterminals, except the start symbol, that occur in no production. -/
def unusedRules (g : Grammar α) : List String :=
  g.rules.keys.filter fun name =>
    some name != g.start && ((g.nonterminals.get? name).getD []).isEmpty

/-- The nonterminals without a production, each with a production that refers to it. -/
def undefinedSymbols (g : Grammar α) : List (String × Nat) :=
  g.nonterminals.entries.filterMap fun entry =>
    if g.rules.contains entry.1 then none else entry.2.head?.map (entry.1, ·)

/-- The symbols with a precedence that are neither terminals of the grammar nor tags. -/
def unusedPrecedence (g : Grammar α) : List Symbol :=
  g.precedence.keys.filter fun s => !(s ∈ g.usedTags) && !g.terminals.contains s

/-- The records of all that is unused. -/
def unusedRecords (g : Grammar α) : List Record :=
  g.unusedTerminals.map (fun s => ⟨.warn, "token " ++ s.text ++ " defined but not used"⟩) ++
    g.unusedRules.map (fun n => ⟨.warn, "rule " ++ n ++ " defined but not used"⟩) ++
    g.unusedPrecedence.map
      (fun s => ⟨.warn, "precedence for " ++ s.text ++ " defined but not used"⟩)

end ShiftReduce.Grammar
