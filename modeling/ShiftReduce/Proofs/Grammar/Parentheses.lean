import ShiftReduce.Proofs.Grammar.Made

/-!
# A grammar of nested parentheses

A list is a pair of parentheses around any number of lists. The nonterminal of the lists inside can
vanish and stands in front of its own right side, which makes the grammar small and telling at once;
the theory uses it where a statement is applied to a single grammar.
-/

namespace ShiftReduce.Grammar

variable {α : Type}

/-- The grammar over no tokens, before any production. -/
def blank : Grammar α :=
  { productions := [{ index := 0, name := augmentedStart, symbols := [] }]
    terminals := ⟨[(.endOfInput, []), (.error, [])]⟩ }

theorem made_blank : Made (blank : Grammar α) :=
  .ofTokens (show ofTokens [] = .ok blank from rfl)

/-- Lists in parentheses, all productions with the same action. -/
def parentheses (action : Option α) : Grammar α :=
  let g := blank
  let g := (g.addProduction "list" [.literal '(', .nonterminal "items", .literal ')'] none action).2
  let g := (g.addProduction "items" [] none action).2
  let g := (g.addProduction "items" [.nonterminal "items", .nonterminal "list"] none action).2
  (g.setStart none).2

theorem made_parentheses (action : Option α) : (parentheses action).Made :=
  .setStart _ (.addProduction _ _ _ _ (.addProduction _ _ _ _ (.addProduction _ _ _ _ made_blank)))

theorem keys_parentheses :
    (parentheses (none : Option Unit)).nonterminals.keys = ["list", "items"] := by decide +kernel

theorem exists_production?_parentheses :
    ∀ name ∈ (parentheses (none : Option Unit)).nonterminals.keys, ∃ i p,
      (parentheses (none : Option Unit)).production? i = some p ∧ p.name = name := by
  intro name hname
  rw [keys_parentheses] at hname
  rcases List.mem_pair.mp hname with rfl | rfl
  · exact ⟨1, _, rfl, rfl⟩
  · exact ⟨2, _, rfl, rfl⟩

end ShiftReduce.Grammar
