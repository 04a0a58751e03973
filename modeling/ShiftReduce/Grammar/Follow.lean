import ShiftReduce.Grammar.First

/-!
# FOLLOW sets

FOLLOW of a nonterminal holds the terminals that can come right after it. The end of input follows
the start symbol; what else follows is read off the right sides, round by round.
-/

namespace ShiftReduce.Grammar

variable {α : Type}

/-- The FOLLOW sets before the first round: only the end of input after the start symbol. -/
def followSeed (g : Grammar α) (start : String) : Registry String (List Symbol) :=
  Registry.update ⟨g.nonterminals.keys.map fun n => (n, [])⟩ start []
    (Ordered.add · .endOfInput)

/-- Adds to each nonterminal of a right side what can come after it there: what the rest begins
with and, if the rest can vanish, what follows the left side. -/
def extendFollow (first : Registry Symbol FirstSet) (name : String)
    (follow : Registry String (List Symbol)) :
    List Symbol → Registry String (List Symbol) × Bool
  | [] => (follow, false)
  | .nonterminal b :: rest =>
      let f := FirstSet.ofSequence first rest
      let new :=
        if f.empty then Ordered.union f.terminals ((follow.get? name).getD []) else f.terminals
      let (follow, changed) := (follow.register b []).alter b (Ordered.extend · new)
      let (follow, more) := extendFollow first name follow rest
      (follow, changed || more)
  | _ :: rest => extendFollow first name follow rest

/-- One round over all productions but production 0. -/
def followSweep (g : Grammar α) (follow : Registry String (List Symbol)) :
    Registry String (List Symbol) × Bool :=
  sweep (fun follow p => extendFollow g.first p.name follow p.symbols) follow g.productions.tail

/-- What one round makes of the FOLLOW sets. -/
def followRound (g : Grammar α) (follow : Registry String (List Symbol)) :
    Registry String (List Symbol) :=
  (g.followSweep follow).1

/-- A number of rounds that suffices: each round but the last adds a terminal to some set. -/
def followFuel (g : Grammar α) : Nat :=
  (g.nonterminals.size + 1) * (g.terminals.size + 1) + 1

/-- Computes the FOLLOW sets for a start symbol, by default the left side of the first production,
unless they are known for it. -/
def computeFollow (g : Grammar α) (start : Option String) :
    Declared α (Registry String (List Symbol)) :=
  match start.or g.firstName? with
  | none => (.error .noProductions, g)
  | some start =>
      if g.followStart = some start then (.ok g.follow, g)
      else
        match g.computeFirst with
        | (.error e, g) => (.error e, g)
        | (.ok _, g) =>
            let follow := repeatRounds g.followSweep g.followFuel (g.followSeed start)
            (.ok follow, { g with follow, followStart := some start })

end ShiftReduce.Grammar
