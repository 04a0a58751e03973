import ShiftReduce.Grammar.Basic

/-!
# FIRST sets

FIRST of a symbol holds the terminals it can begin with and says whether it can vanish. The sets are
grown round by round, each round passing over all productions, until a round changes nothing. What
grows says whether it did.
-/

namespace ShiftReduce

namespace FirstSet

/-- The FIRST set of a terminal. -/
def single (s : Symbol) : FirstSet :=
  ⟨[s], false⟩

/-- Adds another FIRST set, and says whether that changed anything. -/
def extend (f more : FirstSet) : FirstSet × Bool :=
  let (terminals, changed) := Ordered.extend f.terminals more.terminals
  if more.empty && !f.empty then (⟨terminals, true⟩, true) else (⟨terminals, f.empty⟩, changed)

/-- FIRST of a sequence, by the FIRST sets of its symbols: it begins with what its first symbol
begins with and, if that can vanish, with what the others begin with. -/
def ofSequence (first : Registry Symbol FirstSet) : List Symbol → FirstSet
  | [] => ⟨[], true⟩
  | s :: rest =>
      match first.get? s with
      | some f =>
          if f.empty then
            let r := ofSequence first rest
            ⟨Ordered.union f.terminals r.terminals, r.empty⟩
          else ⟨f.terminals, false⟩
      | none => if s.isTerminal then single s else {}

end FirstSet

namespace Grammar

variable {α : Type}

/-- The right sides of a nonterminal. -/
def rightSides (g : Grammar α) (name : String) : List (List Symbol) :=
  ((g.rules.get? name).getD []).filterMap fun p => (g.production? p).map Production.symbols

/-- The FIRST sets before the first round: every terminal begins with itself, and nothing is known
of the nonterminals. -/
def firstSeed (g : Grammar α) : Registry Symbol FirstSet :=
  ⟨g.terminals.keys.map (fun t => (t, FirstSet.single t)) ++
    g.nonterminals.keys.map (fun n => (.nonterminal n, FirstSet.mk [] false))⟩

/-- Adds what one right side begins with to the FIRST set of a nonterminal. -/
def extendFirst (name : String) (first : Registry Symbol FirstSet) (symbols : List Symbol) :
    Registry Symbol FirstSet × Bool :=
  first.alter (.nonterminal name) (·.extend (FirstSet.ofSequence first symbols))

/-- One round over all nonterminals and their productions. -/
def firstSweep (g : Grammar α) (first : Registry Symbol FirstSet) :
    Registry Symbol FirstSet × Bool :=
  sweep (fun first name => sweep (extendFirst name) first (g.rightSides name)) first
    g.nonterminals.keys

/-- What one round makes of the FIRST sets. -/
def firstRound (g : Grammar α) (first : Registry Symbol FirstSet) : Registry Symbol FirstSet :=
  (g.firstSweep first).1

/-- A number of rounds that suffices: each round but the last adds a terminal to some set or marks
some nonterminal as able to vanish. -/
def firstFuel (g : Grammar α) : Nat :=
  g.nonterminals.size * (g.terminals.size + 1) + 1

/-- A nonterminal that is used and has no production. -/
def undefined? (g : Grammar α) : Option String :=
  g.nonterminals.keys.find? fun name => !g.rules.contains name

/-- Computes the FIRST sets unless they are known. -/
def computeFirst (g : Grammar α) : Declared α (Registry Symbol FirstSet) :=
  if g.first.entries ≠ [] then (.ok g.first, g)
  else
    match g.undefined? with
    | some name => (.error (.undefinedNonterminal name), g)
    | none =>
        let first := repeatRounds g.firstSweep g.firstFuel g.firstSeed
        (.ok first, { g with first })

/-- FIRST of a sequence by the sets that are known now. -/
def firstOf (g : Grammar α) (symbols : List Symbol) : FirstSet :=
  FirstSet.ofSequence g.first symbols

end Grammar

end ShiftReduce
