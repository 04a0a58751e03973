import ShiftReduce.Automaton.Basic

/-!
# Parsing tables

A table tells, for each state, what to do on each terminal and which state to go to after a
reduction. Terminals and nonterminals are numbered as in the grammar. A cell without an action is a
syntax error. Conflicts that were settled by default, not by a declared precedence, are on record.
-/

namespace ShiftReduce

/-- How the lookaheads of reductions are found. -/
inductive Method where
  /-- By the relations between the automaton's transitions. -/
  | lalr
  /-- By the FOLLOW sets alone. -/
  | slr
deriving DecidableEq

/-- The name of a method in capitals. -/
def Method.title : Method → String
  | .lalr => "LALR"
  | .slr => "SLR"

/-- The name of a method in a detailed listing. -/
def Method.label : Method → String
  | .lalr => "Lalr"
  | .slr => "Slr"

/-- What a parser does in a state on a terminal. -/
inductive Action where
  /-- Read the terminal and go to a state. -/
  | shift (state : Nat)
  /-- Replace the right side of a production by its left side. -/
  | reduce (production : Nat)
  /-- The input is complete. -/
  | accept
deriving DecidableEq

/-- An action in a detailed listing. -/
def Action.listing : Action → String
  | .shift state => "Shift(" ++ state.repr ++ ")"
  | .reduce production => "Reduce(" ++ production.repr ++ ")"
  | .accept => "Accept"

/-- How a conflict was settled. -/
inductive Verdict where
  /-- Between a shift and a reduction, the shift was kept. -/
  | shifted
  /-- Between a shift and a reduction, the reduction was kept. -/
  | reduced
  /-- Of two reductions, one was kept. -/
  | chosen (kept rejected : Nat)
deriving DecidableEq

/-- A conflict that was settled by default. -/
structure Conflict where
  state : Nat
  symbol : Symbol
  verdict : Verdict
deriving DecidableEq

/-- Whether a conflict is between a shift and a reduction. -/
def Conflict.isShiftReduce (c : Conflict) : Bool :=
  match c.verdict with
  | .chosen _ _ => false
  | _ => true

/-- What a conflict was about and what was kept. -/
def Conflict.summary (c : Conflict) : String :=
  let place := " conflict for " ++ c.symbol.text ++ " in state " ++ c.state.repr ++ " resolved "
  match c.verdict with
  | .shifted => "shift/reduce" ++ place ++ "as shift"
  | .reduced => "shift/reduce" ++ place ++ "as reduce"
  | .chosen kept _ => "reduce/reduce" ++ place ++ "using rule " ++ kept.repr

/-- The summary of a conflict and what was rejected. -/
def Conflict.text (c : Conflict) : String :=
  match c.verdict with
  | .chosen _ rejected => c.summary ++ " (rejected rule " ++ rejected.repr ++ ")"
  | _ => c.summary

/-- Why a table cannot be built. -/
inductive TableError where
  /-- The grammar was refused. -/
  | grammar (error : GrammarError)
  /-- A state is to go to two states on one terminal. -/
  | shiftShift (state : Nat) (symbol : Symbol)
deriving DecidableEq

/-- The wording of a table error. -/
def TableError.message : TableError → String
  | .grammar error => error.message
  | .shiftShift state symbol =>
      "shift/shift conflict in state " ++ state.repr ++ " on " ++ symbol.text

/-- A parsing table. -/
structure Table where
  method : Method
  /-- The action of each state on each terminal. -/
  action : List (List (Option Action))
  /-- The state after the reduction to each nonterminal. -/
  goto : List (List (Option Nat))
  terminals : List Symbol
  nonterminals : List String
  /-- The items of each state. -/
  states : List (List Nat)
  conflicts : List Conflict
deriving DecidableEq

namespace Table

/-- The action in a state on a terminal. -/
def actionOn (t : Table) (state : Nat) (s : Symbol) : Option Action := do
  let column ← t.terminals.idxOf? s
  let row ← t.action[state]?
  let cell ← row[column]?
  cell

/-- The state to go to from a state after a reduction to a nonterminal. -/
def gotoOn (t : Table) (state : Nat) (name : String) : Option Nat := do
  let column ← t.nonterminals.idxOf? name
  let row ← t.goto[state]?
  let cell ← row[column]?
  cell

/-- The conflicts between a shift and a reduction. -/
def shiftReduceConflicts (t : Table) : List Conflict :=
  t.conflicts.filter Conflict.isShiftReduce

/-- The conflicts between reductions. -/
def reduceReduceConflicts (t : Table) : List Conflict :=
  t.conflicts.filter fun c => !c.isShiftReduce

end Table

end ShiftReduce
