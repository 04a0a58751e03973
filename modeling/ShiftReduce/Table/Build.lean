import ShiftReduce.Grammar.Follow
import ShiftReduce.Grammar.Unused
import ShiftReduce.Table.Cell

/-!
# Building a table from a grammar

The table of a grammar by either method. Building chooses the default start symbol if there is none,
and leaves the items and the FIRST and FOLLOW sets in the grammar.
-/

namespace ShiftReduce

variable {α : Type}

namespace Table

/-- The lookaheads that a method keeps apart from the FOLLOW sets. -/
def lookaheadsBy (g : Grammar α) (s : States) : Method → Option Lookaheads
  | .lalr => some (Lookahead.compute g s)
  | .slr => none

/-- The table of an automaton with the given rows. -/
def ofRows (g : Grammar α) (s : States) (method : Method)
    (rows : List (List Cell × List Conflict)) : Table :=
  let nonterminals := g.nonterminals.keys
  { method
    action := rows.map fun row => row.1.map Cell.action
    goto := (List.range s.states.length).map fun state =>
      nonterminals.map fun name => s.goto? state (.nonterminal name)
    terminals := g.terminals.keys
    nonterminals
    states := s.states
    conflicts := rows.flatMap Prod.snd }

/-- The rows of an automaton from a state on, unless two shifts clash in a cell. -/
def fillRows? (g : Grammar α) (s : States) (lookaheads : Option Lookaheads) (state : Nat) :
    List (List Nat) → Except TableError (List (List Cell × List Conflict))
  | [] => .ok []
  | items :: rest =>
      match fillRow? g s lookaheads g.terminals.keys state items with
      | .error e => .error e
      | .ok row => (fillRows? g s lookaheads (state + 1) rest).map (row :: ·)

/-- The table of an automaton by a method, unless two shifts clash in a cell. -/
def ofStates? (g : Grammar α) (s : States) (method : Method) : Except TableError Table :=
  (fillRows? g s (lookaheadsBy g s method) 0 s.states).map (ofRows g s method)

/-- The table of an automaton by a method, if no shifts clash in a cell. -/
def ofStates (g : Grammar α) (s : States) (method : Method) : Table :=
  ofRows g s method (s.states.mapIdx (fillRow g s (lookaheadsBy g s method) g.terminals.keys))

end Table

namespace Grammar

/-- Chooses the default start symbol if there is none. -/
def ensureStart (g : Grammar α) : Declared α Unit :=
  match g.start with
  | some _ => (.ok (), g)
  | none => g.setStart none

/-- Makes everything ready that a table is built from. -/
def prepare (g : Grammar α) : Declared α Unit :=
  match g.ensureStart with
  | (.error e, g) => (.error e, g)
  | (.ok _, g) =>
      match g.buildItems.computeFirst with
      | (.error e, g) => (.error e, g)
      | (.ok _, g) =>
          match g.computeFollow g.start with
          | (.error e, g) => (.error e, g)
          | (.ok _, g) => (.ok (), g)

/-- The table of a grammar by a method, with the grammar that building leaves behind. -/
def buildTable (g : Grammar α) (method : Method) : Except TableError Table × Grammar α :=
  match g.prepare with
  | (.error e, g) => (.error (.grammar e), g)
  | (.ok _, g) => (Table.ofStates? g (Automaton.states g) method, g)

end Grammar

/-! ## Records -/

namespace Table

/-- The number of cells that are not empty. -/
def filled {β : Type} (row : List (Option β)) : Nat :=
  row.countP Option.isSome

/-- A count of conflicts of some kind, or nothing if there are none. -/
def conflictCount (kind : String) (n : Nat) : List Record :=
  if n = 0 then []
  else [⟨.warn, n.repr ++ " " ++ kind ++ " conflict" ++ if n = 1 then "" else "s"⟩]

/-- The records of one row: its conflicts, then how much of it is filled. -/
def rowRecords (t : Table) (state : Nat) : List Record :=
  let conflicts := t.conflicts.filter fun c => c.state == state
  let actions := filled (t.action[state]?.getD [])
  let gotos := filled (t.goto[state]?.getD [])
  conflicts.map (fun c => ⟨.info, c.summary⟩) ++
    [⟨.debug, "state " ++ state.repr ++ ": " ++ actions.repr ++ " actions, " ++ gotos.repr ++
      " gotos"⟩]

/-- The records of a table that was built from a grammar, which is given as building left it. -/
def records (g : Grammar α) (t : Table) : List Record :=
  g.unusedRecords ++ (Automaton.states g).records ++
    (List.range t.states.length).flatMap t.rowRecords ++
    conflictCount "shift/reduce" t.shiftReduceConflicts.length ++
    conflictCount "reduce/reduce" t.reduceReduceConflicts.length ++
    [⟨.info, t.method.label ++ " table: " ++ t.action.length.repr ++ " states"⟩]

end Table

end ShiftReduce
