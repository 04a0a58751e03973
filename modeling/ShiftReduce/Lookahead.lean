import ShiftReduce.Automaton.Basic
import ShiftReduce.Digraph

/-!
# Lookaheads

The terminals on which a production may be reduced in a state, found through relations between the
transitions of the automaton on nonterminals. A transition directly reads the terminals after it,
reads on through nonterminals that can vanish, and is included in the transition of a left side at
the end of which it stands. Sets of terminals are ascending lists of their numbers, and transitions
are referred to by their places in the list of all transitions.
-/

namespace ShiftReduce

variable {α : Type}

/-- A transition of the automaton on a nonterminal. -/
structure Transition where
  state : Nat
  name : String
deriving DecidableEq

/-- The terminals on which each production may be reduced in each state. -/
abbrev Lookaheads := Registry (Nat × Nat) (List Nat)

/-- The items of a state. -/
def States.itemsOf (s : States) (state : Nat) : List Nat :=
  s.states[state]?.getD []

namespace Lookahead

/-! ## Vanishing nonterminals -/

/-- Whether all symbols are nonterminals of the given list. -/
def allAmong (names : List String) (symbols : List Symbol) : Bool :=
  symbols.all fun s =>
    match s with
    | .nonterminal name => name ∈ names
    | _ => false

/-- Adds the left side of a production whose symbols can all vanish, and says whether it was new. -/
def extendNullable (names : List String) (p : Production α) : List String × Bool :=
  if p.name ∈ names then (names, false)
  else if allAmong names p.symbols then (names ++ [p.name], true)
  else (names, false)

/-- One round over all productions but production 0. -/
def nullableSweep (g : Grammar α) (names : List String) : List String × Bool :=
  sweep extendNullable names g.productions.tail

/-- What one round makes of the names. -/
def nullableRound (g : Grammar α) (names : List String) : List String :=
  (nullableSweep g names).1

/-- The nonterminals that can vanish, in the order of the grammar's nonterminals. Each round but the
last finds one more. -/
def nullable (g : Grammar α) : List String :=
  let names := repeatRounds (nullableSweep g) (g.nonterminals.size + 1) []
  g.nonterminals.keys.filter fun name => name ∈ names

/-! ## Transitions and what they read -/

/-- The transitions of one state. -/
def transitionsOf (g : Grammar α) (state : Nat) (items : List Nat) : List Transition :=
  (Ordered.ofList (items.filterMap fun id => (g.atDot? id).bind Symbol.nonterminalName?)).map
    fun name => ⟨state, name⟩

/-- All transitions on nonterminals, state by state. -/
def transitions (g : Grammar α) (s : States) : List Transition :=
  (s.states.mapIdx (transitionsOf g)).flatten

/-- The items of the state to which a transition leads. -/
def targetItems (s : States) (t : Transition) : List Nat :=
  match s.goto? t.state (.nonterminal t.name) with
  | some target => s.itemsOf target
  | none => []

/-- The terminals after a dot in the state to which a transition leads, and the end of input for the
start symbol in state 0. -/
def directReads (g : Grammar α) (s : States) (t : Transition) : List Nat :=
  let terminals := (targetItems s t).filterMap fun id =>
    ((g.atDot? id).filter Symbol.isTerminal).bind g.terminalIndex?
  let atStart := t.state == 0 && g.start == some t.name
  Ascending.ofList (terminals ++ if atStart then (g.terminalIndex? .endOfInput).toList else [])

/-- The transitions on vanishing nonterminals right after a transition. -/
def reads (g : Grammar α) (s : States) (all : List Transition) (nullable : List String)
    (t : Transition) : List Nat :=
  match s.goto? t.state (.nonterminal t.name) with
  | none => []
  | some target =>
      (s.itemsOf target).filterMap fun id =>
        match g.atDot? id with
        | some (.nonterminal name) =>
            if name ∈ nullable then all.idxOf? (Transition.mk target name) else none
        | _ => none

/-! ## Where reductions look back -/

/-- Follows the symbols of a right side from a state. The answer lists the transitions passed after
which the rest can vanish, and the state at the end. -/
def follow (s : States) (all : List Transition) (nullable : List String) :
    Nat → List Symbol → List Nat × Option Nat
  | state, [] => ([], some state)
  | state, symbol :: rest =>
      let here :=
        match symbol with
        | .nonterminal name =>
            if allAmong nullable rest then all.idxOf? (Transition.mk state name) else none
        | _ => none
      match s.goto? state symbol with
      | none => (here.toList, none)
      | some next =>
          let (others, final) := follow s all nullable next rest
          (here.toList ++ others, final)

/-- The productions whose first item stands in the state of a transition and whose left side it
reads. -/
def productionsFrom (g : Grammar α) (s : States) (t : Transition) : List (Production α) :=
  (s.itemsOf t.state).filterMap fun id =>
    match g.item? id with
    | none => none
    | some item =>
        (g.production? item.prod).filter fun p => item.dot == 0 && p.name == t.name

/-- The reductions that look back to a transition: the state in which each of its productions is
complete, and the production. -/
def lookback (g : Grammar α) (s : States) (all : List Transition) (nullable : List String)
    (t : Transition) : List (Nat × Nat) :=
  (productionsFrom g s t).filterMap fun p =>
    (follow s all nullable t.state p.symbols).2.map fun state => (state, p.index)

/-- The transitions whose follow sets include that of a transition. -/
def includedIn (g : Grammar α) (s : States) (all : List Transition) (nullable : List String)
    (t : Transition) : List Nat :=
  (productionsFrom g s t).flatMap fun p => (follow s all nullable t.state p.symbols).1

/-- For each transition, the transitions whose follow sets it includes, in ascending order of
discovery. -/
def includes (g : Grammar α) (s : States) (all : List Transition) (nullable : List String) :
    List (List Nat) :=
  let edges := (all.mapIdx fun i t => (includedIn g s all nullable t).map fun j => (j, i)).flatten
  (List.range all.length).map fun j =>
    Ordered.ofList (edges.filterMap fun edge => if edge.1 = j then some edge.2 else none)

/-! ## The lookahead sets -/

/-- Adds the follow set of a transition to each reduction that looks back to it. -/
def attach (lookaheads : Lookaheads) (reductions : List (Nat × Nat)) (set : List Nat) :
    Lookaheads :=
  reductions.foldl (fun acc key => acc.update key [] (Ascending.union · set)) lookaheads

/-- The lookaheads of all reductions. -/
def attachAll (lookback : List (List (Nat × Nat))) (follow : List (List Nat)) : Lookaheads :=
  (lookback.zip follow).foldl (fun acc entry => attach acc entry.1 entry.2) {}

end Lookahead

/-- The relations between the transitions of an automaton, and the sets computed from them. -/
structure Relations where
  nullable : List String
  transitions : List Transition
  directReads : List (List Nat)
  reads : List (List Nat)
  read : List (List Nat)
  lookback : List (List (Nat × Nat))
  includes : List (List Nat)
  follow : List (List Nat)
  lookaheads : Lookaheads

/-- The relations and sets of an automaton. -/
def Relations.of (g : Grammar α) (s : States) : Relations :=
  let nullable := Lookahead.nullable g
  let transitions := Lookahead.transitions g s
  let directReads := transitions.map (Lookahead.directReads g s)
  let reads := transitions.map (Lookahead.reads g s transitions nullable)
  let read := Digraph.closeSets reads directReads
  let lookback := transitions.map (Lookahead.lookback g s transitions nullable)
  let includes := Lookahead.includes g s transitions nullable
  let follow := Digraph.closeSets includes read
  { nullable, transitions, directReads, reads, read, lookback, includes, follow
    lookaheads := Lookahead.attachAll lookback follow }

/-- The lookaheads of all reductions of an automaton. -/
def Lookahead.compute (g : Grammar α) (s : States) : Lookaheads :=
  (Relations.of g s).lookaheads

end ShiftReduce
