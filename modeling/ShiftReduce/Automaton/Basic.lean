import ShiftReduce.Grammar.Basic

/-!
# The automaton of item sets

A state is a set of items closed under expansion of the nonterminal after a dot; reading a symbol
leads from a state to the closure of its items with the dot moved over that symbol. The collection
starts from the item of production 0 and lists the states in the order in which they are found.

Items are given by their places in the grammar's arena. The function `states?` refuses to answer
when an item it meets has no place there, which happens when the grammar was changed after its items
were built.
-/

namespace ShiftReduce

variable {α : Type}

/-- The productions that the item at a place calls for. -/
def Grammar.productionsAfter (g : Grammar α) (id : Nat) : List Nat :=
  match g.item? id with
  | some item => item.after
  | none => []

/-- The symbol after the dot of the item at a place. -/
def Grammar.atDot? (g : Grammar α) (id : Nat) : Option Symbol :=
  (g.item? id).bind Item.atDot

/-- The place of the first item of a production. -/
def Grammar.firstItemOf? (g : Grammar α) (index : Nat) : Option Nat :=
  (g.production? index).bind Production.firstItem?

namespace Automaton

/-! ## Closure and goto -/

/-- The productions of a list that have not been added before. -/
def fresh (added : List Nat) (productions : List Nat) : List Nat :=
  (Ordered.ofList productions).filter fun p => !(p ∈ added)

/-- Closes the pending items, in the order in which they wait. Every production is added once. -/
def closeFrom (g : Grammar α) : Nat → List Nat → List Nat → List Nat
  | 0, _, pending => pending
  | _ + 1, _, [] => []
  | fuel + 1, added, id :: pending =>
      let new := fresh added (g.productionsAfter id)
      id :: closeFrom g fuel (added ++ new) (pending ++ new.filterMap g.firstItemOf?)

/-- The items together with the first items of all productions they call for, directly or not. -/
def closure (g : Grammar α) (items : List Nat) : List Nat :=
  closeFrom g (items.length + g.productions.length) [] items

/-- The place of an item with the dot moved over a symbol. -/
def advance? (g : Grammar α) (s : Symbol) (id : Nat) : Option Nat :=
  match (g.item? id).bind Item.next with
  | none => none
  | some next => if (g.item? next).bind Item.before = some s then some next else none

/-- The items of a set with the dot moved over a symbol. -/
def kernel (g : Grammar α) (items : List Nat) (s : Symbol) : List Nat :=
  items.filterMap (advance? g s)

/-- The state reached from a set of items by reading a symbol; it is empty when no item has the
symbol after its dot. -/
def goto (g : Grammar α) (items : List Nat) (s : Symbol) : List Nat :=
  closure g (kernel g items s)

/-! ## The collection of states -/

/-- States while they are being found, with their items in ascending order as identities. -/
structure Found where
  states : List (List Nat) := []
  keys : List (List Nat) := []

/-- The number of a state; a new one comes after all others. -/
def Found.locate (found : Found) (items : List Nat) : Found × Nat :=
  let key := Ascending.sort items
  match found.keys.idxOf? key with
  | some number => (found, number)
  | none => (⟨found.states ++ [items], found.keys ++ [key]⟩, found.states.length)

/-- The symbols after the dots of a state, each once. -/
def symbolsOf (g : Grammar α) (items : List Nat) : List Symbol :=
  Ordered.ofList (items.filterMap g.atDot?)

/-- Reads each of the symbols in a state. -/
def leave (g : Grammar α) (current : List Nat) : Found → List Symbol → Found × List (Symbol × Nat)
  | found, [] => (found, [])
  | found, s :: rest =>
      match goto g current s with
      | [] => leave g current found rest
      | items =>
          let (found, number) := found.locate items
          let (found, row) := leave g current found rest
          (found, (s, number) :: row)

/-- Leaves the states one after the other, from the given number on, until none is left. -/
def explore (g : Grammar α) : Nat → Nat → Found → Found × List (Registry Symbol Nat)
  | 0, _, found => (found, [])
  | fuel + 1, number, found =>
      match found.states[number]? with
      | none => (found, [])
      | some current =>
          let (found, row) := leave g current found (symbolsOf g current)
          let (found, rows) := explore g fuel (number + 1) found
          (found, ⟨row⟩ :: rows)

end Automaton

/-- The states of the automaton and, for each of them, the states reached by reading a symbol. -/
structure States where
  states : List (List Nat) := []
  transitions : List (Registry Symbol Nat) := []
deriving DecidableEq

/-- The state reached from a state by reading a symbol. -/
def States.goto? (s : States) (state : Nat) (symbol : Symbol) : Option Nat :=
  (s.transitions[state]?).bind (·.get? symbol)

/-- The records of the states. -/
def States.records (s : States) : List Record :=
  (s.states.zip s.transitions).mapIdx fun i entry =>
    ⟨.debug, "state " ++ i.repr ++ ": " ++ entry.1.length.repr ++ " items, " ++
      entry.2.size.repr ++ " transitions"⟩

namespace Automaton

/-- All states that can be reached from the first item of production 0. There are at most as many as
sets of items. -/
def states (g : Grammar α) : States :=
  match g.firstItemOf? 0 with
  | none => {}
  | some start =>
      let found := (Found.locate {} (closure g [start])).1
      let (found, rows) := explore g (Nat.pow 2 g.items.length + 1) 0 found
      ⟨found.states, rows⟩

/-- The states, provided that all their items are in the arena. -/
def states? (g : Grammar α) : Option States :=
  let result := states g
  if result.states.all g.holdsItems then some result else none

end Automaton

end ShiftReduce
