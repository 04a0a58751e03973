import ShiftReduce.Lookahead
import ShiftReduce.Table.Basic

/-!
# Filling the cells of a table

The items of a state make offers to the cells of its row: a complete item offers a reduction on each
of its lookaheads, an item with a terminal after its dot offers a shift, and the complete item of
production 0 offers acceptance. A cell takes the offers in the order of the items and settles each
against the action it holds.
-/

namespace ShiftReduce

variable {α : Type}

/-- The state of a cell while its row is being filled. -/
structure Cell where
  action : Option Action := none
  /-- Precedence made the cell an error; later offers are ignored. -/
  barred : Bool := false
deriving DecidableEq

/-- An offer to a cell. -/
inductive Offer where
  | accept
  | reduce (production : Nat)
  | shift (state : Nat)
deriving DecidableEq

/-- Whether a conflict between two precedences was settled by default: neither was declared. -/
def undeclared (shift reduce : Precedence) : Bool :=
  shift.level == 0 && reduce.level == 0

/-- Settles a shift against a reduction in a cell. -/
def Cell.settle (state production : Nat) (shift reduce : Precedence) : Cell × Option Verdict :=
  match shift.resolve reduce with
  | .shift =>
      (⟨some (.shift state), false⟩, if undeclared shift reduce then some .shifted else none)
  | .reduce =>
      (⟨some (.reduce production), false⟩, if undeclared shift reduce then some .reduced else none)
  | .neither => (⟨none, true⟩, none)

/-- Takes an offer. The precedence of the cell's terminal stands against those of productions. The
answer also tells how a conflict was settled by default. -/
def Cell.take (terminal : Precedence) (precOf : Nat → Precedence) (cell : Cell) :
    Offer → Cell × Option Verdict
  | .accept =>
      ({ cell with action := some .accept },
        match cell.action with
        | some (.reduce other) => some (.chosen 0 other)
        | _ => none)
  | .reduce production =>
      if cell.barred then (cell, none)
      else
        match cell.action with
        | none => (⟨some (.reduce production), false⟩, none)
        | some (.shift state) => Cell.settle state production terminal (precOf production)
        | some (.reduce other) =>
            (⟨some (.reduce (min other production)), false⟩,
              some (.chosen (min other production) (max other production)))
        | some .accept => (cell, some (.chosen 0 production))
  | .shift state =>
      if cell.barred then (cell, none)
      else
        match cell.action with
        | none => (⟨some (.shift state), false⟩, none)
        | some (.reduce production) => Cell.settle state production terminal (precOf production)
        | some (.shift _) => (cell, none)
        | some .accept => (cell, none)

/-- Whether an offer is a shift to another state than the one to which the cell shifts. -/
def Cell.clashes (cell : Cell) : Offer → Bool
  | .shift state =>
      match cell.action with
      | some (.shift other) => !cell.barred && other != state
      | _ => false
  | _ => false

namespace Table

/-- The lookaheads of a production by the FOLLOW set of its left side. -/
def followLookaheads (g : Grammar α) (production : Nat) : List Nat :=
  match g.production? production with
  | none => []
  | some p => Ascending.ofList (((g.follow.get? p.name).getD []).filterMap g.terminalIndex?)

/-- The lookaheads of a production in a state: as given, or else by its FOLLOW set. -/
def reductionLookaheads (g : Grammar α) (lookaheads : Option Lookaheads) (state production : Nat) :
    List Nat :=
  match lookaheads with
  | some sets => (sets.get? (state, production)).getD []
  | none => followLookaheads g production

/-- The offers of one item to the cells of its row, each with the number of the cell's terminal. -/
def offersOf (g : Grammar α) (s : States) (lookaheads : Option Lookaheads) (state : Nat)
    (item : Item) : List (Nat × Offer) :=
  match item.atDot with
  | none =>
      if item.prod = 0 then
        (g.terminalIndex? .endOfInput).toList.map fun column => (column, .accept)
      else
        (reductionLookaheads g lookaheads state item.prod).map fun column =>
          (column, .reduce item.prod)
  | some symbol =>
      if symbol.isTerminal then
        match s.goto? state symbol, g.terminalIndex? symbol with
        | some target, some column => [(column, .shift target)]
        | _, _ => []
      else []

/-- All offers to the row of a state in the order of its items. -/
def rowOffers (g : Grammar α) (s : States) (lookaheads : Option Lookaheads) (state : Nat)
    (items : List Nat) : List (Nat × Offer) :=
  (items.filterMap g.item?).flatMap (offersOf g s lookaheads state)

/-- The precedence of a production. -/
def productionPrecedence (g : Grammar α) (production : Nat) : Precedence :=
  match g.production? production with
  | some p => p.prec
  | none => {}

/-- Hands one offer to its cell. -/
def handOver (g : Grammar α) (terminals : List Symbol) (state : Nat)
    (row : List Cell × List Conflict) (offer : Nat × Offer) : List Cell × List Conflict :=
  let (cells, conflicts) := row
  match cells[offer.1]?, terminals[offer.1]? with
  | some cell, some symbol =>
      let (cell, verdict) :=
        cell.take (g.precedenceOf symbol) (productionPrecedence g) offer.2
      (cells.set offer.1 cell, conflicts ++ (verdict.map (Conflict.mk state symbol)).toList)
  | _, _ => row

/-- Hands one offer to its cell, unless the two clash. -/
def handOver? (g : Grammar α) (terminals : List Symbol) (state : Nat)
    (row : List Cell × List Conflict) (offer : Nat × Offer) :
    Except TableError (List Cell × List Conflict) :=
  match row.1[offer.1]?, terminals[offer.1]? with
  | some cell, some symbol =>
      if cell.clashes offer.2 then .error (.shiftShift state symbol)
      else .ok (handOver g terminals state row offer)
  | _, _ => .ok row

/-- The row of a state and the conflicts settled in it, unless two shifts clash in a cell. -/
def fillRow? (g : Grammar α) (s : States) (lookaheads : Option Lookaheads)
    (terminals : List Symbol) (state : Nat) (items : List Nat) :
    Except TableError (List Cell × List Conflict) :=
  (rowOffers g s lookaheads state items).foldlM (handOver? g terminals state)
    (terminals.map fun _ => {}, [])

/-- The row of a state and the conflicts settled in it, if no shifts clash in a cell. -/
def fillRow (g : Grammar α) (s : States) (lookaheads : Option Lookaheads)
    (terminals : List Symbol) (state : Nat) (items : List Nat) : List Cell × List Conflict :=
  (rowOffers g s lookaheads state items).foldl (handOver g terminals state)
    (terminals.map fun _ => {}, [])

end Table

end ShiftReduce
