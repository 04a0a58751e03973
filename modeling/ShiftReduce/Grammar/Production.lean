import ShiftReduce.Precedence
import ShiftReduce.Registry
import ShiftReduce.Symbol
import ShiftReduce.Text.Quoted

/-!
# Productions and items

A production is a name, the symbols it may be replaced by, a precedence and possibly an action. An
item is a production with a dot: the part before the dot has been seen. All items of a grammar stand
in one list, the arena, and are referred to by their place in it; every production knows the places
of its own items.
-/

namespace ShiftReduce

/-- The places of a production's items in the arena: from `first` up to but not including
`past`. -/
structure ItemRange where
  first : Nat := 0
  past : Nat := 0
deriving DecidableEq

/-- The places of a range in ascending order. -/
def ItemRange.ids (r : ItemRange) : List Nat :=
  List.range' r.first (r.past - r.first)

/-- A production with actions of type `α`. -/
structure Production (α : Type) where
  index : Nat
  name : String
  symbols : List Symbol
  prec : Precedence := {}
  action : Option α := none
  range : ItemRange := {}

/-- The text of the production that replaces a name by symbols. -/
def ruleText (name : String) (symbols : List Symbol) : String :=
  match symbols with
  | [] => name ++ " -> <empty>"
  | _ => name ++ " ->" ++ String.join (symbols.map fun s => " " ++ s.text)

/-- A symbol in a detailed listing. -/
def Symbol.listing : Symbol → String
  | .token name => "Token(" ++ Text.quoted name ++ ")"
  | .literal c => "Literal(" ++ Text.quotedChar c ++ ")"
  | .nonterminal name => "Nonterminal(" ++ Text.quoted name ++ ")"

/-- The words for yes and no in a detailed listing. -/
def truthText (b : Bool) : String :=
  if b then "true" else "false"

namespace Production

variable {α : Type}

/-- The number of symbols on the right side. -/
def length (p : Production α) : Nat :=
  p.symbols.length

/-- The text of a production. -/
def text (p : Production α) : String :=
  ruleText p.name p.symbols

/-- The distinct symbols of the right side in the order of their first appearance. -/
def uniqueSymbols (p : Production α) : List Symbol :=
  Ordered.ofList p.symbols

/-- The places of the production's items. -/
def itemIds (p : Production α) : List Nat :=
  p.range.ids

/-- The place of the item with the dot in front of all symbols. -/
def firstItem? (p : Production α) : Option Nat :=
  p.itemIds.head?

/-- A production in a detailed listing. -/
def listing (p : Production α) : String :=
  "Production \x7b index: " ++ p.index.repr ++ ", name: " ++ Text.quoted p.name ++
    ", symbols: " ++ Text.bracketed (p.symbols.map Symbol.listing) ++
    ", prec: " ++ p.prec.listing ++ ", action: " ++ truthText p.action.isSome ++ " \x7d"

end Production

/-- A production with a dot. -/
structure Item where
  prod : Nat
  dot : Nat
  /-- The symbol right after the dot. -/
  atDot : Option Symbol
  /-- The symbol right before the dot. -/
  before : Option Symbol
  /-- The productions of the nonterminal right after the dot. -/
  after : List Nat
  /-- The place of the item with the dot one symbol further. -/
  next : Option Nat
deriving DecidableEq

/-- Whether the dot stands behind all symbols. -/
def Item.isComplete (item : Item) : Bool :=
  item.atDot.isNone

/-- The symbols of a right side with a dot at the given distance. -/
def dotted : Nat → List Symbol → List String
  | 0, symbols => " ." :: symbols.map fun s => " " ++ s.text
  | _ + 1, [] => []
  | n + 1, s :: rest => (" " ++ s.text) :: dotted n rest

/-- The text of a production with a dot at the given place. -/
def dottedText (name : String) (symbols : List Symbol) (dot : Nat) : String :=
  name ++ " ->" ++ String.join (dotted dot symbols)

end ShiftReduce
