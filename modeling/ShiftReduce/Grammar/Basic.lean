import ShiftReduce.Grammar.Error
import ShiftReduce.Grammar.Production
import ShiftReduce.Record

/-!
# Grammars

A grammar collects productions together with the registries derived from them. Production 0 belongs
to the grammar itself: its right side is the start symbol, once one is chosen. The items and the
FIRST and FOLLOW sets are computed on demand and forgotten whenever a production or the start symbol
changes.

Every declaration answers with a result and with the grammar it leaves behind, also when it is
refused.
-/

namespace ShiftReduce

/-- What a symbol or a sequence of symbols can begin with, and whether it can vanish. -/
structure FirstSet where
  terminals : List Symbol := []
  empty : Bool := false
deriving DecidableEq

/-- The left side of production 0. -/
def augmentedStart : String := "S'"

/-- A grammar with actions of type `α`. -/
structure Grammar (α : Type) where
  productions : List (Production α)
  /-- The productions of each name. -/
  rules : Registry String (List Nat) := {}
  /-- The names and right sides that have a production. -/
  declared : List (String × List Symbol) := []
  /-- The productions in which each terminal occurs. -/
  terminals : Registry Symbol (List Nat)
  /-- The productions in which each nonterminal occurs on the right. -/
  nonterminals : Registry String (List Nat) := {}
  precedence : Registry Symbol Precedence := {}
  /-- The symbols whose precedence some production asked for. -/
  usedTags : List Symbol := []
  start : Option String := none
  /-- The arena of items. -/
  items : List Item := []
  first : Registry Symbol FirstSet := {}
  follow : Registry String (List Symbol) := {}
  /-- The start symbol for which FOLLOW was computed. -/
  followStart : Option String := none

/-- The answer to a declaration and the grammar it leaves behind. -/
abbrev Declared (α β : Type) := Except GrammarError β × Grammar α

/-- Registers the names of tokens in turn. -/
def registerTokens (terminals : Registry Symbol (List Nat)) :
    List String → Except GrammarError (Registry Symbol (List Nat))
  | [] => .ok terminals
  | name :: rest =>
      if name != errorName && !isTokenName name then .error (.invalidName name)
      else registerTokens (terminals.register (.token name) []) rest

namespace Grammar

variable {α : Type}

/-- A grammar over the named tokens. The end of input and the error token are always there. -/
def ofTokens (tokens : List String) : Except GrammarError (Grammar α) :=
  match registerTokens ⟨[(.endOfInput, []), (.error, [])]⟩ tokens with
  | .error e => .error e
  | .ok terminals =>
      .ok { productions := [{ index := 0, name := augmentedStart, symbols := [] }], terminals }

/-- The production with the given index. -/
def production? (g : Grammar α) (index : Nat) : Option (Production α) :=
  g.productions[index]?

/-- The item at a place of the arena. -/
def item? (g : Grammar α) (id : Nat) : Option Item :=
  g.items[id]?

/-- The number of a terminal. -/
def terminalIndex? (g : Grammar α) (s : Symbol) : Option Nat :=
  g.terminals.indexOf? s

/-- The number of a nonterminal. -/
def nonterminalIndex? (g : Grammar α) (name : String) : Option Nat :=
  g.nonterminals.indexOf? name

/-- The declared precedence of a symbol, or the default one. -/
def precedenceOf (g : Grammar α) (s : Symbol) : Precedence :=
  (g.precedence.get? s).getD {}

/-- Forgets everything that was computed from the productions. -/
def forget (g : Grammar α) : Grammar α :=
  { g with items := [], first := {}, follow := {}, followStart := none }

/-- Declares the precedence of a terminal, or of a name that productions refer to. Precedences come
before productions. -/
def setPrecedence (g : Grammar α) (s : Symbol) (assoc : Assoc) (level : Nat) : Declared α Unit :=
  if 1 < g.productions.length then (.error (.precedenceAfterProductions s.text), g)
  else if s.isNonterminal then (.error (.invalidName s.text), g)
  else if g.precedence.contains s then (.error (.duplicatePrecedence s.text), g)
  else (.ok (), { g with precedence := g.precedence.register s ⟨assoc, level⟩ })

/-! ## Adding productions -/

/-- Why a name cannot be the left side of a production. -/
def leftSideFault? (name : String) : Option GrammarError :=
  if name == errorName then some (.reservedName name)
  else if !isNonterminalName name then some (.invalidName name)
  else none

/-- Why a symbol cannot stand on a right side. -/
def symbolFault? (g : Grammar α) : Symbol → Option GrammarError
  | .token name =>
      if g.terminals.contains (.token name) then none else some (.unknownToken name)
  | .nonterminal name =>
      if name == errorName || !isNonterminalName name then some (.invalidName name) else none
  | .literal _ => none

/-- Why a name and symbols cannot make a production: the first fault from left to right. -/
def ruleFault? (g : Grammar α) (name : String) (symbols : List Symbol) : Option GrammarError :=
  match leftSideFault? name with
  | some e => some e
  | none => symbols.findSome? g.symbolFault?

/-- The precedence of the rightmost terminal of a right side. -/
def rightmostPrecedence (g : Grammar α) (symbols : List Symbol) : Precedence :=
  match symbols.reverse.find? Symbol.isTerminal with
  | some s => g.precedenceOf s
  | none => {}

/-- The precedence of a production: that of its tag, or of its rightmost terminal. -/
def rulePrecedence (g : Grammar α) (symbols : List Symbol) :
    Option Symbol → Except GrammarError Precedence
  | none => .ok (g.rightmostPrecedence symbols)
  | some tag =>
      match g.precedence.get? tag with
      | some prec => .ok prec
      | none => .error (.undefinedPrecedence tag.text)

/-- Remembers that a tag was asked for. -/
def noteTag (g : Grammar α) : Option Symbol → Grammar α
  | none => g
  | some tag => { g with usedTags := Ordered.add g.usedTags tag }

/-- Registers one occurrence of a symbol on the right side of a production. -/
def noteOccurrence (index : Nat) (g : Grammar α) : Symbol → Grammar α
  | .nonterminal name =>
      { g with nonterminals := g.nonterminals.update name [] (· ++ [index]) }
  | s => { g with terminals := g.terminals.update s [] (· ++ [index]) }

/-- Appends a production and registers its symbols. -/
def append (g : Grammar α) (p : Production α) : Grammar α :=
  let g := { g with nonterminals := g.nonterminals.register p.name [] }
  let g := p.symbols.foldl (noteOccurrence p.index) g
  forget
    { g with
      declared := g.declared ++ [(p.name, p.symbols)]
      rules := g.rules.update p.name [] (· ++ [p.index])
      productions := g.productions ++ [p] }

/-- Adds the production that replaces a name by symbols. A tag gives it the precedence of another
symbol. -/
def addProduction (g : Grammar α) (name : String) (symbols : List Symbol) (tag : Option Symbol)
    (action : Option α) : Declared α (Production α) :=
  match g.ruleFault? name symbols with
  | some e => (.error e, g)
  | none =>
      match g.rulePrecedence symbols tag with
      | .error e => (.error e, g)
      | .ok prec =>
          let g := g.noteTag tag
          if (name, symbols) ∈ g.declared then
            (.error (.duplicateProduction (ruleText name symbols)), g)
          else
            let p : Production α := { index := g.productions.length, name, symbols, prec, action }
            (.ok p, g.append p)

/-- Adds several productions of one name in turn, up to the first one that is refused. -/
def addAlternatives (g : Grammar α) (name : String) (action : Option α) :
    List (List Symbol × Option Symbol) → Declared α Unit
  | [] => (.ok (), g)
  | (symbols, tag) :: rest =>
      match g.addProduction name symbols tag action with
      | (.error e, g) => (.error e, g)
      | (.ok _, g) => g.addAlternatives name action rest

/-! ## The start symbol -/

/-- The left side of the first production. -/
def firstName? (g : Grammar α) : Option String :=
  (g.production? 1).map Production.name

/-- Withdraws the reference of production 0 to the previous start symbol. -/
def releaseStart (g : Grammar α) : Registry String (List Nat) :=
  match g.start with
  | none => g.nonterminals
  | some old => g.nonterminals.modify old (·.filter (· != 0))

/-- Makes a defined nonterminal the start symbol. -/
def restart (g : Grammar α) (start : String) : Grammar α :=
  forget
    { g with
      nonterminals := g.releaseStart.update start [] (0 :: ·)
      productions :=
        { index := 0, name := augmentedStart, symbols := [.nonterminal start] } ::
          g.productions.tail
      start := some start }

/-- Chooses the start symbol; without a name it is the left side of the first production. -/
def setStart (g : Grammar α) (name : Option String) : Declared α Unit :=
  match g.firstName? with
  | none => (.error .noProductions, g)
  | some first =>
      let start := name.getD first
      if g.rules.contains start then (.ok (), g.restart start)
      else (.error (.unknownStart start), g)

/-! ## Items -/

/-- The item of a right side with the dot at the given place; `base` is the place of the first item
of the production. -/
def itemAt (g : Grammar α) (p : Production α) (base dot : Nat) : Item :=
  { prod := p.index
    dot
    atDot := p.symbols[dot]?
    before := if dot = 0 then none else p.symbols[dot - 1]?
    after :=
      match p.symbols[dot]? with
      | some (.nonterminal name) => (g.rules.get? name).getD []
      | _ => []
    next := if dot < p.symbols.length then some (base + dot + 1) else none }

/-- All items of a production, from the dot in front to the dot behind. -/
def itemsOf (g : Grammar α) (p : Production α) (base : Nat) : List Item :=
  (List.range (p.symbols.length + 1)).map (g.itemAt p base)

/-- Lays out the items of productions one after the other from the given place on, and tells each
production its range. -/
def layOut (g : Grammar α) : Nat → List (Production α) → List (Production α) × List Item
  | _, [] => ([], [])
  | base, p :: rest =>
      let past := base + p.symbols.length + 1
      let (productions, items) := g.layOut past rest
      ({ p with range := ⟨base, past⟩ } :: productions, g.itemsOf p base ++ items)

/-- Fills the arena with the items of every production. -/
def buildItems (g : Grammar α) : Grammar α :=
  let (productions, items) := g.layOut 0 g.productions
  { g with productions, items }

/-- The text of an item. -/
def itemText (g : Grammar α) (item : Item) : String :=
  match g.production? item.prod with
  | some p => dottedText p.name p.symbols item.dot
  | none => ""

/-- Whether all places lie in the arena. -/
def holdsItems (g : Grammar α) (ids : List Nat) : Bool :=
  ids.all fun id => decide (id < g.items.length)

/-! ## Records -/

/-- The record of a production that was added. -/
def addedRecord (p : Production α) : Record :=
  ⟨.debug, "production " ++ p.index.repr ++ ": " ++ p.text⟩

/-- The records of the productions that a grammar has beyond the given number. -/
def addedRecords (g : Grammar α) (before : Nat) : List Record :=
  (g.productions.drop before).map addedRecord

end Grammar

end ShiftReduce
