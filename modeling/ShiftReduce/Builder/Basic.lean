import ShiftReduce.Parser
import ShiftReduce.RuleText.Basic

/-!
# Building parsers

A builder collects precedence levels, productions with their reductions, an error handler and a
start symbol for a lexer, and turns them into a parser. The terminals are the tokens that the lexer
names, and characters as productions use them.
-/

namespace ShiftReduce

variable {V C : Type}

/-- Why a parser cannot be built. -/
inductive BuildError where
  /-- A declaration was refused. -/
  | grammar (error : GrammarError)
  /-- The grammar has no table. -/
  | table (error : TableError)
  /-- A text is not a rule. -/
  | rule (error : RuleError)
deriving DecidableEq

/-- The wording of a build error. -/
def BuildError.message : BuildError → String
  | .grammar error => error.message
  | .table error => error.message
  | .rule error => error.message

/-- A parser in the making. -/
structure Builder (V C : Type) where
  grammar : Grammar (Reduction V C)
  lexer : Lexer
  /-- The number of precedence levels declared so far. -/
  level : Nat := 0
  handler : Option (Handler C) := none
  start : Option String := none

/-- The answer to a declaration and the builder it leaves behind. -/
abbrev Built (V C : Type) := Except BuildError Unit × Builder V C

/-- Gives several terminals one precedence, up to the first that is refused. -/
def Grammar.setPrecedences {α : Type} (g : Grammar α) (assoc : Assoc) (level : Nat) :
    List Symbol → Declared α Unit
  | [] => (.ok (), g)
  | s :: rest =>
      match g.setPrecedence s assoc level with
      | (.error e, g) => (.error e, g)
      | (.ok _, g) => g.setPrecedences assoc level rest

namespace Builder

/-- A builder for a lexer. -/
def ofLexer (lexer : Lexer) : Except BuildError (Builder V C) :=
  match Grammar.ofTokens lexer.tokenNames with
  | .error e => .error (.grammar e)
  | .ok grammar => .ok { grammar, lexer }

/-- Takes over what a declaration did to the grammar. -/
def declare {β : Type} (b : Builder V C) (d : Declared (Reduction V C) β) : Built V C :=
  let b := { b with grammar := d.2 }
  match d.1 with
  | .error e => (.error (.grammar e), b)
  | .ok _ => (.ok (), b)

/-- Declares a precedence level that binds tighter than all before it. -/
def precedence (b : Builder V C) (assoc : Assoc) (terminals : List Symbol) : Built V C :=
  let b := { b with level := b.level + 1 }
  b.declare (b.grammar.setPrecedences assoc b.level terminals)

/-- Adds a single production. -/
def production (b : Builder V C) (name : String) (symbols : List Symbol) (tag : Option Symbol)
    (action : Reduction V C) : Built V C :=
  b.declare (b.grammar.addProduction name symbols tag (some action))

/-- The parser of a method. -/
def build (b : Builder V C) (method : Method) : Except BuildError (Parser V C) :=
  match b.grammar.setStart b.start with
  | (.error e, _) => .error (.grammar e)
  | (.ok _, grammar) =>
      match grammar.buildTable method with
      | (.error e, _) => .error (.table e)
      | (.ok table, grammar) =>
          .ok { grammar, table, handler := b.handler, lexer := b.lexer }

end Builder

end ShiftReduce
