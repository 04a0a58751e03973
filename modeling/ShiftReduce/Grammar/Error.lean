import ShiftReduce.Precedence

/-!
# What can be wrong with a grammar

The causes for which a declaration is refused, and their wording.
-/

namespace ShiftReduce

/-- The cause for which a declaration or a grammar as a whole is refused. -/
inductive GrammarError where
  /-- A name is not written in the style its place asks for. -/
  | invalidName (name : String)
  /-- A name is kept for the grammar's own use. -/
  | reservedName (name : String)
  /-- A production mentions a token that was never announced. -/
  | unknownToken (name : String)
  /-- A production was given before. -/
  | duplicateProduction (production : String)
  /-- A terminal already has a precedence. -/
  | duplicatePrecedence (symbol : String)
  /-- A precedence comes after the first production. -/
  | precedenceAfterProductions (symbol : String)
  /-- A word does not name an associativity. -/
  | invalidAssociativity (word : String)
  /-- A production takes the precedence of a symbol that has none. -/
  | undefinedPrecedence (symbol : String)
  /-- The start symbol has no production. -/
  | unknownStart (name : String)
  /-- A nonterminal is used and has no production. -/
  | undefinedNonterminal (name : String)
  /-- There is no production at all. -/
  | noProductions
deriving DecidableEq

/-- The wording of a cause. -/
def GrammarError.message : GrammarError → String
  | .invalidName name => "invalid name `" ++ name ++ "`"
  | .reservedName name => "`" ++ name ++ "` is a reserved name"
  | .unknownToken name => "unknown token `" ++ name ++ "`"
  | .duplicateProduction production => "duplicate production `" ++ production ++ "`"
  | .duplicatePrecedence symbol => "precedence of `" ++ symbol ++ "` is already set"
  | .precedenceAfterProductions symbol =>
      "precedence of `" ++ symbol ++ "` must be set before any production"
  | .invalidAssociativity word => "invalid associativity `" ++ word ++ "`"
  | .undefinedPrecedence symbol => "nothing known about the precedence of `" ++ symbol ++ "`"
  | .unknownStart name => "start symbol `" ++ name ++ "` is not a defined nonterminal"
  | .undefinedNonterminal name => "nonterminal `" ++ name ++ "` has no production"
  | .noProductions => "grammar has no production"

/-- The associativity that a word declares, or the cause why there is none. -/
def Assoc.read (word : String) : Except GrammarError Assoc :=
  match Assoc.ofText? word with
  | some assoc => .ok assoc
  | Option.none => .error (.invalidAssociativity word)

end ShiftReduce
