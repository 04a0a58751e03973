import ShiftReduce.Lexer.Token

/-!
# Rules

A rule gives a nonterminal one or more alternatives. An alternative is a sequence of symbols and
possibly a tag, the name of a symbol whose precedence it takes.
-/

namespace ShiftReduce

/-- One alternative of a rule. -/
structure Alternative where
  symbols : List Symbol := []
  /-- The name of the symbol whose precedence the alternative takes. -/
  tag : Option String := none
deriving DecidableEq

/-- A nonterminal and its alternatives. -/
structure RuleDecl where
  name : String
  alternatives : List Alternative
deriving DecidableEq

/-- The right sides of a rule with the symbols whose precedence they take. -/
def RuleDecl.rightSides (rule : RuleDecl) : List (List Symbol × Option Symbol) :=
  rule.alternatives.map fun alt => (alt.symbols, alt.tag.map Symbol.ofName)

/-- Why a text is not a rule. -/
inductive RuleError where
  /-- It holds a character that belongs to no token of rules. -/
  | lex (error : LexError)
  /-- Its tokens are not those of a rule. -/
  | invalid (text : String)
deriving DecidableEq

/-- The wording of a rule error. -/
def RuleError.message : RuleError → String
  | .lex error => error.message
  | .invalid text => "invalid rule `" ++ text ++ "`"

end ShiftReduce
