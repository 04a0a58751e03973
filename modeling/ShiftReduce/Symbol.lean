import ShiftReduce.Text.Letter
import ShiftReduce.Text.Word

/-!
# Grammar symbols

A symbol is a named terminal, a terminal of a single character, or a nonterminal. Bare names tell
which one they mean: upper-case names are tokens, a single punctuation character is a literal, and
other names are nonterminals. Two tokens are built in: the one that ends every input and the one
that stands for skipped input during error recovery.
-/

namespace ShiftReduce

/-- A symbol of a grammar. -/
inductive Symbol where
  /-- A named terminal. -/
  | token (name : String)
  /-- A terminal of one character. -/
  | literal (c : Char)
  /-- A symbol defined by productions. -/
  | nonterminal (name : String)
deriving DecidableEq

/-- The name of the terminal that ends every input. -/
def endName : String := "$end"

/-- The name of the terminal that is shifted during error recovery. -/
def errorName : String := "error"

/-- Whether a name starts like an identifier: with a letter or a low line. -/
def startsName (name : String) : Bool :=
  match name.toList with
  | [] => false
  | c :: _ => Text.isAlphabetic c || c == '_'

/-- Whether a name is written in the style of tokens: no lowercase character. -/
def isTokenName (name : String) : Bool :=
  startsName name && !name.toList.any Text.isLowercase

/-- Whether a name is written in the style of nonterminals: no uppercase character. -/
def isNonterminalName (name : String) : Bool :=
  startsName name && !name.toList.any Text.isUppercase

namespace Symbol

/-- The terminal that ends every input. -/
def endOfInput : Symbol := .token endName

/-- The terminal that stands for skipped input. -/
def error : Symbol := .token errorName

/-- Whether a symbol is a nonterminal. -/
def isNonterminal : Symbol → Bool
  | .nonterminal _ => true
  | _ => false

/-- Whether a symbol is a terminal. -/
def isTerminal (s : Symbol) : Bool :=
  !s.isNonterminal

/-- Whether a symbol ends every input. -/
def isEnd (s : Symbol) : Bool :=
  s == endOfInput

/-- Whether a symbol stands for skipped input. -/
def isError (s : Symbol) : Bool :=
  s == error

/-- The name of a nonterminal. -/
def nonterminalName? : Symbol → Option String
  | .nonterminal name => some name
  | _ => none

/-- What a bare name of more than one character, or of a letter or digit, refers to. -/
def ofLongName (name : String) : Symbol :=
  if name == errorName || name == endName || isTokenName name then .token name
  else .nonterminal name

/-- What a bare name refers to. -/
def ofName (name : String) : Symbol :=
  match name.toList with
  | [c] => if !Text.isAlphanumeric c && c != '_' then .literal c else ofLongName name
  | _ => ofLongName name

/-- The text of a symbol: its name, or its character in single quotes. -/
def text : Symbol → String
  | .token name => name
  | .literal c => String.ofList ['\'', c, '\'']
  | .nonterminal name => name

/-- The place of a symbol's kind in the order of symbols. -/
def rank : Symbol → Nat
  | .token _ => 0
  | .literal _ => 1
  | .nonterminal _ => 2

/-- The characters by which symbols of one kind are ordered. -/
def key : Symbol → List Char
  | .token name => name.toList
  | .literal c => [c]
  | .nonterminal name => name.toList

/-- Whether a symbol comes before or is level with another: tokens before literals before
nonterminals, and by code points within a kind. -/
def precedes (a b : Symbol) : Bool :=
  if a.rank = b.rank then !decide (b.key < a.key) else decide (a.rank < b.rank)

example : ofName "+" = .literal '+' ∧ ofName "UMINUS_2" = .token "UMINUS_2" ∧
    ofName "error" = error ∧ ofName "a" = .nonterminal "a" := by decide +kernel

end Symbol

end ShiftReduce
