import ShiftReduce.Symbol
import ShiftReduce.Text.Quoted

/-!
# Tokens

A token is a piece of input with the symbol it stands for and the place where it was found. Places
are byte offsets of the encoded text, and lines are counted from one.
-/

namespace ShiftReduce

/-- A piece of input. -/
structure Token where
  kind : Symbol
  text : String
  /-- The byte offset of the piece. -/
  pos : Nat
  line : Nat
deriving DecidableEq

/-- A token with its text and place. -/
def Token.show (t : Token) : String :=
  t.kind.text ++ "(" ++ Text.quoted t.text ++ ") at " ++ t.line.repr ++ ":" ++ t.pos.repr

/-- The byte offset right after a token. -/
def Token.past (t : Token) : Nat :=
  t.pos + t.text.utf8ByteSize

/-- A character that belongs to no token, and its byte offset. -/
structure LexError where
  char : Char
  pos : Nat
deriving DecidableEq

/-- The wording of a lexical error. -/
def LexError.message (e : LexError) : String :=
  "illegal character " ++ Text.quotedChar e.char ++ " at index " ++ e.pos.repr

end ShiftReduce
