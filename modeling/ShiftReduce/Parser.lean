import ShiftReduce.Engine.Run
import ShiftReduce.Lexer.Basic
import ShiftReduce.Table.Report

/-!
# Parsers

A parser is a machine together with the lexer that feeds it. It can parse any number of inputs; the
user's context is handed from one to the next.
-/

namespace ShiftReduce

variable {V C : Type}

/-- A machine and its lexer. -/
structure Parser (V C : Type) extends Machine V C where
  lexer : Lexer

namespace Parser

/-- Parses tokens in at most the given number of steps. -/
def parseTokens (parser : Parser V C) (fuel : Nat) (source : List (Except LexError Token))
    (context : C) : Outcome V × Config V C :=
  Engine.run parser.toMachine fuel { source, context }

/-- Parses a text. The lexer and the engine may each take the given number of steps. -/
def parse (parser : Parser V C) (fuel : Nat) (text : String) (context : C) :
    Outcome V × Config V C :=
  parser.parseTokens fuel (parser.lexer.tokens fuel text) context

/-- The records of parsing tokens. -/
def tokenRecords (parser : Parser V C) (fuel : Nat) (source : List (Except LexError Token))
    (context : C) : List Record :=
  Engine.records parser.toMachine fuel { source, context }

/-- The records of parsing a text. -/
def textRecords (parser : Parser V C) (fuel : Nat) (text : String) (context : C) : List Record :=
  parser.tokenRecords fuel (parser.lexer.tokens fuel text) context

/-- The report of a parser's grammar and table. -/
def report (parser : Parser V C) : String :=
  ShiftReduce.report parser.grammar parser.table

/-- A parser in a detailed listing. -/
def listing (parser : Parser V C) : String :=
  "CompiledParser \x7b productions: " ++ parser.grammar.productions.length.repr ++ ", states: " ++
    parser.table.states.length.repr ++ ", method: " ++ parser.table.method.label ++ " \x7d"

/-- The records of building a parser. -/
def buildRecords (parser : Parser V C) : List Record :=
  parser.table.records parser.grammar ++
    [⟨.info, "built " ++ parser.table.method.label ++ " parser: " ++
      parser.grammar.productions.length.repr ++ " productions, " ++
      parser.table.states.length.repr ++ " states"⟩]

end Parser

end ShiftReduce
