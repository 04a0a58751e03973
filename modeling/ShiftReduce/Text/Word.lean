import ShiftReduce.Text.Alphabetic
import ShiftReduce.Text.Blank
import ShiftReduce.Text.Mark
import ShiftReduce.Text.Numeric

/-!
# Words and lines

Letters and digits together, the characters of a word, and the ways a text falls apart: into
lines, into words between blanks, and into a middle with the blanks at both ends removed.
-/

namespace ShiftReduce.Text

/-- Whether a character is a letter or a number of some script. -/
def isAlphanumeric (c : Char) : Bool :=
  isAlphabetic c || isNumeric c

/-- Whether a character may stand inside a word: a letter, a mark, a decimal digit, a connector or
a joiner. -/
def isWordChar (c : Char) : Bool :=
  isAlphabetic c || isMark c || isDecimal c || isConnector c || isJoiner c

/-- The lines of a text whose current line holds the given characters, last first. A line ends at a
line feed, and a carriage return right before it belongs to the line's end; an unfinished last line
counts if it holds anything. -/
def linesAfter : List Char → List Char → List (List Char)
  | [], [] => []
  | current, [] => [current.reverse]
  | current, c :: rest =>
      if c = '\n' then
        match current with
        | '\r' :: line => line.reverse :: linesAfter [] rest
        | line => line.reverse :: linesAfter [] rest
      else linesAfter (c :: current) rest

/-- The lines of a text. -/
def lines (text : String) : List String :=
  (linesAfter [] text.toList).map String.ofList

/-- The words of a text whose current word holds the given characters, last first. -/
def wordsAfter : List Char → List Char → List (List Char)
  | [], [] => []
  | current, [] => [current.reverse]
  | [], c :: rest => if isBlank c then wordsAfter [] rest else wordsAfter [c] rest
  | current, c :: rest =>
      if isBlank c then current.reverse :: wordsAfter [] rest else wordsAfter (c :: current) rest

/-- The words of a text: its longest parts without blanks. -/
def words (text : String) : List String :=
  (wordsAfter [] text.toList).map String.ofList

/-- The characters without the blanks at the end. -/
def trimEndChars (cs : List Char) : List Char :=
  (cs.reverse.dropWhile isBlank).reverse

/-- A text without the blanks at its end. -/
def trimEnd (text : String) : String :=
  String.ofList (trimEndChars text.toList)

/-- A text without the blanks at both ends. -/
def trim (text : String) : String :=
  String.ofList (trimEndChars (text.toList.dropWhile isBlank))

example : lines "a\r\nb\n\nc\r" = ["a", "b", "", "c\r"] := by decide +kernel
example : words "  left '+'\t'-' " = ["left", "'+'", "'-'"] := by decide +kernel

end ShiftReduce.Text
