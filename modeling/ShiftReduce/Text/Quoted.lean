import ShiftReduce.Text.Printable

/-!
# Quoted texts and characters

A quoted text stands between double quotes and a quoted character between single ones. Inside, the
enclosing quote, the backslash, the tab, the two line ends and the null character are escaped by
name; any other character that is not printable is written as its code point.
-/

namespace ShiftReduce.Text

/-- The escape of a character that has a name of its own. -/
def namedEscape? (quote c : Char) : Option (List Char) :=
  if c = '\x00' then some ['\\', '0']
  else if c = '\t' then some ['\\', 't']
  else if c = '\r' then some ['\\', 'r']
  else if c = '\n' then some ['\\', 'n']
  else if c = '\\' then some ['\\', '\\']
  else if c = quote then some ['\\', quote]
  else none

/-- A code point in hexadecimal, in as few digits as it takes. -/
def codePoint (c : Char) : List Char :=
  '\\' :: 'u' :: '\x7b' :: (Nat.toDigits 16 c.toNat ++ ['\x7d'])

/-- A character as it stands between the given quotes. -/
def escape (quote c : Char) : List Char :=
  match namedEscape? quote c with
  | some escaped => escaped
  | none => if isPrintable c then [c] else codePoint c

/-- A text between double quotes. -/
def quoted (text : String) : String :=
  String.ofList ('"' :: (text.toList.flatMap (escape '"') ++ ['"']))

/-- A character between single quotes. -/
def quotedChar (c : Char) : String :=
  String.ofList ('\'' :: (escape '\'' c ++ ['\'']))

/-- Several quoted pieces between square brackets. -/
def bracketed (pieces : List String) : String :=
  "[" ++ ", ".intercalate pieces ++ "]"

example : quoted "a\"b'\u0301\n" = "\"a\\\"b'\\u\x7b301\x7d\\n\"" := by decide +kernel
example : quotedChar '\'' = "'\\''" := by decide +kernel

end ShiftReduce.Text
