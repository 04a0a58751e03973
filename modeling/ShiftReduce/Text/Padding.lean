/-!
# Padding

A text laid out in a field of a given width. Width counts characters; a text that is too long stands
unchanged unless the field also has a limit.
-/

namespace ShiftReduce.Text

/-- Where a text stands in a field wider than itself. -/
inductive Alignment where
  | left
  | right
  | center
deriving DecidableEq

/-- A field: its width, the side its text keeps to, the character that fills it, and the number of
characters it may show. -/
structure Field where
  width : Nat
  align : Alignment := .left
  fill : Char := ' '
  limit : Option Nat := none

/-- The characters that a field shows of a text. -/
def Field.shown (field : Field) (text : List Char) : List Char :=
  match field.limit with
  | none => text
  | some n => text.take n

/-- How many fill characters a field needs before and after a text of the given length. A centered
text has the smaller half before it. -/
def Field.margins (field : Field) (length : Nat) : Nat × Nat :=
  let free := field.width - length
  match field.align with
  | .left => (0, free)
  | .right => (free, 0)
  | .center => (free / 2, free - free / 2)

/-- A text laid out in a field. -/
def Field.layOut (field : Field) (text : String) : String :=
  let shown := field.shown text.toList
  let (before, after) := field.margins shown.length
  String.ofList (List.replicate before field.fill ++ shown ++ List.replicate after field.fill)

/-- A text at the left of a field of the given width. -/
def padRight (width : Nat) (text : String) : String :=
  Field.layOut { width } text

example : Field.layOut ⟨7, .center, ' ', none⟩ "ab" = "  ab   " := by decide +kernel
example : Field.layOut ⟨4, .left, '*', some 2⟩ "NUMBER" = "NU**" := by decide +kernel

end ShiftReduce.Text
