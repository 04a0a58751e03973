import ShiftReduce.Text.Span

/-!
# White space

The characters with the property White_Space. The zero-width space and the byte order mark are not
among them.
-/

namespace ShiftReduce.Text

/-- The spans of the property White_Space. -/
def blankSpans : List Span :=
  [(0x9, 0xD), (0x20, 0x20), (0x85, 0x85), (0xA0, 0xA0), (0x1680, 0x1680), (0x2000, 0x200A),
   (0x2028, 0x2029), (0x202F, 0x202F), (0x205F, 0x205F), (0x3000, 0x3000)]

/-- Whether a character is white space. -/
def isBlank (c : Char) : Bool :=
  within blankSpans c.toNat

example : isBlank '\u0085' && isBlank '\u3000' && !isBlank '\u200b' && !isBlank '\ufeff' := by
  decide +kernel

end ShiftReduce.Text
