/-!
# Spans of code points

A class of characters is written as an ascending list of spans. Looking a character up walks the
list and stops at the first span that starts beyond it, so the plain letters and digits, which
stand first, are found at once.
-/

namespace ShiftReduce.Text

/-- A span of code points; both ends belong to it. -/
abbrev Span := Nat × Nat

/-- Whether a code point lies in one of the spans of an ascending list. -/
def within : List Span → Nat → Bool
  | [], _ => false
  | (first, last) :: rest, n =>
      if n < first then false else if n ≤ last then true else within rest n

/-- Whether a code point is the first, third, fifth … of one of the spans of an ascending list. -/
def alternating : List Span → Nat → Bool
  | [], _ => false
  | (first, last) :: rest, n =>
      if n < first then false
      else if n ≤ last then (n - first) % 2 == 0
      else alternating rest n

end ShiftReduce.Text
