import ShiftReduce.Text.Word

/-!
# Patterns

A pattern describes texts: single characters by classes, places by anchors, and larger patterns by
sequence, choice and repetition. Matching starts at a place of a text and yields all places where it
can end, the preferred one first: a choice prefers its first branch, and a repetition prefers more
rounds if it is greedy and fewer if it is not. No place is listed twice, because what can happen
after it does not depend on how it was reached.
-/

namespace ShiftReduce

/-- A part of a class of characters. The flag of the named classes tells whether the part holds the
characters of the class or all others. -/
inductive ClassPart where
  | span (first last : Char)
  | digit (inside : Bool)
  | word (inside : Bool)
  | blank (inside : Bool)
deriving DecidableEq

/-- A class of characters: those of its parts or, if negated, all others. -/
structure CharClass where
  negated : Bool
  parts : List ClassPart
deriving DecidableEq

/-- A condition on a place. -/
inductive Anchor where
  | textStart
  | textEnd
  | wordEdge
  | wordInside
deriving DecidableEq

/-- A pattern. -/
inductive Pattern where
  | empty
  | one (chars : CharClass)
  | anchor (condition : Anchor)
  | seq (first second : Pattern)
  | alt (first second : Pattern)
  | times (body : Pattern) (least : Nat) (most : Option Nat) (greedy : Bool)
deriving DecidableEq

/-- Whether a part of a class holds a character. -/
def ClassPart.holds (c : Char) : ClassPart → Bool
  | .span first last => first.toNat ≤ c.toNat && c.toNat ≤ last.toNat
  | .digit inside => Text.isDecimal c == inside
  | .word inside => Text.isWordChar c == inside
  | .blank inside => Text.isBlank c == inside

/-- Whether a class holds a character. -/
def CharClass.holds (cls : CharClass) (c : Char) : Bool :=
  cls.parts.any (ClassPart.holds c) != cls.negated

/-- The class of one character. -/
def CharClass.single (c : Char) : CharClass :=
  ⟨false, [.span c c]⟩

/-- A place in a text: the character before it, if there is one, and the text after it. -/
structure Place where
  before : Option Char
  rest : List Char
deriving DecidableEq

/-- How much text comes after a place; places of one text differ in it. -/
def Place.left (p : Place) : Nat :=
  p.rest.length

/-- Whether one side of a place belongs to a word and the other does not. -/
def Place.atWordEdge (p : Place) : Bool :=
  (p.before.map Text.isWordChar).getD false != (p.rest.head?.map Text.isWordChar).getD false

/-- Whether a place meets a condition. -/
def Anchor.holds (p : Place) : Anchor → Bool
  | .textStart => p.before.isNone
  | .textEnd => p.rest.isEmpty
  | .wordEdge => p.atWordEdge
  | .wordInside => !p.atWordEdge

/-! ## Matching -/

/-- A way to go on from a place: the places to which it leads, the preferred one first. -/
abbrev Matcher := Place → List Place

namespace Matcher

/-- Adds a place at the end unless it is there. -/
def emit (places : List Place) (p : Place) : List Place :=
  if places.any (fun q => q.left == p.left) then places else places ++ [p]

/-- The places of a list, each at its first appearance. -/
def distinct (places : List Place) : List Place :=
  places.foldl emit []

/-- One matcher after the other. -/
def andThen (first second : Matcher) : Matcher := fun p =>
  distinct ((first p).flatMap second)

/-- One matcher or, less preferred, the other. -/
def orElse (first second : Matcher) : Matcher := fun p =>
  distinct (first p ++ second p)

/-- Stays at the place. -/
def stay : Matcher := fun p => [p]

/-- A matcher or nothing; a greedy one prefers itself. -/
def optional (greedy : Bool) (m : Matcher) : Matcher :=
  if greedy then orElse m stay else orElse stay m

/-- Exactly so many rounds. -/
def exactly (m : Matcher) : Nat → Matcher
  | 0 => stay
  | n + 1 => andThen m (exactly m n)

/-- At most so many rounds. -/
def upTo (greedy : Bool) (m : Matcher) : Nat → Matcher
  | 0 => stay
  | n + 1 => optional greedy (andThen m (upTo greedy m n))

/-- Goes through rounds from a place, collecting where they end. A place from which a round was
begun before is not begun again, so rounds that read nothing do no harm. The answer lists the places
begun and the places found. -/
def rounds (greedy : Bool) (m : Matcher) :
    Nat → List Nat × List Place → Place → List Nat × List Place
  | 0, acc, _ => acc
  | fuel + 1, (begun, found), p =>
      (m p).foldl
        (fun acc q =>
          let goOn (acc : List Nat × List Place) : List Nat × List Place :=
            if q.left ∈ acc.1 then acc else rounds greedy m fuel acc q
          if greedy then
            let acc := goOn acc
            (acc.1, emit acc.2 q)
          else goOn (acc.1, emit acc.2 q))
        (p.left :: begun, found)

/-- One or more rounds. -/
def atLeastOnce (greedy : Bool) (m : Matcher) : Matcher := fun p =>
  (rounds greedy m (p.left + 1) ([], []) p).2

/-- The rounds of a repetition. -/
def times (m : Matcher) (least : Nat) (most : Option Nat) (greedy : Bool) : Matcher :=
  match most, least with
  | some most, least => andThen (exactly m least) (upTo greedy m (most - least))
  | none, 0 => optional greedy (atLeastOnce greedy m)
  | none, n + 1 => andThen (exactly m n) (atLeastOnce greedy m)

end Matcher

namespace Pattern

/-- The places where a match of a pattern can end. -/
def ends : Pattern → Matcher
  | .empty, p => [p]
  | .one chars, p =>
      match p.rest with
      | [] => []
      | c :: rest => if chars.holds c then [⟨some c, rest⟩] else []
  | .anchor condition, p => if condition.holds p then [p] else []
  | .seq first second, p => Matcher.andThen first.ends second.ends p
  | .alt first second, p => Matcher.orElse first.ends second.ends p
  | .times body least most greedy, p => Matcher.times body.ends least most greedy p

/-- The text of the preferred match at the earliest place of a text that has one. -/
def findFrom (pattern : Pattern) (before : Option Char) : List Char → Option (List Char)
  | [] => if (pattern.ends ⟨before, []⟩).isEmpty then none else some []
  | c :: rest =>
      match (pattern.ends ⟨before, c :: rest⟩).head? with
      | some p => some ((c :: rest).take (rest.length + 1 - p.left))
      | none => findFrom pattern (some c) rest

/-- The text of the earliest preferred match in a text. -/
def find? (pattern : Pattern) (text : List Char) : Option (List Char) :=
  pattern.findFrom none text

end Pattern

end ShiftReduce
