import ShiftReduce.Pattern.Basic

/-!
# Patterns as text

The written form of patterns: characters stand for themselves, `.` for any character but a line
feed, brackets for classes, parentheses for grouping, `|` for choice, and `*`, `+`, `?` and counts
in braces for repetition, with a further `?` making it prefer fewer rounds. A text is first cut into
pieces and then put together with a stack of open groups. Texts that are not patterns, such as an
unclosed group or a repetition of nothing, are refused.
-/

namespace ShiftReduce.Pattern

/-- A piece of a written pattern. -/
inductive Piece where
  | atom (pattern : Pattern)
  | opening
  | closing
  | bar
  | times (least : Nat) (most : Option Nat) (greedy : Bool)

/-- What an escaped letter stands for, apart from classes and anchors. -/
def controlChar? : Char → Option Char
  | 'n' => some '\n'
  | 't' => some '\t'
  | 'r' => some '\r'
  | 'f' => some '\x0c'
  | 'v' => some '\x0b'
  | 'a' => some '\x07'
  | _ => none

/-- The class that an escaped letter names. -/
def namedClass? : Char → Option ClassPart
  | 'd' => some (.digit true)
  | 'D' => some (.digit false)
  | 'w' => some (.word true)
  | 'W' => some (.word false)
  | 's' => some (.blank true)
  | 'S' => some (.blank false)
  | _ => none

/-- The anchor that an escaped letter names. -/
def namedAnchor? : Char → Option Anchor
  | 'A' => some .textStart
  | 'z' => some .textEnd
  | 'b' => some .wordEdge
  | 'B' => some .wordInside
  | _ => none

/-- Whether a character stands for itself after a backslash: plain punctuation only. -/
def isEscapable (c : Char) : Bool :=
  c.toNat < 128 && !c.isAlphanum && c != '<' && c != '>'

/-- The character that a backslash and the given character stand for. -/
def escapedChar? (c : Char) : Option Char :=
  match controlChar? c with
  | some control => some control
  | none => if isEscapable c then some c else none

/-- The pattern that a backslash and the given character stand for. -/
def escaped? (c : Char) : Option Pattern :=
  match namedClass? c, namedAnchor? c with
  | some part, _ => some (.one ⟨false, [part]⟩)
  | _, some condition => some (.anchor condition)
  | none, none => (escapedChar? c).map fun c => .one (.single c)

/-! ## Classes -/

/-- One entry of a class: a character or a named class. -/
def classEntry? : List Char → Option (ClassPart × List Char)
  | [] => none
  | '\\' :: c :: rest =>
      match namedClass? c with
      | some part => some (part, rest)
      | none => (escapedChar? c).map fun c => (.span c c, rest)
  | ['\\'] => none
  | c :: rest => some (.span c c, rest)

/-- The span between two entries, which have to be characters in ascending order. -/
def spanBetween? : ClassPart → ClassPart → Option ClassPart
  | .span first first', .span last last' =>
      if first = first' ∧ last = last' ∧ first.toNat ≤ last.toNat then some (.span first last)
      else none
  | _, _ => none

/-- Whether two characters that begin a text are an operator on classes. -/
def startsClassOperator : List Char → Bool
  | '&' :: '&' :: _ => true
  | '-' :: '-' :: _ => true
  | '~' :: '~' :: _ => true
  | _ => false

/-- The entries of a class up to its closing bracket. -/
def classEntries? : Nat → List Char → Option (List ClassPart × List Char)
  | 0, _ => none
  | _ + 1, [] => none
  | _ + 1, ']' :: rest => some ([], rest)
  | _ + 1, '[' :: _ => none
  | fuel + 1, text =>
      if startsClassOperator text then none
      else
        match classEntry? text with
        | none => none
        | some (part, rest) =>
            match rest with
            | '-' :: c :: rest' =>
                if c = ']' ∨ c = '-' then
                  (classEntries? fuel rest).map fun r => (part :: r.1, r.2)
                else
                  match classEntry? (c :: rest') with
                  | none => none
                  | some (last, rest) =>
                      match spanBetween? part last with
                      | none => none
                      | some span => (classEntries? fuel rest).map fun r => (span :: r.1, r.2)
            | rest => (classEntries? fuel rest).map fun r => (part :: r.1, r.2)

/-- The characters that stand for themselves at the beginning of a class although they have a
meaning further on: hyphens and, if there are none, a closing bracket. -/
def classOpening : List Char → List ClassPart × List Char
  | ']' :: rest => ([.span ']' ']'], rest)
  | text =>
      let hyphens := text.takeWhile (· == '-')
      (hyphens.map fun c => .span c c, text.dropWhile (· == '-'))

/-- A class whose opening bracket has been read. -/
def class? (text : List Char) : Option (CharClass × List Char) :=
  let (negated, text) :=
    match text with
    | '^' :: rest => (true, rest)
    | _ => (false, text)
  let (opening, text) := classOpening text
  (classEntries? (text.length + 1) text).map fun r => (⟨negated, opening ++ r.1⟩, r.2)

/-! ## Repetition -/

/-- A number in decimal digits. -/
def number? (text : List Char) : Option (Nat × List Char) :=
  match text.takeWhile Char.isDigit with
  | [] => none
  | digits =>
      some (digits.foldl (fun n c => 10 * n + (c.toNat - '0'.toNat)) 0, text.dropWhile Char.isDigit)

/-- The counts of a repetition whose opening brace has been read. -/
def counts? (text : List Char) : Option ((Nat × Option Nat) × List Char) :=
  match number? text with
  | none => none
  | some (least, '\x7d' :: rest) => some ((least, some least), rest)
  | some (least, ',' :: '\x7d' :: rest) => some ((least, none), rest)
  | some (least, ',' :: rest) =>
      match number? rest with
      | some (most, '\x7d' :: rest) =>
          if least ≤ most then some ((least, some most), rest) else none
      | _ => none
  | some _ => none

/-- A repetition together with the mark that makes it prefer fewer rounds. -/
def repetition (least : Nat) (most : Option Nat) : List Char → Piece × List Char
  | '?' :: rest => (.times least most false, rest)
  | rest => (.times least most true, rest)

/-! ## Pieces -/

/-- The first piece of a text that is not empty. -/
def piece? (c : Char) (rest : List Char) : Option (Piece × List Char) :=
  match c with
  | '\\' =>
      match rest with
      | [] => none
      | c :: rest => (escaped? c).map fun p => (.atom p, rest)
  | '(' =>
      match rest with
      | '?' :: ':' :: rest => some (.opening, rest)
      | '?' :: _ => none
      | _ => some (.opening, rest)
  | ')' => some (.closing, rest)
  | '|' => some (.bar, rest)
  | '[' => (class? rest).map fun r => (.atom (.one r.1), r.2)
  | '.' => some (.atom (.one ⟨true, [.span '\n' '\n']⟩), rest)
  | '^' => some (.atom (.anchor .textStart), rest)
  | '$' => some (.atom (.anchor .textEnd), rest)
  | '*' => some (repetition 0 none rest)
  | '+' => some (repetition 1 none rest)
  | '?' => some (repetition 0 (some 1) rest)
  | '\x7b' => (counts? rest).map fun r => repetition r.1.1 r.1.2 r.2
  | c => some (.atom (.one (.single c)), rest)

/-- All pieces of a text. -/
def pieces? : Nat → List Char → Option (List Piece)
  | _, [] => some []
  | 0, _ => none
  | fuel + 1, c :: rest =>
      match piece? c rest with
      | none => none
      | some (piece, rest) => (pieces? fuel rest).map (piece :: ·)

/-! ## Putting the pieces together -/

/-- A group that is still open: the branches before the current one, and the patterns of the current
branch, last ones first. -/
structure Group where
  branches : List Pattern := []
  sequence : List Pattern := []

/-- The patterns of a branch in sequence. -/
def Group.branch (g : Group) : Pattern :=
  match g.sequence with
  | [] => .empty
  | last :: others => others.foldl (fun later earlier => .seq earlier later) last

/-- The branches of a group in order of preference. -/
def Group.close (g : Group) : Pattern :=
  g.branches.foldl (fun later earlier => .alt earlier later) g.branch

/-- Puts pieces together inside the current group; the stack holds the groups around it. -/
def assemble? (stack : List Group) (group : Group) : List Piece → Option Pattern
  | [] => if stack.isEmpty then some group.close else none
  | .atom p :: rest => assemble? stack { group with sequence := p :: group.sequence } rest
  | .bar :: rest => assemble? stack ⟨group.branch :: group.branches, []⟩ rest
  | .opening :: rest => assemble? (group :: stack) {} rest
  | .closing :: rest =>
      match stack with
      | [] => none
      | outer :: stack =>
          assemble? stack { outer with sequence := group.close :: outer.sequence } rest
  | .times least most greedy :: rest =>
      match group.sequence with
      | [] => none
      | body :: before =>
          assemble? stack { group with sequence := .times body least most greedy :: before } rest

/-- The pattern that a text describes. -/
def ofText? (text : String) : Option Pattern :=
  let text := text.toList
  (pieces? text.length text).bind (assemble? [] {})

example : ofText? "(" = none ∧ ofText? "a)" = none ∧ ofText? "*" = none ∧ ofText? "[z-a]" = none ∧
    ofText? "a\x7b2,1\x7d" = none ∧ ofText? "\\" = none := by decide +kernel

example : (ofText? "a|ab").bind (·.find? "ab".toList) = some ['a'] ∧
    (ofText? "a+?").bind (·.find? "aa".toList) = some ['a'] ∧
    (ofText? "[^b-d]\x7b2,3\x7d").bind (·.find? "baefg".toList) = some ['a', 'e', 'f'] := by
  decide +kernel

end ShiftReduce.Pattern
