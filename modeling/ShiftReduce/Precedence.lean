/-!
# Operator precedence

A precedence is a level and an associativity. Higher levels bind tighter; level zero is the level of
everything that no declaration speaks of.
-/

namespace ShiftReduce

/-- How operators of one level group. -/
inductive Assoc where
  | left
  | right
  /-- They do not group at all. -/
  | none
deriving DecidableEq

/-- The word of an associativity in declarations. -/
def Assoc.text : Assoc → String
  | .left => "left"
  | .right => "right"
  | .none => "nonassoc"

/-- The associativity that a word declares. -/
def Assoc.ofText? : String → Option Assoc
  | "left" => some .left
  | "right" => some .right
  | "nonassoc" => some .none
  | "noassoc" => some .none
  | _ => Option.none

/-- The name of an associativity in a detailed listing. -/
def Assoc.label : Assoc → String
  | .left => "LeftAssoc"
  | .right => "RightAssoc"
  | .none => "NonAssoc"

/-- A declared precedence. The default is the precedence of symbols without a declaration. -/
structure Precedence where
  assoc : Assoc := .right
  level : Nat := 0
deriving DecidableEq

/-- The associativity and the level of a precedence in one word. -/
def Precedence.text (p : Precedence) : String :=
  p.assoc.text ++ ":" ++ p.level.repr

/-- A precedence in a detailed listing. -/
def Precedence.listing (p : Precedence) : String :=
  "Precedence \x7b assoc: " ++ p.assoc.label ++ ", level: " ++ p.level.repr ++ " \x7d"

/-- What becomes of a shift and a reduction that compete. -/
inductive Choice where
  | shift
  | reduce
  /-- Neither: the input is in error. -/
  | neither
deriving DecidableEq

/-- Chooses between shifting a terminal and reducing a production. The higher level wins; on equal
levels the production's associativity decides. -/
def Precedence.resolve (shift reduce : Precedence) : Choice :=
  if reduce.level < shift.level then .shift
  else if shift.level < reduce.level then .reduce
  else
    match reduce.assoc with
    | .left => .reduce
    | .right => .shift
    | .none => .neither

/-- Reading back the word of an associativity gives the associativity. -/
@[simp] theorem Assoc.ofText?_text (a : Assoc) : Assoc.ofText? a.text = some a := by
  cases a <;> rfl

end ShiftReduce
