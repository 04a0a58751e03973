import ShiftReduce.RuleText.Parse

/-!
# Adding rules as text

A rule is added alternative by alternative, all with the same reduction.
-/

namespace ShiftReduce.Builder

variable {V C : Type}

/-- Adds every alternative of a rule given as text. Without a reduction the rule leaves no
value. -/
def rule (b : Builder V C) (text : String) (action : Option (Reduction V C)) : Built V C :=
  match RuleText.parse text with
  | .error e => (.error (.rule e), b)
  | .ok decl => b.declare (b.grammar.addAlternatives decl.name action decl.rightSides)

/-- The records of adding a rule to a builder, given the builder afterwards. -/
def ruleRecords (b after : Builder V C) (text : String) : List Record :=
  RuleText.records text ++ after.grammar.addedRecords b.grammar.productions.length

end ShiftReduce.Builder
