/-!
# Records of what happened

Every stage can tell what it did in records: a level of importance and a line of text. Records are
computed from the results of a stage, so that keeping them costs nothing when nobody asks.
-/

namespace ShiftReduce

/-- How important a record is, most important first. -/
inductive Level where
  | warn
  | info
  | debug
  | trace
deriving DecidableEq

/-- The place of a level, counted from the most important one. -/
def Level.rank : Level → Nat
  | .warn => 0
  | .info => 1
  | .debug => 2
  | .trace => 3

/-- The name of a level. -/
def Level.text : Level → String
  | .warn => "WARN"
  | .info => "INFO"
  | .debug => "DEBUG"
  | .trace => "TRACE"

/-- A line of text and its importance. -/
structure Record where
  level : Level
  text : String
deriving DecidableEq

/-- A record with its level in front. -/
def Record.line (r : Record) : String :=
  r.level.text ++ " " ++ r.text

/-- The records that are at least as important as the given level. -/
def Record.upTo (least : Level) (records : List Record) : List Record :=
  records.filter fun r => r.level.rank ≤ least.rank

end ShiftReduce
