import ShiftReduce.Engine.Step

/-!
# Runs of the engine

A run repeats steps until one of them ends it. The number of steps is bounded by the caller, because
there are grammars on which the engine goes on forever.
-/

namespace ShiftReduce

variable {V C : Type}

/-- How a run ended. -/
inductive Outcome (V : Type) where
  /-- The input was parsed, possibly to a value. -/
  | accepted (value : Option V)
  /-- The input could not be parsed. -/
  | failed
  /-- The source gave an error. -/
  | illegal (error : LexError)
  /-- The allowed number of steps was not enough. -/
  | unfinished

namespace Engine

/-- Takes steps until one of them ends the run, at most the given number. -/
def run (m : Machine V C) : Nat → Config V C → Outcome V × Config V C
  | 0, c => (.unfinished, c)
  | fuel + 1, c =>
      let turn := step m c
      match turn.status with
      | .running => run m fuel turn.config
      | .accepted value => (.accepted value, turn.config)
      | .failed => (.failed, turn.config)
      | .illegal e => (.illegal e, turn.config)

/-- The records of a run, latest first, on top of earlier ones. -/
def recordsFrom (m : Machine V C) : Nat → List Record → Config V C → List Record
  | 0, earlier, _ => earlier
  | fuel + 1, earlier, c =>
      let turn := step m c
      let records := turn.records.reverse ++ earlier
      match turn.status with
      | .running => recordsFrom m fuel records turn.config
      | _ => records

/-- The records of a run in order. -/
def records (m : Machine V C) (fuel : Nat) (c : Config V C) : List Record :=
  (recordsFrom m fuel [] c).reverse

end Engine

end ShiftReduce
