/-!
# Rounds until nothing changes

Sets that grow from each other are computed in rounds. Every step says whether it changed anything,
a round says whether one of its steps did, and rounds are repeated until one changes nothing. The
number of rounds is bounded by the caller, who knows how much there is to grow.
-/

namespace ShiftReduce

variable {α β : Type}

/-- Passes over a list. The answer says whether some step changed the value. -/
def sweep (step : α → β → α × Bool) (x : α) : List β → α × Bool
  | [] => (x, false)
  | b :: rest =>
      let (y, changed) := step x b
      let (z, more) := sweep step y rest
      (z, changed || more)

/-- Repeats a round until it says that it changed nothing, at most the given number of times. -/
def repeatRounds (round : α → α × Bool) : Nat → α → α
  | 0, x => x
  | fuel + 1, x =>
      let (y, changed) := round x
      if changed then repeatRounds round fuel y else y

end ShiftReduce
