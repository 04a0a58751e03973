import ShiftReduce.Registry

/-!
# Unions along the edges of a graph

Every node of a graph starts with a set of numbers and collects the sets of all nodes that can be
reached from it. One walk in depth suffices: nodes on a common cycle wait on a stack until the
first of them is left, and then share its set. The walk keeps the nodes it is exploring on a stack
of its own, each with the next of its edges, and takes over the set of a successor when it meets one
that was seen or comes back from one that was not.
-/

namespace ShiftReduce.Digraph

/-- How far the walk has come with a node. -/
inductive Mark where
  /-- Not reached yet. -/
  | unseen
  /-- Waiting on the stack; the number is the least depth that was met from it. -/
  | waiting (depth : Nat)
  /-- Its set is final. -/
  | settled
deriving DecidableEq

/-- The smaller of two depths; a settled node does not count. -/
def Mark.meet : Mark → Mark → Mark
  | .waiting a, .waiting b => .waiting (min a b)
  | mark, _ => mark

/-- The sets and marks of all nodes, and the nodes that wait, last one first. -/
structure Walk where
  sets : List (List Nat)
  marks : List Mark
  stack : List Nat := []

namespace Walk

/-- The mark of a node. -/
def mark (w : Walk) (x : Nat) : Mark :=
  w.marks[x]?.getD .settled

/-- The set of a node. -/
def set (w : Walk) (x : Nat) : List Nat :=
  w.sets[x]?.getD []

/-- Enters a node. -/
def enter (w : Walk) (x : Nat) : Walk :=
  { w with marks := w.marks.set x (.waiting (w.stack.length + 1)), stack := x :: w.stack }

/-- Takes over the set and the depth of a successor. -/
def absorb (w : Walk) (x y : Nat) : Walk :=
  { w with
    sets := if x = y then w.sets else w.sets.set x (Ascending.union (w.set x) (w.set y))
    marks := w.marks.set x ((w.mark x).meet (w.mark y)) }

/-- Settles the waiting nodes down to and including `x`, all with the set of `x`. -/
def settle (w : Walk) (x : Nat) : List Nat → Walk
  | [] => { w with stack := [] }
  | y :: rest =>
      if y = x then { w with marks := w.marks.set x .settled, stack := rest }
      else settle { w with sets := w.sets.set y (w.set x), marks := w.marks.set y .settled } x rest

/-- Leaves a node that was entered at the given depth. If nothing above it was met from it, the
nodes that wait since then lie on cycles through it. -/
def leave (w : Walk) (x depth : Nat) : Walk :=
  if w.mark x = .waiting depth then w.settle x w.stack else w

end Walk

/-- A node that is being explored. -/
structure Frame where
  node : Nat
  /-- The depth at which the node was entered. -/
  depth : Nat
  /-- How many of its edges have been followed. -/
  edge : Nat

/-- A walk on its way, with the nodes being explored, the innermost first. -/
structure Search where
  walk : Walk
  frames : List Frame

namespace Search

/-- Enters a node and begins to explore it. -/
def enter (w : Walk) (x : Nat) (frames : List Frame) : Search :=
  ⟨w.enter x, ⟨x, w.stack.length + 1, 0⟩ :: frames⟩

/-- Goes back from a node to the one from which it was entered. -/
def back (w : Walk) (x : Nat) : List Frame → Search
  | [] => ⟨w, []⟩
  | parent :: rest => ⟨w.absorb parent.node x, parent :: rest⟩

/-- One round: follows the next edge of the innermost node, or leaves the node if there is none. -/
def step (relation : List (List Nat)) (s : Search) : Search :=
  match s.frames with
  | [] => s
  | ⟨x, depth, edge⟩ :: rest =>
      match (relation[x]?.getD [])[edge]? with
      | some y =>
          let frames := ⟨x, depth, edge + 1⟩ :: rest
          if s.walk.mark y = .unseen then enter s.walk y frames
          else ⟨s.walk.absorb x y, frames⟩
      | none => back (s.walk.leave x depth) x rest

/-- Rounds until no node is being explored, at most the given number of them. There is no answer if
they are not enough. -/
def run (relation : List (List Nat)) : Nat → Search → Option Walk
  | 0, s => if s.frames.isEmpty then some s.walk else none
  | fuel + 1, s => if s.frames.isEmpty then some s.walk else run relation fuel (s.step relation)

end Search

/-- Explores a node and all that is reached from it, unless it was seen. -/
def explore (relation : List (List Nat)) (fuel : Nat) (w : Walk) (x : Nat) : Option Walk :=
  if w.mark x = .unseen then (Search.enter w x []).run relation fuel else some w

/-- The walk before any node was seen. -/
def Walk.start (initial : List (List Nat)) : Walk :=
  { sets := initial, marks := initial.map fun _ => .unseen }

/-- The union, for each node, of the initial sets of all nodes reachable from it. The number of
rounds for each node is bounded. -/
def closeWithin (relation initial : List (List Nat)) (fuel : Nat) : Option (List (List Nat)) :=
  ((List.range initial.length).foldlM (explore relation fuel) (.start initial)).map Walk.sets

/-- A number of rounds that suffices: one for each edge and one for each node. -/
def roundsFor (relation initial : List (List Nat)) : Nat :=
  ((List.range initial.length).map fun x => (relation[x]?.getD []).length + 1).foldr (· + ·) 0

/-- The union, for each node, of the initial sets of all nodes reachable from it. -/
def closeSets (relation initial : List (List Nat)) : List (List Nat) :=
  (closeWithin relation initial (roundsFor relation initial)).getD []

example : closeSets [[1], [0, 2], []] [[0], [1], [2]] = [[0, 1, 2], [0, 1, 2], [2]] := by decide

end ShiftReduce.Digraph
