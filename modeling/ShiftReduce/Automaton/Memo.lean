import ShiftReduce.Automaton.Basic

/-!
# Asking an automaton many questions

A memo lasts from one question to the next. It counts the closures and notes for every production in
which of them it was added last, so that a closure adds none twice; and it remembers what was
reached, twice over: by the items in ascending order with the symbol, and by the items whose dot was
moved. An answer from the memo lists the same items as a fresh one, possibly in another order: the
order is that of the question that was asked first.

Closures are counted in 32 bits, and a closure that would not fit in is not answered.
-/

namespace ShiftReduce.Automaton

variable {α : Type}

/-- What is kept from one question to the next. -/
structure Memo where
  /-- The number of closures so far. -/
  generation : UInt32
  /-- For every production the closure in which it was added last. -/
  added : List UInt32
  /-- What was reached from which items, in ascending order, by which symbol. -/
  reached : Registry (List Nat × Symbol) (List Nat) := {}
  /-- The closures of items whose dot was moved. -/
  closures : Registry (List Nat) (List Nat) := {}

/-- A question to an automaton. -/
inductive Query where
  | closure (items : List Nat)
  | goto (items : List Nat) (symbol : Symbol)

/-- The items that a question is about. -/
def Query.items : Query → List Nat
  | .closure items => items
  | .goto items _ => items

/-! ## Closures -/

/-- Notes that productions are added in a closure. The answer lists those for which this was not
noted before. -/
def note (generation : UInt32) : List UInt32 → List Nat → List UInt32 × List Nat
  | added, [] => (added, [])
  | added, p :: rest =>
      if added[p]? = some generation then note generation added rest
      else
        let (added, new) := note generation (added.set p generation) rest
        (added, p :: new)

/-- Closes the pending items, in the order in which they wait. A production is added unless it was
in this closure. -/
def closeNoted (g : Grammar α) (generation : UInt32) :
    Nat → List UInt32 → List Nat → List UInt32 × List Nat
  | 0, added, pending => (added, pending)
  | _ + 1, added, [] => (added, [])
  | fuel + 1, added, id :: pending =>
      let (added, new) := note generation added (g.productionsAfter id)
      let (added, rest) :=
        closeNoted g generation fuel added (pending ++ new.filterMap g.firstItemOf?)
      (added, id :: rest)

namespace Memo

/-- The memo before the first question. -/
def new (g : Grammar α) : Memo where
  generation := 0
  added := g.productions.map fun _ => 0

/-- The number of the next closure, if it fits in. -/
def next? (memo : Memo) : Option UInt32 :=
  if memo.generation.toNat + 1 < UInt32.size then some (memo.generation + 1) else none

/-- Closes items and counts one closure more. There is no answer when the closure cannot be counted,
or when an item that is met has no place in the arena. -/
def closure? (g : Grammar α) (memo : Memo) (items : List Nat) : Option (List Nat × Memo) :=
  match memo.next? with
  | none => none
  | some generation =>
      let (added, result) :=
        closeNoted g generation (items.length + g.productions.length) memo.added items
      if g.holdsItems result then some (result, { memo with generation, added }) else none

/-- Closes items whose dot was moved, unless this was done before. Where there are none, no closure
is counted. -/
def closeKernel? (g : Grammar α) (memo : Memo) (kernel : List Nat) : Option (List Nat × Memo) :=
  if kernel = [] then some ([], memo)
  else
    match memo.closures.get? kernel with
    | some result => some (result, memo)
    | none =>
        (memo.closure? g kernel).map fun (result, memo) =>
          (result, { memo with closures := memo.closures.register kernel result })

/-! ## Questions -/

/-- What is reached from items by a symbol. There is no answer when an item has no place in the
arena. -/
def goto? (g : Grammar α) (memo : Memo) (items : List Nat) (s : Symbol) :
    Option (List Nat × Memo) :=
  let key := (Ascending.sort items, s)
  match memo.reached.get? key with
  | some result => some (result, memo)
  | none =>
      if g.holdsItems items then
        (memo.closeKernel? g (kernel g items s)).map fun (result, memo) =>
          (result, { memo with reached := memo.reached.register key result })
      else none

/-- Answers a question and keeps what can be used again. -/
def ask (g : Grammar α) (memo : Memo) : Query → Option (List Nat × Memo)
  | .closure items => memo.closure? g items
  | .goto items s => memo.goto? g items s

/-- Reads each of the symbols in a state. -/
def leave? (g : Grammar α) (current : List Nat) :
    Memo → Found → List Symbol → Option (Memo × Found × List (Symbol × Nat))
  | memo, found, [] => some (memo, found, [])
  | memo, found, s :: rest =>
      match memo.goto? g current s with
      | none => none
      | some ([], memo) => leave? g current memo found rest
      | some (items, memo) =>
          let (found, number) := found.locate items
          (leave? g current memo found rest).map fun (memo, found, row) =>
            (memo, found, (s, number) :: row)

/-- Leaves the states one after the other, from the given number on, until none is left. -/
def explore? (g : Grammar α) :
    Nat → Nat → Memo → Found → Option (Found × List (Registry Symbol Nat))
  | 0, _, _, found => some (found, [])
  | fuel + 1, number, memo, found =>
      match found.states[number]? with
      | none => some (found, [])
      | some current =>
          match leave? g current memo found (symbolsOf g current) with
          | none => none
          | some (memo, found, row) =>
              (explore? g fuel (number + 1) memo found).map fun (found, rows) =>
                (found, ⟨row⟩ :: rows)

end Memo

/-- All states that can be reached from the first item of production 0, each found by a question to
one memo. -/
def buildStates? (g : Grammar α) : Option States :=
  match g.firstItemOf? 0 with
  | none => some {}
  | some start =>
      match (Memo.new g).closure? g [start] with
      | none => none
      | some (first, memo) =>
          (memo.explore? g (Nat.pow 2 g.items.length + 1) 0 (Found.locate {} first).1).map
            fun (found, rows) => ⟨found.states, rows⟩

end ShiftReduce.Automaton
