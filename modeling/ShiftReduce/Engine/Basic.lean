import ShiftReduce.Lexer.Token
import ShiftReduce.Table.Basic

/-!
# The parts of a parsing engine

A configuration holds three stacks, the tokens still to come, and the bookkeeping of error recovery.
The stacks are kept apart: the states, the symbols read to reach them, and the slots that the
symbols left, with a token, a value, or nothing. Nothing but the steps makes them equally high.

Reductions see the slots of a right side and may take values out of them. They cannot change the
slots otherwise: the engine keeps its own copy and only asks which ones were taken.
-/

namespace ShiftReduce

/-- What a symbol on the stack holds. -/
inductive Slot (V : Type) where
  | token (token : Token)
  | value (value : V)
  | empty
deriving DecidableEq

namespace Slot

variable {V : Type}

/-- The token of a slot. -/
def token? : Slot V → Option Token
  | .token t => some t
  | _ => none

/-- The value of a slot. -/
def value? : Slot V → Option V
  | .value v => some v
  | _ => none

/-- A slot after its value was taken; a token stays. -/
def vacated : Slot V → Slot V
  | .value _ => .empty
  | slot => slot

end Slot

/-- The right side of the production being reduced. -/
structure Rhs (V : Type) where
  slots : List (Slot V)
  /-- The slots out of which something was taken. -/
  taken : List Nat := []
  /-- Whether the reduction ends error recovery. -/
  recovered : Bool := false

namespace Rhs

variable {V : Type}

/-- The number of slots. -/
def length (rhs : Rhs V) : Nat :=
  rhs.slots.length

/-- What a slot holds now. -/
def get? (rhs : Rhs V) (i : Nat) : Option (Slot V) :=
  (rhs.slots[i]?).map fun slot => if i ∈ rhs.taken then slot.vacated else slot

/-- The token of a slot. -/
def token? (rhs : Rhs V) (i : Nat) : Option Token :=
  (rhs.get? i).bind Slot.token?

/-- The text of the token of a slot. -/
def text? (rhs : Rhs V) (i : Nat) : Option String :=
  (rhs.token? i).map Token.text

end Rhs

/-- A reduction's complaint about its right side. -/
inductive SyntaxFault where
  | fault
deriving DecidableEq

/-- The wording of the complaint. -/
def SyntaxFault.message (_ : SyntaxFault) : String :=
  "syntax error signaled by a reduction"

/-- What a reduction works on: the user's context and the right side. -/
structure Reducing (V C : Type) where
  context : C
  rhs : Rhs V

/-- Computations of reductions: they give a result or complain, and may change the context and the
right side either way. -/
abbrev Reducer (V C : Type) := ExceptT SyntaxFault (StateM (Reducing V C))

/-- A reduction computes the value of a left side. -/
abbrev Reduction (V C : Type) := Reducer V C V

namespace Reduction

variable {V C : Type}

/-- Takes the value out of a slot. -/
def take? (i : Nat) : Reducer V C (Option V) := do
  let s ← get
  set { s with rhs := { s.rhs with taken := i :: s.rhs.taken } }
  return (s.rhs.get? i).bind Slot.value?

/-- Ends error recovery: the next error is reported at once. -/
def recover : Reducer V C Unit :=
  modify fun s => { s with rhs := { s.rhs with recovered := true } }

/-- Passes on the value of a slot, and complains if there is none. -/
def valueOf (i : Nat) : Reducer V C V := do
  match ← take? i with
  | some v => return v
  | none => throw .fault

end Reduction

/-- What an error handler asks the engine to do. -/
inductive Recovery where
  /-- Leave error recovery and go on with the given token, or with the next one. -/
  | resume (token : Option Token)
  /-- Discard stack and input until the error token can be shifted. -/
  | unwind
deriving DecidableEq

/-- Answers to a syntax error at a token, or at the end of input. -/
abbrev Handler (C : Type) := C → Option Token → Recovery × C

/-- What drives an engine: a grammar with its reductions, its table, and possibly an error
handler. -/
structure Machine (V C : Type) where
  grammar : Grammar (Reduction V C)
  table : Table
  handler : Option (Handler C) := none

/-- The number of tokens to shift after an error before errors are reported again. -/
def recoveryShifts : Nat := 3

/-- Splits a stack, given topmost first, at a height: what is above it, bottom first, and what is
left. -/
def splitOff {α : Type} (stack : List α) (height : Nat) : List α × List α :=
  let n := stack.length - height
  ((stack.take n).reverse, stack.drop n)

/-- A moment of a run. Its stacks are given topmost first, down to the bottom. -/
structure Config (V C : Type) where
  states : List Nat := [0]
  symbols : List Symbol := [.endOfInput]
  values : List (Slot V) := [.empty]
  lookahead : Option Token := none
  /-- Tokens to be read again, before the source. -/
  pushback : List Token := []
  /-- How many shifts are still missing before errors are reported again. -/
  errorCount : Nat := 0
  /-- Whether a reduction or a handler ended error recovery. -/
  errorOk : Bool := false
  /-- The tokens and errors still to come. -/
  source : List (Except LexError Token)
  /-- The offset at which the end of input is reported. -/
  endPos : Nat := 0
  /-- The line on which the end of input is reported. -/
  endLine : Nat := 1
  context : C

namespace Config

variable {V C : Type}

/-- The current state. -/
def state (c : Config V C) : Nat :=
  c.states.head?.getD 0

/-- The symbols above the bottom, bottom first. -/
def stackSymbols (c : Config V C) : List Symbol :=
  c.symbols.reverse.tail

/-- Puts something on each of the three stacks. -/
def push (c : Config V C) (state : Nat) (symbol : Symbol) (value : Slot V) : Config V C :=
  { c with
    states := state :: c.states
    symbols := symbol :: c.symbols
    values := value :: c.values }

/-- Takes what is on top off each of the three stacks. -/
def pop (c : Config V C) : Config V C :=
  { c with states := c.states.tail, symbols := c.symbols.tail, values := c.values.tail }

/-- The height of the values below a right side of some length. Symbols are split there too. -/
def base (c : Config V C) (n : Nat) : Nat :=
  c.values.length - n

/-- The right side of some length that the values show to an action. -/
def rightSide (c : Config V C) (n : Nat) : Rhs V :=
  { slots := (splitOff c.values (c.base n)).1 }

/-- The symbols of a right side of some length, leftmost first. -/
def rightSymbols (c : Config V C) (n : Nat) : List Symbol :=
  (splitOff c.symbols (c.base n)).1

/-- Takes a right side of some length off the symbols and the values. The states stay. -/
def cut (c : Config V C) (n : Nat) : Config V C :=
  { c with
    symbols := (splitOff c.symbols (c.base n)).2
    values := (splitOff c.values (c.base n)).2 }

/-- What an action leaves: its context, and the end of recovery if it asked for that. -/
def acted (c : Config V C) (after : Reducing V C) : Config V C :=
  { c with context := after.context, errorOk := c.errorOk || after.rhs.recovered }

/-- Takes a number of states off their stack. -/
def truncate (c : Config V C) (n : Nat) : Config V C :=
  { c with states := c.states.drop n }

/-- The next token: one that was put back, the next of the source, or the end of input. -/
def nextToken (c : Config V C) : Except LexError Token × Config V C :=
  match c.pushback with
  | token :: pushback => (.ok token, { c with pushback })
  | [] =>
      match c.source with
      | [] => (.ok ⟨.endOfInput, "", c.endPos, c.endLine⟩, c)
      | .error e :: source => (.error e, { c with source })
      | .ok token :: source =>
          (.ok token, { c with source, endPos := token.past, endLine := token.line })

/-- The token to look at, which is taken out of the configuration. -/
def fetch (c : Config V C) : Except LexError Token × Config V C :=
  match c.lookahead with
  | some token => (.ok token, { c with lookahead := none })
  | none => c.nextToken

end Config

end ShiftReduce
