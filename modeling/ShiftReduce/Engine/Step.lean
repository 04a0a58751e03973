import ShiftReduce.Engine.Basic

/-!
# Steps of the engine

A step looks at one token and shifts it, reduces a production, accepts the input, or deals with an
error. It is a function of the configuration alone and tells what happened in events.

An error is reported unless recovery from an earlier one is still going on. Without an answer that
resumes parsing, the engine replaces the offending token by the error token and gives up levels of
the stacks until a state can shift it; then it discards tokens until one fits.
-/

namespace ShiftReduce

variable {V C : Type}

/-- Something that happened during a step. -/
inductive Event where
  /-- A token was looked at. -/
  | looked (state : Nat) (stack : List Symbol) (token : Token) (action : Option Action)
  | shifted (token : Token)
  | reduced (production : Nat)
  /-- A reduction complained. -/
  | faulted (production : Nat) (text : String)
  /-- There is no state to go to after a reduction. -/
  | missingGoto (state : Nat) (name : String)
  /-- The error handler was asked. -/
  | consulted (token : Option Token) (answer : Recovery)
  /-- The handler wants to go on at the end of input without a new token. -/
  | resumedAtEnd
  /-- An error was reported for want of a handler. -/
  | reported (token : Option Token)
  /-- An error came too soon after another to be reported. -/
  | suppressed (token : Token)
  | discarded (token : Token)
deriving DecidableEq

/-- How a run stands after a step. -/
inductive Status (V : Type) where
  | running
  /-- The input was accepted, possibly with a value. -/
  | accepted (value : Option V)
  /-- The input could not be parsed. -/
  | failed
  /-- The source gave an error instead of a token. -/
  | illegal (error : LexError)

/-- The result of a step. -/
structure Turn (V C : Type) where
  status : Status V
  config : Config V C
  events : List Event := []

namespace Engine

/-- The error token that takes the place of another. -/
def errorToken (text : String) (token : Token) : Token :=
  ⟨.error, text, token.pos, token.line⟩

/-- Shifts a token. -/
def shift (c : Config V C) (token : Token) (next : Nat) : Turn V C :=
  { status := .running
    config := { c with errorCount := c.errorCount - 1 }.push next token.kind (.token token)
    events := [.shifted token] }

/-- Goes on after a reduction that left a value. The stacks are without the right side. -/
def goOn (m : Machine V C) (c : Config V C) (p : Production (Reduction V C)) (value : Slot V)
    (token : Token) : Turn V C :=
  match m.table.gotoOn c.state p.name with
  | none => { status := .failed, config := c, events := [.missingGoto c.state p.name] }
  | some next =>
      { status := .running
        config := { c with lookahead := some token }.push next (.nonterminal p.name) value
        events := [.reduced p.index] }

/-- Slots after values were taken out of some of them. -/
def vacate (taken : List Nat) (slots : List (Slot V)) : List (Slot V) :=
  slots.mapIdx fun i slot => if i ∈ taken then slot.vacated else slot

/-- The stacks after a complaint about a right side of some length, which was taken off the symbols
and the values: its last symbol is given up and the others are put back, or what is on top is given
up if the right side is empty. -/
def giveUp (c : Config V C) (n : Nat) (symbols : List Symbol) (values : List (Slot V)) :
    Config V C :=
  if 0 < n then
    { c with
      states := c.states.tail
      symbols := (symbols.take (n - 1)).reverse ++ c.symbols
      values := (values.take (n - 1)).reverse ++ c.values }
  else if 1 < c.states.length then c.pop
  else c

/-- Deals with a complaint: the token is put back and the error token is looked at next. -/
def fault (c : Config V C) (p : Production (Reduction V C)) (token : Token) : Turn V C :=
  { status := .running
    config :=
      { c with
        lookahead := some (errorToken errorName token)
        pushback := token :: c.pushback
        errorCount := recoveryShifts
        errorOk := false }
    events := [.faulted p.index p.text] }

/-- Reduces a production. The states of the right side are only taken off once its action has not
complained. -/
def reduce (m : Machine V C) (c : Config V C) (p : Production (Reduction V C)) (token : Token) :
    Turn V C :=
  let below := c.cut p.length
  match p.action with
  | none => goOn m (below.truncate p.length) p .empty token
  | some action =>
      let (result, after) := action.run.run ⟨c.context, c.rightSide p.length⟩
      let below := below.acted after
      match result with
      | .ok value => goOn m (below.truncate p.length) p (.value value) token
      | .error _ =>
          fault
            (giveUp below p.length (c.rightSymbols p.length)
              (vacate after.rhs.taken (c.rightSide p.length).slots))
            p token

/-- What to do with an error that no answer resumed. The token is out of the configuration. -/
def unwind (c : Config V C) (token : Token) : Turn V C :=
  if c.states.length ≤ 1 ∧ token.kind.isEnd = false then
    { status := .running, config := { c with pushback := [] }, events := [.discarded token] }
  else if token.kind.isEnd then { status := .failed, config := c }
  else if token.kind.isError then
    { status := .running, config := { c with lookahead := some token }.pop }
  else if c.symbols.head?.any Symbol.isError then
    { status := .running, config := c, events := [.discarded token] }
  else
    { status := .running
      config :=
        { c with
          lookahead := some (errorToken token.text token)
          pushback := token :: c.pushback } }

/-- Puts events before those of a turn. -/
def after (events : List Event) (turn : Turn V C) : Turn V C :=
  { turn with events := events ++ turn.events }

/-- The token that is reported for an error: none at the end of input. -/
def reportable (token : Token) : Option Token :=
  if token.kind.isEnd then none else some token

/-- Whether an answer would go on at the end of input without a new token. -/
def resumesAtEnd (token : Option Token) (answer : Option Token) : Bool :=
  token.isNone && (answer.map fun t => t.kind.isEnd).getD true

/-- Acts on the answer of a handler. -/
def answered (c : Config V C) (token : Token) : Recovery → Turn V C
  | .resume answer =>
      if resumesAtEnd (reportable token) answer then
        { status := .failed, config := c, events := [.resumedAtEnd] }
      else { status := .running, config := { c with errorOk := true, lookahead := answer } }
  | .unwind => unwind c token

/-- Deals with a token that has no action. -/
def error (m : Machine V C) (c : Config V C) (token : Token) : Turn V C :=
  let report := c.errorCount == 0 || c.errorOk
  let c := { c with errorCount := recoveryShifts }
  if report then
    let c := { c with errorOk := false }
    match m.handler with
    | some handler =>
        let (answer, context) := handler c.context (reportable token)
        after [.consulted (reportable token) answer] (answered { c with context } token answer)
    | none =>
        after [.reported (reportable token)]
          (match reportable token with
          | none => { status := .failed, config := c }
          | some _ => unwind c token)
  else after [.suppressed token] (unwind c token)

/-- Acts on the action for a token. -/
def act (m : Machine V C) (c : Config V C) (token : Token) : Option Action → Turn V C
  | some (.shift next) => shift c token next
  | some (.reduce production) =>
      match m.grammar.production? production with
      | some p => reduce m c p token
      | none => { status := .failed, config := c }
  | some .accept =>
      { status := .accepted (c.values.head?.bind Slot.value?)
        config := { c with values := c.values.tail } }
  | none => error m c token

/-- One step of a run. -/
def step (m : Machine V C) (c : Config V C) : Turn V C :=
  match c.fetch with
  | (.error e, c) => { status := .illegal e, config := c }
  | (.ok token, c) =>
      let action := m.table.actionOn c.state token.kind
      after [.looked c.state c.stackSymbols token action] (act m c token action)

end Engine

/-! ## Records -/

/-- The record of an event, if it leaves one. -/
def Event.record? : Event → Option Record
  | .looked state stack token action =>
      let action :=
        match action with
        | some action => "Some(" ++ action.listing ++ ")"
        | none => "None"
      some ⟨.trace, "state " ++ state.repr ++ " stack [" ++
        " ".intercalate (stack.map Symbol.text) ++ "] lookahead " ++ token.show ++ " action " ++
        action⟩
  | .faulted _ text => some ⟨.debug, "reduction of " ++ text ++ " signaled a syntax error"⟩
  | .missingGoto state name => some ⟨.warn, "no goto from state " ++ state.repr ++ " on " ++ name⟩
  | .resumedAtEnd => some ⟨.debug, "error handler resumed at end of input"⟩
  | .reported (some token) => some ⟨.warn, "syntax error at " ++ token.show⟩
  | .reported none => some ⟨.warn, "syntax error at end of input"⟩
  | .discarded token => some ⟨.debug, "discarding " ++ token.show⟩
  | _ => none

/-- The records of a turn. -/
def Turn.records (turn : Turn V C) : List Record :=
  turn.events.filterMap Event.record?

end ShiftReduce
