import ShiftReduce.Proofs.Engine.Linked

/-!
# Steps without errors

Of a configuration outside error recovery only the stacks, the context and the tokens still to be
read matter; `At` gives them. On them the steps without errors are the moves of a shift-reduce
parser: `At.shift`, `At.reduce` and `At.accept` say what each does. The events of a run tell whether
there was an error and which productions were reduced.
-/

namespace ShiftReduce

variable {V C : Type} {m : Machine V C} {method : Method} {c c' : Config V C}
  {stack : List (Frame V)} {context : C} {rest : List Token} {token : Token} {i n : Nat}

/-- Whether an event shows an error: a token without an action. -/
def Event.isError : Event → Bool
  | .looked _ _ _ none => true
  | _ => false

/-- The production that was reduced, if one was. -/
def Event.reduction? : Event → Option Nat
  | .reduced i => some i
  | _ => none

/-- A machine whose reductions never complain. -/
def Machine.Unfaulting (m : Machine V C) : Prop :=
  ∀ (i : Nat) (p : Production (Reduction V C)) (action : Reduction V C),
    m.grammar.production? i = some p → p.action = some action →
      ∀ reducing, ∃ value after, action.run.run reducing = (.ok value, after)

/-- A production whose action, if it has one, does not complain about some slots. -/
def Production.Succeeds (p : Production (Reduction V C)) (slots : List (Slot V)) (context : C) :
    Prop :=
  ∀ action, p.action = some action →
    ∃ value after, action.run.run ⟨context, { slots }⟩ = (.ok value, after)

/-- A machine whose reductions never complain does not complain about any slots. -/
theorem Machine.Unfaulting.succeeds (h : m.Unfaulting) {p : Production (Reduction V C)}
    (hp : m.grammar.production? i = some p) (slots : List (Slot V)) (context : C) :
    p.Succeeds slots context :=
  fun action haction => h i p action hp haction _

/-- What a production makes of the slots of its right side, and the context afterwards. -/
def Production.reduced (p : Production (Reduction V C)) (slots : List (Slot V)) (context : C) :
    Slot V × C :=
  match p.action with
  | none => (.empty, context)
  | some action =>
      match action.run.run ⟨context, { slots }⟩ with
      | (.ok value, after) => (.value value, after.context)
      | (.error _, after) => (.empty, after.context)

/-- No production leaves a token. -/
theorem Production.reduced_token? (p : Production (Reduction V C)) (slots : List (Slot V))
    (context : C) : (p.reduced slots context).1.token? = none := by
  unfold Production.reduced
  split
  · rfl
  · split <;> rfl

/-- The kind of the next of some tokens, which are followed by the end of input. -/
def ahead : List Token → Symbol
  | [] => .endOfInput
  | token :: _ => token.kind

namespace Engine

/-- A configuration outside error recovery: its levels, its context and the tokens still to be read.
One of them, or the end of input, may have been looked at already. -/
structure At (c : Config V C) (stack : List (Frame V)) (context : C) (rest : List Token) :
    Prop where
  stack : c.Stacked stack
  context : c.context = context
  pushback : c.pushback = []
  plain : ∀ token ∈ rest, token.kind ≠ .endOfInput
  source : c.lookahead = none ∧ c.source = rest.map .ok ∨
    ∃ token, c.lookahead = some token ∧
      (token.kind = .endOfInput ∧ rest = [] ∧ c.source = [] ∨
        ∃ later, rest = token :: later ∧ c.source = later.map .ok)

/-- A run starts without levels and with all tokens to be read. -/
theorem at_start (hplain : ∀ token ∈ rest, token.kind ≠ .endOfInput) :
    At ({ source := rest.map .ok, context } : Config V C) [] context rest where
  stack := .start _ context
  context := rfl
  pushback := rfl
  plain := hplain
  source := Or.inl ⟨rfl, rfl⟩

/-- Fetching gives the next token and leaves the others, without touching the stacks. -/
theorem At.fetch (h : At c stack context rest) :
    ∃ token fetched, c.fetch = (.ok token, fetched) ∧ token.kind = ahead rest ∧
      At { fetched with lookahead := some token } stack context rest ∧
      ∀ first later, rest = first :: later → token = first ∧ At fetched stack context later := by
  obtain ⟨hstack, hcontext, hpushback, hplain, hsource⟩ := h
  rcases hsource with ⟨hnone, hsource⟩ | ⟨token, hsome, hsource⟩
  · -- Nothing was looked at yet: the token comes from the source, or the source is at its end.
    cases rest with
    | nil =>
        refine ⟨⟨.endOfInput, "", c.endPos, c.endLine⟩, c, ?_, rfl, ?_, ?_⟩
        · simp only [Config.fetch, Config.nextToken, hnone, hpushback, hsource, List.map_nil]
        · exact ⟨hstack.looking _, hcontext, hpushback, hplain,
            Or.inr ⟨_, rfl, Or.inl ⟨rfl, rfl, hsource⟩⟩⟩
        · intro first later hsame
          cases hsame
    | cons token later =>
        refine ⟨token,
          { c with source := later.map .ok, endPos := token.past, endLine := token.line },
          ?_, rfl, ?_, ?_⟩
        · simp only [Config.fetch, Config.nextToken, hnone, hpushback, hsource, List.map_cons]
        · exact ⟨hstack.congr ⟨rfl, rfl, rfl⟩, hcontext, hpushback, hplain,
            Or.inr ⟨token, rfl, Or.inr ⟨later, rfl, rfl⟩⟩⟩
        · intro first later' hsame
          cases hsame
          exact ⟨rfl, hstack.congr ⟨rfl, rfl, rfl⟩, hcontext, hpushback,
            (List.forall_mem_cons.mp hplain).2, Or.inl ⟨hnone, rfl⟩⟩
  · -- The token was looked at before and is still to be read, unless it is the end of input.
    have hfetch : c.fetch = (.ok token, { c with lookahead := none }) := by
      rw [Config.fetch, hsome]
    have hfetched := hstack.fetch hfetch
    refine ⟨token, { c with lookahead := none }, hfetch, ?_, ?_, ?_⟩
    · rcases hsource with ⟨hkind, rfl, _⟩ | ⟨later, rfl, _⟩
      · exact hkind
      · rfl
    · exact ⟨hfetched.looking _, hcontext, hpushback, hplain, Or.inr ⟨token, rfl, hsource⟩⟩
    · intro first later hsame
      rcases hsource with ⟨_, rfl, _⟩ | ⟨later', rfl, hlater⟩
      · cases hsame
      · cases hsame
        exact ⟨rfl, hfetched, hcontext, hpushback, (List.forall_mem_cons.mp hplain).2,
          Or.inl ⟨rfl, hlater⟩⟩

/-- A step without an error that leaves the run going, and the productions it reduces. -/
structure Quiet (m : Machine V C) (c : Config V C) (reductions : List Nat) : Prop where
  running : (step m c).status = .running
  errorless : ∀ event ∈ (step m c).events, event.isError = false
  reductions : (step m c).events.filterMap Event.reduction? = reductions

/-- A shift puts the next token on the stacks. -/
theorem At.shift (h : At c stack context (token :: rest))
    (haction : m.table.actionOn (topState stack) token.kind = some (.shift n)) :
    Quiet m c [] ∧
      At (step m c).config (⟨n, token.kind, .token token⟩ :: stack) context rest := by
  obtain ⟨looked, fetched, hfetch, _, _, hnext⟩ := h.fetch
  obtain ⟨rfl, hstack, hcontext, hpushback, hplain, hsource⟩ := hnext _ _ rfl
  have hstep := step_of_fetch (m := m) hfetch
  rw [hstack.state_eq, haction] at hstep
  refine ⟨⟨?_, ?_, ?_⟩, ?_⟩
  · rw [hstep]
    rfl
  · rw [hstep]
    simp [after, act, Engine.shift, Event.isError]
  · rw [hstep]
    rfl
  · rw [hstep]
    exact ⟨hstack.shift looked n, hcontext, hpushback, hplain, hsource⟩

/-- A production whose action does not complain is replaced by its left side. -/
theorem reduce_eq (token : Token) {p : Production (Reduction V C)} {next : Nat}
    (hstack : c.Stacked stack) (hle : p.length ≤ stack.length)
    (hsucceeds : p.Succeeds ((stack.take p.length).reverse.map Frame.slot) c.context)
    (hgoto : m.table.gotoOn (topState (stack.drop p.length)) p.name = some next)
    {slot : Slot V} {context' : C}
    (hreduced : p.reduced ((stack.take p.length).reverse.map Frame.slot) c.context =
      (slot, context')) :
    ∃ c', c'.Stacked (⟨next, .nonterminal p.name, slot⟩ :: stack.drop p.length) ∧
      c'.context = context' ∧ c'.pushback = c.pushback ∧ c'.source = c.source ∧
      c'.lookahead = some token ∧ c'.errorCount = c.errorCount ∧
      reduce m c p token =
        { status := .running, config := c', events := [.reduced p.index] } := by
  have hbelow := hstack.cut hle
  have hslots := hstack.rightSide_eq hle
  cases haction : p.action with
  | none =>
      rw [reduce_of_none haction, goOn_of_gotoOn hbelow hgoto]
      simp only [Production.reduced, haction, Prod.mk.injEq] at hreduced
      obtain ⟨rfl, rfl⟩ := hreduced
      exact ⟨_, (hbelow.looking token).push _ _ _, rfl, rfl, rfl, rfl, rfl, rfl⟩
  | some action =>
      obtain ⟨value, after, hrun⟩ := hsucceeds action haction
      simp only [Production.reduced, haction, hrun, Prod.mk.injEq] at hreduced
      obtain ⟨rfl, rfl⟩ := hreduced
      rw [← hslots] at hrun
      have hacted : (((c.cut p.length).acted after).truncate p.length).Stacked _ :=
        hbelow.acted after
      rw [reduce_of_ok haction hrun, goOn_of_gotoOn hacted hgoto]
      exact ⟨_, (hacted.looking token).push _ _ _, rfl, rfl, rfl, rfl, rfl, rfl⟩

/-- A reduction replaces the right side on top of the stacks by the left side, with the slot that
the production makes of it. -/
theorem At.reduce (h : At c stack context rest)
    (haction : m.table.actionOn (topState stack) (ahead rest) = some (.reduce i))
    {p : Production (Reduction V C)} {next : Nat} (hp : m.grammar.production? i = some p)
    (hindex : p.index = i) (hle : p.length ≤ stack.length)
    (hsucceeds : p.Succeeds ((stack.take p.length).reverse.map Frame.slot) context)
    (hgoto : m.table.gotoOn (topState (stack.drop p.length)) p.name = some next)
    {slot : Slot V} {context' : C}
    (hreduced : p.reduced ((stack.take p.length).reverse.map Frame.slot) context =
      (slot, context')) :
    Quiet m c [i] ∧
      At (step m c).config (⟨next, .nonterminal p.name, slot⟩ :: stack.drop p.length) context'
        rest := by
  obtain ⟨looked, fetched, hfetch, hkind, hat, _⟩ := h.fetch
  obtain rfl : fetched.context = context := hat.context
  have hstack := h.stack.fetch hfetch
  have hstep := step_of_fetch (m := m) hfetch
  rw [hstack.state_eq, hkind, haction] at hstep
  obtain ⟨c', hstack', hcontext, hpushback, hsource, hlookahead, _, hreduce⟩ :=
    reduce_eq looked hstack hle hsucceeds hgoto hreduced
  have hact : act m fetched looked (some (.reduce i)) = Engine.reduce m fetched p looked := by
    simp only [act, hp]
  rw [hact, hreduce] at hstep
  refine ⟨⟨?_, ?_, ?_⟩, ?_⟩
  · rw [hstep]
    rfl
  · rw [hstep]
    simp [after, Event.isError]
  · rw [hstep, hindex]
    rfl
  · rw [hstep]
    refine ⟨hstack', hcontext, hpushback.trans hat.pushback, hat.plain, ?_⟩
    rw [after_config, hlookahead, hsource]
    exact hat.source

/-- Accepting ends the run with the value on top of the stacks. -/
theorem At.accept (h : At c stack context rest)
    (haction : m.table.actionOn (topState stack) (ahead rest) = some .accept) :
    (step m c).status = .accepted ((stack.head?.map Frame.slot).bind Slot.value?) ∧
      (step m c).config.context = context ∧
      (∀ event ∈ (step m c).events, event.isError = false) ∧
      (step m c).events.filterMap Event.reduction? = [] := by
  obtain ⟨looked, fetched, hfetch, hkind, hat, _⟩ := h.fetch
  have hstack := h.stack.fetch hfetch
  have hstep := step_of_fetch (m := m) hfetch
  rw [hstack.state_eq, hkind, haction] at hstep
  rw [hstep]
  refine ⟨?_, hat.context, ?_, rfl⟩
  · rw [after_status, act, hstack.values]
    cases stack <;> rfl
  · simp [after, act, Event.isError]

/-! ## The events of a run -/

/-- The events of a run in order. -/
def events (m : Machine V C) : Nat → Config V C → List Event
  | 0, _ => []
  | fuel + 1, c =>
      let turn := step m c
      match turn.status with
      | .running => turn.events ++ events m fuel turn.config
      | _ => turn.events

/-- A step that leaves the run going comes before the rest of the run. -/
theorem run_succ (hrunning : (step m c).status = .running) (fuel : Nat) :
    run m (fuel + 1) c = run m fuel (step m c).config ∧
      events m (fuel + 1) c = (step m c).events ++ events m fuel (step m c).config := by
  constructor
  · rw [run]
    simp only [hrunning]
  · rw [events]
    simp only [hrunning]

/-- A step that accepts the input ends the run. -/
theorem run_succ_of_accepted {value : Option V} (haccepted : (step m c).status = .accepted value)
    (fuel : Nat) :
    run m (fuel + 1) c = (.accepted value, (step m c).config) ∧
      events m (fuel + 1) c = (step m c).events := by
  constructor
  · rw [run]
    simp only [haccepted]
  · rw [events]
    simp only [haccepted]

end Engine

/-- The only action of the machine of nested parentheses is to count. -/
theorem Machine.action_nesting (method : Method) {p : Production (Reduction Nat Nat)}
    {action : Reduction Nat Nat} (hp : (nesting method).grammar.production? i = some p)
    (haction : p.action = some action) : action = tally := by
  have hactions : (Grammar.parentheses (some tally)).prepare.2.productions.map Production.action =
      [none, some tally, some tally, some tally] := rfl
  have hmem : some action ∈ [none, some tally, some tally, some tally] := by
    rw [← hactions, ← haction]
    exact List.mem_map_of_mem (List.mem_of_getElem? hp)
  simpa using hmem

/-- Counting never complains. -/
theorem Machine.unfaulting_nesting (method : Method) : (nesting method).Unfaulting := by
  intro i p action hp haction reducing
  obtain rfl := action_nesting method hp haction
  exact ⟨_, _, rfl⟩

end ShiftReduce
