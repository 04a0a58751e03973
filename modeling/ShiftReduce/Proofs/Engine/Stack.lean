import ShiftReduce.Proofs.Engine.Linked

/-!
# The stacks of a run

Seen bottom first, the three stacks of a configuration are the states, the symbols and the slots,
with state 0 and the end of input at the bottom. `Lockstep` is what holds of them at every moment of
a run, whatever the tokens, the reductions and the error handler are. So a reduction always finds
its right side, and there is always a goto after it. Only when the input is accepted, which ends the
run, is a value taken without its state and its symbol. Read `proper_run` first.
-/

namespace ShiftReduce

variable {V C : Type} {s : States} {m : Machine V C} {method : Method} {c : Config V C}
  {stack : List (Frame V)} {frame : Frame V} {symbol : Symbol} {slot : Slot V} {i n q : Nat}

namespace Config

/-- The states of a configuration, bottom first. -/
def stateStack (c : Config V C) : List Nat :=
  c.states.reverse

/-- The symbols of a configuration, bottom first. -/
def symbolStack (c : Config V C) : List Symbol :=
  c.symbols.reverse

/-- The slots of a configuration, bottom first. -/
def slotStack (c : Config V C) : List (Slot V) :=
  c.values.reverse

/-- The three stacks go together: they are equally high, the states follow the transitions of the
automaton on the symbols, and exactly the slots of terminals hold a token of that kind. -/
structure Lockstep (s : States) (c : Config V C) : Prop where
  nonempty : 1 ≤ c.stateStack.length
  symbols_length : c.symbolStack.length = c.stateStack.length
  slots_length : c.slotStack.length = c.stateStack.length
  state_zero : c.stateStack[0]? = some 0
  symbol_zero : c.symbolStack[0]? = some .endOfInput
  transition : ∀ {i q : Nat} {symbol : Symbol}, c.stateStack[i]? = some q →
    c.symbolStack[i + 1]? = some symbol → s.goto? q symbol = c.stateStack[i + 1]?
  slot : ∀ {i : Nat} {symbol : Symbol} {slot : Slot V}, c.symbolStack[i + 1]? = some symbol →
    c.slotStack[i + 1]? = some slot →
      ((∃ token, slot = .token token ∧ token.kind = symbol) ↔ symbol.isTerminal = true)

end Config

/-- A fitting level holds a token of the kind of its symbol if that is a terminal, and only then. -/
theorem Frame.Fitting.exists_token_iff (h : frame.Fitting) :
    (∃ token, frame.slot = .token token ∧ token.kind = frame.symbol) ↔
      frame.symbol.isTerminal = true := by
  unfold Frame.Fitting at h
  constructor
  · rintro ⟨token, hslot, _⟩
    rw [hslot] at h
    by_contra hnot
    rw [if_neg hnot] at h
    cases h
  · intro hterminal
    rw [if_pos hterminal, Option.map_eq_some_iff] at h
    obtain ⟨token, hslot, hkind⟩ := h
    refine ⟨token, ?_, hkind⟩
    cases hframe : frame.slot with
    | token other =>
        rw [hframe] at hslot
        exact congrArg Slot.token (Option.some.inj hslot)
    | value value =>
        rw [hframe] at hslot
        cases hslot
    | empty =>
        rw [hframe] at hslot
        cases hslot

/-- The state of the topmost level is the last of the states. -/
theorem getElem?_states (stack : List (Frame V)) :
    (0 :: stack.reverse.map Frame.state)[stack.length]? = some (topState stack) := by
  cases stack with
  | nil => rfl
  | cons frame rest => simp [topState]

/-- On a linked stack the states follow the transitions on the symbols. -/
theorem Linked.transition (h : Linked s stack)
    (hstate : (0 :: stack.reverse.map Frame.state)[i]? = some q)
    (hsymbol : (symbolsOf stack)[i]? = some symbol) :
    s.goto? q symbol = (stack.reverse.map Frame.state)[i]? := by
  induction h with
  | nil => cases hsymbol
  | @cons frame rest hrest hgoto _ ih =>
      have hlt : i < rest.length + 1 := by
        have := (List.getElem?_eq_some_iff.mp hsymbol).1
        rwa [symbolsOf_length] at this
      rw [List.reverse_cons, List.map_append] at hstate ⊢
      rw [← List.cons_append, List.getElem?_append_left (by simpa using hlt)] at hstate
      rw [symbolsOf_cons] at hsymbol
      -- the transition into the top frame, or one that the stack below has
      by_cases htop : i = rest.length
      · subst htop
        rw [getElem?_states, Option.some.injEq] at hstate
        rw [List.getElem?_append_right (by rw [symbolsOf_length]), symbolsOf_length,
          Nat.sub_self] at hsymbol
        cases hsymbol
        rw [← hstate, hgoto]
        simp
      · have hbelow : i < rest.length := by omega
        rw [List.getElem?_append_left (by rwa [symbolsOf_length])] at hsymbol
        rw [List.getElem?_append_left (by simpa using hbelow)]
        exact ih hstate hsymbol

namespace Config.Stacked

theorem stateStack_eq (h : c.Stacked stack) :
    c.stateStack = 0 :: stack.reverse.map Frame.state := by
  simp [stateStack, h.states]

theorem symbolStack_eq (h : c.Stacked stack) : c.symbolStack = .endOfInput :: symbolsOf stack := by
  simp [symbolStack, h.symbols, symbolsOf]

theorem slotStack_eq (h : c.Stacked stack) :
    c.slotStack = .empty :: stack.reverse.map Frame.slot := by
  simp [slotStack, h.values]

/-- Stacks of linked levels go together. -/
theorem lockstep (h : c.Stacked stack) (hlinked : Linked s stack) : c.Lockstep s where
  nonempty := by
    rw [h.stateStack_eq]
    exact Nat.succ_le_succ (Nat.zero_le _)
  symbols_length := by rw [h.symbolStack_eq, h.stateStack_eq]; simp [symbolsOf]
  slots_length := by rw [h.slotStack_eq, h.stateStack_eq]; simp
  state_zero := by rw [h.stateStack_eq]; rfl
  symbol_zero := by rw [h.symbolStack_eq]; rfl
  transition := by
    rw [h.stateStack_eq, h.symbolStack_eq]
    exact hlinked.transition
  slot := by
    rw [h.symbolStack_eq, h.slotStack_eq]
    intro i symbol slot hsymbol hslot
    have hsymbol' : (stack.reverse.map Frame.symbol)[i]? = some symbol := hsymbol
    have hslot' : (stack.reverse.map Frame.slot)[i]? = some slot := hslot
    rw [List.getElem?_map, Option.map_eq_some_iff] at hsymbol' hslot'
    obtain ⟨frame, hframe, rfl⟩ := hsymbol'
    obtain ⟨_, hsame, rfl⟩ := hslot'
    cases hframe.symm.trans hsame
    have hmem := List.mem_reverse.mp (List.mem_of_getElem? hframe)
    exact (hlinked.fitting frame hmem).exists_token_iff

/-- The right side on top of linked levels has the tokens of its terminals in place. -/
theorem rightSide_token? {symbols : List Symbol} {k : Nat} (h : c.Stacked stack)
    (hlinked : Linked s stack) (hle : n ≤ stack.length)
    (htop : symbolsOf (stack.take n) = symbols) (hsymbol : symbols[k]? = some symbol)
    (hterminal : symbol.isTerminal = true) :
    ((c.rightSide n).token? k).map Token.kind = some symbol := by
  subst htop
  rw [symbolsOf, List.getElem?_map, Option.map_eq_some_iff] at hsymbol
  obtain ⟨frame, hframe, rfl⟩ := hsymbol
  have hmem := List.mem_of_mem_take (List.mem_reverse.mp (List.mem_of_getElem? hframe))
  have hfit : frame.slot.token?.map Token.kind = _ := hlinked.fitting frame hmem
  rw [if_pos hterminal] at hfit
  rw [← hfit, h.rightSide_eq hle]
  simp only [Rhs.token?, Rhs.get?, List.getElem?_map, hframe]
  rfl

end Config.Stacked

namespace Engine

/-- Dealing with an error never misses a goto. -/
theorem missingGoto_not_mem_error (token : Token) (state : Nat) (name : String) :
    .missingGoto state name ∉ (error m c token).events := by
  have hunwind : ∀ c : Config V C, .missingGoto state name ∉ (unwind c token).events := by
    intro c
    unfold unwind
    repeat' split
    all_goals simp
  have hanswered : ∀ (c : Config V C) (answer : Recovery),
      .missingGoto state name ∉ (answered c token answer).events := by
    intro c answer
    unfold answered
    split
    · split <;> simp
    · exact hunwind c
  unfold error
  dsimp only
  split
  · split
    · simp [after, hanswered]
    · split <;> simp [after, hunwind]
  · simp [after, hunwind]

/-- Where there is a goto below the right side, a reduction does not miss it. -/
theorem missingGoto_not_mem_reduce {p : Production (Reduction V C)} {token : Token} {next : Nat}
    (hstack : c.Stacked stack) (hle : p.length ≤ stack.length)
    (hgoto : m.table.gotoOn (topState (stack.drop p.length)) p.name = some next) (state : Nat)
    (name : String) : .missingGoto state name ∉ (reduce m c p token).events := by
  obtain ⟨_, ⟨_, _, _, hevents⟩ | ⟨_, _, _, hevents⟩⟩ := reduce_cases hstack hle hgoto token
  · simp [hevents]
  · simp [hevents]

/-- On linked levels no step misses a goto. -/
theorem missingGoto_not_mem_step (hbuilt : m.Built method) (hstack : c.Stacked stack)
    (hlinked : Linked (Automaton.states m.grammar) stack) (state : Nat) (name : String) :
    .missingGoto state name ∉ (step m c).events := by
  rcases hfetch : c.fetch with ⟨e | token, fetched⟩
  · rw [step_of_fetch_error m hfetch]
    exact List.not_mem_nil
  · have hfetched := hstack.fetch hfetch
    rw [step_of_fetch hfetch, hfetched.state_eq]
    simp only [after, List.mem_append, List.mem_singleton, reduceCtorEq, false_or]
    cases haction : m.table.actionOn (topState stack) token.kind with
    | none => exact missingGoto_not_mem_error token state name
    | some action =>
        cases action with
        | shift next => simp [act, shift]
        | accept => simp [act]
        | reduce i =>
            obtain ⟨p, next, hp, hle, _, hgoto⟩ :=
              exists_production?_of_reduce hbuilt hlinked haction
            simp only [act, hp]
            exact missingGoto_not_mem_reduce hfetched hle hgoto state name

/-! ## Moments of a run -/

/-- What holds at every moment of a run: the stacks go together, a reduction finds its right side
and a goto below it, and the input is accepted with the start symbol alone. -/
structure Proper (m : Machine V C) (c : Config V C) : Prop where
  lockstep : c.Lockstep (Automaton.states m.grammar)
  /-- A production to be reduced has its right side on top of the symbols and leaves the bottoms of
  the stacks where they are. Its action gets a slot for each symbol and the tokens of the terminals
  in their places, and the state that is left has a goto. -/
  reduce : ∀ {token : Token} {fetched : Config V C} {i : Nat}, c.fetch = (.ok token, fetched) →
    m.table.actionOn fetched.state token.kind = some (.reduce i) →
      ∃ p next, m.grammar.production? i = some p ∧ p.length < fetched.states.length ∧
        p.length < fetched.values.length ∧ fetched.rightSymbols p.length = p.symbols ∧
        (fetched.rightSide p.length).length = p.length ∧
        (∀ k symbol, p.symbols[k]? = some symbol → symbol.isTerminal = true →
          ((fetched.rightSide p.length).token? k).map Token.kind = some symbol) ∧
        m.table.gotoOn (fetched.truncate p.length).state p.name = some next
  /-- No reduction fails for want of a goto. -/
  goto : ∀ (state : Nat) (name : String), .missingGoto state name ∉ (step m c).events
  accept : ∀ {token : Token} {fetched : Config V C}, c.fetch = (.ok token, fetched) →
    m.table.actionOn fetched.state token.kind = some .accept →
      ∃ start, m.grammar.start = some start ∧
        fetched.symbolStack = [.endOfInput, .nonterminal start]

/-- A configuration on linked levels is proper. -/
theorem proper_of_aligned (hbuilt : m.Built method)
    (haligned : c.Aligned (Automaton.states m.grammar)) : Proper m c := by
  obtain ⟨stack, hstack, hlinked⟩ := haligned
  refine ⟨hstack.lockstep hlinked, ?_, missingGoto_not_mem_step hbuilt hstack hlinked, ?_⟩
  · intro token fetched i hfetch haction
    have hfetched := hstack.fetch hfetch
    rw [hfetched.state_eq] at haction
    obtain ⟨p, next, hp, hle, htop, hgoto⟩ :=
      exists_production?_of_reduce hbuilt hlinked haction
    refine ⟨p, next, hp, ?_, ?_, ?_, ?_, ?_, ?_⟩
    · rw [hfetched.length_states]
      exact Nat.lt_succ_of_le hle
    · rw [hfetched.length_values]
      exact Nat.lt_succ_of_le hle
    · rw [hfetched.rightSymbols_eq hle, htop]
    · rw [hfetched.rightSide_eq hle, Rhs.length, List.length_map, List.length_reverse,
        List.length_take_of_le hle]
    · exact fun k symbol => hfetched.rightSide_token? hlinked hle htop
    · rw [← hgoto, ← (hfetched.cut hle).state_eq]
      rfl
  · intro token fetched hfetch haction
    have hfetched := hstack.fetch hfetch
    rw [hfetched.state_eq] at haction
    obtain ⟨_, frame, start, rfl, hstart, hsymbol⟩ := stack_of_accept hbuilt hlinked haction
    refine ⟨start, hstart, ?_⟩
    rw [hfetched.symbolStack_eq, ← hsymbol]
    rfl

/-- Every moment of every run of a machine with a built table is proper, until the input is
accepted; then the value of the start symbol was taken, and its state and its symbol are left. -/
theorem proper_run (hbuilt : m.Built method) (source : List (Except LexError Token)) (context : C)
    (fuel : Nat) :
    ((∀ value, (run m fuel { source, context }).1 ≠ .accepted value) →
        Proper m (run m fuel { source, context }).2) ∧
      ∀ value, (run m fuel { source, context }).1 = .accepted value →
        Closed m (run m fuel { source, context }).2 := by
  rcases aligned_run hbuilt fuel (.start _ source context) with
    ⟨hnever, haligned⟩ | ⟨value, haccepted, hclosed⟩
  · exact ⟨fun _ => proper_of_aligned hbuilt haligned,
      fun value haccepted => absurd haccepted (hnever value)⟩
  · exact ⟨fun hnever => absurd haccepted (hnever value), fun _ _ => hclosed⟩

/-- A moment of a run on parentheses, one of which is missing, and the end of one on parentheses
that match. -/
theorem proper_run_nesting :
    (Machine.nesting .lalr).Built .lalr ∧
      (run (Machine.nesting .lalr) 5
        { source := ['(', '(', ')'].map fun c => .ok (Machine.parenthesis c)
          context := 0 }).2.stackSymbols =
        [.literal '(', .nonterminal "items", .literal '(', .nonterminal "items", .literal ')'] ∧
      Proper (Machine.nesting .lalr)
        (run (Machine.nesting .lalr) 5
          { source := ['(', '(', ')'].map fun c => .ok (Machine.parenthesis c)
            context := 0 }).2 ∧
      Closed (Machine.nesting .lalr)
        (run (Machine.nesting .lalr) 12
          { source := ['(', ')'].map fun c => .ok (Machine.parenthesis c), context := 0 }).2 :=
  ⟨Machine.built_nesting .lalr, by decide +kernel,
    (proper_run (Machine.built_nesting .lalr) _ 0 5).1 nofun,
    (proper_run (Machine.built_nesting .lalr) _ 0 12).2 _ rfl⟩

end Engine

end ShiftReduce
