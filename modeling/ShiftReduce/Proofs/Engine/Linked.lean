import ShiftReduce.Proofs.Engine.Stacks
import ShiftReduce.Proofs.Table.Built

/-!
# Stacks that follow the automaton

`Linked` says that every level of a stack is reached from the level below by the transition on its
symbol, and that its slot goes with the symbol. Every step of an engine keeps its three stacks
together on linked levels, also in error recovery, but for the one that accepts the input. On linked
levels the right side of a production to be reduced lies on top, and the state below it has a goto.
-/

namespace ShiftReduce

variable {V C : Type} {s : States} {m : Machine V C} {method : Method} {c : Config V C}
  {stack other : List (Frame V)} {frame : Frame V} {token : Token} {symbol : Symbol} {i n : Nat}

/-- The slot of a terminal holds a token of its kind, and that of a nonterminal holds no token. -/
def Frame.Fitting (frame : Frame V) : Prop :=
  frame.slot.token?.map Token.kind = if frame.symbol.isTerminal then some frame.symbol else none

/-- A stack whose levels follow the transitions of an automaton. -/
inductive Linked (s : States) : List (Frame V) → Prop
  | nil : Linked s []
  | cons {frame : Frame V} {rest : List (Frame V)} : Linked s rest →
      s.goto? (topState rest) frame.symbol = some frame.state → frame.Fitting →
      Linked s (frame :: rest)

/-- The three stacks of a configuration are those of linked levels. -/
def Config.Aligned (s : States) (c : Config V C) : Prop :=
  ∃ stack, c.Stacked stack ∧ Linked s stack

theorem Config.Aligned.start (s : States) (source : List (Except LexError Token)) (context : C) :
    ({ source, context } : Config V C).Aligned s :=
  ⟨[], .start source context, .nil⟩

namespace Linked

theorem tail (h : Linked s stack) : Linked s stack.tail := by
  cases h with
  | nil => exact .nil
  | cons hrest _ _ => exact hrest

theorem drop (h : Linked s stack) (n : Nat) : Linked s (stack.drop n) := by
  induction n generalizing stack with
  | zero => exact h
  | succ n ih =>
      rw [← List.drop_tail]
      exact ih h.tail

/-- Reading the symbols of a stack leads to its topmost state. -/
theorem path? (h : Linked s stack) : s.path? 0 (symbolsOf stack) = some (topState stack) := by
  induction h with
  | nil => rfl
  | cons _ hgoto _ ih =>
      rw [symbolsOf_cons, States.path?_concat ih]
      exact hgoto

theorem fitting (h : Linked s stack) : ∀ frame ∈ stack, frame.Fitting := by
  induction h with
  | nil => exact fun frame hmem => absurd hmem List.not_mem_nil
  | cons _ _ hfit ih => exact List.forall_mem_cons.mpr ⟨hfit, ih⟩

end Linked

/-- Taking a value out of a slot leaves its token in place. -/
theorem Frame.Vacated.fitting {left : Frame V} (h : frame.Vacated left) (hfit : frame.Fitting) :
    left.Fitting := by
  rcases h with rfl | rfl
  · exact hfit
  · unfold Frame.Fitting at hfit ⊢
    rw [← hfit]
    cases frame.slot <;> rfl

/-- Taking values out of slots keeps a stack linked. -/
theorem Linked.of_vacated (h : Linked s stack) (hleft : List.Forall₂ Frame.Vacated stack other) :
    Linked s other := by
  induction h generalizing other with
  | nil =>
      cases hleft
      exact .nil
  | @cons frame rest _ hgoto hfit ih =>
      cases hleft with
      | @cons _ left _ leftRest hframe hrest =>
          refine .cons (ih hrest) ?_ (hframe.fitting hfit)
          have htop : topState leftRest = topState rest := by
            cases hrest with
            | nil => rfl
            | cons hbelow _ => exact hbelow.state_eq
          rw [htop, hframe.symbol_eq, hframe.state_eq]
          exact hgoto

namespace Engine

/-! ## Right sides on top of the stack -/

/-- The level of a left side is reached by the goto below it. -/
theorem linked_goto (hbuilt : m.Built method) {name : String} {next : Nat} {slot : Slot V}
    (hlinked : Linked (Automaton.states m.grammar) stack)
    (hgoto : m.table.gotoOn (topState stack) name = some next) (hslot : slot.token? = none) :
    Linked (Automaton.states m.grammar) (⟨next, .nonterminal name, slot⟩ :: stack) := by
  rw [hbuilt.gotoOn] at hgoto
  refine .cons hlinked hgoto ?_
  show slot.token?.map Token.kind = none
  rw [hslot]
  rfl

/-- A shift follows a transition on a terminal. -/
theorem linked_shift (hbuilt : m.Built method)
    (hlinked : Linked (Automaton.states m.grammar) stack)
    (haction : m.table.actionOn (topState stack) token.kind = some (.shift n)) :
    token.kind.isTerminal = true ∧
      Linked (Automaton.states m.grammar) (⟨n, token.kind, .token token⟩ :: stack) := by
  generalize hkind : token.kind = kind at haction
  cases hbuilt.proposed haction with
  | shift _ _ hterminal hgoto =>
      subst hkind
      refine ⟨hterminal, .cons hlinked hgoto ?_⟩
      show some token.kind = _
      rw [if_pos hterminal]

/-- A production to be reduced has its right side on top of the stack, and there is a goto in the
state below. -/
theorem exists_production?_of_reduce (hbuilt : m.Built method)
    (hlinked : Linked (Automaton.states m.grammar) stack)
    (haction : m.table.actionOn (topState stack) symbol = some (.reduce i)) :
    ∃ p next, m.grammar.production? i = some p ∧ p.length ≤ stack.length ∧
      symbolsOf (stack.take p.length) = p.symbols ∧
      m.table.gotoOn (topState (stack.drop p.length)) p.name = some next := by
  have hready := hbuilt.ready
  have hcollected := hbuilt.collected
  cases hbuilt.proposed haction with
  | @reduce _ _ p _ hi hp hheld _ _ =>
      -- the complete item is valid for the symbols of the stack, which end with its right side
      have hviable := Grammar.viable_of_holds hready hcollected hlinked.path? hheld
      obtain ⟨δ, hsplit, hfront⟩ := hviable.front
      rw [Grammar.seen_length hp] at hsplit
      have hlength : p.length ≤ stack.length := by
        have := congrArg List.length hsplit
        rw [symbolsOf_length, List.length_append] at this
        show p.symbols.length ≤ _
        omega
      obtain ⟨hbelow, htop⟩ : symbolsOf (stack.drop p.length) = δ ∧
          symbolsOf (stack.take p.length) = p.symbols := by
        rw [← symbolsOf_drop_append_take p.length] at hsplit
        refine List.append_inj' hsplit ?_
        rw [symbolsOf_length, List.length_take]
        exact min_eq_left hlength
      -- below the right side an item calls for the production, so its left side can be read there
      obtain ⟨j, d, name, hcaller, hname, hmem⟩ := hfront.caller hi
      obtain ⟨_, p', hp', rfl⟩ := hready.wellFormed.rules.mp hmem
      cases hp.symm.trans hp'
      have hpath := (hlinked.drop p.length).path?
      rw [hbelow] at hpath
      have hcallerHeld := (Grammar.holds_iff_viable hready hcollected hpath).mpr hcaller
      obtain ⟨next, hgoto, _⟩ := hcollected.exists_goto? hready hcallerHeld hname
      exact ⟨p, next, hp, hlength, htop, by rw [hbuilt.gotoOn, hgoto]⟩

/-- The input is accepted with the start symbol alone on the stack. -/
theorem stack_of_accept (hbuilt : m.Built method)
    (hlinked : Linked (Automaton.states m.grammar) stack)
    (haction : m.table.actionOn (topState stack) symbol = some .accept) :
    symbol = .endOfInput ∧
      ∃ frame start, stack = [frame] ∧ m.grammar.start = some start ∧
        frame.symbol = .nonterminal start := by
  have hready := hbuilt.ready
  cases hbuilt.proposed haction with
  | @accept dot hheld hnone =>
      refine ⟨rfl, ?_⟩
      obtain ⟨p, hp, _, _, hsymbols⟩ := hready.wellFormed.zero
      obtain ⟨start, hstart⟩ := hbuilt.prepared.start
      rw [hstart] at hsymbols
      have hdot := Table.eq_length_of_symbolAt hready hheld hp hnone
      have hviable := Grammar.viable_of_holds hready hbuilt.collected hlinked.path? hheld
      obtain ⟨δ, hsplit, hfront⟩ := hviable.front
      obtain rfl := hfront.nil_of_zero hready.wellFormed
      rw [hdot, Grammar.seen_length hp, hsymbols] at hsplit
      have hone := congrArg List.length hsplit
      rw [symbolsOf_length] at hone
      obtain ⟨frame, rfl⟩ := List.length_eq_one_iff.mp hone
      refine ⟨frame, start, rfl, hstart, ?_⟩
      exact List.singleton_inj.mp hsplit

/-! ## Steps -/

@[simp] theorem after_config (events : List Event) (turn : Turn V C) :
    (after events turn).config = turn.config := rfl

@[simp] theorem after_status (events : List Event) (turn : Turn V C) :
    (after events turn).status = turn.status := rfl

/-- What a step does when the token to look at is known. -/
theorem step_of_fetch {fetched : Config V C} (hfetch : c.fetch = (.ok token, fetched)) :
    step m c =
      after
        [.looked fetched.state fetched.stackSymbols token
          (m.table.actionOn fetched.state token.kind)]
        (act m fetched token (m.table.actionOn fetched.state token.kind)) := by
  rw [step, hfetch]

/-- A step on an error of the source ends the run with it. -/
theorem step_of_fetch_error (m : Machine V C) {e : LexError} {fetched : Config V C}
    (hfetch : c.fetch = (.error e, fetched)) :
    step m c = { status := .illegal e, config := fetched } := by
  rw [step, hfetch]

/-- Unwinding is neither accepting nor an error of the source. -/
theorem unwind_status (c : Config V C) (token : Token) :
    (unwind c token).status = .running ∨
      (unwind c token).status = .failed ∧ token.kind = .endOfInput := by
  unfold unwind
  split
  · exact Or.inl rfl
  · split
    · rename_i hend
      exact Or.inr ⟨rfl, eq_of_beq hend⟩
    · repeat' split
      all_goals exact Or.inl rfl

/-- Without levels a token is discarded, and what was put back is forgotten. -/
theorem unwind_of_low (hlow : c.states.length ≤ 1) (hend : token.kind.isEnd = false) :
    unwind c token =
      { status := .running
        config := { c with pushback := [] }
        events := [.discarded token] } := by
  rw [unwind, if_pos ⟨hlow, hend⟩]

/-- At the error token a level is given up. -/
theorem unwind_of_error (hhigh : 1 < c.states.length) (hkind : token.kind = .error) :
    unwind c token =
      { status := .running, config := { c with lookahead := some token }.pop } := by
  have hend : token.kind.isEnd = false := by rw [hkind]; rfl
  have herror : token.kind.isError = true := by rw [hkind]; rfl
  rw [unwind, if_neg fun hlow => Nat.not_le.mpr hhigh hlow.1, if_neg (by simp [hend]),
    if_pos herror]

/-- Another token is discarded above a level with the error token. Elsewhere it makes way for the
error token. -/
theorem unwind_of_plain (hhigh : 1 < c.states.length) (hend : token.kind.isEnd = false)
    (herror : token.kind.isError = false) :
    unwind c token =
      if c.symbols.head?.any Symbol.isError then
        { status := .running, config := c, events := [.discarded token] }
      else
        { status := .running
          config :=
            { c with
              lookahead := some (errorToken token.text token)
              pushback := token :: c.pushback } } := by
  rw [unwind, if_neg fun hlow => Nat.not_le.mpr hhigh hlow.1, if_neg (by simp [hend]),
    if_neg (by simp [herror])]

/-- An error is only given up at the end of input. -/
theorem error_status (m : Machine V C) (c : Config V C) (token : Token) :
    (error m c token).status = .running ∨
      (error m c token).status = .failed ∧ token.kind = .endOfInput := by
  have hnone : reportable token = none → token.kind = .endOfInput := by
    intro hnone
    unfold reportable at hnone
    split at hnone
    · rename_i hend
      exact eq_of_beq hend
    · cases hnone
  unfold error
  dsimp only
  split
  · split
    · rename_i handler _
      rcases handler c.context (reportable token) with ⟨_ | _, context⟩
      · simp only [after_status, answered]
        split
        · rename_i hend
          rw [resumesAtEnd, Bool.and_eq_true, Option.isNone_iff_eq_none] at hend
          exact Or.inr ⟨rfl, hnone hend.1⟩
        · exact Or.inl rfl
      · exact unwind_status _ token
    · rw [after_status]
      split
      · rename_i hend
        exact Or.inr ⟨rfl, hnone hend⟩
      · exact unwind_status _ token
  · exact unwind_status _ token

section Reductions

variable {p : Production (Reduction V C)} {action : Reduction V C} {after : Reducing V C}

/-- A production without an action leaves nothing. -/
theorem reduce_of_none (haction : p.action = none) :
    reduce m c p token = goOn m ((c.cut p.length).truncate p.length) p .empty token := by
  rw [reduce, haction]

/-- A production with an action leaves the value that the action computes from the right side. -/
theorem reduce_of_ok {value : V} (haction : p.action = some action)
    (hrun : action.run.run ⟨c.context, c.rightSide p.length⟩ = (.ok value, after)) :
    reduce m c p token =
      goOn m (((c.cut p.length).acted after).truncate p.length) p (.value value) token := by
  simp only [reduce, haction, hrun]

/-- When the action complains, the topmost level is given up. -/
theorem reduce_of_error {complaint : SyntaxFault} (haction : p.action = some action)
    (hrun : action.run.run ⟨c.context, c.rightSide p.length⟩ = (.error complaint, after)) :
    reduce m c p token =
      fault
        (giveUp ((c.cut p.length).acted after) p.length (c.rightSymbols p.length)
          (vacate after.rhs.taken (c.rightSide p.length).slots))
        p token := by
  simp only [reduce, haction, hrun]

/-- Giving up levels leaves the tokens alone. -/
theorem giveUp_tokens (c : Config V C) (n : Nat) (symbols : List Symbol)
    (values : List (Slot V)) : (giveUp c n symbols values).pushback = c.pushback ∧
      (giveUp c n symbols values).source = c.source := by
  unfold giveUp
  repeat' split
  all_goals exact ⟨rfl, rfl⟩

/-- With a goto the left side is put on the stacks, and the token is looked at again. -/
theorem goOn_of_gotoOn {slot : Slot V} {next : Nat} (hstack : c.Stacked stack)
    (hgoto : m.table.gotoOn (topState stack) p.name = some next) :
    goOn m c p slot token =
      { status := .running
        config := { c with lookahead := some token }.push next (.nonterminal p.name) slot
        events := [.reduced p.index] } := by
  rw [goOn, hstack.state_eq, hgoto]

/-- A reduction with a goto below its right side leaves the run going. It puts the left side in
place of the right side, or its action complains and the topmost level is given up. -/
theorem reduce_cases {next : Nat} (hstack : c.Stacked stack) (hle : p.length ≤ stack.length)
    (hgoto : m.table.gotoOn (topState (stack.drop p.length)) p.name = some next) (token : Token) :
    (reduce m c p token).status = .running ∧
      ((∃ slot, slot.token? = none ∧
          (reduce m c p token).config.Stacked
            (⟨next, .nonterminal p.name, slot⟩ :: stack.drop p.length) ∧
          (reduce m c p token).events = [.reduced p.index]) ∨
        ∃ left, List.Forall₂ Frame.Vacated stack.tail left ∧
          (reduce m c p token).config.Stacked left ∧
          (reduce m c p token).events = [.faulted p.index p.text]) := by
  have hbelow := hstack.cut hle
  cases haction : p.action with
  | none =>
      rw [reduce_of_none haction, goOn_of_gotoOn hbelow hgoto]
      exact ⟨rfl, Or.inl ⟨.empty, rfl, (hbelow.looking token).push _ _ _, rfl⟩⟩
  | some action =>
      rcases hrun : action.run.run ⟨c.context, c.rightSide p.length⟩ with ⟨_ | value, after⟩
      · rw [reduce_of_error haction hrun]
        obtain ⟨left, hvacated, hleft⟩ := hstack.giveUp hle after after.rhs.taken
        exact ⟨rfl, Or.inr ⟨left, hvacated, hleft.congr ⟨rfl, rfl, rfl⟩, rfl⟩⟩
      · have hacted : (((c.cut p.length).acted after).truncate p.length).Stacked _ :=
          hbelow.acted after
        rw [reduce_of_ok haction hrun, goOn_of_gotoOn hacted hgoto]
        exact ⟨rfl, Or.inl ⟨.value value, rfl, (hacted.looking token).push _ _ _, rfl⟩⟩

end Reductions

/-- What accepting an input leaves: the state and the symbol of the start symbol alone, without its
value. -/
structure Closed (m : Machine V C) (c : Config V C) : Prop where
  start : ∃ q name, m.grammar.start = some name ∧
    (Automaton.states m.grammar).goto? 0 (.nonterminal name) = some q ∧ c.states = [q, 0] ∧
    c.symbols = [.nonterminal name, .endOfInput]
  values : c.values = [.empty]

/-- A reduction keeps the stacks on linked levels, whether its action complains or not. -/
theorem aligned_reduce (hbuilt : m.Built method) (hstack : c.Stacked stack)
    (hlinked : Linked (Automaton.states m.grammar) stack)
    (haction : m.table.actionOn (topState stack) token.kind = some (.reduce i)) :
    (act m c token (some (.reduce i))).status = .running ∧
      (act m c token (some (.reduce i))).config.Aligned (Automaton.states m.grammar) := by
  obtain ⟨p, next, hp, hle, _, hgoto⟩ := exists_production?_of_reduce hbuilt hlinked haction
  have hact : act m c token (some (.reduce i)) = reduce m c p token := by simp only [act, hp]
  rw [hact]
  obtain ⟨hrunning, ⟨slot, hslot, hreduced, _⟩ | ⟨left, hvacated, hleft, _⟩⟩ :=
    reduce_cases hstack hle hgoto token
  · exact ⟨hrunning, _, hreduced, linked_goto hbuilt (hlinked.drop _) hgoto hslot⟩
  · exact ⟨hrunning, left, hleft, hlinked.tail.of_vacated hvacated⟩

/-- Every step keeps the stacks on linked levels, except the one that accepts the input, which takes
the value of the start symbol and nothing else. -/
theorem aligned_step (hbuilt : m.Built method)
    (haligned : c.Aligned (Automaton.states m.grammar)) :
    ((∀ value, (step m c).status ≠ .accepted value) ∧
        (step m c).config.Aligned (Automaton.states m.grammar)) ∨
      ∃ value, (step m c).status = .accepted value ∧ Closed m (step m c).config := by
  obtain ⟨stack, hstack, hlinked⟩ := haligned
  rcases hfetch : c.fetch with ⟨e | token, fetched⟩
  · rw [step_of_fetch_error m hfetch]
    exact Or.inl ⟨nofun, stack, hstack.fetch hfetch, hlinked⟩
  · have hfetched := hstack.fetch hfetch
    rw [step_of_fetch hfetch, after_status, after_config, hfetched.state_eq]
    cases haction : m.table.actionOn (topState stack) token.kind with
    | none =>
        refine Or.inl ⟨fun value haccepted => ?_, ?_⟩
        · rcases error_status m fetched token with hstatus | ⟨hstatus, _⟩
          · cases hstatus.symm.trans haccepted
          · cases hstatus.symm.trans haccepted
        · -- recovery drops one level at most
          rcases hfetched.error m token with hsame | htail
          · exact ⟨stack, hsame, hlinked⟩
          · exact ⟨stack.tail, htail, hlinked.tail⟩
    | some action =>
        cases action with
        | shift next =>
            exact Or.inl ⟨nofun, _, hfetched.shift token next,
              (linked_shift hbuilt hlinked haction).2⟩
        | reduce i =>
            obtain ⟨hrunning, haligned⟩ := aligned_reduce hbuilt hfetched hlinked haction
            refine Or.inl ⟨fun value haccepted => ?_, haligned⟩
            cases hrunning.symm.trans haccepted
        | accept =>
            obtain ⟨_, frame, name, rfl, hname, hsymbol⟩ :=
              stack_of_accept hbuilt hlinked haction
            refine Or.inr ⟨_, rfl, ⟨frame.state, name, hname, ?_, hfetched.states, ?_⟩, ?_⟩
            · cases hlinked with
              | cons _ hgoto _ => exact hsymbol ▸ hgoto
            · exact hsymbol ▸ hfetched.symbols
            · exact congrArg List.tail hfetched.values

/-- A step that leaves the run going keeps the stacks on linked levels. -/
theorem aligned_step_of_running (hbuilt : m.Built method)
    (haligned : c.Aligned (Automaton.states m.grammar)) (hrunning : (step m c).status = .running) :
    (step m c).config.Aligned (Automaton.states m.grammar) := by
  rcases aligned_step hbuilt haligned with ⟨_, hkept⟩ | ⟨value, haccepted, _⟩
  · exact hkept
  · cases hrunning.symm.trans haccepted

/-- A property that every step preserves holds at every moment of a run. -/
theorem run_induction {P : Config V C → Prop} (hstep : ∀ c, P c → P (step m c).config)
    (fuel : Nat) (hstart : P c) : P (run m fuel c).2 := by
  induction fuel generalizing c with
  | zero => exact hstart
  | succ fuel ih =>
      unfold run
      dsimp only
      split
      · exact ih (hstep c hstart)
      all_goals exact hstep c hstart

/-- The stacks of a run are those of linked levels at every moment, until the input is accepted. -/
theorem aligned_run (hbuilt : m.Built method) (fuel : Nat)
    (haligned : c.Aligned (Automaton.states m.grammar)) :
    ((∀ value, (run m fuel c).1 ≠ .accepted value) ∧
        (run m fuel c).2.Aligned (Automaton.states m.grammar)) ∨
      ∃ value, (run m fuel c).1 = .accepted value ∧ Closed m (run m fuel c).2 := by
  induction fuel generalizing c with
  | zero => exact Or.inl ⟨nofun, haligned⟩
  | succ fuel ih =>
      have hstep := aligned_step hbuilt haligned
      rw [run]
      cases hstatus : (step m c).status with
      | running => exact ih (aligned_step_of_running hbuilt haligned hstatus)
      | accepted value =>
          rcases hstep with ⟨hnever, _⟩ | ⟨_, _, hclosed⟩
          · exact absurd hstatus (hnever value)
          · exact Or.inr ⟨value, rfl, hclosed⟩
      | failed =>
          rcases hstep with ⟨_, hkept⟩ | ⟨_, haccepted, _⟩
          · exact Or.inl ⟨nofun, hkept⟩
          · cases hstatus.symm.trans haccepted
      | illegal e =>
          rcases hstep with ⟨_, hkept⟩ | ⟨_, haccepted, _⟩
          · exact Or.inl ⟨nofun, hkept⟩
          · cases hstatus.symm.trans haccepted

end Engine

end ShiftReduce
