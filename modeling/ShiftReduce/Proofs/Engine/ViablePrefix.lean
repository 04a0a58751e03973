import ShiftReduce.Proofs.Automaton.Canonical
import ShiftReduce.Proofs.Engine.Soundness

/-!
# Stacks are viable prefixes

A string for which an item is valid is the beginning of a string that the start symbol derives. So
are the symbols on a stack that follows the automaton, at every moment of a run, whatever the
lookaheads and the conflicts of its table are. Until something goes wrong the symbols of the stack
derive the tokens read so far, and these begin a derivable string too. Read `viable_prefix_run`
first.
-/

namespace ShiftReduce

variable {V C : Type} {m : Machine V C} {method : Method} {c : Config V C}
  {stack : List (Frame V)} {token : Token} {i dot : Nat} {start : String} {γ kinds : List Symbol}

/-- A string for which an item is valid, with what comes from the dot on, begins a string that the
start symbol derives. -/
theorem Grammar.Viable.exists_derives {α : Type} {g : Grammar α} (h : g.WellFormed)
    (hstart : g.start = some start) (hitem : g.Viable γ i dot) :
    ∃ tail, g.Derives [.nonterminal start] (γ ++ g.rest i dot ++ tail) := by
  induction hitem with
  | start =>
      refine ⟨[], ?_⟩
      rw [h.rest_zero hstart]
      exact .refl
  | read _ hsymbol ih =>
      obtain ⟨tail, hderives⟩ := ih
      rw [rest_of_symbolAt hsymbol] at hderives
      exact ⟨tail, by simpa using hderives⟩
  | @expand γ i dot j name _ hname hj ih =>
      obtain ⟨tail, hderives⟩ := ih
      obtain ⟨_, p, hp, rfl⟩ := h.rules.mp hj
      -- the nonterminal after the dot is replaced by the right side that is begun
      have hinner : g.Derives [.nonterminal p.name] (g.rest j 0) := by
        rw [rest_of_production? hp, List.drop_zero]
        exact .of_production hp .refl
      refine ⟨g.rest i (dot + 1) ++ tail, hderives.trans ?_⟩
      have hstep := hinner.context γ (g.rest i (dot + 1) ++ tail)
      rw [rest_of_symbolAt hname]
      simpa using hstep

/-- The symbols of a stack that follows the automaton begin a string that the start symbol
derives. -/
theorem Linked.exists_derives (hbuilt : m.Built method)
    (hlinked : Linked (Automaton.states m.grammar) stack) (hstart : m.grammar.start = some start) :
    ∃ tail, m.grammar.Derives [.nonterminal start] (symbolsOf stack ++ tail) := by
  obtain ⟨i, dot, hitem⟩ :=
    (hbuilt.collected.exists_path?_iff hbuilt.ready).mp ⟨_, hlinked.path?⟩
  obtain ⟨tail, hderives⟩ := hitem.exists_derives hbuilt.ready.wellFormed hstart
  exact ⟨m.grammar.rest i dot ++ tail, by rwa [← List.append_assoc]⟩

/-- Whether an event shows that a reduction complained. -/
def Event.isFault : Event → Bool
  | .faulted _ _ => true
  | _ => false

/-- The kind of the token that was shifted, if one was. -/
def Event.shiftedKind? : Event → Option Symbol
  | .shifted token => some token.kind
  | _ => none

namespace Engine

/-- Nothing goes wrong in the events: every token has an action, and no reduction complains. -/
def Smooth (events : List Event) : Prop :=
  ∀ event ∈ events, event.isError = false ∧ event.isFault = false

instance (events : List Event) : Decidable (Smooth events) :=
  inferInstanceAs (Decidable (∀ event ∈ events, _))

/-- The kinds of the tokens that a run has shifted. -/
def shiftedKinds (m : Machine V C) (fuel : Nat) (c : Config V C) : List Symbol :=
  (events m fuel c).filterMap Event.shiftedKind?

/-- A reduction that does not complain shifts nothing, and what it leaves on the stacks derives what
they derived before. -/
theorem derives_reduce (hbuilt : m.Built method) (hstack : c.Stacked stack)
    (hlinked : Linked (Automaton.states m.grammar) stack)
    (haction : m.table.actionOn (topState stack) token.kind = some (.reduce i))
    (hsmooth : Smooth (act m c token (some (.reduce i))).events)
    (hderives : m.grammar.Derives (symbolsOf stack) kinds) :
    (act m c token (some (.reduce i))).events.filterMap Event.shiftedKind? = [] ∧
      m.grammar.Derives (act m c token (some (.reduce i))).config.stackSymbols kinds := by
  obtain ⟨p, next, hp, hle, htop, hgoto⟩ := exists_production?_of_reduce hbuilt hlinked haction
  have hact : act m c token (some (.reduce i)) = reduce m c p token := by simp only [act, hp]
  rw [hact] at hsmooth ⊢
  obtain ⟨_, ⟨slot, _, hreduced, hevents⟩ | ⟨_, _, _, hevents⟩⟩ :=
    reduce_cases hstack hle hgoto token
  · -- the left side derives the right side that was on top
    have hsplit : symbolsOf stack = symbolsOf (stack.drop p.length) ++ p.symbols := by
      rw [← htop, symbolsOf_drop_append_take]
    rw [hsplit] at hderives
    rw [hevents, hreduced.stackSymbols_eq, symbolsOf_cons]
    exact ⟨rfl, (Grammar.Derives.append .refl (.of_production hp .refl)).trans hderives⟩
  · have hfault := (hsmooth (.faulted p.index p.text) (by rw [hevents]; simp)).2
    cases hfault

/-- A step in which nothing goes wrong lets the stacks derive what it shifts behind what they
derived before. -/
theorem derives_step (hbuilt : m.Built method)
    (haligned : c.Aligned (Automaton.states m.grammar)) (hsmooth : Smooth (step m c).events)
    (hderives : m.grammar.Derives c.stackSymbols kinds) :
    m.grammar.Derives (step m c).config.stackSymbols
      (kinds ++ (step m c).events.filterMap Event.shiftedKind?) := by
  obtain ⟨stack, hstack, hlinked⟩ := haligned
  rw [hstack.stackSymbols_eq] at hderives
  rcases hfetch : c.fetch with ⟨e | token, fetched⟩
  · rw [step_of_fetch_error m hfetch]
    simpa [(hstack.fetch hfetch).stackSymbols_eq] using hderives
  · have hfetched := hstack.fetch hfetch
    have hstep := step_of_fetch (m := m) hfetch
    rw [hfetched.state_eq] at hstep
    rw [hstep] at hsmooth ⊢
    cases haction : m.table.actionOn (topState stack) token.kind with
    | none =>
        rw [haction] at hsmooth
        have herror := (hsmooth _ List.mem_cons_self).1
        cases herror
    | some action =>
        rw [haction] at hsmooth
        cases action with
        | shift next =>
            show m.grammar.Derives (shift fetched token next).config.stackSymbols
              (kinds ++ [token.kind])
            rw [(hfetched.shift token next).stackSymbols_eq, symbolsOf_cons]
            exact hderives.append .refl
        | accept =>
            show m.grammar.Derives fetched.stackSymbols (kinds ++ [])
            rwa [List.append_nil, hfetched.stackSymbols_eq]
        | reduce i =>
            obtain ⟨hnone, hkept⟩ := derives_reduce hbuilt hfetched hlinked haction
              (fun event hmem => hsmooth event (List.mem_append_right _ hmem)) hderives
            show m.grammar.Derives _ (kinds ++ (act m fetched token _).events.filterMap _)
            rw [hnone, List.append_nil]
            exact hkept

/-- A step leaves the run going, or it is the last one. -/
theorem running_or_ended (m : Machine V C) (c : Config V C) :
    (step m c).status = .running ∨ ∀ fuel, (run m (fuel + 1) c).2 = (step m c).config ∧
      events m (fuel + 1) c = (step m c).events := by
  cases hstatus : (step m c).status with
  | running => exact Or.inl rfl
  | _ => exact Or.inr fun fuel => by simp only [run, events, hstatus, and_self]

/-- As long as nothing goes wrong, the symbols on the stacks derive the tokens that were shifted. -/
theorem derives_run (hbuilt : m.Built method) (fuel : Nat)
    (haligned : c.Aligned (Automaton.states m.grammar)) (hsmooth : Smooth (events m fuel c))
    (hderives : m.grammar.Derives c.stackSymbols kinds) :
    m.grammar.Derives (run m fuel c).2.stackSymbols (kinds ++ shiftedKinds m fuel c) := by
  induction fuel generalizing c kinds with
  | zero =>
      show m.grammar.Derives c.stackSymbols (kinds ++ [])
      rwa [List.append_nil]
  | succ fuel ih =>
      have hfirst : Smooth (step m c).events := fun event hmem =>
        hsmooth event (mem_events_of_mem_step fuel hmem)
      have hstep := derives_step hbuilt haligned hfirst hderives
      rcases running_or_ended m c with hrunning | hended
      · obtain ⟨hrun, hevents⟩ := run_succ hrunning fuel
        rw [hevents] at hsmooth
        have hrest := ih (aligned_step_of_running hbuilt haligned hrunning)
          (fun event hmem => hsmooth event (List.mem_append_right _ hmem)) hstep
        rwa [hrun, shiftedKinds, hevents, List.filterMap_append, ← List.append_assoc]
      · obtain ⟨hrun, hevents⟩ := hended fuel
        rwa [hrun, shiftedKinds, hevents]

/-- At every moment of a run the symbols above the bottom of the stack begin a string that the start
symbol derives. -/
theorem exists_derives_run (hbuilt : m.Built method) (fuel : Nat)
    (haligned : c.Aligned (Automaton.states m.grammar)) (hstart : m.grammar.start = some start) :
    ∃ tail, m.grammar.Derives [.nonterminal start] ((run m fuel c).2.stackSymbols ++ tail) := by
  rcases aligned_run hbuilt fuel haligned with ⟨_, stack, hstack, hlinked⟩ | ⟨_, _, hclosed⟩
  · rw [hstack.stackSymbols_eq]
    exact hlinked.exists_derives hbuilt hstart
  · -- only the start symbol is left
    obtain ⟨_, name, hname, _, _, hsymbols⟩ := hclosed.start
    cases hstart.symm.trans hname
    rw [Config.stackSymbols, hsymbols]
    exact ⟨[], .refl⟩

/-- At every moment of a run the symbols above the bottom of the stack begin a string that the start
symbol derives. As long as every token had an action and no reduction complained, the tokens that
were shifted begin such a string. -/
theorem viable_prefix_run (hbuilt : m.Built method) (source : List (Except LexError Token))
    (context : C) (fuel : Nat) :
    ∃ start, m.grammar.start = some start ∧
      (∃ tail, m.grammar.Derives [.nonterminal start]
        ((run m fuel { source, context }).2.stackSymbols ++ tail)) ∧
      (Smooth (events m fuel { source, context }) →
        ∃ tail, m.grammar.Derives [.nonterminal start]
          (shiftedKinds m fuel { source, context } ++ tail)) := by
  obtain ⟨start, hstart⟩ := hbuilt.prepared.start
  have haligned : ({ source, context } : Config V C).Aligned (Automaton.states m.grammar) :=
    .start _ source context
  obtain ⟨tail, hprefix⟩ := exists_derives_run hbuilt fuel haligned hstart
  refine ⟨start, hstart, ⟨tail, hprefix⟩, fun hsmooth => ⟨tail, hprefix.trans ?_⟩⟩
  have hstack := derives_run hbuilt fuel haligned hsmooth .refl
  exact hstack.append .refl

/-- Behind two opening parentheses a run has shifted what begins a list. -/
theorem viable_prefix_run_nesting :
    (Machine.nesting .slr).Built .slr ∧
      ∃ tail, (Machine.nesting .slr).grammar.Derives [.nonterminal "list"]
        ([.literal '(', .literal '('] ++ tail) := by
  obtain ⟨start, hstart, _, hshifted⟩ := viable_prefix_run (Machine.built_nesting .slr)
    (['(', '('].map fun c => .ok (Machine.parenthesis c)) 0 3
  obtain rfl : "list" = start := Option.some.inj hstart
  exact ⟨Machine.built_nesting .slr, hshifted (by decide +kernel)⟩

end Engine

end ShiftReduce
