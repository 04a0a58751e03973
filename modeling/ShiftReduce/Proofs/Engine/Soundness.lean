import ShiftReduce.Proofs.Engine.Trace
import ShiftReduce.Proofs.Grammar.ParseTree

/-!
# Accepted inputs have parse trees

Without errors the stack of a run is at every moment what evaluating trees of the grammar gives: the
trees parse the symbols of the stack, and their leaves are the tokens read so far. So a run that
accepts its input has evaluated a parse tree of all of it. Read `exists_tree_of_accepted` first.
-/

namespace ShiftReduce

variable {V C : Type} {m : Machine V C} {method : Method} {c : Config V C}
  {stack : List (Frame V)} {start context : C} {rest tokens : List Token} {token : Token}
  {trees : List ParseTree} {i n : Nat}

namespace ParseTree

mutual

/-- What a tree gives when it is evaluated bottom-up and from left to right, and the context
afterwards. -/
def eval (g : Grammar (Reduction V C)) : ParseTree → C → Slot V × C
  | leaf token, context => (.token token, context)
  | node i children, context =>
      let (slots, context) := evalAll g children context
      match g.production? i with
      | some p => p.reduced slots context
      | none => (.empty, context)

/-- What trees give when they are evaluated from left to right. -/
def evalAll (g : Grammar (Reduction V C)) : List ParseTree → C → List (Slot V) × C
  | [], context => ([], context)
  | tree :: trees, context =>
      let (slot, context) := tree.eval g context
      let (slots, context) := evalAll g trees context
      (slot :: slots, context)

end

variable {g : Grammar (Reduction V C)}

theorem evalAll_append (front back : List ParseTree) (context : C) :
    evalAll g (front ++ back) context =
      ((evalAll g front context).1 ++ (evalAll g back (evalAll g front context).2).1,
        (evalAll g back (evalAll g front context).2).2) := by
  induction front generalizing context with
  | nil => rfl
  | cons tree front ih => simp only [List.cons_append, evalAll, ih]

theorem evalAll_singleton (tree : ParseTree) (context : C) :
    evalAll g [tree] context = ([(tree.eval g context).1], (tree.eval g context).2) := rfl

theorem length_evalAll (trees : List ParseTree) (context : C) :
    (evalAll g trees context).1.length = trees.length := by
  induction trees generalizing context with
  | nil => rfl
  | cons tree trees ih => simp only [evalAll, List.length_cons, ih]

theorem evalAll_cons (tree : ParseTree) (trees : List ParseTree) (context : C) :
    evalAll g (tree :: trees) context =
      ((tree.eval g context).1 :: (evalAll g trees (tree.eval g context).2).1,
        (evalAll g trees (tree.eval g context).2).2) := rfl

theorem eval_node {p : Production (Reduction V C)} (hp : g.production? i = some p)
    (children : List ParseTree) (context : C) : (node i children).eval g context =
      p.reduced (evalAll g children context).1 (evalAll g children context).2 := by
  rw [ParseTree.eval, hp]

mutual

/-- No production of a tree complains when the tree is evaluated. -/
def Smooth (g : Grammar (Reduction V C)) : ParseTree → C → Prop
  | leaf _, _ => True
  | node i children, context =>
      SmoothAll g children context ∧ ∀ p, g.production? i = some p →
        p.Succeeds (evalAll g children context).1 (evalAll g children context).2

/-- No production of trees complains when they are evaluated from left to right. -/
def SmoothAll (g : Grammar (Reduction V C)) : List ParseTree → C → Prop
  | [], _ => True
  | tree :: trees, context => tree.Smooth g context ∧ SmoothAll g trees (tree.eval g context).2

end

theorem smoothAll_append {front back : List ParseTree} {context : C} :
    SmoothAll g (front ++ back) context ↔
      SmoothAll g front context ∧ SmoothAll g back (evalAll g front context).2 := by
  induction front generalizing context with
  | nil => exact (iff_of_eq (true_and _)).symm
  | cons tree front ih => simp only [List.cons_append, SmoothAll, ih, and_assoc, evalAll]

theorem smoothAll_singleton {tree : ParseTree} {context : C} :
    SmoothAll g [tree] context ↔ tree.Smooth g context :=
  iff_of_eq (and_true _)

end ParseTree

/-- Trees of the grammar with leaves of some kind are evaluated without a complaint. -/
def Machine.Smooth (m : Machine V C) (P : Token → Prop) : Prop :=
  ∀ {trees : List ParseTree} {symbols : List Symbol} (context : C),
    ParseTree.ParsesAll m.grammar trees symbols → (∀ token ∈ ParseTree.yields trees, P token) →
    ParseTree.SmoothAll m.grammar trees context

/-- Where no reduction complains, all trees are evaluated without a complaint. -/
theorem Machine.Unfaulting.smooth (h : m.Unfaulting) : m.Smooth fun _ => True := by
  intro trees
  induction trees using ParseTree.forest_induction with
  | hnil => exact fun _ _ _ => trivial
  | hleaf token trees ih =>
      intro symbols context hparses _
      obtain ⟨_, _, _, _, htrees⟩ := hparses
      exact ⟨trivial, ih _ htrees fun _ _ => trivial⟩
  | hnode i children trees ihchildren ihtrees =>
      intro symbols context hparses _
      obtain ⟨_, _, _, ⟨p, _, _, hchildren⟩, htrees⟩ := hparses
      exact ⟨⟨ihchildren context hchildren fun _ _ => trivial,
        fun p hp => h.succeeds hp _ _⟩, ihtrees _ htrees fun _ _ => trivial⟩

namespace Engine

open ParseTree

/-- The stack is what evaluating trees of the tokens read so far gives. -/
structure Traced (m : Machine V C) (tokens : List Token) (start : C) (stack : List (Frame V))
    (context : C) (rest : List Token) (trees : List ParseTree) : Prop where
  linked : Linked (Automaton.states m.grammar) stack
  parses : ParsesAll m.grammar trees (symbolsOf stack)
  yields : yields trees ++ rest = tokens
  eval : evalAll m.grammar trees start = (stack.reverse.map Frame.slot, context)

theorem traced_start : Traced m tokens start ([] : List (Frame V)) start tokens [] where
  linked := .nil
  parses := rfl
  yields := rfl
  eval := rfl

/-- A shift adds a leaf. -/
theorem Traced.shift (hbuilt : m.Built method)
    (h : Traced m tokens start stack context (token :: rest) trees)
    (haction : m.table.actionOn (topState stack) token.kind = some (.shift n)) :
    Traced m tokens start (⟨n, token.kind, .token token⟩ :: stack) context rest
      (trees ++ [.leaf token]) := by
  obtain ⟨hterminal, hlinked⟩ := linked_shift hbuilt h.linked haction
  refine ⟨hlinked, ?_, ?_, ?_⟩
  · rw [symbolsOf_cons]
    exact h.parses.append (parsesAll_singleton.mpr ⟨rfl, hterminal⟩)
  · rw [yields_append, ← h.yields, List.append_assoc]
    rfl
  · rw [evalAll_append, h.eval]
    simp [evalAll_singleton, ParseTree.eval]

/-- Where a right side is on top of the stack, the last trees parse it and give the slots on top. -/
theorem Traced.split (h : Traced m tokens start stack context rest trees)
    {p : Production (Reduction V C)} (hlength : p.length ≤ stack.length)
    (htop : symbolsOf (stack.take p.length) = p.symbols) :
    ∃ front children, trees = front ++ children ∧
      ParsesAll m.grammar front (symbolsOf (stack.drop p.length)) ∧
      ParsesAll m.grammar children p.symbols ∧
      (evalAll m.grammar front start).1 = (stack.drop p.length).reverse.map Frame.slot ∧
      evalAll m.grammar children (evalAll m.grammar front start).2 =
        ((stack.take p.length).reverse.map Frame.slot, context) := by
  have hparses := h.parses
  rw [← symbolsOf_drop_append_take p.length, htop] at hparses
  obtain ⟨front, children, hsplit, hfront, hchildren⟩ := hparses.split
  have heval := h.eval
  have hparts : stack.reverse.map Frame.slot =
      (stack.drop p.length).reverse.map Frame.slot ++
        (stack.take p.length).reverse.map Frame.slot := by
    rw [← List.map_append, ← List.reverse_append, List.take_append_drop]
  have hcount : (evalAll m.grammar children (evalAll m.grammar front start).2).1.length =
      ((stack.take p.length).reverse.map Frame.slot).length := by
    rw [length_evalAll, hchildren.length_eq, List.length_map, List.length_reverse,
      List.length_take, min_eq_left hlength]
    rfl
  rw [hsplit, evalAll_append, Prod.mk.injEq, hparts] at heval
  obtain ⟨hbelow, habove⟩ := List.append_inj' heval.1 hcount
  exact ⟨front, children, hsplit, hfront, hchildren, hbelow, Prod.ext habove heval.2⟩

/-- A reduction makes the last trees, which are those of a right side, the children of a node. -/
theorem Traced.reduce (h : Traced m tokens start stack context rest trees)
    {p : Production (Reduction V C)} {next : Nat} (hbuilt : m.Built method)
    (hp : m.grammar.production? i = some p) (hlength : p.length ≤ stack.length)
    (htop : symbolsOf (stack.take p.length) = p.symbols)
    (hgoto : m.table.gotoOn (topState (stack.drop p.length)) p.name = some next)
    {slot : Slot V} {context' : C}
    (hreduced : p.reduced ((stack.take p.length).reverse.map Frame.slot) context =
      (slot, context')) :
    ∃ front children, trees = front ++ children ∧ children.length = p.length ∧
      Traced m tokens start (⟨next, .nonterminal p.name, slot⟩ :: stack.drop p.length) context'
        rest (front ++ [.node i children]) := by
  obtain ⟨front, children, rfl, hfront, hchildren, hbelow, habove⟩ := h.split hlength htop
  have hslot : slot.token? = none := by
    have hnone := p.reduced_token? ((stack.take p.length).reverse.map Frame.slot) context
    rwa [hreduced] at hnone
  refine ⟨front, children, rfl, hchildren.length_eq, ?_, ?_, ?_, ?_⟩
  · exact linked_goto hbuilt (h.linked.drop p.length) hgoto hslot
  · rw [symbolsOf_cons]
    exact hfront.append (parsesAll_singleton.mpr ⟨p, hp, rfl, hchildren⟩)
  · rw [← h.yields, yields_append, yields_append, yields_singleton]
    rfl
  · have hnode : ParseTree.eval m.grammar (.node i children) (evalAll m.grammar front start).2 =
        (slot, context') := by
      rw [ParseTree.eval, habove, hp]
      exact hreduced
    rw [evalAll_append, evalAll_singleton, hnode, hbelow]
    simp

/-- With all tokens read and only the start symbol on the stack, there is one tree. -/
theorem Traced.exists_tree {frame : Frame V} {name : String}
    (h : Traced m tokens start [frame] context [] trees)
    (hname : frame.symbol = .nonterminal name) :
    ∃ tree : ParseTree, tree.Parses m.grammar (.nonterminal name) ∧ tree.yield = tokens ∧
      tree.eval m.grammar start = (frame.slot, context) := by
  have hparses := h.parses
  rw [show symbolsOf [frame] = [frame.symbol] from rfl, hname] at hparses
  obtain ⟨tree, rfl⟩ := List.length_eq_one_iff.mp hparses.length_eq
  refine ⟨tree, parsesAll_singleton.mp hparses, ?_, ?_⟩
  · rw [← h.yields, yields_singleton, List.append_nil]
  · have heval := h.eval
    rw [evalAll_singleton, Prod.mk.injEq] at heval
    exact Prod.ext (List.singleton_inj.mp heval.1) heval.2

/-- Only the end of input is not a token, and only when all tokens are read. -/
theorem ahead_eq_endOfInput (hplain : ∀ token ∈ rest, token.kind ≠ .endOfInput)
    (h : ahead rest = .endOfInput) : rest = [] := by
  cases rest with
  | nil => rfl
  | cons token rest => exact absurd h (List.forall_mem_cons.mp hplain).1

/-- Without productions that mention the end of input, it is never shifted. -/
theorem ne_endOfInput_of_shift (hbuilt : m.Built method) (hends : Table.EndsNowhere m.grammar)
    {q : Nat} {symbol : Symbol} (haction : m.table.actionOn q symbol = some (.shift n)) :
    symbol ≠ .endOfInput := by
  rintro rfl
  cases hbuilt.proposed haction with
  | shift _ hsymbol _ _ =>
      obtain ⟨p, hp, hget⟩ := Grammar.exists_production?_of_symbolAt hsymbol
      exact hends hp (List.mem_of_getElem? hget)

/-- A step with a token without an action shows an error. -/
theorem exists_isError_of_actionOn (hat : At c stack context rest)
    (hnone : m.table.actionOn (topState stack) (ahead rest) = none) :
    ∃ event ∈ (step m c).events, event.isError = true := by
  obtain ⟨token, fetched, hfetch, hkind, _⟩ := hat.fetch
  have hstep := step_of_fetch (m := m) hfetch
  rw [(hat.stack.fetch hfetch).state_eq, hkind, hnone] at hstep
  rw [hstep]
  exact ⟨_, List.mem_append_left _ (List.mem_singleton_self _), rfl⟩

/-- The events of a step are events of every run that begins with it. -/
theorem mem_events_of_mem_step {event : Event} (fuel : Nat) (h : event ∈ (step m c).events) :
    event ∈ events m (fuel + 1) c := by
  rw [events]
  split
  · exact List.mem_append_left _ h
  · exact h

/-- A value and a context are what evaluating a tree of all tokens gives. -/
def Evaluates (m : Machine V C) (tokens : List Token) (start : C) (value : Option V)
    (context : C) : Prop :=
  ∃ name tree slot, m.grammar.start = some name ∧
    ParseTree.Parses m.grammar tree (.nonterminal name) ∧ tree.yield = tokens ∧
    tree.eval m.grammar start = (slot, context) ∧ value = slot.value?

/-- Where a reduction has made a node, it did not complain. -/
theorem Traced.succeeds {P : Token → Prop} (hsmooth : m.Smooth P)
    (htokens : ∀ token ∈ tokens, P token) (h : Traced m tokens start stack context rest trees)
    {p : Production (Reduction V C)} (hp : m.grammar.production? i = some p)
    (hlength : p.length ≤ stack.length)
    (htop : symbolsOf (stack.take p.length) = p.symbols) :
    p.Succeeds ((stack.take p.length).reverse.map Frame.slot) context := by
  obtain ⟨front, children, hsplit, hfront, hchildren, _, habove⟩ := h.split hlength htop
  have hnode : ParsesAll m.grammar (front ++ [.node i children])
      (symbolsOf (stack.drop p.length) ++ [.nonterminal p.name]) :=
    hfront.append (parsesAll_singleton.mpr ⟨p, hp, rfl, hchildren⟩)
  have hleaves : ∀ token ∈ ParseTree.yields (front ++ [.node i children]), P token := by
    intro token hmem
    have hsame : ParseTree.yields (front ++ [.node i children]) = ParseTree.yields trees := by
      rw [hsplit, yields_append, yields_append, yields_singleton]
      rfl
    rw [hsame] at hmem
    refine htokens token ?_
    rw [← h.yields]
    exact List.mem_append_left rest hmem
  have hall := smoothAll_singleton.mp (smoothAll_append.mp (hsmooth start hnode hleaves)).2
  have hown := hall.2 p hp
  rwa [habove] at hown

/-- Where there is an action other than to accept, a step hands the invariant on. -/
theorem Traced.exists_step {P : Token → Prop} (hbuilt : m.Built method)
    (hends : Table.EndsNowhere m.grammar) (hsmooth : m.Smooth P)
    (htokens : ∀ token ∈ tokens, P token) (h : Traced m tokens start stack context rest trees)
    (hat : At c stack context rest) {action : Action}
    (haction : m.table.actionOn (topState stack) (ahead rest) = some action)
    (hgoes : action ≠ .accept) :
    ∃ is stack' context' rest' trees', Quiet m c is ∧
      At (step m c).config stack' context' rest' ∧
      Traced m tokens start stack' context' rest' trees' := by
  cases action with
  | shift n =>
      cases rest with
      | nil => exact absurd rfl (ne_endOfInput_of_shift hbuilt hends haction)
      | cons token rest =>
          obtain ⟨hquiet, hat'⟩ := hat.shift haction
          exact ⟨_, _, _, _, _, hquiet, hat', h.shift hbuilt haction⟩
  | reduce i =>
      obtain ⟨p, next, hp, hlength, htop, hgoto⟩ :=
        exists_production?_of_reduce hbuilt h.linked haction
      obtain ⟨_, _, _, _, htraced'⟩ := h.reduce hbuilt hp hlength htop hgoto rfl
      obtain ⟨hquiet, hat'⟩ := hat.reduce haction hp (hbuilt.ready.wellFormed.index hp) hlength
        (h.succeeds hsmooth htokens hp hlength htop) hgoto rfl
      exact ⟨_, _, _, _, _, hquiet, hat', htraced'⟩
  | accept => exact absurd rfl hgoes

/-- Where the action is to accept, there is one tree of all tokens. -/
theorem Traced.evaluates_of_accept (hbuilt : m.Built method)
    (h : Traced m tokens start stack context rest trees) (hat : At c stack context rest)
    (haction : m.table.actionOn (topState stack) (ahead rest) = some .accept) (fuel : Nat)
    {value : Option V} (haccepted : (run m (fuel + 1) c).1 = .accepted value) :
    Evaluates m tokens start value (run m (fuel + 1) c).2.context := by
  obtain ⟨hend, frame, name, rfl, hname, hsymbol⟩ := stack_of_accept hbuilt h.linked haction
  obtain rfl := ahead_eq_endOfInput hat.plain hend
  obtain ⟨tree, hparses, hyield, heval⟩ := h.exists_tree hsymbol
  obtain ⟨hstatus, hcontext, _⟩ := hat.accept haction
  rw [(run_succ_of_accepted hstatus fuel).1] at haccepted ⊢
  refine ⟨name, tree, frame.slot, hname, hparses, hyield, ?_, ?_⟩
  · rw [heval, hcontext]
  · cases haccepted
    rfl

/-- A run without errors that accepts the input, from a moment at which the stack comes from trees,
ends with one tree of all tokens. -/
theorem Traced.evaluates_of_smooth {P : Token → Prop} (hbuilt : m.Built method)
    (hends : Table.EndsNowhere m.grammar) (hsmooth : m.Smooth P)
    (htokens : ∀ token ∈ tokens, P token) {fuel : Nat} {value : Option V}
    (h : Traced m tokens start stack context rest trees) (hat : At c stack context rest)
    (haccepted : (run m fuel c).1 = .accepted value)
    (herrorless : ∀ event ∈ events m fuel c, event.isError = false) :
    Evaluates m tokens start value (run m fuel c).2.context := by
  induction fuel generalizing c stack context rest trees with
  | zero => cases haccepted
  | succ fuel ih =>
      cases haction : m.table.actionOn (topState stack) (ahead rest) with
      | none =>
          obtain ⟨event, hmem, herror⟩ := exists_isError_of_actionOn (m := m) hat haction
          have hquiet := herrorless event (mem_events_of_mem_step fuel hmem)
          rw [herror] at hquiet
          cases hquiet
      | some action =>
          by_cases haccept : action = .accept
          · rw [haccept] at haction
            exact h.evaluates_of_accept hbuilt hat haction fuel haccepted
          · obtain ⟨is, stack', context', rest', trees', hquiet, hat', htraced'⟩ :=
              h.exists_step hbuilt hends hsmooth htokens hat haction haccept
            obtain ⟨hrun, hevents⟩ := run_succ hquiet.running fuel
            rw [hrun] at haccepted ⊢
            rw [hevents] at herrorless
            exact ih htraced' hat' haccepted fun event hmem =>
              herrorless event (List.mem_append_right _ hmem)

/-- The same where no reduction complains at all. -/
theorem Traced.evaluates_of_run (hbuilt : m.Built method) (hends : Table.EndsNowhere m.grammar)
    (hunfaulting : m.Unfaulting) {fuel : Nat} {value : Option V}
    (h : Traced m tokens start stack context rest trees) (hat : At c stack context rest)
    (haccepted : (run m fuel c).1 = .accepted value)
    (herrorless : ∀ event ∈ events m fuel c, event.isError = false) :
    Evaluates m tokens start value (run m fuel c).2.context :=
  h.evaluates_of_smooth hbuilt hends hunfaulting.smooth (fun _ _ => trivial) hat haccepted
    herrorless

/-- An input that is accepted without an error has a parse tree with the start symbol on top and the
tokens at its leaves, and the value and the context of the run are those of evaluating it. -/
theorem exists_tree_of_accepted (hbuilt : m.Built method) (hends : Table.EndsNowhere m.grammar)
    (hunfaulting : m.Unfaulting) (hplain : ∀ token ∈ tokens, token.kind ≠ .endOfInput)
    (fuel : Nat) {value : Option V}
    (haccepted : (run m fuel { source := tokens.map .ok, context }).1 = .accepted value)
    (herrorless : ∀ event ∈ events m fuel { source := tokens.map .ok, context },
      event.isError = false) :
    ∃ name tree slot, m.grammar.start = some name ∧
      ParseTree.Parses m.grammar tree (.nonterminal name) ∧ tree.yield = tokens ∧
      tree.eval m.grammar context =
        (slot, (run m fuel { source := tokens.map .ok, context }).2.context) ∧
      value = slot.value? :=
  traced_start.evaluates_of_run hbuilt hends hunfaulting (at_start hplain) haccepted herrorless

/-- The tree of parentheses in parentheses: five reductions, the last of three symbols. -/
theorem exists_tree_of_nested_parentheses :
    ∃ name tree slot, (Machine.nesting .lalr).grammar.start = some name ∧
      ParseTree.Parses (Machine.nesting .lalr).grammar tree (.nonterminal name) ∧
      tree.yield = ['(', '(', ')', ')'].map Machine.parenthesis ∧
      tree.eval (Machine.nesting .lalr).grammar 0 = (slot, 5) ∧ some 3 = slot.value? :=
  exists_tree_of_accepted (Machine.built_nesting .lalr) (Machine.endsNowhere_nesting .lalr)
    (Machine.unfaulting_nesting .lalr) (by decide +kernel) 12 rfl (by decide +kernel)

end Engine

end ShiftReduce
