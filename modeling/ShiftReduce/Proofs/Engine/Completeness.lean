import ShiftReduce.Proofs.Engine.Soundness
import ShiftReduce.Proofs.Grammar.Rightmost
import ShiftReduce.Proofs.Table.Expected

/-!
# Sentences are accepted

With a table without conflicts, of a grammar without precedences, a run follows the parse tree of
its input: it reads the leaves of trees and reduces their productions in order, wherever an item
calls for what the trees parse. So every sentence is accepted without an error, and the reductions
are its rightmost derivation backwards; there is only one. Read `accepts_sentence` first.
-/

namespace ShiftReduce

variable {V C : Type} {m : Machine V C} {method : Method} {c c' c'' : Config V C}
  {stack : List (Frame V)} {context : C} {rest tokens : List Token} {trees : List ParseTree}
  {is js : List Nat} {i dot n fuel : Nat} {symbol t : Symbol} {symbols : List Symbol}

/-- A machine whose table has no conflicts, for a grammar without precedences and without the end of
input on right sides, with reductions that do not complain. -/
structure Machine.Plain (m : Machine V C) (method : Method) : Prop where
  built : m.Built method
  precedence : m.grammar.precedence.keys = []
  ends : Table.EndsNowhere m.grammar
  conflicts : m.table.conflicts = []
  unfaulting : m.Unfaulting

/-- The same without a word on the reductions: whether they complain depends on what they see. -/
structure Machine.Clear (m : Machine V C) (method : Method) : Prop where
  built : m.Built method
  precedence : m.grammar.precedence.keys = []
  ends : Table.EndsNowhere m.grammar
  conflicts : m.table.conflicts = []

theorem Machine.Plain.clear (h : m.Plain method) : m.Clear method :=
  ⟨h.built, h.precedence, h.ends, h.conflicts⟩

/-- Whatever an item calls for is the action. -/
theorem Machine.Clear.actionOn (h : m.Clear method) {q : Nat} {action : Action}
    (hproposed : Table.Proposed m.grammar (Automaton.states m.grammar) method q symbol action) :
    m.table.actionOn q symbol = some action := by
  have hconflicts := h.conflicts
  rw [h.built.table_eq] at hconflicts ⊢
  exact Table.actionOn_of_proposed h.built.ready h.precedence h.ends hconflicts hproposed

/-- After a string for which a complete item expects a terminal, its production is reduced. -/
theorem Machine.Clear.actionOn_of_expects (h : m.Clear method) {p : Production (Reduction V C)}
    {q : Nat} (hp : m.grammar.production? i = some p) (hi : i ≠ 0)
    (hpath : (Automaton.states m.grammar).path? 0 symbols = some q)
    (hexpects : m.grammar.Expects symbols i p.symbols.length t) :
    m.table.actionOn q t = some (.reduce i) :=
  h.actionOn (Table.proposed_of_expects h.built.prepared h.built.collected hp hi hpath hexpects)

namespace Engine

/-! ## Several steps -/

/-- Steps without errors that leave the run going, with the productions they reduce. -/
inductive Quietly (m : Machine V C) : Config V C → List Nat → Config V C → Prop
  | refl {c : Config V C} : Quietly m c [] c
  | step {c c' : Config V C} {is js : List Nat} : Quiet m c is →
      Quietly m (step m c).config js c' → Quietly m c (is ++ js) c'

theorem Quietly.trans (h : Quietly m c is c') (hmore : Quietly m c' js c'') :
    Quietly m c (is ++ js) c'' := by
  induction h with
  | refl => exact hmore
  | step hquiet _ ih =>
      rw [List.append_assoc]
      exact .step hquiet (ih hmore)

theorem Quiet.quietly (h : Quiet m c is) : Quietly m c is (step m c).config := by
  have hall := Quietly.step h .refl
  rwa [List.append_nil] at hall

/-- The productions that a run reduces, in order. -/
def reductions (m : Machine V C) (fuel : Nat) (c : Config V C) : List Nat :=
  (events m fuel c).filterMap Event.reduction?

/-- Whether a run is without errors. -/
def Errorless (m : Machine V C) (fuel : Nat) (c : Config V C) : Prop :=
  ∀ event ∈ events m fuel c, event.isError = false

/-- A run goes on after some steps as it would start there. -/
theorem Quietly.exists_run (h : Quietly m c is c') :
    ∃ k, ∀ fuel, run m (k + fuel) c = run m fuel c' ∧
      reductions m (k + fuel) c = is ++ reductions m fuel c' ∧
      (Errorless m fuel c' → Errorless m (k + fuel) c) := by
  induction h with
  | refl => exact ⟨0, fun fuel => by simp⟩
  | @step c c' is js hquiet _ ih =>
      obtain ⟨k, hk⟩ := ih
      refine ⟨k + 1, fun fuel => ?_⟩
      obtain ⟨hrun, hreductions, herrorless⟩ := hk fuel
      obtain ⟨hfirst, hevents⟩ := run_succ hquiet.running (k + fuel)
      rw [show k + 1 + fuel = k + fuel + 1 by omega]
      refine ⟨hfirst.trans hrun, ?_, fun hlast event hmem => ?_⟩
      · rw [reductions, hevents, List.filterMap_append, hquiet.reductions, List.append_assoc]
        exact congrArg (is ++ ·) hreductions
      · rw [hevents] at hmem
        rcases List.mem_append.mp hmem with hmem | hmem
        · exact hquiet.errorless event hmem
        · exact herrorless hlast event hmem

/-- A run that has accepted its input does nothing more. -/
theorem events_add_of_accepted {value : Option V} (h : (run m fuel c).1 = .accepted value)
    (more : Nat) : events m (fuel + more) c = events m fuel c := by
  induction fuel generalizing c with
  | zero => cases h
  | succ fuel ih =>
      rw [show fuel + 1 + more = fuel + more + 1 by omega]
      rw [run] at h
      rw [events, events]
      cases hstatus : (step m c).status with
      | running =>
          simp only [hstatus] at h ⊢
          rw [ih h]
      | accepted value => rfl
      | failed => rfl
      | illegal e => rfl

/-! ## Following trees -/

/-- Steps that take trees to the stack: they reduce the productions of the trees, and put on the
stack what the trees parse and what evaluating them gives. -/
def Climbs (m : Machine V C) (c : Config V C) (stack : List (Frame V)) (context : C)
    (rest : List Token) (trees : List ParseTree) (symbols : List Symbol) : Prop :=
  ∃ c' frames, Quietly m c (ParseTree.productionsOf trees) c' ∧
    At c' (frames ++ stack) (ParseTree.evalAll m.grammar trees context).2 rest ∧
    Linked (Automaton.states m.grammar) (frames ++ stack) ∧ symbolsOf frames = symbols ∧
    frames.reverse.map Frame.slot = (ParseTree.evalAll m.grammar trees context).1

/-- What a run does on trees that are evaluated without a complaint: where an item with a terminal
calls for what the trees parse, it reads their leaves before that terminal and takes them to the
stack. -/
def Follows (m : Machine V C) (trees : List ParseTree) : Prop :=
  ∀ {c : Config V C} {stack : List (Frame V)} {context : C} {rest : List Token} {i dot : Nat},
    At c stack context (ParseTree.yields trees ++ rest) →
    Linked (Automaton.states m.grammar) stack →
    m.grammar.ValidFor (symbolsOf stack) i dot (ahead rest) →
    ParseTree.ParsesAll m.grammar trees (m.grammar.rest i dot) →
    ParseTree.SmoothAll m.grammar trees context →
    Climbs m c stack context rest trees (m.grammar.rest i dot)

theorem symbolsOf_append (frames stack : List (Frame V)) :
    symbolsOf (frames ++ stack) = symbolsOf stack ++ symbolsOf frames := by
  simp [symbolsOf]

/-- The next token behind trees is what their string begins with before the token that follows. -/
theorem beginsWith_ahead {α : Type} {g : Grammar α} (h : ParseTree.ParsesAll g trees symbols)
    (hahead : (ahead rest).isTerminal = true) :
    g.BeginsWith (symbols ++ [ahead rest]) (ahead (ParseTree.yields trees ++ rest)) := by
  refine (Grammar.beginsWith_append_terminal hahead).mpr ?_
  have hderives := h.derives
  have hterminal := h.isTerminal
  cases hyields : ParseTree.yields trees with
  | nil =>
      rw [hyields] at hderives
      exact Or.inr ⟨hderives, rfl⟩
  | cons token later =>
      rw [hyields] at hderives hterminal
      exact Or.inl ⟨hterminal token List.mem_cons_self, _, hderives⟩

/-- What an item calls for can be done in the state of the stack. -/
theorem holds_of_validFor (h : m.Clear method)
    (hlinked : Linked (Automaton.states m.grammar) stack)
    (hvalid : m.grammar.ValidFor (symbolsOf stack) i dot t) :
    m.grammar.Holds ((Automaton.states m.grammar).itemsOf (topState stack)) i dot :=
  (Grammar.holds_iff_viable h.built.ready h.built.collected hlinked.path?).mpr
    hvalid.expects.viable

/-- The complete item of a production calls for its reduction before a terminal it is valid with. -/
theorem actionOn_of_complete (h : m.Clear method) {p : Production (Reduction V C)}
    (hlinked : Linked (Automaton.states m.grammar) stack)
    (hp : m.grammar.production? i = some p) (hi : i ≠ 0)
    (hexpects : m.grammar.Expects (symbolsOf stack) i p.symbols.length t) :
    m.table.actionOn (topState stack) t = some (.reduce i) :=
  h.actionOn_of_expects hp hi hlinked.path? hexpects

/-- Once the first tree behind a dot is on the stack, the trees behind it are followed. -/
theorem Follows.behind (htrees : Follows m trees) {tree : ParseTree} {frame : Frame V}
    {next : Config V C} (hfirst : Quietly m c tree.productions next)
    (hat : At next (frame :: stack) (tree.eval m.grammar context).2
      (ParseTree.yields trees ++ rest))
    (hlinked : Linked (Automaton.states m.grammar) (frame :: stack))
    (hslot : frame.slot = (tree.eval m.grammar context).1)
    (hvalid : m.grammar.ValidFor (symbolsOf stack) i dot (ahead rest))
    (hsymbol : m.grammar.symbolAt i dot = some frame.symbol)
    (hparses : ParseTree.ParsesAll m.grammar trees (m.grammar.rest i (dot + 1)))
    (hsmooth : ParseTree.SmoothAll m.grammar trees (tree.eval m.grammar context).2) :
    Climbs m c stack context rest (tree :: trees) (m.grammar.rest i dot) := by
  have hvalidNext : m.grammar.ValidFor (symbolsOf (frame :: stack)) i (dot + 1) (ahead rest) := by
    rw [symbolsOf_cons]
    exact .read hvalid hsymbol
  obtain ⟨c', frames, hquietly, hat', hlinked', hsymbols, hslots⟩ :=
    htrees hat hlinked hvalidNext hparses hsmooth
  refine ⟨c', frames ++ [frame], hfirst.trans hquietly, ?_, ?_, ?_, ?_⟩
  · rw [List.append_assoc]
    exact hat'
  · rwa [List.append_assoc]
  · rw [symbolsOf_append, hsymbols, Grammar.rest_of_symbolAt hsymbol]
    rfl
  · rw [ParseTree.evalAll_cons, ← hslots, ← hslot]
    simp

/-- A leaf is shifted, and what comes behind it follows. -/
theorem Follows.leaf (h : m.Clear method) (token : Token) (htrees : Follows m trees) :
    Follows m (.leaf token :: trees) := by
  intro c stack context rest i dot hat hlinked hvalid hparses hsmooth
  obtain ⟨symbol, symbols, hrest, ⟨rfl, hterminal⟩, hparsesRest⟩ := hparses
  obtain ⟨hsymbol, hbehind⟩ := Grammar.symbolAt_of_rest hrest
  have hheld := holds_of_validFor h hlinked hvalid
  obtain ⟨next, hgoto, _⟩ := h.built.collected.exists_goto? h.built.ready hheld hsymbol
  have haction := h.actionOn (.shift hheld hsymbol hterminal hgoto)
  obtain ⟨hquiet, hatNext⟩ := hat.shift haction
  exact htrees.behind hquiet.quietly hatNext (linked_shift h.built hlinked haction).2 rfl hvalid
    hsymbol (hbehind ▸ hparsesRest) hsmooth.2

/-- Where the first item of a production is valid, its right side is followed, then it is
reduced. -/
theorem Follows.production (h : m.Clear method) {children : List ParseTree}
    (hchildren : Follows m children) {p : Production (Reduction V C)}
    (hp : m.grammar.production? i = some p) (hi : i ≠ 0)
    (hat : At c stack context (ParseTree.yields children ++ rest))
    (hlinked : Linked (Automaton.states m.grammar) stack)
    (hvalid : m.grammar.ValidFor (symbolsOf stack) i 0 (ahead rest))
    (hparses : ParseTree.ParsesAll m.grammar children p.symbols)
    (hsmooth : (ParseTree.node i children).Smooth m.grammar context) :
    ∃ c' frame, frame.symbol = .nonterminal p.name ∧
      frame.slot = ((ParseTree.node i children).eval m.grammar context).1 ∧
      Quietly m c (ParseTree.node i children).productions c' ∧
      At c' (frame :: stack) ((ParseTree.node i children).eval m.grammar context).2 rest ∧
      Linked (Automaton.states m.grammar) (frame :: stack) := by
  have hwell := h.built.ready.wellFormed
  have hsymbols : m.grammar.rest i 0 = p.symbols := Grammar.rest_of_production? hp
  obtain ⟨inner, above, hquietly, hatTop, hlinkedTop, habove, hslots⟩ :=
    hchildren hat hlinked hvalid (hsymbols ▸ hparses) hsmooth.1
  rw [hsymbols] at habove
  -- With the right side on the stack the production is reduced.
  have hexpects := hvalid.expects.along hp (Nat.le_refl _)
  have hstring : symbolsOf stack ++ p.symbols = symbolsOf (above ++ stack) := by
    rw [symbolsOf_append, habove]
  rw [Grammar.seen_length hp, hstring] at hexpects
  have haction := actionOn_of_complete h hlinkedTop hp hi hexpects
  obtain ⟨p', next, hp', hle, _, hgoto⟩ := exists_production?_of_reduce h.built hlinkedTop haction
  cases hp.symm.trans hp'
  have hlength : above.length = p.length := by
    rw [← symbolsOf_length, habove]
    rfl
  have hbelow : (above ++ stack).drop p.length = stack := List.drop_left' hlength
  have htop : ((above ++ stack).take p.length).reverse.map Frame.slot =
      (ParseTree.evalAll m.grammar children context).1 := by
    rw [List.take_left' hlength, hslots]
  have hreduced : p.reduced (((above ++ stack).take p.length).reverse.map Frame.slot)
      (ParseTree.evalAll m.grammar children context).2 =
      (ParseTree.node i children).eval m.grammar context := by
    rw [htop, ParseTree.eval_node hp]
  have hslot : ((ParseTree.node i children).eval m.grammar context).1.token? = none := by
    rw [← hreduced]
    exact p.reduced_token? _ _
  obtain ⟨hquiet, hatNext⟩ :=
    hatTop.reduce haction hp (hwell.index hp) hle (htop ▸ hsmooth.2 p hp) hgoto hreduced
  rw [hbelow] at hatNext hgoto
  exact ⟨_, _, rfl, rfl, hquietly.trans hquiet.quietly, hatNext,
    linked_goto h.built hlinked hgoto hslot⟩

/-- The children of a node are followed, then its production is reduced, and what comes behind it
follows. -/
theorem Follows.node (h : m.Clear method) (j : Nat) {children : List ParseTree}
    (hchildren : Follows m children) (htrees : Follows m trees) :
    Follows m (.node j children :: trees) := by
  intro c stack context rest i dot hat hlinked hvalid hparses hsmooth
  obtain ⟨symbol, symbols, hrest, ⟨p, hp, rfl, hparsesInner⟩, hparsesRest⟩ := hparses
  obtain ⟨hsymbol, hbehind⟩ := Grammar.symbolAt_of_rest hrest
  have hwell := h.built.ready.wellFormed
  have hj := Grammar.ne_zero_of_knows hwell hp (Lookahead.knows_of_symbolAt hwell hsymbol)
  -- The first item of the production is valid with the token behind the children.
  have hbegins := beginsWith_ahead hparsesRest hvalid.expects.isTerminal
  rw [← hbehind] at hbegins
  have hvalidInner : m.grammar.ValidFor (symbolsOf stack) j 0
      (ahead (ParseTree.yields trees ++ rest)) :=
    .expand hvalid hsymbol (hwell.rules.mpr ⟨hj, p, hp, rfl⟩) hbegins
  have hatInner : At c stack context
      (ParseTree.yields children ++ (ParseTree.yields trees ++ rest)) := by
    rw [← List.append_assoc]
    exact hat
  obtain ⟨next, frame, hframe, hslot, hquietly, hatNext, hlinkedNext⟩ :=
    hchildren.production h hp hj hatInner hlinked hvalidInner hparsesInner hsmooth.1
  exact htrees.behind hquietly hatNext hlinkedNext hslot hvalid (hframe ▸ hsymbol)
    (hbehind ▸ hparsesRest) hsmooth.2

/-- A run follows all trees. -/
theorem follows (h : m.Clear method) (trees : List ParseTree) : Follows m trees := by
  induction trees using ParseTree.forest_induction with
  | hnil =>
      intro c stack context rest i dot hat hlinked _ hparses _
      have hnone : m.grammar.rest i dot = [] := hparses
      exact ⟨c, [], .refl, hat, hlinked, hnone.symm, rfl⟩
  | hleaf token trees ih => exact Follows.leaf h token ih
  | hnode i children trees ihchildren ihtrees => exact Follows.node h i ihchildren ihtrees

/-! ## Sentences -/

/-- Trees of a grammar without the end of input on right sides have no leaf for it either. -/
theorem ne_endOfInput_of_parsesAll {α : Type} {g : Grammar α} (hends : Table.EndsNowhere g)
    (h : ParseTree.ParsesAll g trees symbols) (hsymbols : .endOfInput ∉ symbols) :
    ∀ token ∈ ParseTree.yields trees, token.kind ≠ .endOfInput := by
  induction trees using ParseTree.forest_induction generalizing symbols with
  | hnil => exact fun token hmem => absurd hmem List.not_mem_nil
  | hleaf token trees ih =>
      obtain ⟨symbol, rest, rfl, ⟨hkind, _⟩, htrees⟩ := h
      rw [List.mem_cons, not_or] at hsymbols
      refine List.forall_mem_cons.mpr ⟨fun hsame => hsymbols.1 ?_, ih htrees hsymbols.2⟩
      rw [← hkind, hsame]
  | hnode i children trees ihchildren ihtrees =>
      obtain ⟨symbol, rest, rfl, ⟨p, hp, rfl, hchildren⟩, htrees⟩ := h
      rw [List.mem_cons, not_or] at hsymbols
      intro token hmem
      rcases List.mem_append.mp hmem with hmem | hmem
      · exact ihchildren hchildren (hends hp) token hmem
      · exact ihtrees htrees hsymbols.2 token hmem

/-- With the start symbol alone on the stack the input is accepted at its end. -/
theorem actionOn_of_start (h : m.Clear method) {start : String}
    (hstart : m.grammar.start = some start)
    (hlinked : Linked (Automaton.states m.grammar) stack)
    (hsymbols : symbolsOf stack = [.nonterminal start]) :
    m.table.actionOn (topState stack) .endOfInput = some .accept := by
  obtain ⟨hsymbol, hend⟩ :=
    Grammar.symbolAt_of_rest (h.built.ready.wellFormed.rest_zero hstart)
  have hnone : m.grammar.symbolAt 0 1 = none := by
    rw [Grammar.symbolAt_eq_head?, hend, List.head?_nil]
  refine h.actionOn (.accept ?_ hnone)
  refine (Grammar.holds_iff_viable h.built.ready h.built.collected hlinked.path?).mpr ?_
  rw [hsymbols]
  exact .read .start hsymbol

/-- A run that accepts in the step after some quiet ones. -/
theorem Quietly.accept (h : Quietly m c is c') (hat : At c' stack context [])
    (haction : m.table.actionOn (topState stack) .endOfInput = some .accept) :
    ∃ fuel, (run m fuel c).1 = .accepted ((stack.head?.map Frame.slot).bind Slot.value?) ∧
      (run m fuel c).2.context = context ∧ Errorless m fuel c ∧ reductions m fuel c = is := by
  obtain ⟨hstatus, hcontext, herrorless, hreductions⟩ := hat.accept haction
  obtain ⟨haccepted, hevents⟩ := run_succ_of_accepted hstatus 0
  obtain ⟨k, hk⟩ := h.exists_run
  obtain ⟨hrun, hall, hquiet⟩ := hk 1
  rw [haccepted] at hrun
  refine ⟨k + 1, congrArg Prod.fst hrun, ?_, hquiet ?_, ?_⟩
  · rw [hrun]
    exact hcontext
  · rw [Errorless, hevents]
    exact herrorless
  · rw [hall, reductions, hevents, hreductions, List.append_nil]

/-- A run on the leaves of a tree for the start symbol, which is evaluated without a complaint,
accepts them with the value of the tree, and reduces the productions of the tree in order. -/
theorem exists_run_of_smooth (h : m.Clear method) {start : String}
    (hstart : m.grammar.start = some start) {tree : ParseTree}
    (hparses : tree.Parses m.grammar (.nonterminal start))
    (hsmooth : tree.Smooth m.grammar context) :
    ∃ fuel, (run m fuel { source := tree.yield.map .ok, context }).1 =
        .accepted (tree.eval m.grammar context).1.value? ∧
      (run m fuel { source := tree.yield.map .ok, context }).2.context =
        (tree.eval m.grammar context).2 ∧
      Errorless m fuel { source := tree.yield.map .ok, context } ∧
      reductions m fuel { source := tree.yield.map .ok, context } = tree.productions := by
  have hrest := h.built.ready.wellFormed.rest_zero hstart
  have hforest : ParseTree.ParsesAll m.grammar [tree] (m.grammar.rest 0 0) := by
    rw [hrest]
    exact ParseTree.parsesAll_singleton.mpr hparses
  have hplain : ∀ token ∈ tree.yield, token.kind ≠ .endOfInput := by
    have hall := ne_endOfInput_of_parsesAll h.ends hforest (by rw [hrest]; simp [Symbol.endOfInput])
    rwa [ParseTree.yields_singleton] at hall
  have hat : At ({ source := tree.yield.map .ok, context } : Config V C) [] context
      (ParseTree.yields [tree] ++ []) := by
    rw [ParseTree.yields_singleton, List.append_nil]
    exact at_start hplain
  -- Production 0 calls for the tree, before the end of input.
  obtain ⟨c', frames, hquietly, hat', hlinked, hsymbols, hslots⟩ :=
    follows h [tree] hat .nil .start hforest (ParseTree.smoothAll_singleton.mpr hsmooth)
  rw [List.append_nil] at hat' hlinked
  rw [ParseTree.productionsOf_singleton] at hquietly
  rw [ParseTree.evalAll_singleton] at hat' hslots
  obtain ⟨frame, hframe⟩ : ∃ frame, frames = [frame] := by
    refine List.length_eq_one_iff.mp ?_
    rw [← symbolsOf_length, hsymbols, hrest]
    rfl
  subst hframe
  have hslot : frame.slot = (tree.eval m.grammar context).1 := List.singleton_inj.mp hslots
  rw [← hslot]
  exact hquietly.accept hat' (actionOn_of_start h hstart hlinked (hsymbols.trans hrest))

/-- The same where no reduction complains at all. -/
theorem exists_run_of_tree (h : m.Plain method) {start : String}
    (hstart : m.grammar.start = some start) {tree : ParseTree}
    (hparses : tree.Parses m.grammar (.nonterminal start)) (context : C) :
    ∃ fuel value, (run m fuel { source := tree.yield.map .ok, context }).1 = .accepted value ∧
      Errorless m fuel { source := tree.yield.map .ok, context } ∧
      reductions m fuel { source := tree.yield.map .ok, context } = tree.productions := by
  have hsmooth := h.unfaulting.smooth context (ParseTree.parsesAll_singleton.mpr hparses)
    fun _ _ => trivial
  obtain ⟨fuel, haccepted, _, hrest⟩ :=
    exists_run_of_smooth h.clear hstart hparses (ParseTree.smoothAll_singleton.mp hsmooth)
  exact ⟨fuel, _, haccepted, hrest⟩

/-- A run that has accepted its input at two counts of steps has reduced the same productions. -/
theorem reductions_eq_of_accepted {value value' : Option V} {fuel' : Nat}
    (h : (run m fuel c).1 = .accepted value) (h' : (run m fuel' c).1 = .accepted value') :
    reductions m fuel c = reductions m fuel' c := by
  have hsame := events_add_of_accepted h fuel'
  rw [Nat.add_comm, events_add_of_accepted h' fuel] at hsame
  rw [reductions, reductions, hsame]

/-- Trees for one symbol are one tree. -/
theorem eq_singleton_of_parsesAll {α : Type} {g : Grammar α}
    (h : ParseTree.ParsesAll g trees [symbol]) :
    ∃ tree : ParseTree, trees = [tree] ∧ tree.Parses g symbol := by
  obtain ⟨tree, rfl⟩ := List.length_eq_one_iff.mp h.length_eq
  exact ⟨tree, rfl, ParseTree.parsesAll_singleton.mp h⟩

/-- With a table without conflicts, of a grammar without precedences and without the end of input on
right sides, a run accepts every sentence without an error, and the only rightmost derivation of the
sentence is that of the reductions of the run backwards. -/
theorem accepts_sentence (hbuilt : m.Built method) (hprecedence : m.grammar.precedence.keys = [])
    (hends : Table.EndsNowhere m.grammar) (hconflicts : m.table.conflicts = [])
    (hunfaulting : m.Unfaulting) {start : String} (hstart : m.grammar.start = some start)
    (hsentence : m.grammar.Sentence start (tokens.map Token.kind)) (context : C) :
    ∃ fuel value, (run m fuel { source := tokens.map .ok, context }).1 = .accepted value ∧
      Errorless m fuel { source := tokens.map .ok, context } ∧
      ∀ is, m.grammar.Rightmost [.nonterminal start] is (tokens.map Token.kind) ↔
        is = (reductions m fuel { source := tokens.map .ok, context }).reverse := by
  have h : m.Plain method := ⟨hbuilt, hprecedence, hends, hconflicts, hunfaulting⟩
  have hterminal : ∀ token ∈ tokens, token.kind.isTerminal = true := fun token hmem =>
    hsentence.isTerminal _ (List.mem_map_of_mem hmem)
  -- The run that follows one tree of the sentence is that of all its trees.
  obtain ⟨trees, hforest, hyields⟩ :=
    ParseTree.exists_parsesAll_of_derives hsentence.derives hterminal
  obtain ⟨tree, rfl, hparses⟩ := eq_singleton_of_parsesAll hforest
  rw [ParseTree.yields_singleton] at hyields
  obtain ⟨fuel, value, haccepted, herrorless, hreductions⟩ :=
    exists_run_of_tree h hstart hparses context
  rw [hyields] at haccepted herrorless hreductions
  refine ⟨fuel, value, haccepted, herrorless, fun is => ⟨fun hright => ?_, ?_⟩⟩
  · -- The tree of the derivation is followed by the same run.
    obtain ⟨others, hothers, hyields', hproductions⟩ :=
      ParseTree.exists_parsesAll_of_rightmost hright hterminal
    obtain ⟨other, rfl, hparses'⟩ := eq_singleton_of_parsesAll hothers
    rw [ParseTree.yields_singleton] at hyields'
    obtain ⟨fuel', value', haccepted', _, hreductions'⟩ :=
      exists_run_of_tree h hstart hparses' context
    rw [hyields'] at haccepted' hreductions'
    rw [reductions_eq_of_accepted haccepted haccepted', hreductions',
      ← ParseTree.productionsOf_singleton, hproductions, List.reverse_reverse]
  · rintro rfl
    have hright := hforest.rightmost
    rwa [ParseTree.yields_singleton, ParseTree.productionsOf_singleton, hyields,
      ← hreductions] at hright

/-- A pair of parentheses is accepted by the table with FOLLOW sets. -/
theorem accepts_parentheses :
    ∃ fuel value, (run (Machine.nesting .slr) fuel
        { source := ['(', ')'].map fun c => .ok (Machine.parenthesis c), context := 0 }).1 =
          .accepted value ∧
      Errorless (Machine.nesting .slr) fuel
        { source := ['(', ')'].map fun c => .ok (Machine.parenthesis c), context := 0 } ∧
      ∀ is, (Machine.nesting .slr).grammar.Rightmost [.nonterminal "list"] is
          (['(', ')'].map Symbol.literal) ↔
        is = (reductions (Machine.nesting .slr) fuel
          { source := ['(', ')'].map fun c => .ok (Machine.parenthesis c),
            context := 0 }).reverse := by
  have htree : ParseTree.ParsesAll (Machine.nesting .slr).grammar
      [.node 1 [.leaf (Machine.parenthesis '('), .node 2 [], .leaf (Machine.parenthesis ')')]]
      [.nonterminal "list"] :=
    ⟨_, _, rfl, ⟨_, rfl, rfl, _, _, rfl, ⟨rfl, rfl⟩, _, _, rfl, ⟨_, rfl, rfl, rfl⟩, _, _, rfl,
      ⟨rfl, rfl⟩, rfl⟩, rfl⟩
  exact accepts_sentence (Machine.built_nesting .slr) (by decide +kernel)
    (Machine.endsNowhere_nesting .slr) (by decide +kernel) (Machine.unfaulting_nesting .slr) rfl
    ⟨htree.derives, List.forall_mem_map.mpr htree.isTerminal⟩ 0

end Engine

end ShiftReduce
