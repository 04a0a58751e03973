import ShiftReduce.Proofs.Engine.Completeness
import ShiftReduce.Proofs.Engine.Soundness

/-!
# The moves of a run

As long as there is no error, a run can be followed by what it has put together: trees whose symbols
stand on the stack. `Reached` says so, and there is one lemma for each move: a token becomes a leaf,
the last trees become the children of a node, the last tree is accepted, or there is an error.
-/

namespace ShiftReduce

variable {V C : Type} {m : Machine V C} {method : Method} {c c' : Config V C} {context : C}
  {tokens rest : List Token} {token : Token} {tree : ParseTree}
  {trees front children : List ParseTree} {γ δ : List Symbol} {symbol : Symbol} {is : List Nat}
  {i n : Nat}

/-- The action on a terminal in the state that a string leads to. -/
def Machine.actionAfter (m : Machine V C) (γ : List Symbol) (symbol : Symbol) : Option Action :=
  ((Automaton.states m.grammar).path? 0 γ).bind fun q => m.table.actionOn q symbol

namespace Engine

/-- On a stack that follows the automaton the action is the one after its symbols. -/
theorem actionOn_topState {stack : List (Frame V)}
    (h : Linked (Automaton.states m.grammar) stack) :
    m.table.actionOn (topState stack) symbol = m.actionAfter (symbolsOf stack) symbol := by
  rw [Machine.actionAfter, h.path?]
  rfl

/-- From the beginning a run has put together trees without an error: their symbols stand on the
stack, their productions were reduced, and the tokens behind them are still to be read. -/
def Reached (m : Machine V C) (tokens : List Token) (context : C) (trees : List ParseTree)
    (γ : List Symbol) (rest : List Token) : Prop :=
  ∃ c stack now, symbolsOf stack = γ ∧ At c stack now rest ∧
    Quietly m { source := tokens.map .ok, context } (ParseTree.productionsOf trees) c ∧
    Traced m tokens context stack now rest trees

/-- A run that accepts the tree of a symbol without an error: it reduces the productions of the tree
and ends with the value of the tree and the context after evaluating it. -/
def Builds (m : Machine V C) (tokens : List Token) (context : C) (symbol : Symbol)
    (tree : ParseTree) : Prop :=
  tree.Parses m.grammar symbol ∧ tree.yield = tokens ∧
  ∃ fuel slot, (run m fuel { source := tokens.map .ok, context }).1 = .accepted slot.value? ∧
    Errorless m fuel { source := tokens.map .ok, context } ∧
    reductions m fuel { source := tokens.map .ok, context } = tree.productions ∧
    tree.eval m.grammar context =
      (slot, (run m fuel { source := tokens.map .ok, context }).2.context)

/-- A run that comes to an error. -/
def Errs (m : Machine V C) (tokens : List Token) (context : C) : Prop :=
  ∃ fuel, ∃ event ∈ events m fuel { source := tokens.map .ok, context }, event.isError = true

theorem reached_start (hplain : ∀ token ∈ tokens, token.kind ≠ .endOfInput) (context : C) :
    Reached m tokens context [] [] tokens :=
  ⟨_, [], context, rfl, at_start hplain, .refl, traced_start⟩

namespace Reached

/-- A token that is shifted becomes a leaf. -/
theorem shift (hbuilt : m.Built method) (h : Reached m tokens context trees γ (token :: rest))
    (haction : m.actionAfter γ token.kind = some (.shift n)) :
    Reached m tokens context (trees ++ [.leaf token]) (γ ++ [token.kind]) rest := by
  obtain ⟨c, stack, now, rfl, hat, hquietly, htraced⟩ := h
  rw [← actionOn_topState htraced.linked] at haction
  obtain ⟨hquiet, hat'⟩ := hat.shift haction
  refine ⟨_, _, _, symbolsOf_cons, hat', ?_, htraced.shift hbuilt haction⟩
  rw [ParseTree.productionsOf_append]
  exact hquietly.trans hquiet.quietly

/-- A production that is reduced makes the trees of its right side the children of a node. -/
theorem reduce (hbuilt : m.Built method) (hunfaulting : m.Unfaulting)
    {p : Production (Reduction V C)} (hp : m.grammar.production? i = some p)
    (hlength : children.length = p.length)
    (h : Reached m tokens context (front ++ children) (δ ++ p.symbols) rest)
    (haction : m.actionAfter (δ ++ p.symbols) (ahead rest) = some (.reduce i)) :
    Reached m tokens context (front ++ [.node i children]) (δ ++ [.nonterminal p.name]) rest := by
  obtain ⟨c, stack, now, hsymbols, hat, hquietly, htraced⟩ := h
  rw [← hsymbols, ← actionOn_topState htraced.linked] at haction
  obtain ⟨p', next, hp', hfits, htop, hgoto⟩ :=
    exists_production?_of_reduce hbuilt htraced.linked haction
  cases hp.symm.trans hp'
  obtain ⟨hquiet, hat'⟩ := hat.reduce haction hp (hbuilt.ready.wellFormed.index hp) hfits
    (hunfaulting.succeeds hp _ _) hgoto rfl
  obtain ⟨front', children', hsplit, hlength', htraced'⟩ :=
    htraced.reduce hbuilt hp hfits htop hgoto rfl
  obtain ⟨rfl, rfl⟩ := List.append_inj' hsplit (hlength.trans hlength'.symm)
  refine ⟨_, _, _, ?_, hat', ?_, htraced'⟩
  · have hsame : symbolsOf (stack.drop p.length) ++ p.symbols = δ ++ p.symbols := by
      rw [← hsymbols, ← htop, symbolsOf_drop_append_take]
    rw [symbolsOf_cons, List.append_cancel_right hsame]
  · rw [ParseTree.productionsOf_append] at hquietly ⊢
    have hnode : ParseTree.productionsOf [.node i children] =
        ParseTree.productionsOf children ++ [i] := ParseTree.productionsOf_singleton _
    rw [hnode, ← List.append_assoc]
    exact hquietly.trans hquiet.quietly

/-- A tree that is accepted is what the run builds. -/
theorem accept (h : Reached m tokens context [tree] [symbol] [])
    (haction : m.actionAfter [symbol] .endOfInput = some .accept) :
    Builds m tokens context symbol tree := by
  obtain ⟨c, stack, now, hsymbols, hat, hquietly, htraced⟩ := h
  have hparses := htraced.parses
  have hyields := htraced.yields
  rw [hsymbols, ParseTree.parsesAll_singleton] at hparses
  rw [ParseTree.yields_singleton, List.append_nil] at hyields
  refine ⟨hparses, hyields, ?_⟩
  rw [← hsymbols, ← actionOn_topState htraced.linked] at haction
  obtain ⟨hstatus, hnow, herrorless, hreductions⟩ := hat.accept haction
  obtain ⟨haccepted, hevents⟩ := run_succ_of_accepted hstatus 0
  obtain ⟨k, hk⟩ := hquietly.exists_run
  obtain ⟨hrun, hall, hquiet⟩ := hk 1
  -- the stack holds the slot of the tree alone
  have heval := htraced.eval
  rw [ParseTree.evalAll_singleton, Prod.mk.injEq] at heval
  obtain ⟨frame, rfl⟩ : ∃ frame, stack = [frame] := by
    refine List.length_eq_one_iff.mp ?_
    have hone := congrArg List.length heval.1
    simpa using hone.symm
  refine ⟨k + 1, frame.slot, ?_, hquiet ?_, ?_, Prod.ext ?_ ?_⟩
  · rw [hrun, haccepted]
    rfl
  · rw [Errorless, hevents]
    exact herrorless
  · rw [hall, reductions, hevents, hreductions, List.append_nil,
      ParseTree.productionsOf_singleton]
  · exact List.singleton_inj.mp heval.1
  · rw [hrun, haccepted]
    exact heval.2.trans hnow.symm

end Reached

/-- What happens after some steps happens in the run. -/
theorem Quietly.exists_mem_events (h : Quietly m c is c') :
    ∃ k, ∀ fuel, ∀ event ∈ events m fuel c', event ∈ events m (k + fuel) c := by
  induction h with
  | refl => exact ⟨0, fun fuel event hmem => by rwa [Nat.zero_add]⟩
  | @step c c' is js hquiet _ ih =>
      obtain ⟨k, hk⟩ := ih
      refine ⟨k + 1, fun fuel event hmem => ?_⟩
      rw [show k + 1 + fuel = k + fuel + 1 by omega, (run_succ hquiet.running (k + fuel)).2]
      exact List.mem_append_right _ (hk fuel event hmem)

/-- A token without an action is an error of the run. -/
theorem Reached.error (h : Reached m tokens context trees γ rest)
    (hnone : m.actionAfter γ (ahead rest) = none) : Errs m tokens context := by
  obtain ⟨c, stack, now, rfl, hat, hquietly, htraced⟩ := h
  rw [← actionOn_topState htraced.linked] at hnone
  obtain ⟨event, hmem, herror⟩ := exists_isError_of_actionOn (m := m) hat hnone
  obtain ⟨k, hk⟩ := hquietly.exists_mem_events
  exact ⟨k + 1, event, hk 1 event (mem_events_of_mem_step 0 hmem), herror⟩

end Engine

end ShiftReduce
