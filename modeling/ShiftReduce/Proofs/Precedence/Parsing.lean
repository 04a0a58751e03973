import ShiftReduce.Proofs.Engine.Moves
import ShiftReduce.Proofs.Precedence.Grouping
import ShiftReduce.Proofs.Precedence.Operators

/-!
# Runs on operators

A machine with the table of binary operators groups as `Pending.group` does: before an operator it
reduces what that puts together, and where two operators do not group there is an error. So it
accepts a line of numbers and operators exactly when there is a grouping that is well grouped, and
builds that one. Read `run_of_wellGrouped` and `error_of_not_wellGrouped` first.
-/

namespace ShiftReduce

open Grammar Engine

variable {V C : Type} {m : Machine V C} {method : Method} {ops γ δ : List Symbol}
  {prec : Symbol → Precedence} {i : Nat} {op t : Symbol} {p : Production (Reduction V C)}
  {tokens rest : List Token} {context : C} {first next : Token} {more : List (Token × Token)}
  {tree found : Grouping} {pending : Pending}

/-! ## Actions after a string -/

section Actions

variable (hbuilt : m.Built method) (h : m.grammar.Operators ops prec)

include hbuilt

/-- Where an item before a terminal is valid, the terminal may be shifted. -/
theorem exists_proposed_shift {dot : Nat} (hitem : m.grammar.Viable γ i dot)
    (hsymbol : m.grammar.symbolAt i dot = some t) (hterminal : t.isTerminal = true) :
    ∃ q j, (Automaton.states m.grammar).path? 0 γ = some q ∧
      Table.Proposed m.grammar (Automaton.states m.grammar) method q t (.shift j) := by
  obtain ⟨q, hpath, hheld⟩ := hitem.exists_path? hbuilt.ready hbuilt.collected
  obtain ⟨j, hgoto, _⟩ := hbuilt.collected.exists_goto? hbuilt.ready hheld hsymbol
  exact ⟨q, j, hpath, .shift hheld hsymbol hterminal hgoto⟩

theorem actionAfter_eq {q : Nat} (hpath : (Automaton.states m.grammar).path? 0 γ = some q) :
    m.actionAfter γ t =
      (Table.ofStates m.grammar (Automaton.states m.grammar) method).actionOn q t := by
  rw [Machine.actionAfter, hpath, hbuilt.table_eq]
  rfl

include h

/-- Where a terminal is shifted and nothing is reduced, the shift is the action. -/
theorem actionAfter_of_shift {q j : Nat} (hpath : (Automaton.states m.grammar).path? 0 γ = some q)
    (hshift : Table.Proposed m.grammar (Automaton.states m.grammar) method q t (.shift j))
    (hreduce : ∀ k,
      ¬ Table.Proposed m.grammar (Automaton.states m.grammar) method q t (.reduce k))
    (ht : t ≠ .endOfInput) : m.actionAfter γ t = some (.shift j) := by
  have hready := hbuilt.ready
  have hs := hbuilt.collected
  rw [actionAfter_eq hbuilt hpath]
  refine Table.actionOn_of_only hready hs hshift fun other hother => ?_
  cases other with
  | accept => exact absurd (h.of_accept hready hs hpath hother).2 ht
  | reduce k => exact absurd hother (hreduce k)
  | shift k => exact congrArg Action.shift (h.shift_unique hready hs hpath hother hshift)

/-- Behind operands with operators and a right side its reduction is called for. -/
theorem exists_proposed_reduce (hstem : Stem ops δ) (ht : t = .endOfInput ∨ t ∈ ops) (hi : i ≠ 0)
    (hp : m.grammar.production? i = some p) :
    ∃ q, (Automaton.states m.grammar).path? 0 (δ ++ p.symbols) = some q ∧
      Table.Proposed m.grammar (Automaton.states m.grammar) method q t (.reduce i) := by
  have hexpects := h.expects_of_stem hbuilt.ready.wellFormed hstem hi hp ht
  have hcomplete := hexpects.along hp (Nat.le_refl _)
  rw [seen_length hp] at hcomplete
  obtain ⟨q, hpath, _⟩ := hcomplete.viable.exists_path? hbuilt.ready hbuilt.collected
  exact ⟨q, hpath,
    Table.proposed_of_expects hbuilt.prepared hbuilt.collected hp hi hpath hcomplete⟩

/-- Where a production is reduced and nothing is shifted, the reduction is the action. -/
theorem actionAfter_of_reduce {q : Nat} (hpath : (Automaton.states m.grammar).path? 0 γ = some q)
    (hreduce : Table.Proposed m.grammar (Automaton.states m.grammar) method q t (.reduce i))
    (hshift : ∀ k, ¬ Table.Proposed m.grammar (Automaton.states m.grammar) method q t (.shift k)) :
    m.actionAfter γ t = some (.reduce i) := by
  have hready := hbuilt.ready
  have hs := hbuilt.collected
  rw [actionAfter_eq hbuilt hpath]
  refine Table.actionOn_of_only hready hs hreduce fun other hother => ?_
  cases other with
  | accept =>
      obtain ⟨rfl, _⟩ := h.of_accept hready hs hpath hother
      exact absurd hreduce (h.not_reduce_operand hready hs hpath)
  | reduce k =>
      exact congrArg Action.reduce (h.reduce_unique hready hs hpath hother hreduce)
  | shift k => exact absurd hother (hshift k)

/-- Behind operands with operators a number is shifted. -/
theorem actionAfter_numeral (hstem : Stem ops γ) :
    ∃ j, m.actionAfter γ numeral = some (.shift j) := by
  have hready := hbuilt.ready
  obtain ⟨i, p, hi, hp, hsymbols⟩ := h.number
  have hsymbol : m.grammar.symbolAt i 0 = some numeral := by
    rw [symbolAt_of_production? hp, hsymbols]
    rfl
  obtain ⟨q, j, hpath, hshift⟩ :=
    exists_proposed_shift hbuilt (h.viable_of_stem hready.wellFormed hstem hi hp) hsymbol rfl
  refine ⟨j, actionAfter_of_shift hbuilt h hpath hshift (fun k hk => ?_) (by decide)⟩
  obtain ⟨hk, p', δ, hp', _, rfl⟩ := h.of_reduce hready hbuilt.collected hpath hk
  obtain ⟨front, last, hfront, hlast⟩ := h.symbols_eq_concat hk hp'
  rw [hfront, ← List.append_assoc] at hstem
  exact hstem.ne_concat hlast rfl

/-- Behind one operand an operator is shifted. -/
theorem actionAfter_first (hop : op ∈ ops) :
    ∃ j, m.actionAfter [operand] op = some (.shift j) := by
  have hready := hbuilt.ready
  obtain ⟨hterminal, _, hend⟩ := h.terminal op hop
  obtain ⟨k, hitem, hsymbol⟩ := h.viable_operator hready.wellFormed .nil hop
  obtain ⟨q, j, hpath, hshift⟩ := exists_proposed_shift hbuilt hitem hsymbol hterminal
  exact ⟨j, actionAfter_of_shift hbuilt h hpath hshift
    (fun k => h.not_reduce_operand hready hbuilt.collected hpath) hend⟩

/-- Behind one operand the input is accepted at its end. -/
theorem actionAfter_operand : m.actionAfter [operand] .endOfInput = some .accept := by
  have hready := hbuilt.ready
  have hs := hbuilt.collected
  obtain ⟨hsymbol, hend⟩ := symbolAt_of_rest (hready.wellFormed.rest_zero h.start)
  have hnone : m.grammar.symbolAt 0 1 = none := by
    rw [symbolAt_eq_head?, hend, List.head?_nil]
  have hitem : m.grammar.Viable [operand] 0 1 := .read .start hsymbol
  obtain ⟨q, hpath, hheld⟩ := hitem.exists_path? hready hs
  rw [actionAfter_eq hbuilt hpath]
  refine Table.actionOn_of_only hready hs (.accept hheld hnone) fun other hother => ?_
  cases other with
  | accept => rfl
  | reduce k =>
      exact absurd hother (h.not_reduce_operand hready hs hpath)
  | shift k => exact absurd hother (h.not_shift_end hready hs hpath)

/-- A number is an operand before an operator and at the end of input. -/
theorem actionAfter_number (hstem : Stem ops δ) (ht : t = .endOfInput ∨ t ∈ ops) (hi : i ≠ 0)
    (hp : m.grammar.production? i = some p) (hsymbols : p.symbols = [numeral]) :
    m.actionAfter (δ ++ [numeral]) t = some (.reduce i) := by
  have hready := hbuilt.ready
  obtain ⟨q, hpath, hreduce⟩ := exists_proposed_reduce hbuilt h hstem ht hi hp
  rw [hsymbols] at hpath
  refine actionAfter_of_reduce hbuilt h hpath hreduce fun k hk => ?_
  rcases (h.of_shift hready hbuilt.collected hpath hk).2 with
    ⟨_, hstem'⟩ | ⟨_, δ', _, hsame⟩
  · exact hstem'.ne_concat h.numeral_notMem rfl
  · cases (List.append_inj' hsame rfl).2

/-- Two operands with an operator between them are one operand at the end of input. -/
theorem actionAfter_end (hstem : Stem ops δ) (hi : i ≠ 0) (hp : m.grammar.production? i = some p) :
    m.actionAfter (δ ++ p.symbols) .endOfInput = some (.reduce i) := by
  have hready := hbuilt.ready
  obtain ⟨q, hpath, hreduce⟩ := exists_proposed_reduce hbuilt h hstem (Or.inl rfl) hi hp
  exact actionAfter_of_reduce hbuilt h hpath hreduce fun k =>
    h.not_shift_end hready hbuilt.collected hpath

/-- Behind two operands with an operator between them the next operator is shifted, or the one
before is reduced, as their precedences ask for. -/
theorem actionAfter_operator (hstem : Stem ops δ) (hop : op ∈ ops) (ht : t ∈ ops) (hi : i ≠ 0)
    (hp : m.grammar.production? i = some p) (hsymbols : p.symbols = [operand, op, operand]) :
    ∃ j, m.actionAfter (δ ++ [operand, op, operand]) t =
      Table.choose j i ((prec t).resolve (prec op)) := by
  have hready := hbuilt.ready
  have hs := hbuilt.collected
  obtain ⟨q, hpath, hreduce⟩ := exists_proposed_reduce hbuilt h hstem (Or.inr ht) hi hp
  rw [hsymbols] at hpath
  obtain ⟨k, hitem, hsymbol⟩ := h.viable_operator hready.wellFormed (hstem.snoc hop) ht
  rw [List.append_assoc] at hitem
  obtain ⟨q', j, hpath', hshift⟩ :=
    exists_proposed_shift hbuilt hitem hsymbol (h.terminal t ht).1
  cases hpath.symm.trans hpath'
  have hcontest : Table.Contest m.grammar (Automaton.states m.grammar) method q t j i := by
    refine h.contest hready hs hpath (fun haccept => ?_)
      (fun k hk => h.shift_unique hready hs hpath hk hshift)
      fun k hk => h.reduce_unique hready hs hpath hk hreduce
    obtain ⟨hsame, _⟩ := h.of_accept hready hs hpath haccept
    exact h.not_reduce_operand hready hs (hsame ▸ hpath) hreduce
  refine ⟨j, ?_⟩
  rw [actionAfter_eq hbuilt hpath, hcontest.actionOn_of_both hready hs hshift hreduce,
    h.precedenceOf t ht, h.productionPrecedence hi hp hsymbols]

end Actions

/-! ## Trees of groups -/

/-- The number of the production with the given right side. -/
def Grammar.ruleOf {α : Type} (g : Grammar α) (symbols : List Symbol) : Nat :=
  g.productions.findIdx fun p => p.symbols == symbols

/-- The parse tree of a group: an operator stands between its operands. -/
def Grouping.parseTree {α : Type} (g : Grammar α) : Grouping → ParseTree
  | number token => .node (g.ruleOf [token.kind]) [.leaf token]
  | apply left operator right =>
      .node (g.ruleOf [operand, operator.kind, operand])
        [left.parseTree g, .leaf operator, right.parseTree g]

namespace Pending

/-- What stands on the stack for groups that wait. -/
def symbols : Pending → List Symbol
  | [] => []
  | (_, operator) :: below => symbols below ++ [operand, operator.kind]

/-- The trees of groups that wait and of the operators behind them. -/
def trees {α : Type} (g : Grammar α) : Pending → List ParseTree
  | [] => []
  | (left, operator) :: below => trees g below ++ [left.parseTree g, .leaf operator]

/-- Groups wait before operators only. -/
def Before (ops : List Symbol) (pending : Pending) : Prop :=
  ∀ entry ∈ pending, entry.2.kind ∈ ops

theorem Before.stem (h : pending.Before ops) : Stem ops pending.symbols := by
  induction pending with
  | nil => exact .nil
  | cons entry below ih =>
      obtain ⟨hentry, hbelow⟩ := List.forall_mem_cons.mp h
      exact .snoc (ih hbelow) hentry

end Pending

/-- The production of a right side is the only one that has it. -/
theorem Grammar.Operators.ruleOf_eq {α : Type} {g : Grammar α} {p : Production α}
    (h : g.Operators ops prec) (hwell : g.WellFormed) (hi : i ≠ 0)
    (hp : g.production? i = some p) {symbols : List Symbol} (hsymbols : p.symbols = symbols) :
    g.ruleOf symbols = i := by
  subst hsymbols
  have hlt : g.ruleOf p.symbols < g.productions.length :=
    List.findIdx_lt_length_of_exists ⟨p, List.mem_of_getElem? hp, beq_self_eq_true _⟩
  obtain ⟨q, hfound, hsame⟩ : ∃ q, g.production? (g.ruleOf p.symbols) = some q ∧
      q.symbols = p.symbols :=
    ⟨_, List.getElem?_eq_getElem hlt, eq_of_beq (List.findIdx_getElem (w := hlt))⟩
  refine h.unique (fun hzero => ?_) hi hfound hp hsame
  -- the right side of production 0 is an operand
  obtain ⟨zero, hzero', _, _, hsymbols⟩ := hwell.zero
  rw [hzero, hzero'] at hfound
  rw [← Option.some.inj hfound, hsymbols, h.start] at hsame
  rcases (h.rule hi hp).2 with hright | ⟨op, _, hright, _⟩ <;> cases hsame.trans hright

/-! ## Reading a line -/

/-- From the beginning a run has put together a group behind groups that wait. -/
abbrev Gathered (m : Machine V C) (tokens : List Token) (context : C) (pending : Pending)
    (tree : Grouping) (rest : List Token) : Prop :=
  Reached m tokens context (pending.trees m.grammar ++ [tree.parseTree m.grammar])
    (pending.symbols ++ [operand]) rest

/-- An operator that is shifted makes the group before it wait. -/
theorem Gathered.shift {j : Nat} (hbuilt : m.Built method)
    (h : Gathered m tokens context pending tree (next :: rest))
    (haction : m.actionAfter (pending.symbols ++ [operand]) next.kind = some (.shift j)) :
    Reached m tokens context (Pending.trees m.grammar ((tree, next) :: pending))
      (Pending.symbols ((tree, next) :: pending)) rest := by
  have hshift := Reached.shift hbuilt h haction
  rwa [List.append_assoc, List.append_assoc] at hshift

section Runs

variable (hbuilt : m.Built method) (h : m.grammar.Operators ops prec) (hunfaulting : m.Unfaulting)

include hbuilt h hunfaulting

/-- A number that is read becomes an operand. -/
theorem reached_number {number : Token} (hpending : pending.Before ops)
    (hnumber : number.kind = numeral) (hahead : ahead rest = .endOfInput ∨ ahead rest ∈ ops)
    (hreached : Reached m tokens context (pending.trees m.grammar) pending.symbols
      (number :: rest)) : Gathered m tokens context pending (.number number) rest := by
  obtain ⟨j, hshift⟩ := actionAfter_numeral hbuilt h hpending.stem
  obtain ⟨i, p, hi, hp, hsymbols⟩ := h.number
  have hleaf := hreached.shift hbuilt (by rw [hnumber]; exact hshift)
  have hreduce := actionAfter_number hbuilt h hpending.stem hahead hi hp hsymbols
  rw [hnumber, ← hsymbols] at hleaf
  rw [← hsymbols] at hreduce
  have hlength : [ParseTree.leaf number].length = p.length := by
    rw [Production.length, hsymbols]
    rfl
  have hnode := hleaf.reduce hbuilt hunfaulting hp hlength hreduce
  rw [(h.rule hi hp).1] at hnode
  rwa [Gathered, Grouping.parseTree, hnumber, h.ruleOf_eq hbuilt.ready.wellFormed hi hp hsymbols]

/-- An operator that is reduced stands between its operands. -/
theorem reached_apply {left : Grouping} {operator : Token} {below : Pending}
    (hi : i ≠ 0) (hp : m.grammar.production? i = some p)
    (hsymbols : p.symbols = [operand, operator.kind, operand])
    (hreached : Gathered m tokens context ((left, operator) :: below) tree rest)
    (haction : m.actionAfter (below.symbols ++ [operand, operator.kind, operand]) (ahead rest) =
      some (.reduce i)) :
    Gathered m tokens context below (.apply left operator tree) rest := by
  rw [Gathered, Pending.trees, Pending.symbols, List.append_assoc, List.append_assoc] at hreached
  rw [← hsymbols] at haction
  have hstack : [operand, operator.kind] ++ [operand] = p.symbols := hsymbols.symm
  rw [hstack] at hreached
  have hlength : [left.parseTree m.grammar, .leaf operator, tree.parseTree m.grammar].length =
      p.length := by
    rw [Production.length, hsymbols]
    rfl
  have hnode := hreached.reduce hbuilt hunfaulting hp hlength haction
  rw [(h.rule hi hp).1] at hnode
  rwa [Gathered, Grouping.parseTree, h.ruleOf_eq hbuilt.ready.wellFormed hi hp hsymbols]

/-- At the end of input everything that waits is put together. -/
theorem reached_finish (hpending : pending.Before ops)
    (hreached : Gathered m tokens context pending tree []) :
    Reached m tokens context [(pending.finish tree).parseTree m.grammar] [operand] [] := by
  induction pending generalizing tree with
  | nil => exact hreached
  | cons entry below ih =>
      obtain ⟨left, operator⟩ := entry
      obtain ⟨hop, hbelow⟩ : operator.kind ∈ ops ∧ Pending.Before ops below :=
        List.forall_mem_cons.mp hpending
      obtain ⟨i, p, hi, hp, hsymbols⟩ := h.operator _ hop
      have haction := actionAfter_end hbuilt h hbelow.stem hi hp
      rw [hsymbols] at haction
      exact ih hbelow (reached_apply hbuilt h hunfaulting hi hp hsymbols hreached haction)

/-- Before an operator as much is put together as the precedences ask for, and then the operator is
read. Where two operators do not group there is an error. -/
theorem reached_absorb (hpending : pending.Before ops) (hnext : next.kind ∈ ops)
    (hreached : Gathered m tokens context pending tree (next :: rest)) :
    match pending.absorb prec next tree with
    | some (pending', tree') =>
        Pending.Before ops ((tree', next) :: pending') ∧
          Reached m tokens context (Pending.trees m.grammar ((tree', next) :: pending'))
            (Pending.symbols ((tree', next) :: pending')) rest
    | none => Errs m tokens context := by
  induction pending generalizing tree with
  | nil =>
      obtain ⟨j, haction⟩ := actionAfter_first hbuilt h hnext
      exact ⟨List.forall_mem_cons.mpr ⟨hnext, hpending⟩, hreached.shift hbuilt haction⟩
  | cons entry below ih =>
      obtain ⟨left, operator⟩ := entry
      obtain ⟨hop, hbelow⟩ : operator.kind ∈ ops ∧ Pending.Before ops below :=
        List.forall_mem_cons.mp hpending
      obtain ⟨i, p, hi, hp, hsymbols⟩ := h.operator _ hop
      obtain ⟨j, haction⟩ := actionAfter_operator hbuilt h hbelow.stem hop hnext hi hp hsymbols
      have hstack : Pending.symbols ((left, operator) :: below) ++ [operand] =
          Pending.symbols below ++ [operand, operator.kind, operand] := by
        rw [Pending.symbols, List.append_assoc]
        rfl
      rw [Pending.absorb]
      cases hchoice : (prec next.kind).resolve (prec operator.kind) with
      | shift =>
          rw [hchoice, ← hstack] at haction
          exact ⟨List.forall_mem_cons.mpr ⟨hnext, hpending⟩, hreached.shift hbuilt haction⟩
      | reduce =>
          rw [hchoice] at haction
          exact ih hbelow (reached_apply hbuilt h hunfaulting hi hp hsymbols hreached haction)
      | neither =>
          rw [hchoice, ← hstack] at haction
          exact hreached.error haction

/-- Behind groups that wait a run reads a line as `Pending.group` does, or comes to an error. -/
theorem reached_group {number : Token} (hpending : pending.Before ops)
    (hnumber : number.kind = numeral)
    (hmore : ∀ pair ∈ more, pair.1.kind ∈ ops ∧ pair.2.kind = numeral)
    (hreached : Reached m tokens context (pending.trees m.grammar) pending.symbols
      (line number more)) :
    match pending.group prec (.number number) more with
    | some found => Reached m tokens context [found.parseTree m.grammar] [operand] []
    | none => Errs m tokens context := by
  induction more generalizing pending number with
  | nil =>
      exact reached_finish hbuilt h hunfaulting hpending
        (reached_number hbuilt h hunfaulting hpending hnumber (Or.inl rfl) hreached)
  | cons pair more ih =>
      obtain ⟨⟨hop, hnext⟩, hrest⟩ := List.forall_mem_cons.mp hmore
      have habsorb := reached_absorb hbuilt h hunfaulting hpending hop
        (reached_number hbuilt h hunfaulting hpending hnumber (Or.inr hop) hreached)
      rw [Pending.group]
      cases hcase : pending.absorb prec pair.1 (.number number) with
      | none =>
          rw [hcase] at habsorb
          exact habsorb
      | some found =>
          rw [hcase] at habsorb
          exact ih habsorb.1 hnext hrest habsorb.2

end Runs

section Lines

variable (hbuilt : m.Built method) (h : m.grammar.Operators ops prec) (hunfaulting : m.Unfaulting)
  (hfirst : first.kind = numeral)
  (hmore : ∀ pair ∈ more, pair.1.kind ∈ ops ∧ pair.2.kind = numeral)

include hbuilt h hunfaulting hfirst hmore

/-- From the beginning a run reads a line as `Pending.group` does, or comes to an error. -/
theorem reached_line (context : C) :
    match Pending.group prec [] (.number first) more with
    | some found => Reached m (line first more) context [found.parseTree m.grammar] [operand] []
    | none => Errs m (line first more) context := by
  have hplain : ∀ token ∈ line first more, token.kind ≠ .endOfInput := by
    intro token htoken
    rcases List.mem_cons.mp htoken with rfl | hrest
    · rw [hfirst]
      decide
    · obtain ⟨pair, hpair, hmem⟩ := List.mem_flatMap.mp hrest
      obtain ⟨hop, hnumber⟩ := hmore pair hpair
      rcases List.mem_pair.mp hmem with rfl | rfl
      · exact (h.terminal _ hop).2.2
      · rw [hnumber]
        decide
  exact reached_group hbuilt h hunfaulting (fun entry hentry => absurd hentry List.not_mem_nil)
    hfirst hmore (reached_start hplain context)

/-- The grouping that the precedences ask for is what the run builds. -/
theorem run_of_wellGrouped (hlevelled : Levelled prec) (hgrouped : tree.WellGrouped prec)
    (hyield : tree.yield = line first more) (context : C) :
    Builds m (line first more) context operand (tree.parseTree m.grammar) := by
  have hreached := reached_line hbuilt h hunfaulting hfirst hmore context
  rw [(group_eq_some_iff hlevelled).mpr ⟨hgrouped, hyield⟩] at hreached
  exact hreached.accept (actionAfter_operand hbuilt h)

/-- Without such a grouping the run comes to an error. -/
theorem error_of_not_wellGrouped (hlevelled : Levelled prec)
    (hnone : ∀ tree : Grouping, tree.WellGrouped prec → tree.yield ≠ line first more)
    (context : C) : Errs m (line first more) context := by
  have hreached := reached_line hbuilt h hunfaulting hfirst hmore context
  cases hgroup : Pending.group prec [] (.number first) more with
  | none =>
      rw [hgroup] at hreached
      exact hreached
  | some found =>
      obtain ⟨hgrouped, hyield⟩ := (group_eq_some_iff hlevelled).mp hgroup
      exact absurd hyield (hnone found hgrouped)

end Lines

end ShiftReduce
