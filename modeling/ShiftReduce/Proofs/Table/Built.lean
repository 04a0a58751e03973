import ShiftReduce.Parser
import ShiftReduce.Proofs.Grammar.Parentheses
import ShiftReduce.Proofs.Grammar.Remembered
import ShiftReduce.Proofs.Table.Actions
import ShiftReduce.Proofs.Table.Clashes

/-!
# Machines with a table that was built

`Machine.Built` says that a machine drives a grammar that declarations can make with the table built
from it. Building leaves the grammar with its items and a start symbol, and the table is that of
the grammar's states.
-/

namespace ShiftReduce

variable {α V C : Type} {g final : Grammar α} {table : Table} {method : Method}

namespace Grammar

/-- Choosing the default start symbol leaves a start symbol, unless it fails. -/
theorem exists_start_of_ensureStart (h : g.ensureStart = (.ok (), final)) :
    ∃ start, final.start = some start := by
  unfold ensureStart at h
  split at h
  · rename_i start hstart
    cases h
    exact ⟨start, hstart⟩
  · unfold setStart at h
    split at h
    · cases h
    · dsimp only at h
      split at h
      · cases h
        exact ⟨_, rfl⟩
      · cases h

theorem made_ensureStart (hmade : g.Made) : g.ensureStart.2.Made := by
  unfold ensureStart
  split
  · exact hmade
  · exact hmade.setStart none

/-- Filling the arena gives production 0 an item at least. -/
theorem buildItems_items_ne_nil (h : g.WellFormed) : g.buildItems.items ≠ [] := by
  obtain ⟨zero, hzero, _⟩ := h.buildItems.zero
  have hitem := (arena_buildItems g).item hzero (Nat.zero_le _)
  intro hnil
  rw [item?, hnil] at hitem
  cases hitem

/-- Preparing a grammar goes through choosing a start symbol, building the items and computing the
FIRST and FOLLOW sets. -/
theorem prepare_spec (h : g.prepare = (.ok (), final)) :
    ∃ first follow started, g.ensureStart = (.ok (), started) ∧
      started.buildItems.computeFirst = (.ok first, started.buildItems.computeFirst.2) ∧
      started.buildItems.computeFirst.2.computeFollow started.start = (.ok follow, final) := by
  unfold prepare at h
  split at h
  · cases h
  · rename_i started hstarted
    split at h
    · cases h
    · rename_i computed hfirst
      split at h
      · cases h
      · rename_i follow hfollow
        cases h
        have hstart : computed.start = started.start := by
          obtain ⟨first, hgrammar⟩ := computeFirst_grammar started.buildItems
          rw [hfirst] at hgrammar
          rw [show computed = _ from hgrammar]
          rfl
        obtain rfl : started.buildItems.computeFirst.2 = computed := by rw [hfirst]
        rw [hstart] at hfollow
        exact ⟨_, _, started, hstarted, hfirst, hfollow⟩

/-- What building a table leaves behind. -/
structure Prepared (g : Grammar α) : Prop where
  made : g.Made
  items : g.items ≠ []
  start : ∃ start, g.start = some start
  follow : g.followStart = g.start

/-- A grammar is prepared when a table is built from it, and the table is that of its states. -/
theorem buildTable_spec (hmade : g.Made) (h : g.buildTable method = (.ok table, final)) :
    final.Prepared ∧ table = Table.ofStates final (Automaton.states final) method := by
  rw [buildTable_eq] at h
  split at h
  · cases h
  · rename_i prepared hprepare
    cases h
    refine ⟨?_, rfl⟩
    obtain ⟨first, follow, started, hstarted, _, hfollow⟩ := prepare_spec hprepare
    have hstartedMade : started.Made := by
      have := made_ensureStart hmade
      rwa [hstarted] at this
    have hready := hstartedMade.buildItems.computeFirst.computeFollow started.start
    rw [hfollow] at hready
    -- computing the sets leaves the start symbol and the items alone
    obtain ⟨f, l, o, hsame⟩ := computeFollow_grammar started.buildItems.computeFirst.2 started.start
    obtain ⟨f', hsame'⟩ := computeFirst_grammar started.buildItems
    rw [hfollow, hsame'] at hsame
    obtain ⟨start, hstart⟩ := exists_start_of_ensureStart hstarted
    have hremembers := hstartedMade.buildItems.computeFirst.remembers
    have hkept : final.start = some start := by
      rw [show final = _ from hsame]
      exact hstart
    rw [hstart] at hfollow
    refine ⟨hready, ?_, ⟨start, hkept⟩, ?_⟩
    · rw [show final = _ from hsame]
      exact buildItems_items_ne_nil hstartedMade.wellFormed
    · rw [hkept]
      exact (computeFollow_spec hremembers hfollow).2

end Grammar

/-- A machine whose table was built from a grammar that declarations can make; its own grammar is
what building left. -/
def Machine.Built (m : Machine V C) (method : Method) : Prop :=
  ∃ g : Grammar (Reduction V C), g.Made ∧ g.buildTable method = (.ok m.table, m.grammar)

namespace Machine.Built

variable {m : Machine V C}

theorem prepared (h : m.Built method) : m.grammar.Prepared := by
  obtain ⟨g, hmade, hbuild⟩ := h
  exact (Grammar.buildTable_spec hmade hbuild).1

theorem table_eq (h : m.Built method) :
    m.table = Table.ofStates m.grammar (Automaton.states m.grammar) method := by
  obtain ⟨g, hmade, hbuild⟩ := h
  exact (Grammar.buildTable_spec hmade hbuild).2

theorem ready (h : m.Built method) : m.grammar.Ready :=
  h.prepared.made.ready h.prepared.items

theorem collected (h : m.Built method) : Collected m.grammar (Automaton.states m.grammar) :=
  h.ready.collection

/-- Every action is called for by an item of the state. -/
theorem proposed (h : m.Built method) {q : Nat} {symbol : Symbol} {action : Action}
    (haction : m.table.actionOn q symbol = some action) :
    Table.Proposed m.grammar (Automaton.states m.grammar) method q symbol action := by
  rw [h.table_eq] at haction
  exact Table.proposed_of_actionOn h.ready haction

/-- The gotos are the transitions of the automaton. -/
theorem gotoOn (h : m.Built method) (q : Nat) (name : String) :
    m.table.gotoOn q name = (Automaton.states m.grammar).goto? q (.nonterminal name) := by
  rw [h.table_eq]
  exact Table.gotoOn_eq h.ready h.collected

end Machine.Built

/-! ## The machine of nested parentheses -/

namespace Machine

/-- A machine is built when its grammar could be prepared. -/
theorem built_of_prepare {g : Grammar (Reduction V C)} (hmade : g.Made)
    (hprepare : g.prepare.1 = .ok ()) (handler : Option (Handler C)) :
    Built ⟨g.prepare.2, Table.ofStates g.prepare.2 (Automaton.states g.prepare.2) method, handler⟩
      method := by
  exact ⟨g, hmade, Grammar.buildTable_of_prepare (Prod.ext hprepare rfl)⟩

/-- A reduction that counts in the context and gives the number of its symbols. -/
def tally : Reducer Nat Nat Nat := do
  let s ← get
  set { s with context := s.context + 1 }
  return s.rhs.length

/-- The machine of nested parentheses, which counts reductions. -/
def nesting (method : Method) : Machine Nat Nat :=
  let g := (Grammar.parentheses (some tally)).prepare.2
  { grammar := g, table := Table.ofStates g (Automaton.states g) method }

theorem prepare_parentheses : (Grammar.parentheses (some tally)).prepare.1 = .ok () := rfl

theorem built_nesting (method : Method) : (nesting method).Built method :=
  built_of_prepare (Grammar.made_parentheses (some tally)) prepare_parentheses none

theorem endsNowhere_nesting (method : Method) :
    Table.EndsNowhere (nesting method).grammar := by
  have hall : ∀ p ∈ (Grammar.parentheses (some tally)).prepare.2.productions,
      Symbol.endOfInput ∉ p.symbols := by decide +kernel
  intro i p hp
  exact hall p (List.mem_of_getElem? hp)

/-- The token of a parenthesis. -/
def parenthesis (c : Char) : Token :=
  ⟨.literal c, String.ofList [c], 0, 1⟩

end Machine

end ShiftReduce
