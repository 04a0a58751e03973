import ShiftReduce.Proofs.Table.Built
import ShiftReduce.Proofs.Table.Settled
import Mathlib.Order.Bounds.Basic

/-!
# Which action a cell ends with

Where all the productions that compete with a shift compare with the terminal in the same way, the
order of the items of a state does not matter: the productions that lose leave the shift, those that
tie leave nothing, and of those that win the first declared is reduced. Acceptance stands against
everything. Read `buildTable_decides` first.
-/

namespace ShiftReduce

variable {α : Type} {g final : Grammar α} {s : States} {method : Method}

/-! ## Productions against a terminal -/

namespace Precedence

variable {terminal production : Precedence}

/-- A production loses against a terminal: its level is lower, or they are on one level and it is
right-associative. -/
def Loses (production terminal : Precedence) : Prop :=
  production.level < terminal.level ∨
    production.level = terminal.level ∧ production.assoc = .right

/-- Neither a production nor a terminal wins: they are on one level and it is not associative. -/
def Ties (production terminal : Precedence) : Prop :=
  production.level = terminal.level ∧ production.assoc = .none

/-- A production wins against a terminal: its level is higher, or they are on one level and it is
left-associative. -/
def Wins (production terminal : Precedence) : Prop :=
  terminal.level < production.level ∨
    production.level = terminal.level ∧ production.assoc = .left

theorem Loses.resolve (h : production.Loses terminal) : terminal.resolve production = .shift := by
  unfold Precedence.resolve
  rcases h with hlt | ⟨hlevel, hassoc⟩
  · rw [if_pos hlt]
  · rw [if_neg (by omega), if_neg (by omega), hassoc]

theorem Ties.resolve (h : production.Ties terminal) : terminal.resolve production = .neither := by
  obtain ⟨hlevel, hassoc⟩ := h
  unfold Precedence.resolve
  rw [if_neg (by omega), if_neg (by omega), hassoc]

theorem Wins.resolve (h : production.Wins terminal) : terminal.resolve production = .reduce := by
  unfold Precedence.resolve
  rcases h with hlt | ⟨hlevel, hassoc⟩
  · rw [if_neg (by omega), if_pos hlt]
  · rw [if_neg (by omega), if_neg (by omega), hassoc]

end Precedence

/-! ## Cells -/

namespace Cell

variable {terminal : Precedence} {precOf : Nat → Precedence} {choice : Choice} {cell : Cell}
  {offers : List Offer} {offer : Offer} {i j : Nat} {shift : Prop} {reductions : Set Nat}

/-- What a cell holds that was offered, or was not offered, a shift to a state and the reductions of
some productions, if every reduction that meets the shift leads to the same choice. -/
inductive Decided (choice : Choice) (j : Nat) (shift : Prop) (reductions : Set Nat) : Cell → Prop
  | blank : ¬ shift → reductions = ∅ → Decided choice j shift reductions {}
  | shift : shift → (choice = .shift ∨ reductions = ∅) →
      Decided choice j shift reductions ⟨some (.shift j), false⟩
  | reduce {i : Nat} : IsLeast reductions i → (shift → choice = .reduce) →
      Decided choice j shift reductions ⟨some (.reduce i), false⟩
  | barred : shift → reductions.Nonempty → choice = .neither →
      Decided choice j shift reductions ⟨none, true⟩

/-- A shift and the least reduction leave what the choice between them is. -/
theorem settle_decided (hshift : shift) (hleast : IsLeast reductions i)
    (hchoice : terminal.resolve (precOf i) = choice) :
    Decided choice j shift reductions (settle j i terminal (precOf i)).1 := by
  subst hchoice
  unfold settle
  cases hresolve : terminal.resolve (precOf i) with
  | shift => exact .shift hshift (Or.inl rfl)
  | reduce => exact .reduce hleast fun _ => rfl
  | neither => exact .barred hshift ⟨i, hleast.1⟩ rfl

namespace Decided

theorem take_shift (h : Decided choice j shift reductions cell)
    (hchoice : ∀ i ∈ reductions, terminal.resolve (precOf i) = choice) :
    Decided choice j True reductions (cell.take terminal precOf (.shift j)).1 := by
  cases h with
  | blank _ hnone => exact .shift trivial (Or.inr hnone)
  | shift _ hkept => exact .shift trivial hkept
  | reduce hleast _ => exact settle_decided trivial hleast (hchoice _ hleast.1)
  | barred _ hany hneither => exact .barred trivial hany hneither

theorem take_reduce (h : Decided choice j shift reductions cell)
    (hchoice : shift → terminal.resolve (precOf i) = choice) :
    Decided choice j shift (insert i reductions) (cell.take terminal precOf (.reduce i)).1 := by
  -- the reduction is the least if it is the first
  have hfirst : reductions = ∅ → IsLeast (insert i reductions) i := by
    rintro rfl
    rw [insert_empty_eq]
    exact isLeast_singleton
  cases h with
  | blank hnot hnone => exact .reduce (hfirst hnone) fun hyes => absurd hyes hnot
  | shift hyes hkept =>
      rcases hkept with rfl | hnone
      · show Decided .shift j _ _ (settle j i terminal (precOf i)).1
        rw [settle, hchoice hyes]
        exact .shift hyes (Or.inl rfl)
      · exact settle_decided hyes (hfirst hnone) (hchoice hyes)
  | @reduce other hleast hwins =>
      have hless : IsLeast (insert i reductions) (min other i) := min_comm i other ▸ hleast.insert i
      exact .reduce hless hwins
  | barred hyes _ hneither => exact .barred hyes ⟨i, Set.mem_insert i _⟩ hneither

/-- A shift that nothing takes away is the action. -/
theorem action_shift (h : Decided choice j shift reductions cell) (hshift : shift)
    (hkept : choice = .shift ∨ reductions = ∅) : cell.action = some (.shift j) := by
  have hany : reductions.Nonempty → choice = .shift := fun hsome =>
    hkept.resolve_right hsome.ne_empty
  cases h with
  | blank hnot _ => exact absurd hshift hnot
  | shift _ _ => rfl
  | reduce hleast hwins => cases (hwins hshift).symm.trans (hany ⟨_, hleast.1⟩)
  | barred _ hsome hneither => cases hneither.symm.trans (hany hsome)

/-- The least reduction is the action, unless a shift keeps it away. -/
theorem action_reduce (h : Decided choice j shift reductions cell) (hleast : IsLeast reductions i)
    (hwins : shift → choice = .reduce) : cell.action = some (.reduce i) := by
  have hany : reductions ≠ ∅ := Set.Nonempty.ne_empty ⟨i, hleast.1⟩
  cases h with
  | blank _ hnone => exact absurd hnone hany
  | shift hshift hkept => cases (hwins hshift).symm.trans (hkept.resolve_right hany)
  | reduce hleast' _ => rw [hleast.unique hleast']
  | barred hshift _ hneither => cases (hwins hshift).symm.trans hneither

/-- A cell to which nothing was offered has no action. -/
theorem action_blank (h : Decided choice j shift reductions cell) (hnot : ¬ shift)
    (hnone : reductions = ∅) : cell.action = none := by
  cases h with
  | blank _ _ => rfl
  | shift hshift _ => exact absurd hshift hnot
  | reduce hleast _ => exact absurd hnone (Set.Nonempty.ne_empty ⟨_, hleast.1⟩)
  | barred hshift _ _ => exact absurd hshift hnot

/-- Nor has a cell in which neither the shift nor the reductions win. -/
theorem action_barred (h : Decided .neither j shift reductions cell) (hshift : shift)
    (hany : reductions.Nonempty) : cell.action = none := by
  cases h with
  | blank hnot _ => exact absurd hshift hnot
  | shift _ hkept => exact absurd (hkept.resolve_left nofun) hany.ne_empty
  | reduce _ hwins => cases hwins hshift
  | barred _ _ _ => rfl

end Decided

/-- Without acceptance among the offers, the order in which they come does not matter, if all shifts
go to one state and all reductions that meet them lead to the same choice. -/
theorem takeAll_decided (haccept : .accept ∉ offers) (hshift : ∀ k, .shift k ∈ offers → k = j)
    (hchoice : .shift j ∈ offers → ∀ i, .reduce i ∈ offers → terminal.resolve (precOf i) = choice) :
    Decided choice j (.shift j ∈ offers) {i | .reduce i ∈ offers}
      (takeAll terminal precOf offers).1 := by
  induction offers using List.reverseRecOn with
  | nil => exact .blank List.not_mem_nil (Set.eq_empty_of_forall_notMem fun _ => List.not_mem_nil)
  | append_singleton front last ih =>
      simp only [List.mem_append, List.mem_singleton] at haccept hshift hchoice ⊢
      have hfront := ih (fun hmem => haccept (Or.inl hmem)) (fun k hmem => hshift k (Or.inl hmem))
        fun hmem i hreduce => hchoice (Or.inl hmem) i (Or.inl hreduce)
      rw [takeAll_concat]
      cases last with
      | accept => exact absurd (Or.inr rfl) haccept
      | reduce i =>
          have htaken := hfront.take_reduce fun hmem => hchoice (Or.inl hmem) i (Or.inr rfl)
          have hmore : insert i {k | .reduce k ∈ front} = {k | .reduce k ∈ front ∨ k = i} :=
            Set.ext fun k => or_comm
          rw [hmore] at htaken
          simpa using htaken
      | shift k =>
          obtain rfl := hshift k (Or.inr rfl)
          have htaken := hfront.take_shift fun i hreduce => hchoice (Or.inr rfl) i (Or.inl hreduce)
          simpa using htaken

/-- A cell that accepts keeps doing so. -/
theorem take_of_accept (h : cell.action = some .accept) :
    (cell.take terminal precOf offer).1.action = some .accept := by
  obtain ⟨held, barred⟩ := cell
  obtain rfl : held = some .accept := h
  cases offer <;> cases barred <;> rfl

/-- A cell that was offered acceptance accepts. -/
theorem takeAll_of_accept (h : .accept ∈ offers) :
    (takeAll terminal precOf offers).1.action = some .accept := by
  induction offers using List.reverseRecOn with
  | nil => exact absurd h List.not_mem_nil
  | append_singleton front last ih =>
      rw [takeAll_concat]
      rcases List.mem_append.mp h with hfront | hlast
      · exact take_of_accept (ih hfront)
      · rw [← List.mem_singleton.mp hlast]
        rfl

end Cell

/-! ## Tables -/

namespace Table

open Grammar Automaton

variable {table : Table} {q i j : Nat} {t : Symbol} {action : Action}

/-- The productions other than 0 whose complete item is in a state, with a terminal among their
lookaheads there. -/
def candidates (g : Grammar α) (s : States) (method : Method) (q : Nat) (t : Symbol) : Set Nat :=
  {i | i ≠ 0 ∧ ∃ p c, g.production? i = some p ∧ g.Holds (s.itemsOf q) i p.symbols.length ∧
    g.terminalIndex? t = some c ∧ c ∈ reductionLookaheads g (lookaheadsBy g s method) q i}

/-- A shift is available: some item of the state has the terminal after its dot. -/
def Shiftable (g : Grammar α) (s : States) (q : Nat) (t : Symbol) : Prop :=
  ∃ i dot, g.Holds (s.itemsOf q) i dot ∧ g.symbolAt i dot = some t

/-- The terminal is the end of input, and the complete item of production 0 is in the state. -/
def Accepting (g : Grammar α) (s : States) (q : Nat) (t : Symbol) : Prop :=
  t = .endOfInput ∧ ∃ dot, g.Holds (s.itemsOf q) 0 dot ∧ g.symbolAt 0 dot = none

theorem mem_candidates_iff : i ∈ candidates g s method q t ↔
    Proposed g s method q t (.reduce i) := by
  constructor
  · rintro ⟨hi, p, c, hp, hheld, hc, hmem⟩
    exact .reduce hi hp hheld hc hmem
  · intro h
    cases h with
    | reduce hi hp hheld hc hmem => exact ⟨hi, _, _, hp, hheld, hc, hmem⟩

theorem accepting_iff : Accepting g s q t ↔ Proposed g s method q t .accept := by
  constructor
  · rintro ⟨rfl, dot, hheld, hnone⟩
    exact .accept hheld hnone
  · intro h
    cases h with
    | accept hheld hnone => exact ⟨rfl, _, hheld, hnone⟩

/-- Whether a state holds an item can be read off its places. -/
theorem holds_iff_mem_places {items : List Nat} {dot : Nat} :
    g.Holds items i dot ↔
      (i, dot) ∈ (items.filterMap g.item?).map fun item => (item.prod, item.dot) := by
  simp only [List.mem_map, List.mem_filterMap, Prod.mk.injEq]
  constructor
  · rintro ⟨id, hid, item, hitem, hprod, hdot⟩
    exact ⟨item, ⟨id, hid, hitem⟩, hprod, hdot⟩
  · rintro ⟨item, ⟨id, hid, hitem⟩, hprod, hdot⟩
    exact ⟨id, hid, item, hitem, hprod, hdot⟩

/-- A shift is called for just where one is available, and it goes where the automaton goes. -/
theorem proposed_shift_iff (ht : t.isTerminal = true) :
    Proposed g s method q t (.shift j) ↔ Shiftable g s q t ∧ s.goto? q t = some j := by
  constructor
  · intro hproposed
    cases hproposed with
    | shift hheld hsymbol _ hgoto => exact ⟨⟨_, _, hheld, hsymbol⟩, hgoto⟩
  · rintro ⟨⟨i, dot, hheld, hsymbol⟩, hgoto⟩
    exact .shift hheld hsymbol ht hgoto

/-- Where a shift is available, the automaton goes somewhere. -/
theorem Shiftable.exists_goto? (hready : g.Ready) (hs : Collected g s) (h : Shiftable g s q t) :
    ∃ j, s.goto? q t = some j := by
  obtain ⟨i, dot, hheld, hsymbol⟩ := h
  obtain ⟨j, hgoto, _⟩ := hs.exists_goto? hready hheld hsymbol
  exact ⟨j, hgoto⟩

/-- The action in a state on a terminal is what a cell ends with that takes, in some order, just the
offers that the items of the state call for. -/
theorem exists_offers (h : g.Ready) (s : States) (method : Method) (q : Nat) (t : Symbol) :
    ∃ offers, (∀ offer : Offer, offer ∈ offers ↔ Proposed g s method q t offer.action) ∧
      (ofStates g s method).actionOn q t =
        (Cell.takeAll (g.precedenceOf t) (productionPrecedence g) offers).1.action := by
  by_cases hplace : ∃ items c, s.states[q]? = some items ∧ g.terminalIndex? t = some c
  · obtain ⟨items, c, hq, hc⟩ := hplace
    exact ⟨_, fun offer => mem_columnOffers_iff h hq hc, actionOn_eq_column h hq hc⟩
  · -- there is no such cell, and nothing is called for
    refine ⟨[], fun offer => iff_of_false List.not_mem_nil fun hproposed => hplace ?_, ?_⟩
    · obtain ⟨hlt, c, hc⟩ := hproposed.exists_terminalIndex? h.wellFormed
      exact ⟨_, c, List.getElem?_eq_getElem hlt, hc⟩
    · cases haction : (ofStates g s method).actionOn q t with
      | none => rfl
      | some action => exact absurd (exists_of_actionOn haction) hplace

/-- Which action a table has in a state on a terminal, where the candidates for a reduction agree,
and what it can have at all. -/
structure Decides (g : Grammar α) (s : States) (method : Method) (table : Table) (q : Nat)
    (t : Symbol) : Prop where
  accept : Accepting g s q t → table.actionOn q t = some .accept
  blank : ¬ Accepting g s q t → ¬ Shiftable g s q t → candidates g s method q t = ∅ →
    table.actionOn q t = none
  reduce : ¬ Accepting g s q t → ¬ Shiftable g s q t →
    ∀ i, IsLeast (candidates g s method q t) i → table.actionOn q t = some (.reduce i)
  shift : ¬ Accepting g s q t → Shiftable g s q t → candidates g s method q t = ∅ →
    ∃ j, s.goto? q t = some j ∧ table.actionOn q t = some (.shift j)
  loses : ¬ Accepting g s q t → Shiftable g s q t → (candidates g s method q t).Nonempty →
    (∀ i ∈ candidates g s method q t, (productionPrecedence g i).Loses (g.precedenceOf t)) →
    ∃ j, s.goto? q t = some j ∧ table.actionOn q t = some (.shift j)
  ties : ¬ Accepting g s q t → Shiftable g s q t → (candidates g s method q t).Nonempty →
    (∀ i ∈ candidates g s method q t, (productionPrecedence g i).Ties (g.precedenceOf t)) →
    table.actionOn q t = none
  wins : ¬ Accepting g s q t → Shiftable g s q t →
    (∀ i ∈ candidates g s method q t, (productionPrecedence g i).Wins (g.precedenceOf t)) →
    ∀ i, IsLeast (candidates g s method q t) i → table.actionOn q t = some (.reduce i)
  only : ∀ action, table.actionOn q t = some action →
    (action = .accept ∧ Accepting g s q t) ∨ (∃ j, s.goto? q t = some j ∧ action = .shift j) ∨
      ∃ i ∈ candidates g s method q t, action = .reduce i

section Tables

variable (h : g.Ready) (hs : Collected g s) (ht : t.isTerminal = true)

include h

theorem actionOn_of_accepting (hyes : Accepting g s q t) :
    (ofStates g s method).actionOn q t = some .accept := by
  obtain ⟨offers, hoffers, haction⟩ := exists_offers h s method q t
  rw [haction]
  exact Cell.takeAll_of_accept ((hoffers .accept).mpr (accepting_iff.mp hyes))

include hs ht

/-- Where a table does not accept, and the candidates that compete with a shift agree on the choice,
the action is that of a cell which is so decided. -/
theorem exists_decided (choice : Choice) (hnot : ¬ Accepting g s q t)
    (hchoice : Shiftable g s q t → ∀ i ∈ candidates g s method q t,
      (g.precedenceOf t).resolve (productionPrecedence g i) = choice) :
    ∃ j cell, (Shiftable g s q t → s.goto? q t = some j) ∧
      Cell.Decided choice j (Shiftable g s q t) (candidates g s method q t) cell ∧
      (ofStates g s method).actionOn q t = cell.action := by
  obtain ⟨offers, hoffers, haction⟩ := exists_offers h s method q t
  have hshifts : ∀ k, .shift k ∈ offers ↔ Shiftable g s q t ∧ s.goto? q t = some k :=
    fun k => (hoffers (.shift k)).trans (proposed_shift_iff ht)
  have hreductions : {i | .reduce i ∈ offers} = candidates g s method q t :=
    Set.ext fun i => (hoffers (.reduce i)).trans mem_candidates_iff.symm
  -- all shifts go where the automaton goes
  obtain ⟨j, hgoto, hsame⟩ : ∃ j, (Shiftable g s q t → s.goto? q t = some j) ∧
      ∀ k, s.goto? q t = some k → k = j := by
    cases htarget : s.goto? q t with
    | some j => exact ⟨j, fun _ => rfl, fun k hk => (Option.some.inj hk).symm⟩
    | none =>
        refine ⟨0, fun hyes => ?_, nofun⟩
        obtain ⟨j, hj⟩ := hyes.exists_goto? h hs
        cases htarget.symm.trans hj
  have hshift : .shift j ∈ offers ↔ Shiftable g s q t :=
    (hshifts j).trans ⟨And.left, fun hyes => ⟨hyes, hgoto hyes⟩⟩
  have hdecided : Cell.Decided choice j (.shift j ∈ offers) {i | .reduce i ∈ offers}
      (Cell.takeAll (g.precedenceOf t) (productionPrecedence g) offers).1 := by
    refine Cell.takeAll_decided (fun hmem => ?_) (fun k hmem => ?_) fun hmem i hreduce => ?_
    · exact hnot (accepting_iff.mpr ((hoffers .accept).mp hmem))
    · exact hsame k ((hshifts k).mp hmem).2
    · exact hchoice (hshift.mp hmem) i (hreductions ▸ hreduce)
  rw [propext hshift, hreductions] at hdecided
  exact ⟨j, _, hgoto, hdecided, haction⟩

/-- The tables of a grammar decide so. -/
theorem decides_ofStates : Decides g s method (ofStates g s method) q t where
  accept hyes := actionOn_of_accepting h hyes
  blank hnot hno hnone := by
    obtain ⟨j, cell, _, hdecided, haction⟩ :=
      exists_decided h hs ht .shift hnot fun hyes => absurd hyes hno
    exact haction.trans (hdecided.action_blank hno hnone)
  reduce hnot hno i hleast := by
    obtain ⟨j, cell, _, hdecided, haction⟩ :=
      exists_decided h hs ht .shift hnot fun hyes => absurd hyes hno
    exact haction.trans (hdecided.action_reduce hleast fun hyes => absurd hyes hno)
  shift hnot hyes hnone := by
    obtain ⟨j, cell, hgoto, hdecided, haction⟩ :=
      exists_decided h hs ht .shift hnot fun _ i hi => absurd hi (hnone ▸ Set.notMem_empty i)
    exact ⟨j, hgoto hyes, haction.trans (hdecided.action_shift hyes (Or.inr hnone))⟩
  loses hnot hyes _ hloses := by
    obtain ⟨j, cell, hgoto, hdecided, haction⟩ :=
      exists_decided h hs ht .shift hnot fun _ i hi => (hloses i hi).resolve
    exact ⟨j, hgoto hyes, haction.trans (hdecided.action_shift hyes (Or.inl rfl))⟩
  ties hnot hyes hany hties := by
    obtain ⟨j, cell, _, hdecided, haction⟩ :=
      exists_decided h hs ht .neither hnot fun _ i hi => (hties i hi).resolve
    exact haction.trans (hdecided.action_barred hyes hany)
  wins hnot _ hwins i hleast := by
    obtain ⟨j, cell, _, hdecided, haction⟩ :=
      exists_decided h hs ht .reduce hnot fun _ i hi => (hwins i hi).resolve
    exact haction.trans (hdecided.action_reduce hleast fun _ => rfl)
  only action hfound := by
    have hproposed := proposed_of_actionOn h hfound
    cases action with
    | accept => exact Or.inl ⟨rfl, accepting_iff.mpr hproposed⟩
    | shift k => exact Or.inr (Or.inl ⟨k, ((proposed_shift_iff ht).mp hproposed).2, rfl⟩)
    | reduce i => exact Or.inr (Or.inr ⟨i, mem_candidates_iff.mpr hproposed, rfl⟩)

end Tables

/-- In every table that is built, whatever the order of the items in its states, a cell accepts if
it can. Otherwise it holds the only thing that is called for, the first declared of the candidates
for a reduction, or, if these agree on how they compare with the terminal, what the precedences ask
for; and in any case it holds nothing that is not called for. -/
theorem buildTable_decides (hmade : g.Made) (hbuild : g.buildTable method = (.ok table, final))
    (q : Nat) (ht : t.isTerminal = true) :
    Decides final (Automaton.states final) method table q t := by
  obtain ⟨hprepared, rfl⟩ := buildTable_spec hmade hbuild
  have hready := hprepared.made.ready hprepared.items
  exact decides_ofStates hready hready.collection ht

/-- A digit before a sign, which can be read in three ways: as it is, or as one of two names. -/
def readings : Grammar Unit :=
  let g := blank
  let g := (g.setPrecedence (.literal '+') .left 1).2
  let g := (g.addProduction "sum" [.nonterminal "one", .literal '+'] none none).2
  let g := (g.addProduction "sum" [.nonterminal "unit", .literal '+'] none none).2
  let g := (g.addProduction "sum" [.literal '1', .literal '+', .literal '1'] none none).2
  let g := (g.addProduction "one" [.literal '1'] (some (.literal '+')) none).2
  (g.addProduction "unit" [.literal '1'] (some (.literal '+')) none).2

theorem made_readings : readings.Made :=
  .addProduction _ _ _ _ (.addProduction _ _ _ _ (.addProduction _ _ _ _ (.addProduction _ _ _ _
    (.addProduction _ _ _ _ (.setPrecedence _ _ _ made_blank)))))

/-- Both names win against the sign, so the digit is read as the one that is declared first. -/
theorem buildTable_decides_readings : readings.Made ∧
    ∃ table final, readings.buildTable .lalr = (.ok table, final) ∧
      Shiftable final (Automaton.states final) 4 (.literal '+') ∧
      IsLeast (candidates final (Automaton.states final) .lalr 4 (.literal '+')) 4 ∧
      table.actionOn 4 (.literal '+') = some (.reduce 4) := by
  have hbuild : readings.buildTable .lalr =
      (.ok (ofStates readings.prepare.2 (Automaton.states readings.prepare.2) .lalr),
        readings.prepare.2) := buildTable_of_prepare rfl
  have hplaces : (((Automaton.states readings.prepare.2).itemsOf 4).filterMap
      readings.prepare.2.item?).map (fun item => (item.prod, item.dot)) =
        [(3, 1), (4, 1), (5, 1)] := by decide +kernel
  have hprecs : ∀ i ∈ [4, 5], productionPrecedence readings.prepare.2 i = ⟨.left, 1⟩ := by
    decide +kernel
  have hprec : readings.prepare.2.precedenceOf (.literal '+') = ⟨.left, 1⟩ := by decide +kernel
  have hnames : ∀ i ∈ candidates readings.prepare.2 (Automaton.states readings.prepare.2) .lalr 4
      (.literal '+'), i ∈ [4, 5] := by
    rintro i ⟨_, p, _, hp, hheld, _, _⟩
    rw [holds_iff_mem_places, hplaces] at hheld
    have hlong : (readings.prepare.2.production? 3).map (·.symbols.length) = some 3 := by
      decide +kernel
    rcases List.mem_cons.mp hheld with hthree | hname
    · obtain ⟨rfl, hone⟩ := Prod.mk.inj hthree
      rw [hp, Option.map_some, hone] at hlong
      cases hlong
    · exact List.mem_map_of_mem (f := Prod.fst) hname
  have hshiftable : Shiftable readings.prepare.2 (Automaton.states readings.prepare.2) 4
      (.literal '+') :=
    ⟨3, 1, holds_iff_mem_places.mpr (by rw [hplaces]; decide), rfl⟩
  have hleast : IsLeast (candidates readings.prepare.2 (Automaton.states readings.prepare.2) .lalr 4
      (.literal '+')) 4 := by
    have hindex : readings.prepare.2.terminalIndex? (.literal '+') = some 2 := by decide +kernel
    refine ⟨⟨by decide, _, 2, rfl, holds_iff_mem_places.mpr ?_, hindex, by decide +kernel⟩, ?_⟩
    · rw [hplaces]
      decide
    · intro i hi
      have hname := hnames i hi
      simp only [List.mem_cons, List.not_mem_nil, or_false] at hname
      omega
  have hdecides := buildTable_decides made_readings hbuild 4 (t := .literal '+') rfl
  refine ⟨made_readings, _, _, hbuild, hshiftable, hleast, ?_⟩
  refine hdecides.wins (fun hyes => by cases hyes.1) hshiftable (fun i hi => ?_) 4 hleast
  rw [hprecs i (hnames i hi), hprec]
  exact Or.inr ⟨rfl, rfl⟩

end Table

end ShiftReduce
