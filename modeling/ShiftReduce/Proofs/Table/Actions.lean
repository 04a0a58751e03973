import ShiftReduce.Proofs.Table.Cells

/-!
# What a table does

`Proposed` says which actions the items of a state call for on a terminal. Every action of a table
is one of those; in a table without conflicts, of a grammar without precedences, every one of them
is the action. The gotos of a table are the transitions of the automaton.
-/

namespace ShiftReduce.Table

open Grammar Automaton

variable {α : Type} {g : Grammar α} {s : States} {method : Method} {q i j c dot : Nat}
  {symbol : Symbol} {name : String} {action : Action} {p : Production α}

/-- An action that an item of a state calls for on a terminal. -/
inductive Proposed (g : Grammar α) (s : States) (method : Method) (q : Nat) : Symbol → Action → Prop
  | accept {dot : Nat} : g.Holds (s.itemsOf q) 0 dot → g.symbolAt 0 dot = none →
      Proposed g s method q .endOfInput .accept
  | reduce {i c : Nat} {p : Production α} {symbol : Symbol} : i ≠ 0 → g.production? i = some p →
      g.Holds (s.itemsOf q) i p.symbols.length → g.terminalIndex? symbol = some c →
      c ∈ reductionLookaheads g (lookaheadsBy g s method) q i →
      Proposed g s method q symbol (.reduce i)
  | shift {i dot j : Nat} {symbol : Symbol} : g.Holds (s.itemsOf q) i dot →
      g.symbolAt i dot = some symbol → symbol.isTerminal = true → s.goto? q symbol = some j →
      Proposed g s method q symbol (.shift j)

/-- A dot that no symbol stands after is behind all symbols. -/
theorem eq_length_of_symbolAt (h : g.Ready) {items : List Nat} (hitem : g.Holds items i dot)
    (hp : g.production? i = some p) (hsymbol : g.symbolAt i dot = none) :
    dot = p.symbols.length := by
  obtain ⟨id, _, hat⟩ := hitem
  obtain ⟨p', hp', hdot, _⟩ := h.itemAt_origin hat
  cases hp.symm.trans hp'
  rw [symbolAt_of_production? hp, List.getElem?_eq_none_iff] at hsymbol
  omega

/-- The numbers of terminals determine them. -/
theorem eq_of_terminalIndex? {other : Symbol} (h : g.terminalIndex? symbol = some c)
    (hother : g.terminalIndex? other = some c) : symbol = other :=
  eq_of_idxOf? h hother

/-- What a state holds is an item at one of its places. -/
theorem exists_item_of_holds (h : g.Ready) {items : List Nat} (hheld : g.Holds items i dot) :
    ∃ item ∈ items.filterMap g.item?, item.prod = i ∧ item.atDot = g.symbolAt i dot := by
  obtain ⟨id, hid, hat⟩ := hheld
  have hsymbol := h.atDot?_eq hat
  obtain ⟨item, hitem, hprod, _⟩ := hat
  rw [atDot?, hitem] at hsymbol
  exact ⟨item, List.mem_filterMap.mpr ⟨id, hid, hitem⟩, hprod, hsymbol⟩

/-- An item at a place of a state is held by it. -/
theorem holds_of_mem_items (h : g.Ready) {items : List Nat} {item : Item}
    (hitem : item ∈ items.filterMap g.item?) :
    g.Holds items item.prod item.dot ∧ item.atDot = g.symbolAt item.prod item.dot := by
  obtain ⟨id, hid, hfound⟩ := List.mem_filterMap.mp hitem
  have hat := itemAt_of_item? hfound
  have hsymbol := h.atDot?_eq hat
  rw [atDot?, hfound] at hsymbol
  exact ⟨⟨id, hid, hat⟩, hsymbol⟩

/-- An item offers nothing but what it calls for. -/
theorem proposed_of_mem_offersOf (h : g.Ready) {offer : Offer} {item : Item}
    (hc : g.terminalIndex? symbol = some c) (hitem : item ∈ (s.itemsOf q).filterMap g.item?)
    (hoffer : (c, offer) ∈ offersOf g s (lookaheadsBy g s method) q item) :
    Proposed g s method q symbol offer.action := by
  obtain ⟨hheld, hsymbol⟩ := holds_of_mem_items h hitem
  unfold offersOf at hoffer
  -- acceptance and reductions come from complete items, shifts from a terminal after the dot
  split at hoffer
  · rename_i hnone
    rw [hnone] at hsymbol
    split at hoffer
    · rename_i hzero
      obtain ⟨column, hcolumn, hpair⟩ := List.mem_map.mp hoffer
      cases hpair
      rw [hzero] at hheld hsymbol
      rw [eq_of_terminalIndex? hc (Option.mem_toList.mp hcolumn)]
      exact .accept hheld hsymbol.symm
    · rename_i hne
      obtain ⟨column, hcolumn, hpair⟩ := List.mem_map.mp hoffer
      cases hpair
      obtain ⟨p, hp⟩ : ∃ p, g.production? item.prod = some p := by
        obtain ⟨id, _, hat⟩ := hheld
        obtain ⟨p, hp, _⟩ := h.itemAt_origin hat
        exact ⟨p, hp⟩
      rw [eq_length_of_symbolAt h hheld hp hsymbol.symm] at hheld
      exact .reduce hne hp hheld hc hcolumn
  · rename_i after hsome
    split at hoffer
    · rename_i hterminal
      split at hoffer
      · rename_i target column hgoto hcolumn
        cases List.mem_singleton.mp hoffer
        rw [eq_of_terminalIndex? hc hcolumn]
        exact .shift hheld (hsymbol.symm.trans hsome) hterminal hgoto
      · exact absurd hoffer List.not_mem_nil
    · exact absurd hoffer List.not_mem_nil

/-- What an item calls for it offers. -/
theorem exists_mem_offersOf_of_proposed (h : g.Ready) {offer : Offer}
    (hc : g.terminalIndex? symbol = some c)
    (hproposed : Proposed g s method q symbol offer.action) :
    ∃ item ∈ (s.itemsOf q).filterMap g.item?,
      (c, offer) ∈ offersOf g s (lookaheadsBy g s method) q item := by
  generalize haction : offer.action = action at hproposed
  cases hproposed with
  | accept hheld hsymbol =>
      cases offer <;> cases haction
      obtain ⟨item, hitem, hzero, hat⟩ := exists_item_of_holds h hheld
      refine ⟨item, hitem, ?_⟩
      rw [offersOf, hat, hsymbol]
      simp [hzero, hc]
  | @reduce i c' p _ hne hp hheld hindex hmem =>
      cases offer <;> cases haction
      cases hc.symm.trans hindex
      obtain ⟨item, hitem, rfl, hat⟩ := exists_item_of_holds h hheld
      have hnone : g.symbolAt item.prod p.symbols.length = none := by
        rw [symbolAt_of_production? hp]
        exact List.getElem?_eq_none (Nat.le_refl _)
      refine ⟨item, hitem, ?_⟩
      rw [offersOf, hat, hnone]
      simp only [if_neg hne]
      exact List.mem_map.mpr ⟨c, hmem, rfl⟩
  | shift hheld hsymbol hterminal hgoto =>
      cases offer <;> cases haction
      obtain ⟨item, hitem, _, hat⟩ := exists_item_of_holds h hheld
      refine ⟨item, hitem, ?_⟩
      rw [offersOf, hat, hsymbol]
      simp [hterminal, hgoto, hc]

/-- The offers for a column are the actions that the items of the state call for on its terminal. -/
theorem mem_rowOffers_iff (h : g.Ready) {offer : Offer} (hc : g.terminalIndex? symbol = some c) :
    (c, offer) ∈ rowOffers g s (lookaheadsBy g s method) q (s.itemsOf q) ↔
      Proposed g s method q symbol offer.action := by
  rw [rowOffers, List.mem_flatMap]
  constructor
  · intro hoffered
    obtain ⟨item, hitem, hoffer⟩ := hoffered
    exact proposed_of_mem_offersOf h hc hitem hoffer
  · exact exists_mem_offersOf_of_proposed h hc

/-! ## Actions -/

/-- The action on a terminal is what its column ends with. -/
theorem actionOn_eq_column {items : List Nat} (h : g.Ready) (hq : s.states[q]? = some items)
    (hc : g.terminalIndex? symbol = some c) :
    (ofStates g s method).actionOn q symbol =
      (column g (rowOffers g s (lookaheadsBy g s method) q items) c symbol).1.action := by
  have hfilled := filled_rowAfter (g := g) (q := q) h.wellFormed.nodupTerminals
    (rowOffers g s (lookaheadsBy g s method) q items)
  have hcell := hfilled.cell (getElem?_of_idxOf? hc)
  have hindex : (ofStates g s method).terminals.idxOf? symbol = some c := hc
  have hrow : (ofStates g s method).action[q]? = some
      ((rowAfter g g.terminals.keys q
        (rowOffers g s (lookaheadsBy g s method) q items)).1.map Cell.action) := by
    simp only [ofStates, ofRows, List.getElem?_map, List.getElem?_mapIdx, hq]
    rfl
  simp only [actionOn, hindex, hrow, Option.bind_eq_bind, Option.bind_some, List.getElem?_map,
    hcell, Option.map_some]

/-- Only a state has actions, and only on terminals of the grammar. -/
theorem exists_of_actionOn (haction : (ofStates g s method).actionOn q symbol = some action) :
    ∃ items c, s.states[q]? = some items ∧ g.terminalIndex? symbol = some c := by
  simp only [actionOn, Option.bind_eq_bind, Option.bind_eq_some_iff] at haction
  obtain ⟨c, hc, row, hrow, _⟩ := haction
  simp only [ofStates, ofRows, List.getElem?_map, List.getElem?_mapIdx, Option.map_eq_some_iff]
    at hrow
  obtain ⟨_, ⟨items, hitems, _⟩, _⟩ := hrow
  exact ⟨items, c, hitems, hc⟩

/-- Every action of a table is called for by an item of the state. -/
theorem proposed_of_actionOn (h : g.Ready)
    (haction : (ofStates g s method).actionOn q symbol = some action) :
    Proposed g s method q symbol action := by
  obtain ⟨items, c, hq, hc⟩ := exists_of_actionOn haction
  rw [actionOn_eq_column h hq hc] at haction
  obtain ⟨offer, hmem, rfl⟩ := Cell.exists_offer_of_action haction
  refine (mem_rowOffers_iff h hc).mp ?_
  rw [States.itemsOf_of_getElem? hq]
  exact mem_columnOffers.mp hmem

/-- A symbol that stands after a dot has its number among the terminals, if it is one. -/
theorem exists_terminalIndex? (h : g.WellFormed) (hsymbol : g.symbolAt i dot = some symbol)
    (hterminal : symbol.isTerminal = true) : ∃ c, g.terminalIndex? symbol = some c := by
  obtain ⟨p, hp, hget⟩ := exists_production?_of_symbolAt hsymbol
  exact exists_idxOf? ((h.knows hp (List.mem_of_getElem? hget)).mem_keys hterminal)

/-- A proposed action is one of a state, on a terminal of the grammar. -/
theorem Proposed.exists_terminalIndex? (h : g.WellFormed)
    (hproposed : Proposed g s method q symbol action) :
    q < s.states.length ∧ ∃ c, g.terminalIndex? symbol = some c := by
  cases hproposed with
  | accept hheld _ => exact ⟨Collected.lt_of_holds hheld, exists_idxOf? h.endOfInput⟩
  | reduce _ _ hheld hc _ => exact ⟨Collected.lt_of_holds hheld, _, hc⟩
  | shift hheld hsymbol hterminal _ =>
      exact ⟨Collected.lt_of_holds hheld, Table.exists_terminalIndex? h hsymbol hterminal⟩

/-- No production has the end of input on its right side. -/
def EndsNowhere (g : Grammar α) : Prop :=
  ∀ {i : Nat} {p : Production α}, g.production? i = some p → .endOfInput ∉ p.symbols

/-- Without declared precedences all precedences are the default one. -/
theorem precedence_default (h : g.WellFormed) (hplain : g.precedence.keys = []) (symbol : Symbol)
    (i : Nat) : g.precedenceOf symbol = {} ∧ productionPrecedence g i = {} := by
  constructor
  · have hnone : g.precedence.get? symbol = none := by
      rw [Registry.get?_eq_none_iff, hplain]
      exact List.not_mem_nil
    rw [precedenceOf, hnone]
    rfl
  · rw [productionPrecedence]
    cases hp : g.production? i with
    | none => rfl
    | some p => exact h.plain hplain hp

/-- In a table without conflicts no column settles one by default. -/
theorem verdicts_eq_nil {items : List Nat} (h : g.Ready) (hq : s.states[q]? = some items)
    (hc : g.terminalIndex? symbol = some c)
    (hconflicts : (ofStates g s method).conflicts = []) :
    (column g (rowOffers g s (lookaheadsBy g s method) q items) c symbol).2 = [] := by
  have hfilled := filled_rowAfter (g := g) (q := q) h.wellFormed.nodupTerminals
    (rowOffers g s (lookaheadsBy g s method) q items)
  have hrow : (rowAfter g g.terminals.keys q
      (rowOffers g s (lookaheadsBy g s method) q items)).2 = [] := by
    obtain ⟨hlt, rfl⟩ := List.getElem?_eq_some_iff.mp hq
    exact List.flatMap_eq_nil_iff.mp hconflicts _ (List.mem_mapIdx.mpr ⟨q, hlt, rfl⟩)
  rw [← hfilled.verdicts (getElem?_of_idxOf? hc), hrow]
  rfl

/-- Shifts that the items of a state call for agree, and none stands beside acceptance: the end of
input is on no right side. -/
theorem agreeing_of_proposed (hends : EndsNowhere g) {offers : List Offer}
    (hoffers : ∀ offer ∈ offers, Proposed g s method q symbol offer.action) :
    Cell.Agreeing offers := by
  constructor
  · intro i j hi hj
    cases hoffers _ hi with
    | shift _ _ _ hgoto =>
        cases hoffers _ hj with
        | shift _ _ _ hgoto' => exact Option.some.inj (hgoto.symm.trans hgoto')
  · intro i haccept hshift
    cases hoffers _ haccept with
    | accept _ _ =>
        cases hoffers _ hshift with
        | shift _ hsymbol _ _ =>
            obtain ⟨p, hp, hin⟩ := exists_production?_of_symbolAt hsymbol
            exact hends hp (List.mem_of_getElem? hin)

/-- What a column is offered is what the items of the state call for on its terminal. -/
theorem mem_columnOffers_iff (h : g.Ready) {items : List Nat} (hq : s.states[q]? = some items)
    (hc : g.terminalIndex? symbol = some c) {offer : Offer} :
    offer ∈ columnOffers (rowOffers g s (lookaheadsBy g s method) q items) c ↔
      Proposed g s method q symbol offer.action := by
  rw [mem_columnOffers, ← mem_rowOffers_iff h hc, States.itemsOf_of_getElem? hq]

theorem exists_offer (action : Action) : ∃ offer : Offer, offer.action = action := by
  cases action with
  | shift j => exact ⟨.shift j, rfl⟩
  | reduce i => exact ⟨.reduce i, rfl⟩
  | accept => exact ⟨.accept, rfl⟩

/-- In a table without conflicts, of a grammar without precedences, every action that an item calls
for is the action. -/
theorem actionOn_of_proposed (h : g.Ready) (hplain : g.precedence.keys = [])
    (hends : EndsNowhere g) (hconflicts : (ofStates g s method).conflicts = [])
    (hproposed : Proposed g s method q symbol action) :
    (ofStates g s method).actionOn q symbol = some action := by
  obtain ⟨hlt, c, hc⟩ := hproposed.exists_terminalIndex? h.wellFormed
  have hq := List.getElem?_eq_getElem hlt
  have hoffers : ∀ offer : Offer,
      offer ∈ columnOffers (rowOffers g s (lookaheadsBy g s method) q s.states[q]) c ↔
        Proposed g s method q symbol offer.action := fun offer => mem_columnOffers_iff h hq hc
  have hagree := agreeing_of_proposed hends fun offer => (hoffers offer).mp
  have hprec := precedence_default h.wellFormed hplain symbol
  obtain ⟨offer, rfl⟩ := exists_offer action
  rw [actionOn_eq_column h hq hc]
  exact (Cell.action_of_offer (hprec 0).1 (fun i => (hprec i).2) hagree
    (verdicts_eq_nil h hq hc hconflicts)).2 offer ((hoffers offer).mpr hproposed)

/-! ## Gotos -/

/-- The goto of a table is the transition of the automaton. -/
theorem gotoOn_eq (h : g.Ready) (hs : Collected g s) :
    (ofStates g s method).gotoOn q name = s.goto? q (.nonterminal name) := by
  cases hgoto : s.goto? q (.nonterminal name) with
  | some j =>
      obtain ⟨hlt, _⟩ := hs.lt_of_goto? hgoto
      obtain ⟨i, dot, _, hsymbol⟩ := hs.exists_holds_of_goto? h hgoto
      obtain ⟨p, hp, hget⟩ := exists_production?_of_symbolAt hsymbol
      have hname := (h.wellFormed.knows hp (List.mem_of_getElem? hget)).2
      obtain ⟨c, hc⟩ := exists_idxOf? hname
      have hindex : (ofStates g s method).nonterminals.idxOf? name = some c := hc
      have hrow : (ofStates g s method).goto[q]? =
          some (g.nonterminals.keys.map fun name => s.goto? q (.nonterminal name)) := by
        simp [ofStates, ofRows, hlt]
      have hcell := getElem?_of_idxOf? hc
      simp only [gotoOn, hindex, hrow, Option.bind_eq_bind, Option.bind_some, List.getElem?_map,
        hcell, Option.map_some, hgoto]
  | none =>
      cases hfound : (ofStates g s method).gotoOn q name with
      | none => rfl
      | some j =>
          simp only [gotoOn, Option.bind_eq_bind, Option.bind_eq_some_iff] at hfound
          obtain ⟨c, hc, row, hrow, cell, hcell, rfl⟩ := hfound
          have hname := getElem?_of_idxOf? hc
          simp only [ofStates, ofRows, List.getElem?_map, Option.map_eq_some_iff] at hrow
          obtain ⟨q', hq', rfl⟩ := hrow
          obtain ⟨hlt, hsame⟩ := List.getElem?_eq_some_iff.mp hq'
          rw [List.getElem_range] at hsame
          rw [List.getElem?_map, show g.nonterminals.keys[c]? = some name from hname,
            Option.map_some, ← hsame, Option.some.injEq] at hcell
          exact hcell.symm.trans hgoto

end ShiftReduce.Table
