import ShiftReduce.Proofs.Table.Cells

/-!
# Shifts never clash

A cell is offered a shift only by items with its own terminal after the dot, and reading that
terminal leads from a state to one state. So no table is refused for two shifts in a cell, whatever
grammar and whatever states it is made of: `ofStates?_eq`. Read `buildTable_eq` first.
-/

namespace ShiftReduce

variable {α : Type} {g : Grammar α} {s : States} {lookaheads : Option Lookaheads} {method : Method}
  {state c target : Nat} {cell : Cell} {offer : Nat × Offer} {offers : List (Nat × Offer)}
  {row : List Cell × List Conflict}

/-- A clash is between two shifts to different states. -/
theorem Cell.exists_shift_of_clashes {other : Offer} (h : cell.clashes other = true) :
    ∃ target target', other = .shift target ∧ cell.action = some (.shift target') ∧
      target' ≠ target := by
  cases other with
  | accept => cases h
  | reduce production => cases h
  | shift target =>
      rw [clashes] at h
      split at h
      · rename_i target' haction
        rw [Bool.and_eq_true, bne_iff_ne] at h
        exact ⟨target, target', rfl, haction, h.2⟩
      · cases h

namespace Table

/-- A shift in a column leads where reading the terminal of the column leads. -/
def LeadsAlong (g : Grammar α) (s : States) (state c target : Nat) : Prop :=
  ∃ symbol, g.terminals.keys[c]? = some symbol ∧ s.goto? state symbol = some target

theorem LeadsAlong.unique {target' : Nat} (h : LeadsAlong g s state c target)
    (h' : LeadsAlong g s state c target') : target = target' := by
  obtain ⟨symbol, hsymbol, hgoto⟩ := h
  obtain ⟨symbol', hsymbol', hgoto'⟩ := h'
  cases hsymbol.symm.trans hsymbol'
  exact Option.some.inj (hgoto.symm.trans hgoto')

/-- An item offers a shift along its terminal. -/
theorem leadsAlong_of_offer {items : List Nat}
    (h : (c, .shift target) ∈ rowOffers g s lookaheads state items) :
    LeadsAlong g s state c target := by
  obtain ⟨item, _, hoffer⟩ := List.mem_flatMap.mp h
  unfold offersOf at hoffer
  split at hoffer
  · split at hoffer
    · obtain ⟨_, _, hsame⟩ := List.mem_map.mp hoffer
      cases hsame
    · obtain ⟨_, _, hsame⟩ := List.mem_map.mp hoffer
      cases hsame
  · rename_i symbol _
    split at hoffer
    · split at hoffer
      · rename_i hgoto hindex
        cases List.mem_singleton.mp hoffer
        exact ⟨symbol, getElem?_of_idxOf? hindex, hgoto⟩
      · exact absurd hoffer List.not_mem_nil
    · exact absurd hoffer List.not_mem_nil

/-- The shifts in a row lead along the terminals of their columns. -/
def Straight (g : Grammar α) (s : States) (state : Nat) (cells : List Cell) : Prop :=
  ∀ c cell target, cells[c]? = some cell → cell.action = some (.shift target) →
    LeadsAlong g s state c target

theorem straight_blank (g : Grammar α) (s : States) (state : Nat) (terminals : List Symbol) :
    Straight g s state (terminals.map fun _ => {}) := by
  intro c cell target hcell haction
  rw [List.getElem?_map] at hcell
  obtain ⟨_, _, rfl⟩ := Option.map_eq_some_iff.mp hcell
  cases haction

/-- Handing over an offer keeps the shifts of a row straight, if the offer is. -/
theorem Straight.handOver (h : Straight g s state row.1)
    (hoffer : ∀ target, offer.2 = .shift target → LeadsAlong g s state offer.1 target)
    (terminals : List Symbol) : Straight g s state (handOver g terminals state row offer).1 := by
  obtain ⟨cells, conflicts⟩ := row
  unfold Table.handOver
  dsimp only
  split
  · rename_i held symbol hheld _
    intro c cell target hcell haction
    rw [List.getElem?_set] at hcell
    split at hcell
    · rename_i hc
      split at hcell
      · cases hcell
        rcases Cell.take_action haction with hold | hnew
        · exact hc ▸ h offer.1 held target hheld hold
        · refine hc ▸ hoffer target ?_
          cases hkind : offer.2 <;> rw [hkind] at hnew <;> cases hnew
          rfl
      · cases hcell
    · exact h c cell target hcell haction
  · exact h

/-- An offer along the terminal of its column does not clash with a straight row. -/
theorem Straight.handOver?_eq (h : Straight g s state row.1)
    (hoffer : ∀ target, offer.2 = .shift target → LeadsAlong g s state offer.1 target)
    (terminals : List Symbol) :
    handOver? g terminals state row offer = .ok (Table.handOver g terminals state row offer) := by
  obtain ⟨cells, conflicts⟩ := row
  unfold handOver? Table.handOver
  dsimp only
  cases hcell : cells[offer.1]? with
  | none => rfl
  | some cell =>
      cases terminals[offer.1]? with
      | none => rfl
      | some symbol =>
          refine if_neg fun hclash => ?_
          obtain ⟨target, target', hshift, haction, hne⟩ := Cell.exists_shift_of_clashes hclash
          exact hne ((h offer.1 cell target' hcell haction).unique (hoffer target hshift))

/-- No offers along the terminals of their columns clash in a straight row. -/
theorem Straight.foldlM_eq (h : Straight g s state row.1)
    (hoffers : ∀ c target, (c, .shift target) ∈ offers → LeadsAlong g s state c target)
    (terminals : List Symbol) :
    offers.foldlM (handOver? g terminals state) row =
      .ok (offers.foldl (Table.handOver g terminals state) row) := by
  induction offers generalizing row with
  | nil => rfl
  | cons offer rest ih =>
      have hoffer : ∀ target, offer.2 = .shift target → LeadsAlong g s state offer.1 target :=
        fun target hshift => hoffers _ target (hshift ▸ List.mem_cons_self)
      rw [List.foldlM_cons, h.handOver?_eq hoffer terminals, List.foldl_cons]
      exact ih (h.handOver hoffer terminals)
        fun c target hmem => hoffers c target (List.mem_cons_of_mem _ hmem)

/-- No shifts clash in a row. -/
theorem fillRow?_eq (g : Grammar α) (s : States) (lookaheads : Option Lookaheads)
    (terminals : List Symbol) (state : Nat) (items : List Nat) :
    fillRow? g s lookaheads terminals state items =
      .ok (fillRow g s lookaheads terminals state items) :=
  (straight_blank g s state terminals).foldlM_eq (fun _ _ hmem => leadsAlong_of_offer hmem)
    terminals

theorem fillRows?_eq (g : Grammar α) (s : States) (lookaheads : Option Lookaheads) (state : Nat)
    (states : List (List Nat)) : fillRows? g s lookaheads state states =
      .ok (states.mapIdx fun i => fillRow g s lookaheads g.terminals.keys (state + i)) := by
  induction states generalizing state with
  | nil => rfl
  | cons items rest ih =>
      rw [fillRows?, fillRow?_eq, ih, List.mapIdx_cons]
      simp only [Except.map, Nat.add_zero, Nat.add_assoc, Nat.add_comm 1]

/-- No table is refused for its shifts. -/
theorem ofStates?_eq (g : Grammar α) (s : States) (method : Method) :
    ofStates? g s method = .ok (ofStates g s method) := by
  rw [ofStates?, fillRows?_eq]
  simp only [Nat.zero_add]
  rfl

end Table

/-- A table is built of every grammar that can be made ready. -/
theorem Grammar.buildTable_eq (g : Grammar α) (method : Method) :
    g.buildTable method =
      match g.prepare with
      | (.error e, left) => (.error (.grammar e), left)
      | (.ok _, left) => (.ok (Table.ofStates left (Automaton.states left) method), left) := by
  unfold buildTable
  rcases g.prepare with ⟨_ | _, left⟩
  · rfl
  · simp only [Table.ofStates?_eq]

/-- The table of a grammar that was made ready. -/
theorem Grammar.buildTable_of_prepare {final : Grammar α} (h : g.prepare = (.ok (), final)) :
    g.buildTable method = (.ok (Table.ofStates final (Automaton.states final) method), final) := by
  rw [buildTable_eq, h]

end ShiftReduce
