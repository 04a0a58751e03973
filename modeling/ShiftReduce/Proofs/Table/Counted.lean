import ShiftReduce.Proofs.Builder.Building
import ShiftReduce.Proofs.Table.Built
import ShiftReduce.Proofs.Table.Settled
import Mathlib.Data.Finset.Card

/-!
# How many conflicts are on record

Without declared precedences every conflict is settled by default, and each is put on record: a cell
has one record for each action that is called for, but for the first one. Between a shift and a
reduction the shift is kept, and of two reductions the one that is declared first. So a table
without conflicts is one in which no cell was offered two actions. Read `buildTable_counts` first.
-/

namespace ShiftReduce

variable {α : Type} {g final : Grammar α} {s : States} {method : Method}

/-- A conflict in which the shift or the production declared first was kept. -/
inductive Verdict.Orderly : Verdict → Prop
  | shifted : Orderly .shifted
  | chosen {kept rejected : Nat} : kept < rejected → Orderly (.chosen kept rejected)

/-! ## Cells -/

namespace Cell

variable {terminal : Precedence} {precOf : Nat → Precedence} {cell : Cell}
  {front offers : List Offer} {last : Offer} {i : Nat}

/-- Offers such as the items of a state make: they do not clash of themselves, no reduction comes
twice, and none is of production 0. -/
structure Regular (offers : List Offer) : Prop where
  agreeing : Agreeing offers
  once : ∀ i, offers.count (.reduce i) ≤ 1
  positive : ∀ i, .reduce i ∈ offers → 0 < i

theorem Regular.of_concat (h : Regular (front ++ [last])) : Regular front where
  agreeing := h.agreeing.of_subset (List.subset_append_left front [last])
  once i := ((List.sublist_append_left front [last]).count_le _).trans (h.once i)
  positive i hmem := h.positive i (List.mem_append_left _ hmem)

/-- A reduction that comes last is new. -/
theorem Regular.new (h : Regular (front ++ [.reduce i])) : .reduce i ∉ front := by
  have honce := h.once i
  rw [List.count_append, List.count_singleton_self] at honce
  exact List.count_eq_zero.mp (by omega)

/-- What a cell holds without declared precedences: acceptance, or else a shift, or else a
reduction, if it was offered. -/
inductive Plain (offers : List Offer) : Cell → Prop
  | blank : offers = [] → Plain offers {}
  | accept : .accept ∈ offers → Plain offers ⟨some .accept, false⟩
  | shift {j : Nat} : .shift j ∈ offers → Plain offers ⟨some (.shift j), false⟩
  | reduce {i : Nat} : .reduce i ∈ offers → (∀ offer ∈ offers, ∃ k, offer = .reduce k) →
      Plain offers ⟨some (.reduce i), false⟩

/-- What one more offer does: unless it is the first or came before, it is put on record. -/
inductive Counts (front : List Offer) (last : Offer) : Cell × Option Verdict → Prop
  | silent {cell : Cell} : Plain (front ++ [last]) cell → (front = [] ∨ last ∈ front) →
      Counts front last (cell, none)
  | recorded {cell : Cell} {verdict : Verdict} : Plain (front ++ [last]) cell → front ≠ [] →
      last ∉ front → verdict.Orderly → Counts front last (cell, some verdict)

section Default

variable (hterminal : terminal = {}) (hprec : ∀ i, precOf i = {})

include hterminal hprec

/-- Without declared precedences a shift is kept, and that is put on record. -/
theorem settle_default (j i : Nat) :
    settle j i terminal (precOf i) = (⟨some (.shift j), false⟩, some .shifted) := by
  rw [hterminal, hprec]
  rfl

theorem Plain.take (hregular : Regular (front ++ [last])) (h : Plain front cell) :
    Counts front last (cell.take terminal precOf last) := by
  have hnow : last ∈ front ++ [last] := List.mem_append_right _ (List.mem_singleton_self last)
  have hold : ∀ {offer : Offer}, offer ∈ front → offer ∈ front ++ [last] :=
    List.mem_append_left [last]
  have hsettle := settle_default hterminal hprec
  cases h with
  | blank hnil =>
      subst hnil
      cases last with
      | accept => exact .silent (.accept hnow) (Or.inl rfl)
      | shift j => exact .silent (.shift hnow) (Or.inl rfl)
      | reduce i =>
          refine .silent (.reduce hnow fun offer hmem => ⟨i, ?_⟩) (Or.inl rfl)
          exact List.mem_singleton.mp hmem
  | accept haccept =>
      cases last with
      | accept => exact .silent (.accept hnow) (Or.inr haccept)
      | shift j => exact absurd hnow (hregular.agreeing.accepts (hold haccept))
      | reduce i =>
          exact .recorded (.accept (hold haccept)) (List.ne_nil_of_mem haccept) hregular.new
            (.chosen (hregular.positive i hnow))
  | @shift j hshift =>
      cases last with
      | accept => exact absurd (hold hshift) (hregular.agreeing.accepts hnow)
      | shift k =>
          obtain rfl := hregular.agreeing.shifts (hold hshift) hnow
          exact .silent (.shift hnow) (Or.inr hshift)
      | reduce i =>
          show Counts front (.reduce i) (settle j i terminal (precOf i))
          rw [hsettle]
          exact .recorded (.shift (hold hshift)) (List.ne_nil_of_mem hshift) hregular.new .shifted
  | @reduce i hreduce hall =>
      have hne : front ≠ [] := List.ne_nil_of_mem hreduce
      cases last with
      | accept =>
          refine .recorded (.accept hnow) hne (fun hmem => ?_)
            (.chosen (hregular.positive i (hold hreduce)))
          obtain ⟨k, hk⟩ := hall _ hmem
          cases hk
      | shift j =>
          show Counts front (.shift j) (settle j i terminal (precOf i))
          rw [hsettle]
          refine .recorded (.shift hnow) hne (fun hmem => ?_) .shifted
          obtain ⟨k, hk⟩ := hall _ hmem
          cases hk
      | reduce k =>
          have hdiffer : i ≠ k := fun hsame => hregular.new (hsame ▸ hreduce)
          have hleast : Offer.reduce (min i k) ∈ front ++ [.reduce k] := by
            rcases min_choice i k with hmin | hmin
            · rw [hmin]
              exact hold hreduce
            · rw [hmin]
              exact hnow
          refine .recorded (.reduce hleast fun offer hmem => ?_) hne hregular.new
            (.chosen (by omega))
          rcases List.mem_append.mp hmem with hfront | hlast
          · exact hall offer hfront
          · exact ⟨k, List.mem_singleton.mp hlast⟩

/-- Without declared precedences a cell has one record for each of the different offers it takes,
but for the first one. -/
theorem takeAll_counts (hregular : Regular offers) :
    Plain offers (takeAll terminal precOf offers).1 ∧
      (takeAll terminal precOf offers).2.length = offers.toFinset.card - 1 ∧
      ∀ verdict ∈ (takeAll terminal precOf offers).2, verdict.Orderly := by
  induction offers using List.reverseRecOn with
  | nil => exact ⟨.blank rfl, rfl, fun verdict hmem => absurd hmem List.not_mem_nil⟩
  | append_singleton front last ih =>
      obtain ⟨hplain, hlength, horderly⟩ := ih hregular.of_concat
      have hcounts := hplain.take hterminal hprec hregular
      have hinsert : (front ++ [last]).toFinset = insert last front.toFinset := by
        ext offer
        simp
      rw [takeAll_concat, hinsert, List.length_append, hlength]
      generalize (takeAll terminal precOf front).1.take terminal precOf last = taken at hcounts ⊢
      cases hcounts with
      | silent hplain hknown =>
          refine ⟨hplain, ?_, fun verdict hmem => horderly verdict (by simpa using hmem)⟩
          rcases hknown with rfl | hmem
          · rfl
          · rw [Finset.insert_eq_of_mem (List.mem_toFinset.mpr hmem)]
            rfl
      | recorded hplain hne hnew hverdict =>
          refine ⟨hplain, ?_, fun verdict hmem => ?_⟩
          · have hpositive : 0 < front.toFinset.card :=
              Finset.card_pos.mpr (List.toFinset_nonempty_iff front |>.mpr hne)
            rw [Finset.card_insert_of_notMem (mt List.mem_toFinset.mp hnew)]
            show front.toFinset.card - 1 + 1 = _
            omega
          · rcases List.mem_append.mp hmem with hfront | hlast
            · exact horderly verdict hfront
            · rw [List.mem_singleton.mp hlast]
              exact hverdict

end Default

end Cell

/-! ## Tables -/

namespace Table

open Grammar

variable {table : Table} {q c : Nat} {items : List Nat} {symbol : Symbol} {conflict : Conflict}

/-- The conflicts on record for a terminal in a state. -/
def conflictsAt (t : Table) (q : Nat) (symbol : Symbol) : List Conflict :=
  t.conflicts.filter fun conflict => conflict.state = q ∧ conflict.symbol = symbol

/-- If each row has the conflicts of its own state, those of one state are the conflicts of its
row. -/
theorem filter_flatMap_mapIdx {fill : Nat → List Nat → List Cell × List Conflict}
    (hfill : ∀ k items, ∀ conflict ∈ (fill k items).2, conflict.state = k)
    (states : List (List Nat)) (q : Nat) :
    ((states.mapIdx fill).flatMap Prod.snd).filter (fun conflict => conflict.state = q) =
      (states[q]?.map fun items => (fill q items).2).getD [] := by
  induction states using List.reverseRecOn with
  | nil => rfl
  | append_singleton front last ih =>
      have hown := hfill front.length last
      have hothers : q ≠ front.length →
          (fill front.length last).2.filter (fun conflict => conflict.state = q) = [] := by
        refine fun hne => List.filter_eq_nil_iff.mpr fun conflict hmem => ?_
        rw [hown conflict hmem, decide_eq_true_eq]
        exact Ne.symm hne
      rw [List.mapIdx_concat, List.flatMap_append, List.filter_append, ih, List.flatMap_singleton]
      rcases Nat.lt_trichotomy q front.length with hlt | rfl | hgt
      · rw [hothers (by omega), List.append_nil, List.getElem?_append_left hlt]
      · have hall : (fill front.length last).2.filter
            (fun conflict => conflict.state = front.length) = (fill front.length last).2 :=
          List.filter_eq_self.mpr fun conflict hmem => decide_eq_true (hown conflict hmem)
        rw [hall, List.getElem?_eq_none (Nat.le_refl _), List.getElem?_concat_length]
        rfl
      · have hlong : (front ++ [last]).length ≤ q := by
          rw [List.length_append]
          exact hgt
        rw [hothers (by omega), List.getElem?_eq_none (Nat.le_of_lt hgt),
          List.getElem?_eq_none hlong]
        rfl

/-- The conflicts on record for a terminal in a state are those of its column. -/
theorem length_conflictsAt (h : g.Ready) (hq : s.states[q]? = some items)
    (hc : g.terminalIndex? symbol = some c) :
    ((ofStates g s method).conflictsAt q symbol).length =
      (column g (rowOffers g s (lookaheadsBy g s method) q items) c symbol).2.length := by
  have hrow : (ofStates g s method).conflicts.filter (fun conflict => conflict.state = q) =
      (fillRow g s (lookaheadsBy g s method) g.terminals.keys q items).2 := by
    have hown : ∀ k items, ∀ conflict ∈
        (fillRow g s (lookaheadsBy g s method) g.terminals.keys k items).2, conflict.state = k :=
      fun k items conflict hmem => (of_mem_rowAfter hmem).1
    refine (filter_flatMap_mapIdx hown s.states q).trans ?_
    rw [hq]
    rfl
  have hfilled := filled_rowAfter (g := g) (q := q) h.wellFormed.nodupTerminals
    (rowOffers g s (lookaheadsBy g s method) q items)
  rw [← hfilled.verdicts (getElem?_of_idxOf? hc)]
  show _ = (verdictsOn (fillRow g s (lookaheadsBy g s method) g.terminals.keys q items).2
    symbol).length
  rw [← hrow, conflictsAt, verdictsOn, List.length_filterMap_eq_countP,
    List.countP_eq_length_filter, List.filter_filter]
  refine congrArg List.length (List.filter_congr fun conflict _ => ?_)
  by_cases hsymbol : conflict.symbol = symbol <;> simp [hsymbol]

/-- Without declared precedences, and without the end of input on right sides, the offers to a cell
are such as are counted. -/
theorem regular_columnOffers (h : g.Ready) (hs : Collected g s) (hends : EndsNowhere g)
    (hq : s.states[q]? = some items) (hc : g.terminalIndex? symbol = some c) :
    Cell.Regular (columnOffers (rowOffers g s (lookaheadsBy g s method) q items) c) where
  agreeing := agreeing_of_proposed hends fun offer => (mem_columnOffers_iff h hq hc).mp
  once i := by
    have hitems := (hs.proper.listed items (List.mem_of_getElem? hq)).nodup
    rw [count_columnOffers]
    exact count_rowOffers h hitems method q c i
  positive i hmem := by
    cases (mem_columnOffers_iff h hq hc).mp hmem with
    | reduce hi _ _ _ _ => exact Nat.pos_of_ne_zero hi

section Tables

variable (h : g.Ready) (hs : Collected g s) (hplain : g.precedence.keys = [])
  (hends : EndsNowhere g)

include h hs hplain hends

theorem counts_column (hq : s.states[q]? = some items) (hc : g.terminalIndex? symbol = some c) :
    (column g (rowOffers g s (lookaheadsBy g s method) q items) c symbol).2.length =
        (columnOffers (rowOffers g s (lookaheadsBy g s method) q items) c).toFinset.card - 1 ∧
      ∀ verdict ∈ (column g (rowOffers g s (lookaheadsBy g s method) q items) c symbol).2,
        verdict.Orderly := by
  have hprec := precedence_default h.wellFormed hplain symbol
  exact (Cell.takeAll_counts (hprec 0).1 (fun i => (hprec i).2)
    (regular_columnOffers h hs hends hq hc)).2

/-- In a cell there is one conflict on record for each action that is called for, but for the first
one. -/
theorem exists_actions (method : Method) (q : Nat) (symbol : Symbol) :
    ∃ actions : Finset Action,
      (∀ action, action ∈ actions ↔ Proposed g s method q symbol action) ∧
      ((ofStates g s method).conflictsAt q symbol).length = actions.card - 1 := by
  by_cases hplace : ∃ items c, s.states[q]? = some items ∧ g.terminalIndex? symbol = some c
  · obtain ⟨items, c, hq, hc⟩ := hplace
    have hoffers : ∀ offer : Offer,
        offer ∈ columnOffers (rowOffers g s (lookaheadsBy g s method) q items) c ↔
          Proposed g s method q symbol offer.action := fun offer => mem_columnOffers_iff h hq hc
    refine ⟨(columnOffers (rowOffers g s (lookaheadsBy g s method) q items) c).toFinset.image
      Offer.action, fun action => ?_, ?_⟩
    · obtain ⟨offer, rfl⟩ := exists_offer action
      rw [← hoffers, Finset.mem_image]
      constructor
      · rintro ⟨other, hother, hsame⟩
        rw [← Cell.action_injective hsame]
        exact List.mem_toFinset.mp hother
      · exact fun hmem => ⟨offer, List.mem_toFinset.mpr hmem, rfl⟩
    · rw [Finset.card_image_of_injective _ fun _ _ => Cell.action_injective,
        length_conflictsAt h hq hc, (counts_column h hs hplain hends hq hc).1]
  · -- there is no such cell
    refine ⟨∅, fun action => iff_of_false (Finset.notMem_empty action) fun hproposed => ?_, ?_⟩
    · obtain ⟨hlt, c, hc⟩ := hproposed.exists_terminalIndex? h.wellFormed
      exact hplace ⟨_, c, List.getElem?_eq_getElem hlt, hc⟩
    · refine List.length_eq_zero_iff.mpr (List.filter_eq_nil_iff.mpr fun conflict hmem => ?_)
      rw [decide_eq_true_eq]
      rintro ⟨rfl, rfl⟩
      obtain ⟨items, c, hq, hc, _⟩ := exists_column_of_mem h hmem
      exact hplace ⟨items, c, hq, hc⟩

/-- There is no conflict on record just if no cell is called on for two actions. -/
theorem conflicts_eq_nil_iff (method : Method) :
    (ofStates g s method).conflicts = [] ↔ ∀ q symbol action other,
      Proposed g s method q symbol action → Proposed g s method q symbol other →
        action = other := by
  constructor
  · intro hnil q symbol action other haction hother
    obtain ⟨actions, hactions, hlength⟩ := exists_actions h hs hplain hends method q symbol
    rw [conflictsAt, hnil] at hlength
    have hcard : actions.card ≤ 1 := by
      have hzero : 0 = actions.card - 1 := hlength
      omega
    exact Finset.card_le_one.mp hcard _ ((hactions _).mpr haction) _ ((hactions _).mpr hother)
  · intro hsame
    refine List.eq_nil_iff_forall_not_mem.mpr fun conflict hmem => ?_
    obtain ⟨actions, hactions, hlength⟩ :=
      exists_actions h hs hplain hends method conflict.state conflict.symbol
    have hat : conflict ∈ (ofStates g s method).conflictsAt conflict.state conflict.symbol :=
      List.mem_filter.mpr ⟨hmem, decide_eq_true ⟨rfl, rfl⟩⟩
    have hpositive := List.length_pos_of_mem hat
    obtain ⟨action, haction, other, hother, hne⟩ :=
      Finset.one_lt_card.mp (show 1 < actions.card by omega)
    exact hne (hsame _ _ _ _ ((hactions _).mp haction) ((hactions _).mp hother))

theorem orderly_of_mem (hmem : conflict ∈ (ofStates g s method).conflicts) :
    conflict.verdict.Orderly := by
  obtain ⟨items, c, hq, hc, hverdict⟩ := exists_column_of_mem h hmem
  exact (counts_column h hs hplain hends hq hc).2 _ hverdict

end Tables

/-- Preparing a grammar puts the end of input on no right side. -/
theorem EndsNowhere.prepare (h : EndsNowhere g) (hmade : g.prepare.2.Made) :
    EndsNowhere g.prepare.2 := by
  intro i p hp hmem
  cases i with
  | zero =>
      obtain ⟨zero, hzero, _, _, hsymbols⟩ := hmade.wellFormed.zero
      cases hzero.symm.trans hp
      rw [hsymbols] at hmem
      obtain ⟨start, _, hstart⟩ := List.mem_map.mp hmem
      cases hstart
  | succ k =>
      have hkept := congrArg (·[k]?) (declarations_prepare g)
      simp only [declarations, List.getElem?_map, List.getElem?_tail] at hkept
      rw [show g.prepare.2.productions[k + 1]? = some p from hp] at hkept
      obtain ⟨own, hown, hsame⟩ := Option.map_eq_some_iff.mp hkept.symm
      have hsymbols : own.symbols = p.symbols := congrArg (·.2.1) hsame
      exact h hown (hsymbols ▸ hmem)

/-- How a table keeps account of its conflicts: for each cell there is one conflict on record for
each of the actions that the items of the state call for on the terminal, but for the first one. So
there is none just if no cell is called on for two actions. In every conflict between a shift and a
reduction the shift was kept, and in every other one the production that was declared first. -/
structure Accounts (g : Grammar α) (s : States) (method : Method) (table : Table) : Prop where
  count : ∀ q symbol, ∃ actions : Finset Action,
    (∀ action, action ∈ actions ↔ Proposed g s method q symbol action) ∧
    (table.conflictsAt q symbol).length = actions.card - 1
  nil_iff : table.conflicts = [] ↔ ∀ q symbol action other,
    Proposed g s method q symbol action → Proposed g s method q symbol other → action = other
  orderly : ∀ conflict ∈ table.conflicts, conflict.verdict.Orderly

/-- Every table that is built without declared precedences, with the end of input on no right side,
keeps account of its conflicts. -/
theorem buildTable_counts (hmade : g.Made) (hplain : g.precedence.keys = [])
    (hends : EndsNowhere g) (hbuild : g.buildTable method = (.ok table, final)) :
    Accounts final (Automaton.states final) method table := by
  obtain ⟨hprepared, rfl⟩ := buildTable_spec hmade hbuild
  have hready := hprepared.made.ready hprepared.items
  obtain rfl : final = g.prepare.2 := by rw [← buildTable_grammar g method, hbuild]
  have hfinal : g.prepare.2.precedence.keys = [] := by rwa [(retains_prepare g).precedence]
  have hnowhere : EndsNowhere g.prepare.2 := EndsNowhere.prepare hends hprepared.made
  exact
    { count := exists_actions hready hready.collection hfinal hnowhere method
      nil_iff := conflicts_eq_nil_iff hready hready.collection hfinal hnowhere method
      orderly := fun _ => orderly_of_mem hready hready.collection hfinal hnowhere }

/-- Conditions with and without an alternative. -/
def conditions : Grammar Unit :=
  let g := blank
  let g := (g.addProduction "step" [.literal 'i', .nonterminal "step"] none none).2
  let g := (g.addProduction "step"
    [.literal 'i', .nonterminal "step", .literal 'e', .nonterminal "step"] none none).2
  (g.addProduction "step" [.literal 'x'] none none).2

theorem made_conditions : conditions.Made :=
  .addProduction _ _ _ _ (.addProduction _ _ _ _ (.addProduction _ _ _ _ made_blank))

/-- There is one conflict on record, whether an alternative belongs to the inner condition, and so
there is a cell that is called on for two actions. -/
theorem buildTable_counts_conditions :
    conditions.Made ∧ conditions.precedence.keys = [] ∧
      ∃ table final, conditions.buildTable .lalr = (.ok table, final) ∧
        table.conflicts.map Conflict.verdict = [.shifted] ∧
        ∃ q symbol action other, action ≠ other ∧
          Proposed final (Automaton.states final) .lalr q symbol action ∧
          Proposed final (Automaton.states final) .lalr q symbol other := by
  have hends : ∀ p ∈ conditions.productions, Symbol.endOfInput ∉ p.symbols := by decide +kernel
  have hbuild : conditions.buildTable .lalr =
      (.ok (ofStates conditions.prepare.2 (Automaton.states conditions.prepare.2) .lalr),
        conditions.prepare.2) := buildTable_of_prepare rfl
  have hverdicts : (ofStates conditions.prepare.2 (Automaton.states conditions.prepare.2)
      .lalr).conflicts.map Conflict.verdict = [.shifted] := by decide +kernel
  have haccounts := buildTable_counts made_conditions (by decide +kernel)
    (fun hp => hends _ (List.mem_of_getElem? hp)) hbuild
  refine ⟨made_conditions, by decide +kernel, _, _, hbuild, hverdicts, ?_⟩
  by_contra hnone
  have hnil := haccounts.nil_iff.mpr fun q symbol action other haction hother => by
    by_contra hne
    exact hnone ⟨q, symbol, action, other, hne, haction, hother⟩
  rw [hnil] at hverdicts
  cases hverdicts

end Table

end ShiftReduce
