import ShiftReduce.Proofs.Table.Built

/-!
# Expected terminals are lookaheads

By either method the lookaheads of a reduction hold every terminal that its complete item expects
after a string that leads to the state: the sets kept apart hold exactly these, and the FOLLOW sets
hold them whatever the string is.
-/

namespace ShiftReduce.Table

open Grammar

variable {α : Type} {g : Grammar α} {s : States} {method : Method} {γ : List Symbol}
  {i dot q c : Nat} {t : Symbol} {p : Production α}

/-- Production 0 expects the end of input only. -/
theorem eq_endOfInput_of_expects (h : g.WellFormed) (hexpects : g.Expects γ i dot t) (hi : i = 0) :
    t = .endOfInput := by
  induction hexpects with
  | start => rfl
  | read _ _ ih => exact ih hi
  | generate _ _ hj _ => exact absurd hi (h.rules.mp hj).1
  | pass _ _ hj _ _ => exact absurd hi (h.rules.mp hj).1

/-- What an item expects is in the FOLLOW set of its left side. -/
theorem mem_followSets_of_expects (h : g.WellFormed) (hfirst : g.first = g.firstSets)
    {start : String} (hstart : g.start = some start) (hexpects : g.Expects γ i dot t)
    (hp : g.production? i = some p) (hi : i ≠ 0) :
    t ∈ ((g.followSets start).get? p.name).getD [] := by
  induction hexpects generalizing p with
  | start => exact absurd rfl hi
  | read _ _ ih => exact ih hp hi
  | @generate γ k dot j name t _ hname hj hbegins =>
      obtain ⟨_, q, hq, rfl⟩ := h.rules.mp hj
      cases hp.symm.trans hq
      obtain ⟨outer, houter, _⟩ := exists_production?_of_symbolAt hname
      have hk : k ≠ 0 := by
        -- Nothing stands behind the start symbol in production 0.
        rintro rfl
        obtain ⟨rfl, _, _, _⟩ := h.symbolAt_zero hname
        rw [(symbolAt_of_rest (h.rest_zero hstart)).2] at hbegins
        exact not_starting_nil (starting_iff.mpr hbegins)
      have hsplit := symbols_eq_of_symbolAt houter hname
      exact mem_followSets_of_beginsWith h hfirst houter hk hsplit hbegins
  | @pass γ k dot j name t hexpects hname hj hvanishes ih =>
      obtain ⟨_, q, hq, rfl⟩ := h.rules.mp hj
      cases hp.symm.trans hq
      obtain ⟨outer, houter, _⟩ := exists_production?_of_symbolAt hname
      by_cases hk : k = 0
      · rw [eq_endOfInput_of_expects h hexpects hk]
        subst hk
        obtain ⟨_, start', hstart', hsame⟩ := h.symbolAt_zero hname
        cases hstart.symm.trans hstart'
        rw [Symbol.nonterminal.inj hsame]
        exact (following_followSets h hfirst).endOfInput
      · have hsplit := symbols_eq_of_symbolAt houter hname
        exact mem_followSets_of_vanishes h hfirst houter hk hsplit hvanishes (ih houter hk)

/-- By either method the lookaheads of a reduction hold what its complete item expects. -/
theorem mem_reductionLookaheads (hprepared : g.Prepared) (hs : Collected g s)
    (hp : g.production? i = some p) (hi : i ≠ 0) (hpath : s.path? 0 γ = some q)
    (hexpects : g.Expects γ i p.symbols.length t) (hc : g.terminalIndex? t = some c) :
    c ∈ reductionLookaheads g (lookaheadsBy g s method) q i := by
  have hready := hprepared.made.ready hprepared.items
  cases method with
  | lalr =>
      exact (Lookahead.mem_lookaheads_iff hready hs hp hi).mpr ⟨t, γ, hc, hpath, hexpects⟩
  | slr =>
      obtain ⟨start, hstart⟩ := hprepared.start
      obtain ⟨_, hfirst, hfollow⟩ :=
        hprepared.made.remembers.follow (hprepared.follow.trans hstart)
      have hmem := mem_followSets_of_expects hready.wellFormed hfirst hstart hexpects hp hi
      show c ∈ followLookaheads g i
      rw [followLookaheads, hp, hfollow]
      exact Ascending.mem_ofList.mpr (List.mem_filterMap.mpr ⟨t, hmem, hc⟩)

/-- What an item expects is a terminal of the grammar. -/
theorem mem_keys_of_expects (h : g.WellFormed) (hexpects : g.Expects γ i dot t) :
    t ∈ g.terminals.keys := by
  rcases hexpects.eq_endOfInput_or_mem with rfl | ⟨j, p, hp, hmem⟩
  · exact h.endOfInput
  · exact (h.knows hp hmem).mem_keys hexpects.isTerminal

/-- By either method a complete item calls for its reduction before a terminal that it expects. -/
theorem proposed_of_expects (hprepared : g.Prepared) (hs : Collected g s)
    (hp : g.production? i = some p) (hi : i ≠ 0) (hpath : s.path? 0 γ = some q)
    (hexpects : g.Expects γ i p.symbols.length t) : Proposed g s method q t (.reduce i) := by
  have hready := hprepared.made.ready hprepared.items
  obtain ⟨c, hc⟩ := exists_idxOf? (mem_keys_of_expects hready.wellFormed hexpects)
  refine .reduce hi hp ?_ hc (mem_reductionLookaheads hprepared hs hp hi hpath hexpects hc)
  exact (holds_iff_viable hready hs hpath).mpr hexpects.viable

end ShiftReduce.Table
