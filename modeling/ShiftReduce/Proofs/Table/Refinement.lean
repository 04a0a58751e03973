import ShiftReduce.Proofs.Grammar.FollowExact
import ShiftReduce.Proofs.Grammar.History
import ShiftReduce.Proofs.Table.Expected
import ShiftReduce.Proofs.Table.Settled

/-!
# What the two methods have in common

Both methods build their table from the same states, and the lookaheads kept apart from the FOLLOW
sets lie in them. So the items of a state offer the same shifts and acceptances by either method,
and the finer one offers no reduction that the coarser does not. Where the coarser table has no
conflict and no precedence is declared, its cells are offered one reduction and nothing else, or no
reduction at all, and the finer table does the same or nothing. Read `lalr_refines_slr` first.
-/

namespace ShiftReduce

variable {α : Type} {g final : Grammar α} {s : States} {method : Method}

/-! ## Cells without conflicts -/

namespace Cell

variable {terminal : Precedence} {precOf : Nat → Precedence} {offers : List Offer}

/-- What a cell holds that was offered shifts and acceptances only. -/
structure Calm (cell : Cell) (offers : List Offer) : Prop where
  barred : cell.barred = false
  action : offers ≠ [] → ∃ held : Offer, cell.action = some held.action ∧
    ∀ i, held ≠ .reduce i

/-- Without reductions no conflict is settled. -/
theorem takeAll_calm (terminal : Precedence) (precOf : Nat → Precedence)
    (hnone : ∀ i, Offer.reduce i ∉ offers) :
    (takeAll terminal precOf offers).2 = [] ∧
      Calm (takeAll terminal precOf offers).1 offers := by
  induction offers using List.reverseRecOn with
  | nil => exact ⟨rfl, rfl, fun hne => absurd rfl hne⟩
  | append_singleton front last ih =>
      obtain ⟨hverdicts, hbarred, hfront⟩ :=
        ih fun i hmem => hnone i (List.mem_append_left _ hmem)
      have hlast : ∀ i, last ≠ .reduce i := by
        intro i hsame
        exact hnone i (List.mem_append_right _ (List.mem_singleton.mpr hsame.symm))
      rw [takeAll_concat]
      generalize hcell : (takeAll terminal precOf front).1 = cell at hbarred hfront ⊢
      obtain ⟨action, barred⟩ := cell
      rw [hverdicts]
      subst hbarred
      -- the cell is empty or holds a shift or acceptance
      have hheld : action = none ∨ ∃ held : Offer, action = some held.action ∧
          ∀ i, held ≠ .reduce i := by
        by_cases hnil : front = []
        · subst hnil
          exact Or.inl (congrArg Cell.action hcell).symm
        · exact Or.inr (hfront hnil)
      cases last with
      | reduce i => exact absurd rfl (hlast i)
      | accept =>
          obtain hempty | ⟨held, hsame, hshift⟩ := hheld
          · subst hempty
            exact ⟨rfl, rfl, fun _ => ⟨.accept, rfl, by simp⟩⟩
          · subst hsame
            cases held with
            | reduce i => exact absurd rfl (hshift i)
            | accept => exact ⟨rfl, rfl, fun _ => ⟨.accept, rfl, by simp⟩⟩
            | shift j => exact ⟨rfl, rfl, fun _ => ⟨.accept, rfl, by simp⟩⟩
      | shift j =>
          obtain hempty | ⟨held, hsame, hshift⟩ := hheld
          · subst hempty
            exact ⟨rfl, rfl, fun _ => ⟨.shift j, rfl, by simp⟩⟩
          · subst hsame
            cases held with
            | reduce i => exact absurd rfl (hshift i)
            | accept => exact ⟨rfl, rfl, fun _ => ⟨.accept, rfl, by simp⟩⟩
            | shift k => exact ⟨rfl, rfl, fun _ => ⟨.shift k, rfl, by simp⟩⟩

/-- Without declared precedences, a cell that settles no conflict by default is offered no
reduction, or one reduction and nothing else. -/
theorem offers_of_no_verdict (hterminal : terminal = {}) (hprec : ∀ i, precOf i = {})
    (hnone : (takeAll terminal precOf offers).2 = []) :
    (∀ i, Offer.reduce i ∉ offers) ∨ ∃ i, offers = [.reduce i] := by
  induction offers using List.reverseRecOn with
  | nil => exact Or.inl fun _ => List.not_mem_nil
  | append_singleton front last ih =>
      rw [takeAll_concat] at hnone
      obtain ⟨hfront, hlast⟩ := List.append_eq_nil_iff.mp hnone
      rw [Option.toList_eq_nil_iff] at hlast
      have hclash : ∀ {j i : Nat}, (settle j i terminal (precOf i)).2 ≠ none :=
        settle_verdict hterminal (hprec _)
      obtain hcalm | ⟨i, hsingle⟩ := ih hfront
      · cases last with
        | accept => exact Or.inl fun i => by simpa using hcalm i
        | shift j => exact Or.inl fun i => by simpa using hcalm i
        | reduce i =>
            by_cases hnil : front = []
            · subst hnil
              exact Or.inr ⟨i, rfl⟩
            · -- the reduction meets what the cell holds already
              obtain ⟨_, hbarred, hheld⟩ :=
                takeAll_calm terminal precOf hcalm
              obtain ⟨held, haction, hshift⟩ := hheld hnil
              simp only [take, hbarred, haction] at hlast
              cases held with
              | reduce k => exact absurd rfl (hshift k)
              | accept => cases hlast
              | shift j => exact absurd hlast hclash
      · -- whatever comes after a reduction meets it
        subst hsingle
        cases last with
        | accept => cases hlast
        | reduce k => cases hlast
        | shift j => exact absurd hlast hclash

end Cell

namespace Table

open Grammar

variable {q i c : Nat} {items : List Nat} {symbol : Symbol} {action : Action} {p : Production α}

/-! ## Lookaheads and offers -/

/-- The lookaheads kept apart from the FOLLOW sets lie in them. -/
theorem reductionLookaheads_subset (hprepared : g.Prepared) (hs : Collected g s)
    (hp : g.production? i = some p) (hi : i ≠ 0) :
    reductionLookaheads g (lookaheadsBy g s .lalr) q i ⊆
      reductionLookaheads g (lookaheadsBy g s .slr) q i := by
  have hready := hprepared.made.ready hprepared.items
  intro v hv
  obtain ⟨t, γ, hindex, hpath, hexpects⟩ :=
    (Lookahead.mem_lookaheads_iff hready hs hp hi).mp hv
  exact mem_reductionLookaheads hprepared hs hp hi hpath hexpects hindex

/-- What an item calls for by the finer method it calls for by the coarser. -/
theorem Proposed.coarser (hprepared : g.Prepared) (hs : Collected g s)
    (h : Proposed g s .lalr q symbol action) : Proposed g s .slr q symbol action := by
  cases h with
  | accept hheld hsymbol => exact .accept hheld hsymbol
  | reduce hi hp hheld hc hmem =>
      exact .reduce hi hp hheld hc (reductionLookaheads_subset hprepared hs hp hi hmem)
  | shift hheld hsymbol hterminal hgoto => exact .shift hheld hsymbol hterminal hgoto

/-- A lookahead of a production by FOLLOW sets can come after its left side. -/
theorem exists_followed (hprepared : g.Prepared) (hp : g.production? i = some p)
    (hc : g.terminalIndex? symbol = some c) (hmem : c ∈ followLookaheads g i) :
    ∃ start, g.Followed start p.name symbol := by
  obtain ⟨start, hstart⟩ := hprepared.start
  obtain ⟨_, hfirst, hfollow⟩ := hprepared.made.remembers.follow (hprepared.follow.trans hstart)
  rw [followLookaheads, hp] at hmem
  obtain ⟨t, ht, hindex⟩ := List.mem_filterMap.mp (Ascending.mem_ofList.mp hmem)
  rw [eq_of_terminalIndex? hc hindex]
  rw [hfollow] at ht
  exact ⟨start, soundFollow_followSets hprepared.made.wellFormed hfirst start _ _ ht⟩

/-- Something is called for only on the end of input and on terminals that stand on right sides. -/
theorem Proposed.eq_endOfInput_or_mem (hprepared : g.Prepared) (hs : Collected g s)
    (h : Proposed g s method q symbol action) :
    symbol = .endOfInput ∨ ∃ i p, g.production? i = some p ∧ symbol ∈ p.symbols := by
  have hcoarse : Proposed g s .slr q symbol action := by
    cases method with
    | lalr => exact h.coarser hprepared hs
    | slr => exact h
  cases hcoarse with
  | accept _ _ => exact Or.inl rfl
  | reduce _ hp _ hc hmem =>
      obtain ⟨_, hfollowed⟩ := exists_followed hprepared hp hc hmem
      refine hfollowed.eq_endOfInput_or_mem (hprepared.made.wellFormed.terminal ?_)
      exact List.mem_of_getElem? (getElem?_of_idxOf? hc)
  | shift _ hafter _ _ =>
      obtain ⟨p, hp, hget⟩ := exists_production?_of_symbolAt hafter
      exact Or.inr ⟨_, p, hp, List.mem_of_getElem? hget⟩

/-- Whether an offer is not a reduction. -/
def isCalm (offer : Nat × Offer) : Bool :=
  match offer.2 with
  | .reduce _ => false
  | _ => true

/-- But for reductions an item offers the same with any lookaheads. -/
theorem filter_offersOf (g : Grammar α) (s : States) (lookaheads others : Option Lookaheads)
    (q : Nat) (item : Item) : (offersOf g s lookaheads q item).filter isCalm =
      (offersOf g s others q item).filter isCalm := by
  unfold offersOf
  split
  · split
    · rfl
    · simp [List.filter_map, Function.comp_def, isCalm]
  · rfl

theorem filter_rowOffers (g : Grammar α) (s : States) (lookaheads others : Option Lookaheads)
    (q : Nat) (items : List Nat) : (rowOffers g s lookaheads q items).filter isCalm =
      (rowOffers g s others q items).filter isCalm := by
  simp only [rowOffers, List.filter_flatMap, filter_offersOf g s lookaheads others]

/-- A column that is offered no reduction does not notice when reductions are left out. -/
theorem columnOffers_filter {offers : List (Nat × Offer)}
    (hnone : ∀ i, Offer.reduce i ∉ columnOffers offers c) :
    columnOffers (offers.filter isCalm) c = columnOffers offers c := by
  rw [columnOffers, columnOffers, List.filterMap_filter]
  refine List.filterMap_congr fun offer hoffer => ?_
  obtain ⟨place, asked⟩ := offer
  cases asked with
  | accept => rfl
  | shift j => rfl
  | reduce i =>
      -- it is for another column
      have hne : place ≠ c := fun hsame => hnone i (mem_columnOffers.mpr (hsame ▸ hoffer))
      simp [isCalm, hne]

/-- The offers to a cell by a method, in the order of the items. -/
def offersTo (g : Grammar α) (s : States) (method : Method) (q c : Nat) (items : List Nat) :
    List Offer :=
  columnOffers (rowOffers g s (lookaheadsBy g s method) q items) c

/-- Where the coarser method settles nothing by default, the finer one offers nothing to a cell or
just what the coarser offers. -/
theorem offersTo_refine (hprepared : g.Prepared) (hs : Collected g s)
    (hplain : g.precedence.keys = []) (hq : s.states[q]? = some items)
    (hc : g.terminalIndex? symbol = some c)
    (hquiet : (column g (rowOffers g s (lookaheadsBy g s .slr) q items) c symbol).2 = []) :
    offersTo g s .lalr q c items = [] ∨
      offersTo g s .lalr q c items = offersTo g s .slr q c items := by
  have hready := hprepared.made.ready hprepared.items
  have hprec := precedence_default hready.wellFormed hplain symbol
  have hsub : ∀ offer ∈ offersTo g s .lalr q c items, offer ∈ offersTo g s .slr q c items := by
    intro offer hoffer
    rw [offersTo, mem_columnOffers_iff hready hq hc] at hoffer ⊢
    exact hoffer.coarser hprepared hs
  obtain hcalm | ⟨i, hsingle⟩ :=
    Cell.offers_of_no_verdict (hprec 0).1 (fun i => (hprec i).2) hquiet
  · right
    have hfine : ∀ i, Offer.reduce i ∉ offersTo g s .lalr q c items :=
      fun i hi => hcalm i (hsub _ hi)
    rw [offersTo, offersTo, ← columnOffers_filter hfine, ← columnOffers_filter hcalm,
      filter_rowOffers g s _ (lookaheadsBy g s .slr)]
  · -- the one reduction is offered once by the finer method too, or not at all
    have hcoarse : offersTo g s .slr q c items = [.reduce i] := hsingle
    have hcount : (offersTo g s .lalr q c items).count (.reduce i) ≤ 1 := by
      rw [offersTo, count_columnOffers]
      exact count_rowOffers hready
        (hs.proper.listed items (List.mem_of_getElem? hq)).nodup .lalr q c i
    rw [hcoarse] at hsub ⊢
    have hall := List.eq_replicate_of_mem fun offer hoffer =>
      List.mem_singleton.mp (hsub offer hoffer)
    rw [hall, List.count_replicate_self] at hcount
    obtain hzero | hone : (offersTo g s .lalr q c items).length = 0 ∨
        (offersTo g s .lalr q c items).length = 1 := by omega
    · exact Or.inl (List.eq_nil_of_length_eq_zero hzero)
    · rw [hone] at hall
      exact Or.inr hall

/-! ## Tables -/

/-- The cell of a table in a row and a column. -/
def cellAt (t : Table) (q c : Nat) : Option Action :=
  ((t.action[q]?).bind fun row => row[c]?).join

/-- A cell holds what its column ends with. -/
theorem cellAt_eq_column (h : g.Ready) (hq : s.states[q]? = some items)
    (hc : g.terminalIndex? symbol = some c) : (ofStates g s method).cellAt q c =
      (column g (rowOffers g s (lookaheadsBy g s method) q items) c symbol).1.action := by
  have hindex : (ofStates g s method).terminals.idxOf? symbol = some c := hc
  rw [← actionOn_eq_column h hq hc, actionOn, cellAt, hindex]
  cases (ofStates g s method).action[q]? with
  | none => rfl
  | some row => cases hcell : row[c]? <;> simp [hcell]

/-- Only a state has cells, and only for terminals of the grammar. -/
theorem exists_of_cellAt (h : g.WellFormed)
    (hcell : (ofStates g s method).cellAt q c = some action) :
    ∃ items symbol, s.states[q]? = some items ∧ g.terminalIndex? symbol = some c := by
  simp only [cellAt, Option.join_eq_some_iff, Option.bind_eq_some_iff] at hcell
  obtain ⟨row, hrow, hcell⟩ := hcell
  simp only [ofStates, ofRows, List.getElem?_map, List.getElem?_mapIdx, Option.map_eq_some_iff]
    at hrow
  obtain ⟨_, ⟨items, hitems, hfilled⟩, hsame⟩ := hrow
  subst hfilled hsame
  have hlength := (filled_rowAfter (g := g) (q := q) h.nodupTerminals
    (rowOffers g s (lookaheadsBy g s method) q items)).length
  have hlt := (List.getElem?_eq_some_iff.mp hcell).1
  rw [List.length_map] at hlt
  have hterminal : c < g.terminals.keys.length := hlength ▸ hlt
  refine ⟨items, g.terminals.keys[c], hitems, ?_⟩
  obtain ⟨c', hc'⟩ := exists_idxOf? (List.getElem_mem hterminal)
  have hplace : c = c' := (List.getElem?_inj hterminal h.nodupTerminals).mp
    ((List.getElem?_eq_getElem hterminal).trans (getElem?_of_idxOf? hc').symm)
  rw [terminalIndex?, Registry.indexOf?, hc', hplace]

/-- Without declared precedences and conflicts of the coarser method, the finer one has no conflicts
either. -/
theorem conflicts_refine (hprepared : g.Prepared) (hs : Collected g s)
    (hplain : g.precedence.keys = []) (hconflicts : (ofStates g s .slr).conflicts = []) :
    (ofStates g s .lalr).conflicts = [] := by
  have hready := hprepared.made.ready hprepared.items
  refine conflicts_eq_nil_of_columns hready fun {q items symbol c} hq hc => ?_
  have hquiet := verdicts_eq_nil hready hq hc hconflicts
  show (Cell.takeAll _ _ (offersTo g s .lalr q c items)).2 = []
  obtain hnil | hsame := offersTo_refine hprepared hs hplain hq hc hquiet
  · rw [hnil]
    rfl
  · rw [hsame]
    exact hquiet

/-- Without declared precedences and conflicts of the coarser method, the cells of the finer one
that are not errors are those of the coarser. -/
theorem cellAt_refine (hprepared : g.Prepared) (hs : Collected g s)
    (hplain : g.precedence.keys = []) (hconflicts : (ofStates g s .slr).conflicts = [])
    (hcell : (ofStates g s .lalr).cellAt q c = some action) :
    (ofStates g s .slr).cellAt q c = some action := by
  have hready := hprepared.made.ready hprepared.items
  obtain ⟨items, symbol, hq, hc⟩ := exists_of_cellAt hready.wellFormed hcell
  have hquiet := verdicts_eq_nil hready hq hc hconflicts
  rw [cellAt_eq_column hready hq hc] at hcell ⊢
  have hfine : (Cell.takeAll (g.precedenceOf symbol) (productionPrecedence g)
      (offersTo g s .lalr q c items)).1.action = some action := hcell
  obtain hnil | hsame := offersTo_refine hprepared hs hplain hq hc hquiet
  · rw [hnil] at hfine
    cases hfine
  · rw [hsame] at hfine
    exact hfine

/-- The lookaheads that the finer method has for a production in a state are terminals that follow
its left side. -/
theorem lookaheads_follow (hprepared : g.Prepared) (hp : g.production? i = some p) {v : Nat}
    (hv : v ∈ ((Lookahead.compute g (Automaton.states g)).get? (q, i)).getD []) :
    ∃ t ∈ (g.follow.get? p.name).getD [], g.terminalIndex? t = some v := by
  have hready := hprepared.made.ready hprepared.items
  have hi : i ≠ 0 := by
    obtain ⟨set, hset⟩ : ∃ set,
        (Lookahead.compute g (Automaton.states g)).get? (q, i) = some set := by
      cases hset : (Lookahead.compute g (Automaton.states g)).get? (q, i) with
      | none =>
          rw [hset] at hv
          exact absurd hv List.not_mem_nil
      | some set => exact ⟨set, rfl⟩
    exact ((Lookahead.mem_keys_compute_iff hready hready.collection hp).mp
      (Registry.mem_keys_of_get? hset)).1
  have hmem : v ∈ followLookaheads g i :=
    reductionLookaheads_subset hprepared hready.collection hp hi hv
  rw [followLookaheads, hp] at hmem
  exact List.mem_filterMap.mp (Ascending.mem_ofList.mp hmem)

/-- How one table refines another. -/
structure Refines (fine coarse : Table) : Prop where
  conflicts : fine.conflicts = []
  cells : ∀ {q c : Nat} {action : Action}, fine.cellAt q c = some action →
    coarse.cellAt q c = some action

/-- The two tables of a grammar share states, gotos and symbols. The lookaheads of a reduction are
terminals of the FOLLOW set of its left side. So, if no precedence is declared and the table by
FOLLOW sets has no conflict, the other one refines it. -/
theorem lalr_refines_slr {table : Table} (hmade : g.Made)
    (hbuild : g.buildTable method = (.ok table, final)) :
    ∃ lalr slr follow, g.buildTable .lalr = (.ok lalr, final) ∧
      g.buildTable .slr = (.ok slr, final) ∧
      final.computeFollow final.start = (.ok follow, final) ∧
      lalr.states = slr.states ∧ lalr.goto = slr.goto ∧ lalr.terminals = slr.terminals ∧
      lalr.nonterminals = slr.nonterminals ∧
      (∀ q i p, final.production? i = some p →
        final.Holds ((Automaton.states final).itemsOf q) i p.symbols.length →
        ∀ v ∈ ((Lookahead.compute final (Automaton.states final)).get? (q, i)).getD [],
          ∃ t ∈ (follow.get? p.name).getD [], final.terminalIndex? t = some v) ∧
      (g.precedence.keys = [] → slr.conflicts = [] → lalr.Refines slr) := by
  obtain ⟨hprepared, _⟩ := buildTable_spec hmade hbuild
  have hprepare : g.prepare = (.ok (), final) := by
    rw [buildTable_eq] at hbuild
    split at hbuild
    · cases hbuild
    · rename_i hanswer
      cases hbuild
      exact hanswer
  have hboth : ∀ method, g.buildTable method =
      (.ok (ofStates final (Automaton.states final) method), final) :=
    fun _ => buildTable_of_prepare hprepare
  have hfollow : final.computeFollow final.start = (.ok final.follow, final) := by
    obtain ⟨start, hstart⟩ := hprepared.start
    rw [computeFollow, hstart]
    exact if_pos (hprepared.follow.trans hstart)
  refine ⟨_, _, _, hboth .lalr, hboth .slr, hfollow, rfl, rfl, rfl, rfl, ?_, ?_⟩
  · intro q i p hp _ v hv
    exact lookaheads_follow hprepared hp hv
  · intro hplain hconflicts
    have hfinal : final.precedence.keys = [] := by
      have hkept := (retains_prepare g).precedence
      rw [hprepare] at hkept
      rwa [show final.precedence = g.precedence from hkept]
    have hs := (hprepared.made.ready hprepared.items).collection
    exact ⟨conflicts_refine hprepared hs hfinal hconflicts,
      cellAt_refine hprepared hs hfinal hconflicts⟩

/-- The two tables of nested parentheses. -/
theorem lalr_refines_slr_parentheses : (parentheses (none : Option Unit)).Made ∧
    ∃ lalr slr final, (parentheses (none : Option Unit)).buildTable .lalr = (.ok lalr, final) ∧
      (parentheses (none : Option Unit)).buildTable .slr = (.ok slr, final) ∧
      slr.conflicts = [] ∧ lalr.Refines slr := by
  have hmade : (parentheses (none : Option Unit)).Made := made_parentheses none
  have hbuild : (parentheses (none : Option Unit)).buildTable .lalr =
      (.ok (ofStates (parentheses none).prepare.2
        (Automaton.states (parentheses (none : Option Unit)).prepare.2) .lalr),
        (parentheses none).prepare.2) := buildTable_of_prepare rfl
  obtain ⟨lalr, slr, _, hlalr, hslr, _, _, _, _, _, _, hrefines⟩ := lalr_refines_slr hmade hbuild
  have hquiet : slr.conflicts = [] := by
    have hanswer : (match (parentheses (none : Option Unit)).buildTable .slr with
        | (.ok table, _) => table.conflicts
        | _ => [⟨0, .error, .shifted⟩]) = [] := by decide +kernel
    rwa [hslr] at hanswer
  exact ⟨hmade, lalr, slr, _, hlalr, hslr, hquiet, hrefines rfl hquiet⟩

end Table

end ShiftReduce
