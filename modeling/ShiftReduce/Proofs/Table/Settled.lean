import ShiftReduce.Proofs.Table.Actions

/-!
# Cells in which a shift meets a reduction

A cell that is offered one shift and one reduction ends with what their precedences ask for, in
whichever order the offers come and however often the shift is repeated. A reduction comes once: no
state has an item twice and no lookahead set a terminal twice. `actionOn_of_offers` reads the action
off what the items of a state call for; `conflicts_eq_nil` does so for the conflicts of a table.
-/

namespace ShiftReduce

variable {α : Type} {g : Grammar α} {s : States} {method : Method}

namespace Cell

variable {terminal : Precedence} {precOf : Nat → Precedence} {offers : List Offer} {i j : Nat}

/-- What a cell holds that was offered a shift, or a reduction, or both. -/
def between (j i : Nat) (terminal production : Precedence) (shift reduce : Prop)
    [Decidable shift] [Decidable reduce] : Cell :=
  if shift then
    if reduce then (settle j i terminal production).1 else ⟨some (.shift j), false⟩
  else if reduce then ⟨some (.reduce i), false⟩ else {}

/-- With a declared precedence the result of settling a conflict stays when the shift is offered
again. -/
theorem take_shift_settle (hdeclared : undeclared terminal (precOf i) = false) :
    (settle j i terminal (precOf i)).1.take terminal precOf (.shift j) =
      ((settle j i terminal (precOf i)).1, none) := by
  cases hresolve : terminal.resolve (precOf i) <;>
    simp [settle, hresolve, take, hdeclared]

/-- A cell that is offered one shift, any number of times, and one reduction, at most once, holds
what their precedences ask for, and nothing is settled by default if one of them is declared. -/
theorem takeAll_between (hall : ∀ offer ∈ offers, offer = .shift j ∨ offer = .reduce i)
    (hcount : offers.count (.reduce i) ≤ 1)
    (hdeclared : .shift j ∈ offers → .reduce i ∈ offers → undeclared terminal (precOf i) = false) :
    takeAll terminal precOf offers =
      (between j i terminal (precOf i) (.shift j ∈ offers) (.reduce i ∈ offers), []) := by
  induction offers using List.reverseRecOn with
  | nil => rfl
  | append_singleton front last ih =>
      rw [List.count_append] at hcount
      rw [takeAll_concat, ih (fun offer hmem => hall offer (List.mem_append_left _ hmem)) (by omega)
        fun hshift hreduce => hdeclared (List.mem_append_left _ hshift)
          (List.mem_append_left _ hreduce)]
      rcases hall last (List.mem_append_right _ (List.mem_singleton_self last)) with rfl | rfl
      · by_cases hshift : Offer.shift j ∈ front <;> by_cases hreduce : Offer.reduce i ∈ front
        · have hsame := take_shift_settle (j := j) (hdeclared (by simp) (by simp [hreduce]))
          simp [between, hshift, hreduce, hsame]
        · simp [between, hshift, hreduce, take]
        · have hknown := hdeclared (by simp) (by simp [hreduce])
          have hnone : (settle j i terminal (precOf i)).2 = none := by
            cases hresolve : terminal.resolve (precOf i) <;> simp [settle, hresolve, hknown]
          simp [between, hshift, hreduce, take, hnone]
        · simp [between, hshift, hreduce, take]
      · -- the reduction was not offered before
        have hnew : Offer.reduce i ∉ front := by
          rw [List.count_singleton_self] at hcount
          exact List.count_eq_zero.mp (by omega)
        by_cases hshift : Offer.shift j ∈ front
        · have hknown := hdeclared (by simp [hshift]) (by simp)
          have hnone : (settle j i terminal (precOf i)).2 = none := by
            cases hresolve : terminal.resolve (precOf i) <;> simp [settle, hresolve, hknown]
          simp [between, hshift, hnew, take, hnone]
        · simp [between, hshift, hnew, take]

/-- A cell that is offered nothing but acceptance holds that, without a conflict. -/
theorem takeAll_accept (hall : ∀ offer ∈ offers, offer = .accept) :
    (takeAll terminal precOf offers).2 = [] ∧ (takeAll terminal precOf offers).1.action =
      if offers = [] then none else some .accept := by
  induction offers using List.reverseRecOn with
  | nil => exact ⟨rfl, rfl⟩
  | append_singleton front last ih =>
      obtain ⟨hverdicts, haction⟩ := ih fun offer hmem => hall offer (List.mem_append_left _ hmem)
      obtain rfl := hall last (List.mem_append_right _ (List.mem_singleton_self last))
      rw [takeAll_concat, hverdicts]
      refine ⟨?_, by simp [take]⟩
      rw [show (takeAll terminal precOf front).1.take terminal precOf .accept = (_, _) from rfl,
        haction]
      by_cases hnil : front = [] <;> simp [hnil]

end Cell

/-! ## Reductions are offered once -/

namespace Lookahead

variable {lookaheads : Lookaheads} {reductions : List (Nat × Nat)} {set : List Nat}

/-- A set that something is attached to goes up if it did before. -/
theorem pairwise_attach (h : ∀ key, ((lookaheads.get? key).getD []).Pairwise (· < ·))
    (key : Nat × Nat) :
    (((attach lookaheads reductions set).get? key).getD []).Pairwise (· < ·) := by
  revert key
  refine foldl_induction
    (P := fun acc : Lookaheads => ∀ key, ((acc.get? key).getD []).Pairwise (· < ·)) ?_ h
  intro acc first _ hacc key
  by_cases hkey : key = first
  · subst hkey
    rw [Registry.get?_update_self]
    exact Ascending.pairwise_union (hacc key)
  · rw [Registry.get?_update_of_ne hkey]
    exact hacc key

/-- No lookahead set has a terminal twice. -/
theorem pairwise_compute (g : Grammar α) (s : States) (key : Nat × Nat) :
    (((compute g s).get? key).getD []).Pairwise (· < ·) := by
  have hstart : ∀ key, ((Registry.get? ({} : Lookaheads) key).getD []).Pairwise (· < ·) :=
    fun key => List.Pairwise.nil
  revert key
  exact foldl_induction
    (P := fun acc : Lookaheads => ∀ key, ((acc.get? key).getD []).Pairwise (· < ·))
    (fun acc entry _ hacc => pairwise_attach hacc) hstart

end Lookahead

namespace Table

open Grammar

variable {q i j c : Nat} {items : List Nat} {symbol : Symbol}

/-- By either method no reduction has a lookahead twice. -/
theorem nodup_reductionLookaheads (g : Grammar α) (s : States) (method : Method) (q i : Nat) :
    (reductionLookaheads g (lookaheadsBy g s method) q i).Nodup := by
  have hnodup : ∀ {xs : List Nat}, xs.Pairwise (· < ·) → xs.Nodup := fun h =>
    h.imp fun hlt => Nat.ne_of_lt hlt
  cases method with
  | lalr => exact hnodup (Lookahead.pairwise_compute g s (q, i))
  | slr =>
      show (followLookaheads g i).Nodup
      unfold followLookaheads
      split
      · exact List.nodup_nil
      · exact hnodup (Ascending.pairwise_ofList _)

/-- An item that offers a reduction is the complete item of its production. -/
theorem eq_prod_of_mem_offersOf {item : Item} {lookaheads : Option Lookaheads}
    (h : (c, .reduce i) ∈ offersOf g s lookaheads q item) :
    item.prod = i ∧ item.atDot = none ∧
      offersOf g s lookaheads q item =
        (reductionLookaheads g lookaheads q i).map fun column => (column, .reduce i) := by
  unfold offersOf at h ⊢
  split at h
  · rename_i hnone
    split at h
    · obtain ⟨_, _, hpair⟩ := List.mem_map.mp h
      cases hpair
    · rename_i hzero
      obtain ⟨_, _, hpair⟩ := List.mem_map.mp h
      cases hpair
      simp [hnone, hzero]
  · split at h
    · split at h
      · cases List.mem_singleton.mp h
      · exact absurd h List.not_mem_nil
    · exact absurd h List.not_mem_nil

/-- The places at which a reduction is offered are one. -/
theorem eq_of_mem_offersOf (h : g.Ready) {id other : Nat} {item item' : Item}
    {lookaheads : Option Lookaheads} (hitem : g.item? id = some item)
    (hitem' : g.item? other = some item') (hoffer : (c, .reduce i) ∈ offersOf g s lookaheads q item)
    (hoffer' : (c, .reduce i) ∈ offersOf g s lookaheads q item') : id = other := by
  have hcomplete : ∀ {id : Nat} {item : Item}, g.item? id = some item →
      (c, .reduce i) ∈ offersOf g s lookaheads q item →
      ∃ p, g.production? i = some p ∧ g.ItemAt id i p.symbols.length := by
    intro id item hitem hoffer
    obtain ⟨rfl, hnone, _⟩ := eq_prod_of_mem_offersOf hoffer
    have hat := itemAt_of_item? hitem
    obtain ⟨p, hp, _⟩ := h.itemAt_origin hat
    have hsymbol := h.atDot?_eq hat
    rw [atDot?, hitem, Option.bind_some, hnone] at hsymbol
    have hdot := eq_length_of_symbolAt h ⟨id, List.mem_singleton_self id, hat⟩ hp hsymbol.symm
    exact ⟨p, hp, hdot ▸ hat⟩
  obtain ⟨p, hp, hat⟩ := hcomplete hitem hoffer
  obtain ⟨p', hp', hat'⟩ := hcomplete hitem' hoffer'
  cases hp.symm.trans hp'
  exact h.itemAt_place_unique hat hat'

/-- An item offers a reduction to a cell at most once. -/
theorem count_offersOf (g : Grammar α) (s : States) (method : Method) (q c i : Nat) (item : Item) :
    (offersOf g s (lookaheadsBy g s method) q item).count (c, .reduce i) ≤ 1 := by
  by_cases hoffer : (c, .reduce i) ∈ offersOf g s (lookaheadsBy g s method) q item
  · obtain ⟨_, _, hoffers⟩ := eq_prod_of_mem_offersOf hoffer
    rw [hoffers]
    refine List.nodup_iff_count_le_one.mp ?_ _
    exact (nodup_reductionLookaheads g s method q i).map fun a b hab => (Prod.mk.inj hab).1
  · rw [List.count_eq_zero.mpr hoffer]
    exact Nat.zero_le 1

/-- A state offers a reduction to a cell at most once. -/
theorem count_rowOffers (h : g.Ready) (hitems : items.Nodup) (method : Method) (q c i : Nat) :
    (rowOffers g s (lookaheadsBy g s method) q items).count (c, .reduce i) ≤ 1 := by
  induction items with
  | nil => exact Nat.zero_le 1
  | cons id rest ih =>
      obtain ⟨hid, hrest⟩ := List.nodup_cons.mp hitems
      cases hitem : g.item? id with
      | none =>
          rw [rowOffers, List.filterMap_cons_none hitem]
          exact ih hrest
      | some item =>
          rw [rowOffers, List.filterMap_cons_some hitem, List.flatMap_cons, List.count_append]
          by_cases hoffer : (c, .reduce i) ∈ offersOf g s (lookaheadsBy g s method) q item
          · -- no other place offers it
            have hothers : (c, .reduce i) ∉ rowOffers g s (lookaheadsBy g s method) q rest := by
              intro hmem
              obtain ⟨item', hitem', hoffer'⟩ := List.mem_flatMap.mp hmem
              obtain ⟨other, hother, hfound⟩ := List.mem_filterMap.mp hitem'
              rw [eq_of_mem_offersOf h hitem hfound hoffer hoffer'] at hid
              exact hid hother
            rw [show List.count _ (List.flatMap _ _) = 0 from List.count_eq_zero.mpr hothers]
            exact count_offersOf g s method q c i item
          · rw [List.count_eq_zero.mpr hoffer, Nat.zero_add]
            exact ih hrest

theorem count_columnOffers (offers : List (Nat × Offer)) (c : Nat) (offer : Offer) :
    (columnOffers offers c).count offer = offers.count (c, offer) := by
  induction offers with
  | nil => rfl
  | cons first rest ih =>
      obtain ⟨column, other⟩ := first
      by_cases hcolumn : column = c
      · subst hcolumn
        have hsame : columnOffers ((column, other) :: rest) column =
            other :: columnOffers rest column := by simp [columnOffers]
        rw [hsame, List.count_cons, List.count_cons, ih]
        simp
      · have hsame : columnOffers ((column, other) :: rest) c = columnOffers rest c := by
          simp [columnOffers, hcolumn]
        rw [hsame, List.count_cons, ih]
        simp [hcolumn]

/-! ## Columns of a table -/

/-- On a terminal the items of a state call for a shift and a reduction, or for one of them; if for
both, a precedence is declared. -/
structure Contest (g : Grammar α) (s : States) (method : Method) (q : Nat) (symbol : Symbol)
    (j i : Nat) : Prop where
  all : ∀ action, Proposed g s method q symbol action → action = .shift j ∨ action = .reduce i
  declared : Proposed g s method q symbol (.shift j) → Proposed g s method q symbol (.reduce i) →
    undeclared (g.precedenceOf symbol) (productionPrecedence g i) = false

/-- The column of a contest holds what the precedences ask for, and nothing is settled by
default. -/
theorem Contest.column_eq (hcontest : Contest g s method q symbol j i) (h : g.Ready)
    (hs : Collected g s) (hq : s.states[q]? = some items) (hc : g.terminalIndex? symbol = some c) :
    column g (rowOffers g s (lookaheadsBy g s method) q items) c symbol =
      (Cell.between j i (g.precedenceOf symbol) (productionPrecedence g i)
        (.shift j ∈ columnOffers (rowOffers g s (lookaheadsBy g s method) q items) c)
        (.reduce i ∈ columnOffers (rowOffers g s (lookaheadsBy g s method) q items) c), []) := by
  have hitems := (hs.proper.listed items (List.mem_of_getElem? hq)).nodup
  refine Cell.takeAll_between (fun offer hoffer => ?_) ?_ fun hshift hreduce => ?_
  · have hproposed := (mem_columnOffers_iff h hq hc).mp hoffer
    exact (hcontest.all _ hproposed).imp (fun hsame => Cell.action_injective hsame)
      fun hsame => Cell.action_injective hsame
  · rw [count_columnOffers]
    exact count_rowOffers h hitems method q c i
  · exact hcontest.declared ((mem_columnOffers_iff h hq hc).mp hshift)
      ((mem_columnOffers_iff h hq hc).mp hreduce)

/-- The action of a contest. -/
theorem Contest.actionOn_eq (hcontest : Contest g s method q symbol j i) (h : g.Ready)
    (hs : Collected g s) {shift reduce : Prop} [Decidable shift] [Decidable reduce]
    (hshift : Proposed g s method q symbol (.shift j) ↔ shift)
    (hreduce : Proposed g s method q symbol (.reduce i) ↔ reduce) (hany : shift ∨ reduce) :
    (ofStates g s method).actionOn q symbol =
      (Cell.between j i (g.precedenceOf symbol) (productionPrecedence g i) shift
        reduce).action := by
  obtain ⟨action, hproposed⟩ : ∃ action, Proposed g s method q symbol action :=
    hany.elim (fun hyes => ⟨_, hshift.mpr hyes⟩) fun hyes => ⟨_, hreduce.mpr hyes⟩
  obtain ⟨hlt, c, hc⟩ := hproposed.exists_terminalIndex? h.wellFormed
  have hq := List.getElem?_eq_getElem hlt
  have hoffers : ∀ offer : Offer,
      offer ∈ columnOffers (rowOffers g s (lookaheadsBy g s method) q s.states[q]) c ↔
        Proposed g s method q symbol offer.action := fun offer => mem_columnOffers_iff h hq hc
  rw [actionOn_eq_column h hq hc, hcontest.column_eq h hs hq hc]
  simp only [(hoffers (.shift j)).trans hshift, (hoffers (.reduce i)).trans hreduce]

/-- A column for which nothing but acceptance is called has no conflict. -/
theorem column_accept (h : g.Ready) (hq : s.states[q]? = some items)
    (hc : g.terminalIndex? symbol = some c)
    (hall : ∀ action, Proposed g s method q symbol action → action = .accept) :
    (column g (rowOffers g s (lookaheadsBy g s method) q items) c symbol).2 = [] ∧
      (column g (rowOffers g s (lookaheadsBy g s method) q items) c symbol).1.action =
        if columnOffers (rowOffers g s (lookaheadsBy g s method) q items) c = [] then none
        else some .accept :=
  Cell.takeAll_accept fun _ hoffer =>
    Cell.action_injective (hall _ ((mem_columnOffers_iff h hq hc).mp hoffer))

/-- Where nothing but acceptance is called for, it is the action. -/
theorem actionOn_of_accept (h : g.Ready)
    (hall : ∀ action, Proposed g s method q symbol action → action = .accept)
    (hproposed : Proposed g s method q symbol .accept) :
    (ofStates g s method).actionOn q symbol = some .accept := by
  obtain ⟨hlt, c, hc⟩ := hproposed.exists_terminalIndex? h.wellFormed
  have hq := List.getElem?_eq_getElem hlt
  have hoffer : .accept ∈ columnOffers (rowOffers g s (lookaheadsBy g s method) q s.states[q]) c :=
    (mem_columnOffers_iff h hq hc).mpr hproposed
  rw [actionOn_eq_column h hq hc, (column_accept h hq hc hall).2,
    if_neg (List.ne_nil_of_mem hoffer)]

/-- Where one action only is called for, it is the action. -/
theorem actionOn_of_only {action : Action} (h : g.Ready) (hs : Collected g s)
    (hproposed : Proposed g s method q symbol action)
    (hall : ∀ other, Proposed g s method q symbol other → other = action) :
    (ofStates g s method).actionOn q symbol = some action := by
  have hnot : ∀ {other : Action}, other ≠ action → (Proposed g s method q symbol other ↔ False) :=
    fun hne => iff_of_false (fun hother => hne (hall _ hother)) id
  cases action with
  | accept => exact actionOn_of_accept h hall hproposed
  | shift j =>
      have hcontest : Contest g s method q symbol j 0 :=
        ⟨fun other hother => Or.inl (hall other hother), fun _ hreduce => nomatch hall _ hreduce⟩
      rw [hcontest.actionOn_eq h hs (iff_of_true hproposed trivial) (hnot (by simp))
        (Or.inl trivial)]
      simp [Cell.between]
  | reduce i =>
      have hcontest : Contest g s method q symbol 0 i :=
        ⟨fun other hother => Or.inr (hall other hother), fun hshift => nomatch hall _ hshift⟩
      rw [hcontest.actionOn_eq h hs (hnot (by simp)) (iff_of_true hproposed trivial)
        (Or.inr trivial)]
      simp [Cell.between]

/-- The action that a choice between a shift and a reduction leaves. -/
def choose (j i : Nat) : Choice → Option Action
  | .shift => some (.shift j)
  | .reduce => some (.reduce i)
  | .neither => none

/-- Where a shift and a reduction are called for, the action is what their precedences ask for. -/
theorem Contest.actionOn_of_both (hcontest : Contest g s method q symbol j i) (h : g.Ready)
    (hs : Collected g s) (hshift : Proposed g s method q symbol (.shift j))
    (hreduce : Proposed g s method q symbol (.reduce i)) :
    (ofStates g s method).actionOn q symbol =
      choose j i ((g.precedenceOf symbol).resolve (productionPrecedence g i)) := by
  rw [hcontest.actionOn_eq h hs (iff_of_true hshift trivial) (iff_of_true hreduce trivial)
    (Or.inl trivial)]
  simp only [Cell.between, if_true, Cell.settle]
  cases (g.precedenceOf symbol).resolve (productionPrecedence g i) <;> rfl

/-- The conflicts of a row are of its state and on terminals. -/
theorem of_mem_rowAfter {terminals : List Symbol} {offers : List (Nat × Offer)}
    {conflict : Conflict} (h : conflict ∈ (rowAfter g terminals q offers).2) :
    conflict.state = q ∧ ∃ c : Nat, terminals[c]? = some conflict.symbol := by
  induction offers using List.reverseRecOn with
  | nil => exact absurd h List.not_mem_nil
  | append_singleton front last ih =>
      rw [rowAfter_concat] at h
      unfold handOver at h
      dsimp only at h
      split at h
      · rename_i cell own _ hown
        rcases List.mem_append.mp h with hold | hnew
        · exact ih hold
        · obtain ⟨verdict, _, rfl⟩ := Option.map_eq_some_iff.mp (Option.mem_toList.mp hnew)
          exact ⟨rfl, _, hown⟩
      · exact ih h

/-- Every conflict on record is one of a column. -/
theorem exists_column_of_mem (h : g.Ready) {conflict : Conflict}
    (hmem : conflict ∈ (ofStates g s method).conflicts) :
    ∃ items c, s.states[conflict.state]? = some items ∧
      g.terminalIndex? conflict.symbol = some c ∧ conflict.verdict ∈
        (column g (rowOffers g s (lookaheadsBy g s method) conflict.state items) c
          conflict.symbol).2 := by
  obtain ⟨row, hrow, hmem⟩ := List.mem_flatMap.mp hmem
  obtain ⟨q, hlt, rfl⟩ := List.mem_mapIdx.mp hrow
  obtain ⟨rfl, c, hterminal⟩ := of_mem_rowAfter hmem
  obtain ⟨c', hc⟩ := exists_idxOf? (List.mem_of_getElem? hterminal)
  have hfilled := filled_rowAfter (g := g) (q := conflict.state) h.wellFormed.nodupTerminals
    (rowOffers g s (lookaheadsBy g s method) conflict.state s.states[conflict.state])
  refine ⟨_, c', List.getElem?_eq_getElem hlt, hc, ?_⟩
  rw [← hfilled.verdicts (getElem?_of_idxOf? hc)]
  exact List.mem_filterMap.mpr ⟨conflict, hmem, if_pos rfl⟩

/-- A table has no conflicts if no column settles one by default. -/
theorem conflicts_eq_nil_of_columns (h : g.Ready)
    (hcolumns : ∀ {q : Nat} {items : List Nat} {symbol : Symbol} {c : Nat},
      s.states[q]? = some items → g.terminalIndex? symbol = some c →
      (column g (rowOffers g s (lookaheadsBy g s method) q items) c symbol).2 = []) :
    (ofStates g s method).conflicts = [] := by
  refine List.eq_nil_iff_forall_not_mem.mpr fun conflict hmem => ?_
  obtain ⟨items, c, hq, hc, hverdict⟩ := exists_column_of_mem h hmem
  rw [hcolumns hq hc] at hverdict
  exact absurd hverdict List.not_mem_nil

/-- A table has no conflicts if on every terminal the items of a state call for a contest or for
acceptance. -/
theorem conflicts_eq_nil (h : g.Ready) (hs : Collected g s)
    (hclear : ∀ q < s.states.length, ∀ symbol,
      (∀ action, Proposed g s method q symbol action → action = .accept) ∨
        ∃ j i, Contest g s method q symbol j i) :
    (ofStates g s method).conflicts = [] := by
  refine conflicts_eq_nil_of_columns h fun {q items symbol c} hq hc => ?_
  have hlt : q < s.states.length := (List.getElem?_eq_some_iff.mp hq).1
  obtain hall | ⟨j, i, hcontest⟩ := hclear q hlt symbol
  · exact (column_accept h hq hc hall).1
  · rw [hcontest.column_eq h hs hq hc]

end Table

end ShiftReduce
