import ShiftReduce.Proofs.Lookahead.Exact
import ShiftReduce.Table.Build

/-!
# What the cells of a row hold

A row is filled by handing each offer to its cell, so a cell sees the offers for its own column in
order and nothing else. The action that it ends with is one of those offers. If no conflict was
settled by default, and no precedence was declared, every offer is the action.
-/

namespace ShiftReduce

variable {α : Type} {g : Grammar α} {s : States}

/-- The action that an offer asks for. -/
def Offer.action : Offer → Action
  | .accept => .accept
  | .reduce production => .reduce production
  | .shift state => .shift state

namespace Cell

variable {terminal : Precedence} {precOf : Nat → Precedence} {cell : Cell} {offer : Offer}
  {offers : List Offer} {action : Action}

/-- A cell that takes offers one after the other, and how conflicts were settled by default. -/
def takeAll (terminal : Precedence) (precOf : Nat → Precedence) (offers : List Offer) :
    Cell × List Verdict :=
  offers.foldl
    (fun acc offer =>
      let taken := acc.1.take terminal precOf offer
      (taken.1, acc.2 ++ taken.2.toList))
    ({}, [])

theorem takeAll_concat : takeAll terminal precOf (offers ++ [offer]) =
    (((takeAll terminal precOf offers).1.take terminal precOf offer).1,
      (takeAll terminal precOf offers).2 ++
        ((takeAll terminal precOf offers).1.take terminal precOf offer).2.toList) := by
  rw [takeAll, List.foldl_append]
  rfl

/-- A conflict between a shift and a reduction leaves one of the two, or an empty cell. -/
theorem settle_action {state production : Nat} {shift reduce : Precedence}
    (h : (settle state production shift reduce).1.action = some action) :
    action = .shift state ∨ action = .reduce production := by
  unfold settle at h
  cases hresolve : shift.resolve reduce <;> rw [hresolve] at h <;> cases h
  · exact Or.inl rfl
  · exact Or.inr rfl

/-- The action after an offer is the one before or the one that was offered. -/
theorem take_action (h : (cell.take terminal precOf offer).1.action = some action) :
    cell.action = some action ∨ action = offer.action := by
  cases offer with
  | accept =>
      cases h
      exact Or.inr rfl
  | reduce production =>
      simp only [take] at h
      split at h
      · exact Or.inl h
      · -- the cell is empty, or holds a shift, another reduction or acceptance
        split at h
        · cases h
          exact Or.inr rfl
        · rename_i state hheld
          rcases settle_action h with rfl | rfl
          · exact Or.inl hheld
          · exact Or.inr rfl
        · rename_i other hheld
          cases h
          rcases Nat.le_total other production with hle | hle
          · rw [Nat.min_eq_left hle]
            exact Or.inl hheld
          · rw [Nat.min_eq_right hle]
            exact Or.inr rfl
        · exact Or.inl h
  | shift state =>
      simp only [take] at h
      split at h
      · exact Or.inl h
      · split at h
        · cases h
          exact Or.inr rfl
        · rename_i production hheld
          rcases settle_action h with rfl | rfl
          · exact Or.inr rfl
          · exact Or.inl hheld
        · exact Or.inl h
        · exact Or.inl h

/-- The action of a cell is one of those that were offered. -/
theorem exists_offer_of_action
    (h : (takeAll terminal precOf offers).1.action = some action) :
    ∃ offer ∈ offers, offer.action = action := by
  induction offers using List.reverseRecOn with
  | nil => cases h
  | append_singleton front last ih =>
      rw [takeAll_concat] at h
      rcases take_action h with hold | rfl
      · obtain ⟨offer, hmem, haction⟩ := ih hold
        exact ⟨offer, List.mem_append_left _ hmem, haction⟩
      · exact ⟨last, List.mem_append_right _ (List.mem_singleton_self last), rfl⟩

/-- Without declared precedences a conflict between a shift and a reduction is settled by
default. -/
theorem settle_verdict {state production : Nat} {shift reduce : Precedence}
    (hshift : shift = {}) (hreduce : reduce = {}) :
    (settle state production shift reduce).2 ≠ none := by
  subst hshift hreduce
  exact fun h => nomatch h

/-- Offers that do not clash of themselves: shifts go to one state, and none stands beside
acceptance. -/
structure Agreeing (offers : List Offer) : Prop where
  shifts : ∀ {i j : Nat}, .shift i ∈ offers → .shift j ∈ offers → i = j
  accepts : ∀ {i : Nat}, .accept ∈ offers → .shift i ∉ offers

theorem Agreeing.of_subset {others : List Offer} (h : Agreeing offers) (hsub : others ⊆ offers) :
    Agreeing others :=
  ⟨fun hi hj => h.shifts (hsub hi) (hsub hj), fun hi hj => h.accepts (hsub hi) (hsub hj)⟩

/-- An offer that agrees with the action before and is taken without a conflict is the action
afterwards, and so is the action before. -/
theorem take_of_no_verdict (hterminal : terminal = {}) (hprec : ∀ p, precOf p = {})
    (hbarred : cell.barred = false) (hnone : (cell.take terminal precOf offer).2 = none)
    (hagree : ∀ held : Offer, cell.action = some held.action → Agreeing [held, offer]) :
    (cell.take terminal precOf offer).1.barred = false ∧
      (cell.take terminal precOf offer).1.action = some offer.action ∧
      ∀ action, cell.action = some action → action = offer.action := by
  have hclash : ∀ {state production : Nat},
      (settle state production terminal (precOf production)).2 ≠ none :=
    settle_verdict hterminal (hprec _)
  obtain ⟨held, barred⟩ := cell
  subst hbarred
  cases offer with
  | accept =>
      refine ⟨rfl, rfl, fun action hheld => ?_⟩
      cases hheld
      cases action with
      | shift i => exact absurd (by simp) ((hagree (.shift i) rfl).accepts (i := i) (by simp))
      | reduce p => cases hnone
      | accept => rfl
  | reduce production =>
      cases held with
      | none => exact ⟨rfl, rfl, fun action hheld => nomatch hheld⟩
      | some action =>
          cases action with
          | shift i => exact absurd hnone hclash
          | reduce p => cases hnone
          | accept => cases hnone
  | shift j =>
      cases held with
      | none => exact ⟨rfl, rfl, fun action hheld => nomatch hheld⟩
      | some action =>
          cases action with
          | shift i =>
              cases (hagree (.shift i) rfl).shifts (i := i) (j := j) (by simp) (by simp)
              exact ⟨rfl, rfl, fun action hheld => (Option.some.inj hheld).symm⟩
          | reduce p => exact absurd hnone hclash
          | accept => exact absurd (by simp) ((hagree .accept rfl).accepts (i := j) (by simp))

theorem action_injective {offer other : Offer} (h : offer.action = other.action) :
    offer = other := by
  cases offer <;> cases other <;> cases h <;> rfl

/-- Without conflicts and declared precedences every offer is the action. -/
theorem action_of_offer (hterminal : terminal = {}) (hprec : ∀ p, precOf p = {})
    (hagree : Agreeing offers) (hnone : (takeAll terminal precOf offers).2 = []) :
    (takeAll terminal precOf offers).1.barred = false ∧
      ∀ offer ∈ offers, (takeAll terminal precOf offers).1.action = some offer.action := by
  induction offers using List.reverseRecOn with
  | nil => exact ⟨rfl, fun offer hmem => absurd hmem List.not_mem_nil⟩
  | append_singleton front last ih =>
      rw [takeAll_concat] at hnone ⊢
      obtain ⟨hfront, hlast⟩ := List.append_eq_nil_iff.mp hnone
      obtain ⟨hbarred, hall⟩ :=
        ih (hagree.of_subset (List.subset_append_left front [last])) hfront
      -- the action before is one of the offers, so it agrees with the last one
      have hpair : ∀ held : Offer, (takeAll terminal precOf front).1.action = some held.action →
          Agreeing [held, last] := by
        intro held hheld
        obtain ⟨offer, hoffer, hsame⟩ := exists_offer_of_action hheld
        cases action_injective hsame
        refine hagree.of_subset fun other hother => ?_
        rcases List.mem_cons.mp hother with rfl | hother
        · exact List.mem_append_left _ hoffer
        · exact List.mem_append_right _ hother
      obtain ⟨hbarred', haction, hsame⟩ := take_of_no_verdict hterminal hprec hbarred
        (Option.toList_eq_nil_iff.mp hlast) hpair
      refine ⟨hbarred', fun offer hoffer => ?_⟩
      rcases List.mem_append.mp hoffer with hold | hnew
      · rw [haction, hsame _ (hall offer hold)]
      · rw [List.mem_singleton.mp hnew]
        exact haction

end Cell

namespace Table

open Grammar

variable {terminals : List Symbol} {q c : Nat} {symbol : Symbol} {offer : Nat × Offer}
  {offers : List (Nat × Offer)}

/-! ## Rows by column -/

/-- The offers for one column. -/
def columnOffers (offers : List (Nat × Offer)) (c : Nat) : List Offer :=
  offers.filterMap fun offer => if offer.1 = c then some offer.2 else none

/-- How the conflicts on one symbol were settled. -/
def verdictsOn (conflicts : List Conflict) (symbol : Symbol) : List Verdict :=
  conflicts.filterMap fun x => if x.symbol = symbol then some x.verdict else none

/-- What a column ends with. -/
def column (g : Grammar α) (offers : List (Nat × Offer)) (c : Nat) (symbol : Symbol) :
    Cell × List Verdict :=
  Cell.takeAll (g.precedenceOf symbol) (productionPrecedence g) (columnOffers offers c)

theorem mem_columnOffers {o : Offer} : o ∈ columnOffers offers c ↔ (c, o) ∈ offers := by
  rw [columnOffers, List.mem_filterMap]
  constructor
  · rintro ⟨⟨c', o'⟩, hmem, hsame⟩
    split at hsame
    · rename_i hc
      cases hsame
      cases hc
      exact hmem
    · cases hsame
  · intro hmem
    exact ⟨(c, o), hmem, if_pos rfl⟩

theorem column_concat : column g (offers ++ [offer]) c symbol =
    if offer.1 = c then
      (((column g offers c symbol).1.take (g.precedenceOf symbol) (productionPrecedence g)
          offer.2).1,
        (column g offers c symbol).2 ++ ((column g offers c symbol).1.take
          (g.precedenceOf symbol) (productionPrecedence g) offer.2).2.toList)
    else column g offers c symbol := by
  by_cases hc : offer.1 = c
  · have happend : columnOffers (offers ++ [offer]) c = columnOffers offers c ++ [offer.2] := by
      simp [columnOffers, hc]
    rw [column, happend, Cell.takeAll_concat, if_pos hc]
    rfl
  · have happend : columnOffers (offers ++ [offer]) c = columnOffers offers c := by
      simp [columnOffers, hc]
    rw [column, happend, if_neg hc]
    rfl

/-- The row after some offers. -/
def rowAfter (g : Grammar α) (terminals : List Symbol) (q : Nat) (offers : List (Nat × Offer)) :
    List Cell × List Conflict :=
  offers.foldl (handOver g terminals q) (terminals.map fun _ => {}, [])

theorem rowAfter_concat : rowAfter g terminals q (offers ++ [offer]) =
    handOver g terminals q (rowAfter g terminals q offers) offer := by
  rw [rowAfter, List.foldl_append]
  rfl

/-- A row whose cells have each taken the offers for their column, with the conflicts of its
cells. -/
structure Filled (g : Grammar α) (terminals : List Symbol) (offers : List (Nat × Offer))
    (row : List Cell × List Conflict) : Prop where
  length : row.1.length = terminals.length
  cell : ∀ {c : Nat} {symbol : Symbol}, terminals[c]? = some symbol →
    row.1[c]? = some (column g offers c symbol).1
  verdicts : ∀ {c : Nat} {symbol : Symbol}, terminals[c]? = some symbol →
    verdictsOn row.2 symbol = (column g offers c symbol).2

theorem verdictsOn_append (front back : List Conflict) (symbol : Symbol) :
    verdictsOn (front ++ back) symbol = verdictsOn front symbol ++ verdictsOn back symbol :=
  List.filterMap_append

/-- The conflict of an offer is on the symbol of its column. -/
theorem verdictsOn_map (verdict : Option Verdict) (own : Symbol) :
    verdictsOn (verdict.map (Conflict.mk q own)).toList symbol =
      if own = symbol then verdict.toList else [] := by
  cases verdict with
  | none => simp [verdictsOn]
  | some verdict => by_cases hsame : own = symbol <;> simp [verdictsOn, hsame]

namespace Filled

variable {row : List Cell × List Conflict} {own : Symbol}

/-- An offer for a column that is not there changes nothing. -/
theorem skip (h : Filled g terminals offers row) (hnone : terminals[offer.1]? = none) :
    Filled g terminals (offers ++ [offer]) (handOver g terminals q row offer) := by
  have hskip : handOver g terminals q row offer = row := by
    simp only [handOver, hnone]
    split <;> simp_all
  have hne : ∀ {c : Nat} {symbol : Symbol}, terminals[c]? = some symbol → offer.1 ≠ c := by
    intro c symbol hsymbol hsame
    rw [← hsame, hnone] at hsymbol
    cases hsymbol
  rw [hskip]
  refine ⟨h.length, fun hsymbol => ?_, fun hsymbol => ?_⟩
  · rw [column_concat, if_neg (hne hsymbol)]
    exact h.cell hsymbol
  · rw [column_concat, if_neg (hne hsymbol)]
    exact h.verdicts hsymbol

/-- An offer is taken by the cell of its column. -/
theorem give (h : Filled g terminals offers row) (hnodup : terminals.Nodup)
    (hown : terminals[offer.1]? = some own) :
    Filled g terminals (offers ++ [offer]) (handOver g terminals q row offer) := by
  have hcell := h.cell hown
  have hstep : handOver g terminals q row offer =
      (row.1.set offer.1 ((column g offers offer.1 own).1.take (g.precedenceOf own)
          (productionPrecedence g) offer.2).1,
        row.2 ++ (((column g offers offer.1 own).1.take (g.precedenceOf own)
          (productionPrecedence g) offer.2).2.map (Conflict.mk q own)).toList) := by
    simp only [handOver, hcell, hown]
  rw [hstep]
  refine ⟨List.length_set.trans h.length, fun {c symbol} hsymbol => ?_,
    fun {c symbol} hsymbol => ?_⟩
  · rw [column_concat]
    by_cases hc : offer.1 = c
    · subst hc
      cases hown.symm.trans hsymbol
      rw [if_pos rfl]
      exact List.getElem?_set_self (List.getElem?_eq_some_iff.mp hcell).1
    · rw [if_neg hc]
      exact (List.getElem?_set_ne hc).trans (h.cell hsymbol)
  · rw [column_concat, verdictsOn_append, h.verdicts hsymbol, verdictsOn_map]
    by_cases hc : offer.1 = c
    · subst hc
      cases hown.symm.trans hsymbol
      rw [if_pos rfl, if_pos rfl]
    · -- no two columns have the same terminal
      have hne : own ≠ symbol := by
        intro hsame
        obtain ⟨hlt, hget⟩ := List.getElem?_eq_some_iff.mp hown
        obtain ⟨hlt', hget'⟩ := List.getElem?_eq_some_iff.mp hsymbol
        exact hc (hnodup.getElem_inj_iff.mp (hget.trans (hsame.trans hget'.symm)))
      rw [if_neg hc, if_neg hne, List.append_nil]

end Filled

/-- Filling a row hands each offer to the cell of its column. -/
theorem filled_rowAfter (hnodup : terminals.Nodup) (offers : List (Nat × Offer)) :
    Filled g terminals offers (rowAfter g terminals q offers) := by
  induction offers using List.reverseRecOn with
  | nil =>
      refine ⟨List.length_map _, fun {c symbol} hsymbol => ?_, fun _ => rfl⟩
      show (terminals.map fun _ => ({} : Cell))[c]? = some {}
      rw [List.getElem?_map, hsymbol]
      rfl
  | append_singleton front last ih =>
      rw [rowAfter_concat]
      cases hterminal : terminals[last.1]? with
      | none => exact ih.skip hterminal
      | some own => exact ih.give hnodup hterminal

end Table

end ShiftReduce
