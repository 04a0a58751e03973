import ShiftReduce.Proofs.Table.Decided

/-!
# Reductions in place of a shift

A production that is reduced where a shift is available has won against the terminal, or a candidate
that is declared later has. The second happens: once a reduction has taken the place of the shift,
the shift is forgotten, and a candidate that would have lost to it needs only to be declared first.
Read `buildTable_beaten` and, for the second, `reduced_although_it_loses`.
-/

namespace ShiftReduce

variable {α : Type} {g final : Grammar α} {s : States} {method : Method}

/-- A reduction that is chosen over a terminal wins against it. -/
theorem Precedence.wins_of_resolve {terminal production : Precedence}
    (h : terminal.resolve production = .reduce) : production.Wins terminal := by
  unfold resolve at h
  split at h
  · cases h
  · split at h
    · exact Or.inl ‹_›
    · have hlevel : production.level = terminal.level := by omega
      cases hassoc : production.assoc with
      | left => exact Or.inr ⟨hlevel, hassoc⟩
      | right => simp [hassoc] at h
      | none => simp [hassoc] at h

/-! ## Cells -/

namespace Cell

variable {terminal : Precedence} {precOf : Nat → Precedence} {cell : Cell}
  {front offers : List Offer} {last : Offer}

/-- What a cell can hold after some offers. If it reduces a production, and a shift was offered, a
production that is not declared earlier was offered and won against the shift. -/
inductive Beaten (terminal : Precedence) (precOf : Nat → Precedence) (offers : List Offer) :
    Cell → Prop
  | blank : (∀ j, .shift j ∉ offers) → Beaten terminal precOf offers {}
  | barred : Beaten terminal precOf offers ⟨none, true⟩
  | accept {barred : Bool} : Beaten terminal precOf offers ⟨some .accept, barred⟩
  | shift {j : Nat} : Beaten terminal precOf offers ⟨some (.shift j), false⟩
  | reduce {i : Nat} : .reduce i ∈ offers →
      (∀ j, .shift j ∈ offers → ∃ k, .reduce k ∈ offers ∧ i ≤ k ∧ (precOf k).Wins terminal) →
      Beaten terminal precOf offers ⟨some (.reduce i), false⟩

/-- A reduction that is kept when it meets a shift has won. -/
theorem settle_beaten {i j : Nat} (hoffer : .reduce i ∈ offers) :
    Beaten terminal precOf offers (settle j i terminal (precOf i)).1 := by
  unfold settle
  cases hresolve : terminal.resolve (precOf i) with
  | shift => exact .shift
  | neither => exact .barred
  | reduce =>
      have hwins := Precedence.wins_of_resolve hresolve
      exact .reduce hoffer fun _ _ => ⟨i, hoffer, Nat.le_refl i, hwins⟩

theorem Beaten.take (h : Beaten terminal precOf front cell) (last : Offer) :
    Beaten terminal precOf (front ++ [last]) (cell.take terminal precOf last).1 := by
  have hnow : last ∈ front ++ [last] := List.mem_append_right _ (List.mem_singleton_self last)
  have hold : ∀ {offer : Offer}, offer ∈ front → offer ∈ front ++ [last] := fun hmem =>
    List.mem_append_left _ hmem
  cases last with
  | accept => exact .accept
  | shift j =>
      cases h with
      | blank _ => exact .shift
      | barred => exact .barred
      | @accept barred => cases barred <;> exact .accept
      | shift => exact .shift
      | reduce hoffer _ => exact settle_beaten (hold hoffer)
  | reduce i =>
      have hshift : ∀ {j : Nat}, .shift j ∈ front ++ [.reduce i] → .shift j ∈ front := fun hmem =>
        (List.mem_append.mp hmem).resolve_right (by simp)
      cases h with
      | blank hnone => exact .reduce hnow fun j hmem => absurd (hshift hmem) (hnone j)
      | barred => exact .barred
      | @accept barred => cases barred <;> exact .accept
      | shift => exact settle_beaten hnow
      | @reduce other hoffer hwinner =>
          -- of two reductions the one declared first is kept, and the winner stays behind it
          have hleast : .reduce (min other i) ∈ front ++ [.reduce i] := by
            rcases Nat.le_total other i with hle | hle
            · rw [Nat.min_eq_left hle]
              exact hold hoffer
            · rw [Nat.min_eq_right hle]
              exact hnow
          refine .reduce hleast fun j hmem => ?_
          obtain ⟨k, hk, hle, hwins⟩ := hwinner j (hshift hmem)
          exact ⟨k, hold hk, by omega, hwins⟩

theorem takeAll_beaten (offers : List Offer) :
    Beaten terminal precOf offers (takeAll terminal precOf offers).1 := by
  induction offers using List.reverseRecOn with
  | nil => exact .blank fun _ => List.not_mem_nil
  | append_singleton front last ih =>
      rw [takeAll_concat]
      exact ih.take last

end Cell

/-! ## Tables -/

namespace Table

open Grammar

variable {table : Table} {q i : Nat} {t : Symbol}

/-- Where a shift is available and a production is reduced all the same, this production wins
against the terminal, or a candidate that is declared later does. -/
theorem buildTable_beaten (hmade : g.Made) (hbuild : g.buildTable method = (.ok table, final))
    (ht : t.isTerminal = true) (hshift : Shiftable final (Automaton.states final) q t)
    (haction : table.actionOn q t = some (.reduce i)) :
    i ∈ candidates final (Automaton.states final) method q t ∧
      ((productionPrecedence final i).Wins (final.precedenceOf t) ∨
        ∃ k ∈ candidates final (Automaton.states final) method q t, i < k ∧
          (productionPrecedence final k).Wins (final.precedenceOf t)) := by
  obtain ⟨hprepared, rfl⟩ := buildTable_spec hmade hbuild
  have hready := hprepared.made.ready hprepared.items
  obtain ⟨j, hgoto⟩ := hshift.exists_goto? hready hready.collection
  obtain ⟨offers, hoffers, hcell⟩ := exists_offers hready (Automaton.states final) method q t
  have hoffered : .shift j ∈ offers := (hoffers (.shift j)).mpr ((proposed_shift_iff ht).mpr
    ⟨hshift, hgoto⟩)
  have hcandidate : ∀ {k : Nat}, .reduce k ∈ offers →
      k ∈ candidates final (Automaton.states final) method q t := fun hmem =>
    mem_candidates_iff.mpr ((hoffers (.reduce _)).mp hmem)
  have hbeaten : Cell.Beaten (final.precedenceOf t) (productionPrecedence final) offers _ :=
    Cell.takeAll_beaten offers
  rw [hcell] at haction
  generalize (Cell.takeAll (final.precedenceOf t) (productionPrecedence final) offers).1 = cell
    at haction hbeaten
  cases hbeaten with
  | blank | barred | accept | shift => cases haction
  | reduce hoffer hwinner =>
      cases haction
      obtain ⟨k, hk, hle, hwins⟩ := hwinner j hoffered
      refine ⟨hcandidate hoffer, ?_⟩
      rcases Nat.eq_or_lt_of_le hle with rfl | hlt
      · exact Or.inl hwins
      · exact Or.inr ⟨k, hcandidate hk, hlt, hwins⟩

/-- A digit before a sign: as it is, or as one of two names, of which the one that is declared first
loses to the sign and the other one wins. -/
def rivals : Grammar Unit :=
  let g := blank
  let g := (g.setPrecedence (.literal '+') .left 1).2
  let g := (g.setPrecedence (.literal '*') .left 2).2
  let g := (g.addProduction "sum" [.literal '1', .literal '+'] none none).2
  let g := (g.addProduction "sum" [.nonterminal "unit", .literal '+'] none none).2
  let g := (g.addProduction "sum" [.nonterminal "one", .literal '+'] none none).2
  let g := (g.addProduction "one" [.literal '1'] none none).2
  (g.addProduction "unit" [.literal '1'] (some (.literal '*')) none).2

theorem made_rivals : rivals.Made :=
  .addProduction _ _ _ _ (.addProduction _ _ _ _ (.addProduction _ _ _ _ (.addProduction _ _ _ _
    (.addProduction _ _ _ _ (.setPrecedence _ _ _ (.setPrecedence _ _ _ made_blank))))))

/-- Behind the digit the sign can be shifted. -/
theorem shiftable_rivals :
    Shiftable rivals.prepare.2 (Automaton.states rivals.prepare.2) 2 (.literal '+') := by
  have hplaces : (((Automaton.states rivals.prepare.2).itemsOf 2).filterMap
      rivals.prepare.2.item?).map (fun item => (item.prod, item.dot)) =
        [(1, 1), (5, 1), (4, 1)] := by decide +kernel
  refine ⟨1, 1, holds_iff_mem_places.mpr ?_, rfl⟩
  rw [hplaces]
  exact List.mem_cons_self

/-- The production that is reduced by FOLLOW sets does not win against the sign, so one that is
declared later does. -/
theorem buildTable_beaten_rivals : rivals.Made ∧
    ∃ table final, rivals.buildTable .slr = (.ok table, final) ∧
      Shiftable final (Automaton.states final) 2 (.literal '+') ∧
      table.actionOn 2 (.literal '+') = some (.reduce 4) ∧
      ∃ k ∈ candidates final (Automaton.states final) .slr 2 (.literal '+'), 4 < k ∧
        (productionPrecedence final k).Wins (final.precedenceOf (.literal '+')) := by
  have hbuild : rivals.buildTable .slr =
      (.ok (ofStates rivals.prepare.2 (Automaton.states rivals.prepare.2) .slr),
        rivals.prepare.2) := buildTable_of_prepare rfl
  have haction : (ofStates rivals.prepare.2 (Automaton.states rivals.prepare.2) .slr).actionOn 2
      (.literal '+') = some (.reduce 4) := by decide +kernel
  obtain ⟨_, hwinner⟩ := buildTable_beaten made_rivals hbuild rfl shiftable_rivals haction
  refine ⟨made_rivals, _, _, hbuild, shiftable_rivals, haction, hwinner.resolve_left ?_⟩
  have hfour : productionPrecedence rivals.prepare.2 4 = {} := by decide +kernel
  have hsign : rivals.prepare.2.precedenceOf (.literal '+') = ⟨.left, 1⟩ := by decide +kernel
  rw [hfour, hsign]
  rintro (hlevel | ⟨hlevel, _⟩) <;> cases hlevel

/-- The sign can be shifted and has the higher level; still the production that loses to it is
reduced. -/
theorem reduced_although_it_loses : rivals.Made ∧
    ∃ table final, rivals.buildTable .lalr = (.ok table, final) ∧
      Shiftable final (Automaton.states final) 2 (.literal '+') ∧
      table.actionOn 2 (.literal '+') = some (.reduce 4) ∧
      (productionPrecedence final 4).Loses (final.precedenceOf (.literal '+')) := by
  have hbuild : rivals.buildTable .lalr =
      (.ok (ofStates rivals.prepare.2 (Automaton.states rivals.prepare.2) .lalr),
        rivals.prepare.2) := buildTable_of_prepare rfl
  exact ⟨made_rivals, _, _, hbuild, shiftable_rivals, by decide +kernel,
    Or.inl (by decide +kernel)⟩

end Table

end ShiftReduce
