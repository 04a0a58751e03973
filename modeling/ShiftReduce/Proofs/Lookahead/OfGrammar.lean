import ShiftReduce.Proofs.Grammar.Parentheses
import ShiftReduce.Proofs.Lookahead.Exact

/-!
# The lookaheads of a grammar

For every grammar that declarations can make, the lookaheads of a reduction in a state are the
terminals that its complete item expects after the strings that lead to the state. Where every
nonterminal can begin or vanish these are the terminals with which the item is valid; in general
they are more, because a nonterminal from which nothing can be read does not keep the lookaheads of
what stands before it from being generated.
-/

namespace ShiftReduce.Lookahead

open Grammar Automaton

variable {α : Type} {g : Grammar α}

/-- There is a lookahead set for each complete item of a state but that of production 0; it has just
the terminals that the item expects after some string that leads to the state. Where every
nonterminal begins or vanishes, to expect a terminal is to be valid with it. -/
theorem lookaheads_exact (hmade : g.Made) (hitems : g.items ≠ []) :
    (∀ q i, (∃ set, (compute g (states g)).get? (q, i) = some set) ↔ i ≠ 0 ∧
      ∃ p, g.production? i = some p ∧ g.Holds ((states g).itemsOf q) i p.symbols.length) ∧
    (∀ q i p set, g.production? i = some p → (compute g (states g)).get? (q, i) = some set →
      ∀ v, v ∈ set ↔ ∃ symbol γ, g.terminalIndex? symbol = some v ∧
        (states g).path? 0 γ = some q ∧ g.Expects γ i p.symbols.length symbol) ∧
    (g.Beginning → ∀ γ i dot symbol, g.Expects γ i dot symbol ↔ g.ValidFor γ i dot symbol) := by
  have h := hmade.ready hitems
  have hs := h.collection
  have hentry : ∀ q i, (∃ set, (compute g (states g)).get? (q, i) = some set) ↔
      (q, i) ∈ (compute g (states g)).keys :=
    fun q i => ⟨fun ⟨_, hset⟩ => Registry.mem_keys_of_get? hset, Registry.exists_get?_of_mem_keys⟩
  refine ⟨?_, ?_, fun hbegin γ i dot symbol => expects_iff_validFor hbegin⟩
  · intro q i
    rw [hentry]
    constructor
    · intro hkey
      obtain ⟨p, hp⟩ := exists_production?_of_mem_keys h hkey
      obtain ⟨hi, hitem⟩ := (mem_keys_compute_iff h hs hp).mp hkey
      exact ⟨hi, p, hp, hitem⟩
    · rintro ⟨hi, p, hp, hitem⟩
      exact (mem_keys_compute_iff h hs hp).mpr ⟨hi, hitem⟩
  · intro q i p set hp hset v
    have hkey := (hentry q i).mp ⟨set, hset⟩
    rw [← mem_lookaheads_iff h hs hp ((mem_keys_compute_iff h hs hp).mp hkey).1, hset]
    rfl

/-- In nested parentheses, a list may be closed before each of the three terminals. -/
theorem lookaheads_exact_parentheses :
    (parentheses (none : Option Unit)).buildItems.Made ∧
      (parentheses (none : Option Unit)).buildItems.items ≠ [] ∧
      ∃ symbol γ, (parentheses (none : Option Unit)).buildItems.terminalIndex? symbol = some 3 ∧
        (states (parentheses (none : Option Unit)).buildItems).path? 0 γ = some 4 ∧
        (parentheses (none : Option Unit)).buildItems.Expects γ 1 3 symbol := by
  have hmade : (parentheses (none : Option Unit)).buildItems.Made :=
    .buildItems (made_parentheses none)
  have hitems : (parentheses (none : Option Unit)).buildItems.items ≠ [] := by decide +kernel
  refine ⟨hmade, hitems, ?_⟩
  have hset : (compute (parentheses (none : Option Unit)).buildItems
      (states (parentheses (none : Option Unit)).buildItems)).get? (4, 1) = some [0, 2, 3] := by
    decide +kernel
  exact ((lookaheads_exact hmade hitems).2.1 4 1 _ _ rfl hset 3).mp (by decide)

/-! ## A nonterminal from which nothing can be read -/

/-- A grammar whose start symbol needs `b`, which only leads to itself. -/
def endless : Grammar Unit :=
  let g := (blank.addProduction "s" [.nonterminal "a", .nonterminal "b"] none none).2
  let g := (g.addProduction "a" [.nonterminal "d", .literal '+'] none none).2
  let g := (g.addProduction "d" [.literal '-'] none none).2
  let g := (g.addProduction "b" [.nonterminal "b"] none none).2
  (g.setStart none).2.buildItems

theorem made_endless : endless.Made :=
  .buildItems (.setStart _ (.addProduction _ _ _ _ (.addProduction _ _ _ _
    (.addProduction _ _ _ _ (.addProduction _ _ _ _ made_blank)))))

/-- The right sides of `b`. -/
theorem endless_rule {i : Nat} {p : Production Unit} (hp : endless.production? i = some p)
    (hname : p.name = "b") : p.symbols = [.nonterminal "b"] := by
  have hall : ∀ p ∈ endless.productions, p.name = "b" → p.symbols = [.nonterminal "b"] := by
    decide +kernel
  exact hall p (List.mem_of_getElem? hp) hname

/-- Nothing that starts with `b` vanishes. -/
theorem endless_not_vanishing {xs : List Symbol} (h : endless.Vanishing xs) :
    xs.head? ≠ some (.nonterminal "b") := by
  induction h with
  | nil => exact fun habs => nomatch habs
  | @cons i p rest hp _ _ ih _ =>
      intro hhead
      have hname : p.name = "b" := by simpa using hhead
      rw [endless_rule hp hname] at ih
      exact ih rfl

/-- Nothing can be read from what starts with `b`. -/
theorem endless_not_starting {xs : List Symbol} {t : Symbol} (h : endless.Starting xs t) :
    xs.head? ≠ some (.nonterminal "b") := by
  induction h with
  | @terminal t rest ht =>
      intro hhead
      cases hhead
      cases ht
  | @inside i p rest t hp _ ih =>
      intro hhead
      have hname : p.name = "b" := by simpa using hhead
      rw [endless_rule hp hname] at ih
      exact ih rfl
  | past hvanishing _ _ =>
      intro hhead
      cases hhead
      exact endless_not_vanishing hvanishing rfl

/-- The productions of the nonterminals after the dots of productions 0, 1 and 4. -/
theorem endless_expands {i j dot : Nat} {name : String}
    (hname : endless.symbolAt i dot = some (.nonterminal name)) (hj : j ∈ endless.ruleIndices name)
    (hi : i = 0 ∨ i = 1 ∨ i = 4) : j = 1 ∨ j = 4 ∨ i = 1 ∧ dot = 0 := by
  have hall : ∀ i ∈ [0, 1, 4], ∀ dot ∈ [0, 1],
      ∀ name ∈ ((endless.symbolAt i dot).bind Symbol.nonterminalName?).toList,
      ∀ j ∈ endless.ruleIndices name, j = 1 ∨ j = 4 ∨ i = 1 ∧ dot = 0 := by
    decide +kernel
  have hshort : ∀ p ∈ endless.productions, p.symbols.length ≤ 2 := by decide +kernel
  obtain ⟨p, hp, hget⟩ := exists_production?_of_symbolAt hname
  have hlength := hshort p (List.mem_of_getElem? hp)
  have hlt := (List.getElem?_eq_some_iff.mp hget).1
  refine hall i (by simpa using hi) dot (by simp; omega) name ?_ j hj
  rw [hname]
  exact List.mem_singleton_self name

/-- Only items of productions 0, 1 and 4 are valid with a terminal: the production of `a` would need
a terminal that begins what comes behind `a`. -/
theorem endless_validFor {γ : List Symbol} {i dot : Nat} {t : Symbol}
    (h : endless.ValidFor γ i dot t) : i = 0 ∨ i = 1 ∨ i = 4 := by
  induction h with
  | start => exact Or.inl rfl
  | read _ _ ih => exact ih
  | @expand γ i dot j name t u _ hname hj hbegins ih =>
      rcases endless_expands hname hj ih with hone | hfour | ⟨rfl, rfl⟩
      · exact Or.inr (Or.inl hone)
      · exact Or.inr (Or.inr hfour)
      · have hrest : endless.rest 1 1 = [.nonterminal "b"] := by decide +kernel
        rw [hrest] at hbegins
        exact absurd rfl (endless_not_starting (starting_iff.mpr hbegins))

/-- A lookahead with which no item is valid: before `+` the production of `d` may be reduced, though
no item of it is valid with any terminal. -/
theorem lookahead_without_valid_item :
    endless.Made ∧ endless.start = some "s" ∧ endless.items ≠ [] ∧
      (∀ i p name, endless.production? i = some p → .nonterminal name ∈ p.symbols →
        endless.ruleIndices name ≠ []) ∧
      (compute endless (states endless)).get? (4, 3) = some [2] ∧
      (endless.production? 3).map Production.symbols = some [.literal '-'] ∧
      ¬ ∃ symbol γ, endless.terminalIndex? symbol = some 2 ∧
        (states endless).path? 0 γ = some 4 ∧ endless.ValidFor γ 3 1 symbol := by
  refine ⟨made_endless, by decide +kernel, by decide +kernel, ?_, by decide +kernel,
    by decide +kernel, ?_⟩
  · have hall : ∀ p ∈ endless.productions,
        ∀ name ∈ p.symbols.filterMap Symbol.nonterminalName?, endless.ruleIndices name ≠ [] := by
      decide +kernel
    intro i p name hp hmem
    exact hall p (List.mem_of_getElem? hp) name (List.mem_filterMap.mpr ⟨_, hmem, rfl⟩)
  · rintro ⟨symbol, γ, _, _, hvalid⟩
    rcases endless_validFor hvalid with habs | habs | habs <;> cases habs

end ShiftReduce.Lookahead
