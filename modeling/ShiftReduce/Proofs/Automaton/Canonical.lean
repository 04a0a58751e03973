import ShiftReduce.Proofs.Automaton.BuildStates
import ShiftReduce.Proofs.Automaton.Viable
import ShiftReduce.Proofs.Grammar.Parentheses

/-!
# The canonical collection

For every grammar whose items are built the search answers, and its states are the sets of items
that are valid for strings: no two states are the same set, and the state at the end of a string
has just the items that are valid for the string. Read `states_canonical` first.
-/

namespace ShiftReduce

open Grammar Automaton

variable {α : Type} {g : Grammar α} {s : States} {q r i dot id : Nat} {γ : List Symbol}
  {items others : List Nat} {row : Registry Symbol Nat}

namespace Automaton

/-! ## Rows -/

/-- Leaving a state gives each of its symbols one entry at most. -/
theorem keys_leave (g : Grammar α) (current : List Nat) (found : Found) (symbols : List Symbol) :
    ((leave g current found symbols).2.map Prod.fst).Sublist symbols := by
  induction symbols generalizing found with
  | nil => exact List.Sublist.slnil
  | cons s rest ih =>
      rw [leave]
      split
      · exact (ih found).cons s
      · exact (ih _).cons_cons s

/-- No row has a symbol twice. -/
theorem nodup_keys_explore {fuel number : Nat} {found : Found}
    (hrow : row ∈ (explore g fuel number found).2) : row.keys.Nodup := by
  induction fuel generalizing number found with
  | zero => exact absurd hrow List.not_mem_nil
  | succ fuel ih =>
      rw [explore] at hrow
      split at hrow
      · exact absurd hrow List.not_mem_nil
      · rename_i current _
        rcases List.mem_cons.mp hrow with rfl | hrest
        · exact (keys_leave g current found (symbolsOf g current)).nodup (Ordered.nodup_ofList _)
        · exact ih hrest

theorem nodup_keys_transitions (hrow : row ∈ (states g).transitions) : row.keys.Nodup := by
  unfold states at hrow
  split at hrow
  · exact absurd hrow List.not_mem_nil
  · exact nodup_keys_explore hrow

/-- The search meets no item without a place in the arena. -/
theorem states?_eq_some (h : g.Ready) : states? g = some (states g) := by
  have hall : (states g).states.all g.holdsItems = true := by
    rw [List.all_eq_true]
    intro items hitems
    rw [holdsItems_iff]
    intro id hid
    obtain ⟨item, hitem⟩ := (h.collection.proper.listed items hitems).inArena id hid
    exact (itemAt_of_item? hitem).lt
  simp only [states?, hall, if_true]

end Automaton

namespace Collected

/-! ## States as sets -/

/-- Two states with the same items are one. -/
theorem eq_of_samePlaces (hs : Collected g s) (hq : s.states[q]? = some items)
    (hr : s.states[r]? = some others) (hsame : SamePlaces items others) : q = r := by
  have hlisted := hs.proper.listed
  have hsort : Ascending.sort items = Ascending.sort others :=
    Ascending.sort_eq_sort (hlisted _ (List.mem_of_getElem? hq)).nodup
      (hlisted _ (List.mem_of_getElem? hr)).nodup hsame
  have hkey : (s.states.map Ascending.sort)[q]? = (s.states.map Ascending.sort)[r]? := by
    rw [List.getElem?_map, List.getElem?_map, hq, hr, Option.map_some, Option.map_some, hsort]
  have hlt : q < (s.states.map Ascending.sort).length := by
    rw [List.length_map]
    exact (List.getElem?_eq_some_iff.mp hq).1
  exact (List.getElem?_inj hlt hs.proper.distinct).mp hkey

/-- Whatever string can be read, the state at its end holds an item. -/
theorem exists_holds_of_path? (h : g.Ready) (hs : Collected g s) (hpath : s.path? 0 γ = some q) :
    ∃ i dot, g.Holds (s.itemsOf q) i dot := by
  rcases List.eq_nil_or_concat γ with rfl | ⟨front, last, rfl⟩
  · cases hpath
    exact ⟨0, 0, hs.holds_zero h⟩
  · rw [List.concat_eq_append] at hpath
    obtain ⟨before, _, hgoto⟩ := States.path?_concat_inv hpath
    obtain ⟨i, dot, hheld, hsymbol⟩ := hs.exists_holds_of_goto? h hgoto
    obtain ⟨j, hj, hmoved⟩ := hs.exists_goto? h hheld hsymbol
    cases hgoto.symm.trans hj
    exact ⟨i, dot + 1, hmoved⟩

/-- A string can be read exactly when some item is valid for it. -/
theorem exists_path?_iff (h : g.Ready) (hs : Collected g s) :
    (∃ q, s.path? 0 γ = some q) ↔ ∃ i dot, g.Viable γ i dot := by
  constructor
  · rintro ⟨q, hpath⟩
    obtain ⟨i, dot, hheld⟩ := hs.exists_holds_of_path? h hpath
    exact ⟨i, dot, viable_of_holds h hs hpath hheld⟩
  · rintro ⟨i, dot, hitem⟩
    obtain ⟨q, hpath, _⟩ := hitem.exists_path? h hs
    exact ⟨q, hpath⟩

/-- The places of a state are those of the items that are valid for a string leading to it. -/
theorem mem_itemsOf_iff (h : g.Ready) (hs : Collected g s) (hpath : s.path? 0 γ = some q) :
    id ∈ s.itemsOf q ↔ ∃ i dot, g.ItemAt id i dot ∧ g.Viable γ i dot := by
  constructor
  · intro hid
    obtain ⟨items, hitems⟩ : ∃ items, s.states[q]? = some items := by
      obtain ⟨i, dot, hheld⟩ := hs.exists_holds_of_path? h hpath
      exact ⟨_, List.getElem?_eq_getElem (lt_of_holds hheld)⟩
    rw [States.itemsOf_of_getElem? hitems] at hid
    obtain ⟨item, hitem⟩ :=
      (hs.proper.listed items (List.mem_of_getElem? hitems)).inArena id hid
    have hat := itemAt_of_item? hitem
    have hheld : g.Holds (s.itemsOf q) item.prod item.dot :=
      ⟨id, by rwa [States.itemsOf_of_getElem? hitems], hat⟩
    exact ⟨_, _, hat, viable_of_holds h hs hpath hheld⟩
  · rintro ⟨i, dot, hat, hitem⟩
    obtain ⟨other, hother, hat'⟩ := (holds_iff_viable h hs hpath).mpr hitem
    exact h.itemAt_place_unique hat hat' ▸ hother

end Collected

namespace Automaton

/-- The search answers with states that have no item twice and differ as sets, each with one row
that has no symbol twice. They are the states that the search with a memo finds, as long as there
are no more transitions than 32 bits can count. A string can be read from state 0 exactly when some
item is valid for it; the state at its end has the places of the items that are valid for it and no
others, and each of these items has a place. Every state is at the end of a string. -/
theorem states_canonical (hmade : g.Made) (hitems : g.items ≠ []) :
    ∃ s : States, states? g = some s ∧
      (∀ found, buildStates? g = some found → found = s) ∧
      (entryCount s.transitions + 1 < UInt32.size → buildStates? g = some s) ∧
      (∀ items ∈ s.states, items.Nodup) ∧
      (∀ (q r : Nat) (items others : List Nat), s.states[q]? = some items →
        s.states[r]? = some others → (∀ id, id ∈ items ↔ id ∈ others) → q = r) ∧
      s.transitions.length = s.states.length ∧
      (∀ row ∈ s.transitions, row.keys.Nodup) ∧
      (∀ γ, (∃ q, s.path? 0 γ = some q) ↔ ∃ i dot, g.Viable γ i dot) ∧
      (∀ γ q, s.path? 0 γ = some q →
        (∀ id, id ∈ s.itemsOf q ↔ ∃ i dot, g.ItemAt id i dot ∧ g.Viable γ i dot) ∧
        ∀ i dot, g.Viable γ i dot → ∃ id, g.ItemAt id i dot) ∧
      ∀ q < s.states.length, ∃ γ, s.path? 0 γ = some q := by
  have h := hmade.ready hitems
  have hs := h.collection
  have hbuild := buildStates?_cases h
  refine ⟨states g, states?_eq_some h, fun found hfound => ?_, fun hcount => ?_, ?_, ?_, hs.size,
    ?_, ?_, ?_, ?_⟩
  · rcases hbuild with ⟨hnone, _⟩ | hsome
    · rw [hnone] at hfound
      cases hfound
    · exact Option.some.inj (hfound.symm.trans hsome)
  · exact hbuild.resolve_left fun hfull => Nat.not_le_of_lt hcount hfull.2
  · exact fun items hmem => (hs.proper.listed items hmem).nodup
  · exact fun q r items others hq hr hsame => hs.eq_of_samePlaces hq hr hsame
  · exact fun row hrow => nodup_keys_transitions hrow
  · exact fun γ => hs.exists_path?_iff h
  · intro γ q hpath
    refine ⟨fun id => hs.mem_itemsOf_iff h hpath, fun i dot hitem => ?_⟩
    obtain ⟨id, _, hat⟩ := (holds_iff_viable h hs hpath).mpr hitem
    exact ⟨id, hat⟩
  · exact fun q hlt => hs.exists_path? hlt

/-- In nested parentheses a list of none is begun behind an opening parenthesis: the place of its
only item is in the state there. -/
theorem states_canonical_parentheses :
    (parentheses (none : Option Unit)).buildItems.Made ∧
      (parentheses (none : Option Unit)).buildItems.items ≠ [] ∧
      (buildStates? (parentheses (none : Option Unit)).buildItems).isSome ∧
      ∃ i dot, (parentheses (none : Option Unit)).buildItems.ItemAt 6 i dot ∧
        (parentheses (none : Option Unit)).buildItems.Viable [.literal '('] i dot := by
  have hmade : (parentheses (none : Option Unit)).buildItems.Made :=
    .buildItems (made_parentheses none)
  have hitems : (parentheses (none : Option Unit)).buildItems.items ≠ [] := by decide +kernel
  obtain ⟨s, hs, _, hbuild, _, _, _, _, _, hstate, _⟩ := states_canonical hmade hitems
  obtain rfl : states (parentheses (none : Option Unit)).buildItems = s :=
    Option.some.inj ((states?_eq_some (hmade.ready hitems)).symm.trans hs)
  refine ⟨hmade, hitems, by rw [hbuild (by decide +kernel)]; rfl, ?_⟩
  have hpath : (states (parentheses (none : Option Unit)).buildItems).path? 0 [.literal '('] =
      some 2 := by decide +kernel
  exact ((hstate _ 2 hpath).1 6).mp (by decide +kernel)

end Automaton

end ShiftReduce
