import ShiftReduce.Proofs.Automaton.Canonical
import ShiftReduce.Proofs.Grammar.Refused

/-!
# When the places of items dangle

Every production knows the places of its items. A change of the productions or of the start symbol
empties the arena, but it leaves their ranges to the productions that were there, so until the items
are built again these lead nowhere. `ranges_dangle_iff` says for every history whether some range
dangles at its end, and whether the search for states runs into one; it is to be read first.
-/

namespace ShiftReduce.Grammar

variable {α : Type} {g : Grammar α} {call : Call α} {calls before after : List (Call α)}
  {i id : Nat} {p : Production α}

/-- Every place that a production knows lies in the arena and holds an item of that production. -/
def Placed (g : Grammar α) : Prop :=
  ∀ i p id, g.production? i = some p → id ∈ p.itemIds →
    ∃ item, g.item? id = some item ∧ item.prod = i

/-- A production that knows places for its items. -/
def Ranged (g : Grammar α) (i : Nat) : Prop :=
  ∃ p, g.production? i = some p ∧ p.itemIds ≠ []

/-- Whether a call is a new start symbol that is accepted. -/
def restarts (g : Grammar α) : Call α → Bool
  | .setStart name => (g.setStart name).1.isOk
  | _ => false

/-- Whether a call is a new production or a new start symbol that is accepted. -/
def edits (g : Grammar α) : Call α → Bool
  | .addProduction name symbols tag action => (g.addProduction name symbols tag action).1.isOk
  | call => g.restarts call

/-- Whether some call of a history passes a test at its moment. -/
def meets (test : Grammar α → Call α → Bool) (g : Grammar α) : List (Call α) → Bool
  | [] => false
  | call :: calls => test g call || meets test (g.perform call) calls

/-! ## Dangling -/

/-- Where items are built every place holds an item of its production, so places can only dangle
after the items were forgotten, and then they do. -/
theorem Made.not_placed_iff (h : g.Made) : ¬ g.Placed ↔ g.items = [] ∧ ∃ i, g.Ranged i := by
  constructor
  · intro hdangles
    have hitems : g.items = [] := by
      by_contra hitems
      refine hdangles fun i p id hp hid => ?_
      have harena := h.arena hitems
      rw [Production.itemIds, ItemRange.ids, List.mem_range'_1, harena.past hp] at hid
      have hdot : id - p.range.first ≤ p.symbols.length := by omega
      have hitem := harena.item hp hdot
      rw [Nat.add_sub_cancel' hid.1] at hitem
      exact ⟨_, hitem, h.wellFormed.index hp⟩
    refine ⟨hitems, ?_⟩
    by_contra hnone
    refine hdangles fun i p id hp hid => absurd ⟨i, p, hp, ?_⟩ hnone
    exact List.ne_nil_of_mem hid
  · rintro ⟨hitems, i, p, hp, hne⟩ hplaced
    obtain ⟨id, hid⟩ := List.exists_mem_of_ne_nil _ hne
    obtain ⟨item, hitem, _⟩ := hplaced i p id hp hid
    rw [item?, hitems] at hitem
    cases hitem

/-- Production 0 knows places just if it has a first one. -/
theorem ranged_zero_iff : g.Ranged 0 ↔ ∃ start, g.firstItemOf? 0 = some start := by
  simp only [Ranged, firstItemOf?, Option.bind_eq_some_iff, Production.firstItem?]
  constructor
  · rintro ⟨p, hp, hne⟩
    exact ⟨p.itemIds.head hne, p, hp, List.head?_eq_some_head hne⟩
  · rintro ⟨start, p, hp, hhead⟩
    exact ⟨p, hp, fun hnil => by simp [hnil] at hhead⟩

/-- In an empty arena nothing is found but the place that the search starts from. -/
theorem states_of_items_eq_nil (hitems : g.items = []) {start : Nat}
    (hstart : g.firstItemOf? 0 = some start) :
    (Automaton.states g).states = [[start]] := by
  have hnone : ∀ id, g.item? id = none := fun id => by rw [item?, hitems, List.getElem?_nil]
  have hafter : productionsAfter g start = [] := by rw [productionsAfter, hnone]
  have hclosure : Automaton.closure g [start] = [start] := by
    rw [Automaton.closure, List.length_singleton, Nat.add_comm, Automaton.closeFrom, hafter]
    cases g.productions.length <;> rfl
  have hsymbols : Automaton.symbolsOf g [start] = [] := by
    simp only [Automaton.symbolsOf, List.filterMap_cons, atDot?, hnone, Option.bind_none]
    rfl
  have hfound : Automaton.Found.locate {} [start] =
      (⟨[[start]], [Ascending.sort [start]]⟩, 0) := rfl
  rw [Automaton.states, hstart]
  simp [hclosure, hfound, hitems, Automaton.explore, hsymbols, Automaton.leave]

/-- The search for states starts from the first place of production 0, so it finds no item there
just if that place dangles. -/
theorem Made.states?_eq_none_iff (h : g.Made) :
    Automaton.states? g = none ↔ g.items = [] ∧ g.Ranged 0 := by
  by_cases hitems : g.items = []
  · rw [ranged_zero_iff]
    cases hstart : g.firstItemOf? 0 with
    | none => simp [Automaton.states?, Automaton.states, hstart]
    | some start =>
        simp [Automaton.states?, states_of_items_eq_nil hitems hstart, holdsItems, hitems]
  · simp [Automaton.states?_eq_some (h.ready hitems), hitems]

/-- The search with a memo runs into such a place just as the search without one does. -/
theorem Made.buildStates?_eq (h : g.Made)
    (hcount : Automaton.entryCount (Automaton.states g).transitions + 1 < UInt32.size) :
    Automaton.buildStates? g = Automaton.states? g := by
  by_cases hitems : g.items = []
  · cases hstart : g.firstItemOf? 0 with
    | none =>
        simp [Automaton.buildStates?, Automaton.states?, Automaton.states, hstart]
    | some start =>
        have hmissing : g.holdsItems [start] = false := by simp [holdsItems, hitems]
        rw [h.states?_eq_none_iff.mpr ⟨hitems, ranged_zero_iff.mpr ⟨start, hstart⟩⟩,
          Automaton.buildStates?, hstart]
        simp only [Automaton.Memo.closure?_of_missing hmissing]
  · have hready := h.ready hitems
    rcases Automaton.buildStates?_cases hready with ⟨_, hfull⟩ | hfound
    · omega
    · rw [hfound, Automaton.states?_eq_some hready]

/-! ## Calls that build nothing -/

/-- An accepted start symbol starts the grammar anew. -/
theorem setStart_accepted {name : Option String} (h : (g.setStart name).1 = .ok ()) :
    ∃ start, (g.setStart name).2 = g.restart start := by
  unfold setStart at h ⊢
  split at h
  · cases h
  · dsimp only at h ⊢
    split at h
    · rename_i hcontains
      rw [if_pos hcontains]
      exact ⟨_, rfl⟩
    · cases h

/-- What a call does to the productions and the items, unless it builds items: an accepted change
empties the arena and brings a production without places, any other call leaves them alone. -/
theorem perform_cases (hitems : call ≠ .buildItems) (htable : ∀ method, call ≠ .buildTable method) :
    (g.edits call = false ∧ g.restarts call = false ∧
      (g.perform call).productions = g.productions ∧ (g.perform call).items = g.items) ∨
    g.edits call = true ∧ (g.perform call).items = [] ∧ ∃ p, p.itemIds = [] ∧
      (g.restarts call = false ∧ (g.perform call).productions = g.productions ++ [p] ∨
        g.restarts call = true ∧ (g.perform call).productions = p :: g.productions.tail) := by
  cases call with
  | setPrecedence s assoc level =>
      obtain ⟨_, hsame⟩ := setPrecedence_grammar g s assoc level
      refine Or.inl ⟨rfl, rfl, ?_⟩
      rw [perform, hsame]
      exact ⟨rfl, rfl⟩
  | addProduction name symbols tag action =>
      cases hanswer : (g.addProduction name symbols tag action).1 with
      | error e =>
          refine Or.inl ⟨by rw [edits, hanswer]; rfl, rfl, ?_⟩
          rw [perform]
          rcases addProduction_of_error hanswer with hsame | hsame
          · rw [hsame]
            exact ⟨rfl, rfl⟩
          · rw [hsame]
            cases tag <;> exact ⟨rfl, rfl⟩
      | ok p =>
          obtain ⟨⟨_, _, hp⟩, hgrammar⟩ := addProduction_accepted hanswer
          refine Or.inr ⟨by rw [edits, hanswer]; rfl, ?_, p, by rw [hp]; rfl, Or.inl ⟨rfl, ?_⟩⟩
          · rw [perform, hgrammar]
            rfl
          · rw [perform, hgrammar, append_productions]
            cases tag <;> rfl
  | setStart name =>
      cases hanswer : (g.setStart name).1 with
      | error e =>
          have hrefused : g.restarts (.setStart name) = false := by rw [restarts, hanswer]; rfl
          refine Or.inl ⟨hrefused, hrefused, ?_⟩
          rw [perform, setStart_of_error hanswer]
          exact ⟨rfl, rfl⟩
      | ok _ =>
          have haccepted : g.restarts (.setStart name) = true := by rw [restarts, hanswer]; rfl
          obtain ⟨start, hgrammar⟩ := setStart_accepted hanswer
          refine Or.inr ⟨haccepted, ?_,
            { index := 0, name := augmentedStart, symbols := [.nonterminal start] }, rfl,
            Or.inr ⟨haccepted, ?_⟩⟩
          · rw [perform, hgrammar]
            rfl
          · rw [perform, hgrammar]
            rfl
  | buildItems => exact absurd rfl hitems
  | computeFirst =>
      obtain ⟨_, hsame⟩ := computeFirst_grammar g
      refine Or.inl ⟨rfl, rfl, ?_⟩
      rw [perform, hsame]
      exact ⟨rfl, rfl⟩
  | computeFollow start =>
      obtain ⟨_, _, _, hsame⟩ := computeFollow_grammar g start
      refine Or.inl ⟨rfl, rfl, ?_⟩
      rw [perform, hsame]
      exact ⟨rfl, rfl⟩
  | buildTable method => exact absurd rfl (htable method)

/-- Only an accepted change empties the arena. -/
theorem items_perform (hitems : call ≠ .buildItems) (htable : ∀ method, call ≠ .buildTable method) :
    (g.perform call).items = [] ↔ g.items = [] ∨ g.edits call = true := by
  rcases perform_cases (g := g) hitems htable with ⟨hedits, _, _, hsame⟩ | ⟨hedits, hnil, _⟩
  · simp [hsame, hedits]
  · simp [hnil, hedits]

/-- Only an accepted start symbol takes places from a production, and only from production 0. -/
theorem ranged_perform (hitems : call ≠ .buildItems)
    (htable : ∀ method, call ≠ .buildTable method) :
    (g.perform call).Ranged i ↔ g.Ranged i ∧ (i = 0 → g.restarts call = false) := by
  rcases perform_cases (g := g) hitems htable with
    ⟨_, hrestarts, hsame, _⟩ | ⟨_, _, p, hp, ⟨hrestarts, hsame⟩ | ⟨hrestarts, hsame⟩⟩
  · simp [Ranged, production?, hsame, hrestarts]
  · -- the new production comes behind all others and has no places
    simp only [Ranged, production?, hsame, hrestarts, implies_true, and_true]
    by_cases hi : i < g.productions.length
    · rw [List.getElem?_append_left hi]
    · rw [List.getElem?_append_right (Nat.le_of_not_lt hi),
        List.getElem?_eq_none (Nat.le_of_not_lt hi)]
      constructor
      · rintro ⟨q, hq, hne⟩
        rw [List.mem_singleton.mp (List.mem_of_getElem? hq)] at hne
        exact absurd hp hne
      · rintro ⟨q, hq, _⟩
        cases hq
  · cases i with
    | zero => simp [Ranged, production?, hsame, hrestarts, hp]
    | succ i => simp [Ranged, production?, hsame]

/-- A history of calls that build no items. -/
def Unbuilding (calls : List (Call α)) : Prop :=
  ∀ call ∈ calls, call ≠ .buildItems ∧ ∀ method, call ≠ .buildTable method

theorem items_performAll (h : Unbuilding calls) :
    (g.performAll calls).items = [] ↔ g.items = [] ∨ meets edits g calls = true := by
  induction calls generalizing g with
  | nil => simp [performAll, meets]
  | cons call calls ih =>
      obtain ⟨⟨hitems, htable⟩, hcalls⟩ := List.forall_mem_cons.mp h
      have hrest := ih (g := g.perform call) hcalls
      rw [items_perform hitems htable, or_assoc] at hrest
      rw [meets, Bool.or_eq_true, ← hrest]
      rfl

theorem ranged_performAll (h : Unbuilding calls) : (g.performAll calls).Ranged i ↔
    g.Ranged i ∧ (i = 0 → meets restarts g calls = false) := by
  induction calls generalizing g with
  | nil => simp [performAll, meets]
  | cons call calls ih =>
      obtain ⟨⟨hitems, htable⟩, hcalls⟩ := List.forall_mem_cons.mp h
      have hrest := ih (g := g.perform call) hcalls
      rw [ranged_perform hitems htable, and_assoc, ← imp_and] at hrest
      rw [meets, Bool.or_eq_false_iff, ← hrest]
      rfl

/-! ## Histories -/

/-- Building the items gives places to every production. -/
theorem ranged_buildItems : g.buildItems.Ranged i ↔ i < g.productions.length := by
  simp only [Ranged, production?_buildItems, Option.map_eq_some_iff]
  constructor
  · rintro ⟨_, ⟨p, hp, rfl⟩, _⟩
    exact (List.getElem?_eq_some_iff.mp hp).1
  · intro hi
    refine ⟨_, ⟨g.productions[i], List.getElem?_eq_getElem hi, rfl⟩, ?_⟩
    simp only [Production.itemIds, ItemRange.ids, ne_eq, List.range'_eq_nil_iff]
    omega

/-- Before any items are built no production has places. -/
theorem not_ranged_ofTokens {tokens : List String} (h : ofTokens tokens = .ok g) :
    ¬ g.Ranged i := by
  unfold ofTokens at h
  split at h
  · cases h
  · cases h
    rintro ⟨p, hp, hne⟩
    rw [List.mem_singleton.mp (List.mem_of_getElem? hp)] at hne
    exact hne rfl

/-- Behind a building some place dangles if a change was accepted, unless production 0 was the only
one and has lost its places; and the search for states runs into one unless production 0 has. -/
theorem Made.dangles_after (h : g.Made) (hafter : Unbuilding after) :
    (¬ (g.buildItems.performAll after).Placed ↔ meets edits g.buildItems after = true ∧
      (1 < g.productions.length ∨ meets restarts g.buildItems after = false)) ∧
    (Automaton.states? (g.buildItems.performAll after) = none ↔
      meets edits g.buildItems after = true ∧ meets restarts g.buildItems after = false) := by
  have hmade := h.buildItems.performAll after
  have hitems : (g.buildItems.performAll after).items = [] ↔
      meets edits g.buildItems after = true := by
    rw [items_performAll hafter]
    exact or_iff_right (buildItems_items_ne_nil h.wellFormed)
  have hranged : ∀ i, (g.buildItems.performAll after).Ranged i ↔
      i < g.productions.length ∧ (i = 0 → meets restarts g.buildItems after = false) := by
    intro i
    rw [ranged_performAll hafter, ranged_buildItems]
  have hlength := h.wellFormed.length_ne_zero
  rw [hmade.not_placed_iff, hmade.states?_eq_none_iff, hitems, hranged 0]
  constructor
  · refine and_congr_right fun _ => ?_
    simp only [hranged]
    constructor
    · rintro ⟨i, hi, hkept⟩
      cases i with
      | zero => exact Or.inr (hkept rfl)
      | succ i => exact Or.inl (by omega)
    · rintro (hmore | hkept)
      · exact ⟨1, hmore, fun habs => by cases habs⟩
      · exact ⟨0, by omega, fun _ => hkept⟩
  · refine and_congr_right fun _ => ?_
    rw [and_iff_right (by omega)]
    exact ⟨fun hkept => hkept rfl, fun hkept _ => hkept⟩

/-- If items were never built, no place dangles. -/
theorem placed_of_unbuilding {tokens : List String} (h : ofTokens tokens = .ok g)
    (hcalls : Unbuilding calls) :
    (g.performAll calls).Placed ∧ Automaton.states? (g.performAll calls) ≠ none := by
  have hmade := (Made.ofTokens h).performAll calls
  have hnone : ∀ i, ¬ (g.performAll calls).Ranged i := fun i hranged =>
    not_ranged_ofTokens h ((ranged_performAll hcalls).mp hranged).1
  constructor
  · by_contra hdangles
    obtain ⟨_, i, hranged⟩ := hmade.not_placed_iff.mp hdangles
    exact hnone i hranged
  · intro hstates
    exact hnone 0 (hmade.states?_eq_none_iff.mp hstates).2

/-- Calls are a history in which items were never built, or have a part behind the last building. -/
theorem unbuilding_or_split (hcalls : ∀ method, .buildTable method ∉ calls) :
    Unbuilding calls ∨
      ∃ before after, calls = before ++ .buildItems :: after ∧ Unbuilding after := by
  by_cases hbuilt : .buildItems ∈ calls
  · obtain ⟨after, before, hsplit, hlast⟩ :=
      List.eq_append_cons_of_mem (List.mem_reverse.mpr hbuilt)
    have hcalls' : calls = before.reverse ++ .buildItems :: after.reverse := by
      rw [← List.reverse_reverse calls, hsplit]
      simp
    refine Or.inr ⟨before.reverse, after.reverse, hcalls', fun call hmem => ⟨?_, ?_⟩⟩
    · rintro rfl
      exact hlast (List.mem_reverse.mp hmem)
    · rintro method rfl
      refine hcalls method ?_
      rw [hcalls']
      simp [hmem]
  · refine Or.inl fun call hmem => ⟨?_, ?_⟩
    · rintro rfl
      exact hbuilt hmem
    · rintro method rfl
      exact hcalls method hmem

theorem performAll_building (g : Grammar α) (before after : List (Call α)) :
    g.performAll (before ++ .buildItems :: after) =
      (g.performAll before).buildItems.performAll after := by
  rw [performAll, List.foldl_append]
  rfl

/-- What cannot hold before items are built depends on the grammar at the last building and on the
calls behind it. -/
theorem performAll_iff_last {D : Grammar α → Prop} {K : Grammar α → List (Call α) → Prop}
    (hcalls : ∀ method, .buildTable method ∉ calls)
    (hnever : Unbuilding calls → ¬ D (g.performAll calls))
    (hlast : ∀ before after, Unbuilding after →
      (D ((g.performAll before).buildItems.performAll after) ↔ K (g.performAll before) after)) :
    D (g.performAll calls) ↔
      ∃ before after, calls = before ++ .buildItems :: after ∧ .buildItems ∉ after ∧
        K (g.performAll before) after := by
  constructor
  · intro hholds
    obtain hunbuilt | ⟨before, after, rfl, hafter⟩ := unbuilding_or_split hcalls
    · exact absurd hholds (hnever hunbuilt)
    · rw [performAll_building] at hholds
      exact ⟨before, after, rfl, fun hmem => (hafter _ hmem).1 rfl,
        (hlast before after hafter).mp hholds⟩
  · rintro ⟨before, after, rfl, hnone, hcondition⟩
    have hafter : Unbuilding after := by
      refine fun call hmem => ⟨fun hcall => hnone (hcall ▸ hmem), fun method hcall => ?_⟩
      exact hcalls method (by simp [← hcall, hmem])
    rw [performAll_building]
    exact (hlast before after hafter).mpr hcondition

/-- Whatever is done to a grammar after it was made from tokens, some production knows a place that
is not its own just if a production or a start symbol was accepted behind the last building of
items, provided there was more than production 0 then or production 0 was left alone. The search for
states runs into such a place just if production 0 was left alone. -/
theorem ranges_dangle_iff {tokens : List String} (h : ofTokens tokens = .ok g)
    (calls : List (Call α)) (hcalls : ∀ method, .buildTable method ∉ calls) :
    (¬ (g.performAll calls).Placed ↔
      ∃ before after, calls = before ++ .buildItems :: after ∧ .buildItems ∉ after ∧
        meets edits (g.performAll before).buildItems after = true ∧
        (1 < (g.performAll before).productions.length ∨
          meets restarts (g.performAll before).buildItems after = false)) ∧
    (Automaton.states? (g.performAll calls) = none ↔
      ∃ before after, calls = before ++ .buildItems :: after ∧ .buildItems ∉ after ∧
        meets edits (g.performAll before).buildItems after = true ∧
        meets restarts (g.performAll before).buildItems after = false) := by
  have hmade : ∀ before, (g.performAll before).Made := (Made.ofTokens h).performAll
  constructor
  · exact performAll_iff_last (D := fun g => ¬ g.Placed)
      (K := fun g after => meets edits g.buildItems after = true ∧
        (1 < g.productions.length ∨ meets restarts g.buildItems after = false)) hcalls
      (fun hunbuilt hdangles => hdangles (placed_of_unbuilding h hunbuilt).1)
      fun before _ hunbuilt => ((hmade before).dangles_after hunbuilt).1
  · exact performAll_iff_last (D := fun g => Automaton.states? g = none)
      (K := fun g after => meets edits g.buildItems after = true ∧
        meets restarts g.buildItems after = false) hcalls
      (fun hunbuilt => (placed_of_unbuilding h hunbuilt).2)
      fun before _ hunbuilt => ((hmade before).dangles_after hunbuilt).2

/-- A number is declared and the items are built, and then a pair of numbers is declared. -/
def pairCalls : List (Call Unit) :=
  [.addProduction "number" [.token "NUMBER"] none none, .buildItems,
    .addProduction "pair" [.nonterminal "number", .nonterminal "number"] none none]

/-- After the pair was declared the places of the number dangle. -/
theorem ranges_dangle_pair : ofTokens ["NUMBER"] = .ok numbers ∧
    (∀ method, .buildTable method ∉ pairCalls) ∧ ¬ (numbers.performAll pairCalls).Placed ∧
    Automaton.states? (numbers.performAll pairCalls) = none := by
  have hmade : ofTokens ["NUMBER"] = .ok numbers := rfl
  have hcalls : ∀ method, .buildTable method ∉ pairCalls := by simp [pairCalls]
  obtain ⟨hplaced, hstates⟩ := ranges_dangle_iff hmade pairCalls hcalls
  refine ⟨hmade, hcalls, hplaced.mpr ?_, hstates.mpr ?_⟩
  · exact ⟨pairCalls.take 1, pairCalls.drop 2, rfl, by simp [pairCalls], by decide,
      Or.inl (by decide)⟩
  · exact ⟨pairCalls.take 1, pairCalls.drop 2, rfl, by simp [pairCalls], by decide,
      by decide⟩

/-- The number knows two places then, but the arena is empty, and the search for states runs into
one. -/
theorem stale_places : ofTokens ["NUMBER"] = .ok numbers ∧
    ((numbers.performAll pairCalls).production? 1).map Production.itemIds = some [1, 2] ∧
    (numbers.performAll pairCalls).items = [] ∧ ¬ (numbers.performAll pairCalls).Placed ∧
    Automaton.states? (numbers.performAll pairCalls) = none := by
  have hplaces : ((numbers.performAll pairCalls).production? 1).map Production.itemIds =
      some [1, 2] := by decide
  have hitems : (numbers.performAll pairCalls).items = [] := by decide
  refine ⟨rfl, hplaces, hitems, fun hplaced => ?_, by decide⟩
  obtain ⟨p, hp, hids⟩ := Option.map_eq_some_iff.mp hplaces
  obtain ⟨item, hitem, _⟩ := hplaced 1 p 1 hp (by rw [hids]; exact List.mem_cons_self)
  rw [item?, hitems] at hitem
  cases hitem

end ShiftReduce.Grammar
