import ShiftReduce.Proofs.Automaton.Viable
import ShiftReduce.Proofs.Digraph.Closure
import ShiftReduce.Proofs.Lookahead.Nullable

/-!
# The relations between transitions

What the lists of transitions, of direct reads, of reads, of includes and of lookbacks contain, said
by states, productions and dots. Transitions are given by their numbers, as in the lists.
-/

namespace ShiftReduce.Lookahead

open Grammar

variable {α : Type} {g : Grammar α} {s : States} {all : List Transition} {names : List String}
  {q r i j k v dot : Nat} {name : String} {t : Transition} {p : Production α} {xs : List Symbol}

/-- The number of a symbol after a dot in a state. -/
def AfterDot (g : Grammar α) (s : States) (q : Nat) (symbol : Symbol) : Prop :=
  ∃ i dot, g.Holds (s.itemsOf q) i dot ∧ g.symbolAt i dot = some symbol

/-- The symbols after the dots of a list of places, by place. -/
theorem holds_of_atDot? (h : g.Ready) {items : List Nat} {id : Nat} {symbol : Symbol}
    (hid : id ∈ items) (hat : g.atDot? id = some symbol) :
    ∃ i dot, g.Holds items i dot ∧ g.symbolAt i dot = some symbol := by
  cases hitem : g.item? id with
  | none => simp [atDot?, hitem] at hat
  | some item =>
      have hplace := itemAt_of_item? hitem
      exact ⟨_, _, ⟨id, hid, hplace⟩, (h.atDot?_eq hplace).symm.trans hat⟩

/-! ## Transitions -/

/-- The transitions are those on the nonterminals after the dots of a state. -/
theorem mem_transitions_iff (h : g.Ready) :
    t ∈ transitions g s ↔ AfterDot g s t.state (.nonterminal t.name) := by
  constructor
  · intro ht
    obtain ⟨row, hrow, ht⟩ := List.mem_flatten.mp ht
    obtain ⟨q, hq, rfl⟩ := List.mem_mapIdx.mp hrow
    obtain ⟨name, hname, rfl⟩ := List.mem_map.mp ht
    obtain ⟨id, hid, hbind⟩ := List.mem_filterMap.mp (Ordered.mem_ofList.mp hname)
    obtain ⟨symbol, hat, hsymbol⟩ := Option.bind_eq_some_iff.mp hbind
    have hsame : symbol = .nonterminal name := by
      cases symbol <;> simp_all [Symbol.nonterminalName?]
    refine holds_of_atDot? h ?_ (hsame ▸ hat)
    rw [States.itemsOf_of_getElem? (List.getElem?_eq_getElem hq)]
    exact hid
  · rintro ⟨i, dot, ⟨id, hid, hitem⟩, hsymbol⟩
    have hlt : t.state < s.states.length := Collected.lt_of_holds ⟨id, hid, hitem⟩
    refine List.mem_flatten.mpr ⟨_, List.mem_mapIdx.mpr ⟨t.state, hlt, rfl⟩, ?_⟩
    refine List.mem_map.mpr ⟨t.name, Ordered.mem_ofList.mpr (List.mem_filterMap.mpr ⟨id, ?_, ?_⟩),
      rfl⟩
    · rw [States.itemsOf_of_getElem? (List.getElem?_eq_getElem hlt)] at hid
      exact hid
    · rw [h.atDot?_eq hitem, hsymbol]
      rfl

/-- Every symbol after a dot is one that the grammar knows. -/
theorem knows_of_symbolAt (h : g.WellFormed) {symbol : Symbol}
    (hsymbol : g.symbolAt i dot = some symbol) : g.Knows symbol := by
  obtain ⟨p, hp, hget⟩ := exists_production?_of_symbolAt hsymbol
  exact h.knows hp (List.mem_of_getElem? hget)

/-- Every symbol from a dot on is one that the grammar knows. -/
theorem knows_of_mem_rest (h : g.WellFormed) {symbol : Symbol} (hmem : symbol ∈ g.rest i dot) :
    g.Knows symbol := by
  obtain ⟨p, hp, hin⟩ := mem_of_mem_rest hmem
  exact h.knows hp hin

/-! ## What a transition reads -/

/-- A transition directly reads the terminals after the dots of the state it leads to; on the start
symbol in state 0 it also reads the end of input. -/
theorem mem_directReads_iff (h : g.Ready) :
    v ∈ directReads g s t ↔ ∃ symbol, g.terminalIndex? symbol = some v ∧
      ((∃ j, s.goto? t.state (.nonterminal t.name) = some j ∧ symbol.isTerminal = true ∧
        AfterDot g s j symbol) ∨
        symbol = .endOfInput ∧ t.state = 0 ∧ g.start = some t.name) := by
  rw [directReads]
  simp only [Ascending.mem_ofList, List.mem_append, List.mem_filterMap, targetItems]
  constructor
  · rintro (⟨id, hid, hread⟩ | hend)
    · obtain ⟨symbol, hfilter, hindex⟩ := Option.bind_eq_some_iff.mp hread
      obtain ⟨hat, hterminal⟩ := Option.filter_eq_some_iff.mp hfilter
      refine ⟨symbol, hindex, Or.inl ?_⟩
      cases hgoto : s.goto? t.state (.nonterminal t.name) with
      | none => simp [hgoto] at hid
      | some j =>
          rw [hgoto] at hid
          exact ⟨j, rfl, hterminal, holds_of_atDot? h hid hat⟩
    · split at hend
      · rename_i hstart
        rw [Bool.and_eq_true, beq_iff_eq, beq_iff_eq] at hstart
        exact ⟨_, Option.mem_toList.mp hend, Or.inr ⟨rfl, hstart⟩⟩
      · exact absurd hend List.not_mem_nil
  · rintro ⟨symbol, hindex, ⟨j, hgoto, hterminal, i, dot, ⟨id, hid, hitem⟩, hsymbol⟩ |
      ⟨rfl, hzero, hstart⟩⟩
    · refine Or.inl ⟨id, ?_, ?_⟩
      · rw [hgoto]
        exact hid
      · rw [h.atDot?_eq hitem, hsymbol]
        simp [Option.filter, hterminal, hindex]
    · refine Or.inr ?_
      rw [if_pos (by rw [hzero, hstart]; simp), hindex]
      exact List.mem_singleton_self v

/-- A transition reads on through the vanishing nonterminals after the dots of the state it leads
to. -/
theorem mem_reads_iff (h : g.Ready) :
    k ∈ reads g s all names t ↔ ∃ j name, s.goto? t.state (.nonterminal t.name) = some j ∧
      AfterDot g s j (.nonterminal name) ∧ name ∈ names ∧ all.idxOf? ⟨j, name⟩ = some k := by
  rw [reads]
  constructor
  · intro hk
    split at hk
    · exact absurd hk List.not_mem_nil
    · rename_i j hgoto
      obtain ⟨id, hid, hread⟩ := List.mem_filterMap.mp hk
      split at hread
      · rename_i name hat
        split at hread
        · rename_i hname
          exact ⟨j, name, hgoto, holds_of_atDot? h hid hat, hname, hread⟩
        · cases hread
      · cases hread
  · rintro ⟨j, name, hgoto, ⟨i, dot, ⟨id, hid, hitem⟩, hsymbol⟩, hname, hk⟩
    rw [hgoto]
    refine List.mem_filterMap.mpr ⟨id, hid, ?_⟩
    rw [h.atDot?_eq hitem, hsymbol]
    exact (if_pos hname).trans hk

/-! ## Where reductions look back -/

/-- The transition that is passed at a symbol, if the rest vanishes. -/
def passed (all : List Transition) (names : List String) (q : Nat) (symbol : Symbol)
    (rest : List Symbol) : Option Nat :=
  match symbol with
  | .nonterminal name => if allAmong names rest then all.idxOf? ⟨q, name⟩ else none
  | _ => none

theorem passed_eq_some_iff {symbol : Symbol} :
    passed all names q symbol xs = some k ↔ ∃ name, symbol = .nonterminal name ∧
      allAmong names xs = true ∧ all.idxOf? ⟨q, name⟩ = some k := by
  cases symbol with
  | nonterminal name => by_cases hall : allAmong names xs = true <;> simp [passed, hall]
  | token name => simp [passed]
  | literal c => simp [passed]

theorem follow_cons {symbol : Symbol} :
    follow s all names q (symbol :: xs) =
      match s.goto? q symbol with
      | none => ((passed all names q symbol xs).toList, none)
      | some next =>
          ((passed all names q symbol xs).toList ++ (follow s all names next xs).1,
            (follow s all names next xs).2) := by
  cases symbol <;> rfl

/-- Following a right side ends where reading it ends. -/
theorem follow_final : (follow s all names q xs).2 = s.path? q xs := by
  induction xs generalizing q with
  | nil => rfl
  | cons symbol rest ih =>
      rw [follow_cons, States.path?_cons]
      cases s.goto? q symbol with
      | none => rfl
      | some next => exact ih

/-- Following a right side passes the transitions on nonterminals behind which the rest vanishes. -/
theorem mem_follow_iff :
    k ∈ (follow s all names q xs).1 ↔ ∃ front symbol rest r, xs = front ++ symbol :: rest ∧
      s.path? q front = some r ∧ passed all names r symbol rest = some k := by
  induction xs generalizing q with
  | nil => simp [follow]
  | cons symbol rest ih =>
      -- the first symbol is the one that is passed, or stands before it
      have hsplit : (∃ front symbol' rest' r, symbol :: rest = front ++ symbol' :: rest' ∧
          s.path? q front = some r ∧ passed all names r symbol' rest' = some k) ↔
          passed all names q symbol rest = some k ∨
          ∃ next, s.goto? q symbol = some next ∧ ∃ front symbol' rest' r,
            rest = front ++ symbol' :: rest' ∧ s.path? next front = some r ∧
            passed all names r symbol' rest' = some k := by
        constructor
        · rintro ⟨front, symbol', rest', r, heq, hpath, hk⟩
          cases front with
          | nil =>
              cases heq
              cases hpath
              exact Or.inl hk
          | cons first front =>
              cases heq
              rw [States.path?_cons] at hpath
              obtain ⟨next, hgoto, hpath⟩ := Option.bind_eq_some_iff.mp hpath
              exact Or.inr ⟨next, hgoto, front, symbol', rest', r, rfl, hpath, hk⟩
        · rintro (hk | ⟨next, hgoto, front, symbol', rest', r, rfl, hpath, hk⟩)
          · exact ⟨[], symbol, rest, q, rfl, rfl, hk⟩
          · refine ⟨symbol :: front, symbol', rest', r, rfl, ?_, hk⟩
            rw [States.path?_cons, hgoto]
            exact hpath
      rw [hsplit, follow_cons]
      cases s.goto? q symbol with
      | none => simp
      | some next =>
          simp only [List.mem_append, Option.mem_toList, Option.some.injEq, exists_eq_left']
          exact or_congr_right ih

/-- The productions of a transition are those of its name whose first item its state holds. -/
theorem mem_productionsFrom_iff :
    p ∈ productionsFrom g s t ↔ ∃ i, g.production? i = some p ∧
      g.Holds (s.itemsOf t.state) i 0 ∧ p.name = t.name := by
  rw [productionsFrom, List.mem_filterMap]
  constructor
  · rintro ⟨id, hid, hfound⟩
    split at hfound
    · cases hfound
    · rename_i item hitem
      obtain ⟨hp, hchecks⟩ := Option.filter_eq_some_iff.mp hfound
      rw [Bool.and_eq_true, beq_iff_eq, beq_iff_eq] at hchecks
      exact ⟨item.prod, hp, ⟨id, hid, item, hitem, rfl, hchecks.1⟩, hchecks.2⟩
  · rintro ⟨i, hp, ⟨id, hid, item, hitem, rfl, hdot⟩, hname⟩
    refine ⟨id, hid, ?_⟩
    rw [hitem]
    exact Option.filter_eq_some_iff.mpr ⟨hp, by simp [hdot, hname]⟩

/-- A reduction looks back to the transitions on its name from the states in which its right side
was begun. -/
theorem mem_lookback_iff (h : g.Ready) :
    (r, i) ∈ lookback g s all names t ↔ ∃ p, g.production? i = some p ∧
      g.Holds (s.itemsOf t.state) i 0 ∧ p.name = t.name ∧
      s.path? t.state p.symbols = some r := by
  rw [lookback, List.mem_filterMap]
  constructor
  · rintro ⟨p, hp, hfinal⟩
    rw [follow_final] at hfinal
    obtain ⟨state, hpath, hpair⟩ := Option.map_eq_some_iff.mp hfinal
    cases hpair
    obtain ⟨i, hi, hitem, hname⟩ := mem_productionsFrom_iff.mp hp
    rw [h.wellFormed.index hi]
    exact ⟨p, hi, hitem, hname, hpath⟩
  · rintro ⟨p, hp, hitem, hname, hpath⟩
    refine ⟨p, mem_productionsFrom_iff.mpr ⟨i, hp, hitem, hname⟩, ?_⟩
    rw [follow_final, hpath, Option.map_some, h.wellFormed.index hp]

/-- A transition is included in that of a left side if it stands there before what vanishes. -/
theorem mem_includedIn_iff :
    k ∈ includedIn g s all names t ↔ ∃ i p front name rest r, g.production? i = some p ∧
      g.Holds (s.itemsOf t.state) i 0 ∧ p.name = t.name ∧
      p.symbols = front ++ .nonterminal name :: rest ∧ allAmong names rest = true ∧
      s.path? t.state front = some r ∧ all.idxOf? ⟨r, name⟩ = some k := by
  rw [includedIn, List.mem_flatMap]
  constructor
  · rintro ⟨p, hp, hk⟩
    obtain ⟨i, hi, hitem, hname⟩ := mem_productionsFrom_iff.mp hp
    obtain ⟨front, _, rest, r, hsymbols, hpath, hpassed⟩ := mem_follow_iff.mp hk
    obtain ⟨name, rfl, hall, hindex⟩ := passed_eq_some_iff.mp hpassed
    exact ⟨i, p, front, name, rest, r, hi, hitem, hname, hsymbols, hall, hpath, hindex⟩
  · rintro ⟨i, p, front, name, rest, r, hi, hitem, hname, hsymbols, hall, hpath, hindex⟩
    exact ⟨p, mem_productionsFrom_iff.mpr ⟨i, hi, hitem, hname⟩, mem_follow_iff.mpr
      ⟨front, _, rest, r, hsymbols, hpath, passed_eq_some_iff.mpr ⟨name, rfl, hall, hindex⟩⟩⟩

theorem length_includes : (includes g s all names).length = all.length := by
  simp [includes]

/-- The includes of a transition are the transitions it is included in. -/
theorem mem_includes_iff (hj : j < all.length) :
    i ∈ (includes g s all names)[j]?.getD [] ↔
      ∃ t, all[i]? = some t ∧ j ∈ includedIn g s all names t := by
  have hget : (includes g s all names)[j]?.getD [] = Ordered.ofList
      (((all.mapIdx fun i t =>
        (includedIn g s all names t).map fun j => (j, i)).flatten).filterMap fun edge =>
        if edge.1 = j then some edge.2 else none) := by
    simp [includes, hj]
  rw [hget, Ordered.mem_ofList, List.mem_filterMap]
  constructor
  · rintro ⟨⟨j', i'⟩, hedge, hsame⟩
    obtain ⟨row, hrow, hin⟩ := List.mem_flatten.mp hedge
    obtain ⟨n, hn, rfl⟩ := List.mem_mapIdx.mp hrow
    obtain ⟨m, hm, hpair⟩ := List.mem_map.mp hin
    cases hpair
    split at hsame
    · rename_i heq
      cases heq
      cases hsame
      exact ⟨_, List.getElem?_eq_getElem hn, hm⟩
    · cases hsame
  · rintro ⟨t, ht, hin⟩
    obtain ⟨hlt, rfl⟩ := List.getElem?_eq_some_iff.mp ht
    refine ⟨(j, i), List.mem_flatten.mpr ⟨_, List.mem_mapIdx.mpr ⟨i, hlt, rfl⟩, ?_⟩, if_pos rfl⟩
    exact List.mem_map.mpr ⟨j, hin, rfl⟩

end ShiftReduce.Lookahead
