import ShiftReduce.Proofs.Grammar.FirstExact
import ShiftReduce.Proofs.Lookahead.Relations

/-!
# What transitions read

A transition on a nonterminal reads what can come right behind the nonterminal: the terminals that
begin what stands behind it in the items of the state, and the end of input behind the start symbol.
One side follows transitions through vanishing nonterminals and merges cycles of them, the other
speaks of derivations, so also of FIRST sets. `mem_read_iff` says it for a string that leads to the
state, `read_iff_first` for the state itself; the latter is to be read first.
-/

namespace ShiftReduce

variable {α : Type} {g : Grammar α} {s : States} {q j k r v x y dot i : Nat} {name : String}
  {t : Transition} {γ η : List Symbol} {symbol : Symbol}

namespace Grammar

/-- What can come right behind a nonterminal that is expected after a string: a terminal that begins
what stands behind it in a valid item, or the end of input behind the start symbol. -/
def Readable (g : Grammar α) (γ : List Symbol) (name : String) (symbol : Symbol) : Prop :=
  (∃ i dot, g.Viable γ i dot ∧ g.symbolAt i dot = some (.nonterminal name) ∧
    g.BeginsWith (g.rest i (dot + 1)) symbol) ∨
  symbol = .endOfInput ∧ γ = [] ∧ g.start = some name

end Grammar

namespace Lookahead

open Grammar Automaton ShiftReduce.Digraph

/-! ## The relations by number -/

theorem edge_reads_iff : Edge (Relations.of g s).reads x y ↔ ∃ t, (transitions g s)[x]? = some t ∧
    y ∈ reads g s (transitions g s) (nullable g) t := by
  rw [Edge, Relations.of]
  simp only [List.getElem?_map]
  cases (transitions g s)[x]? <;> simp

theorem mem_directReads_at_iff : v ∈ (Relations.of g s).directReads[x]?.getD [] ↔
    ∃ t, (transitions g s)[x]? = some t ∧ v ∈ directReads g s t := by
  rw [Relations.of]
  simp only [List.getElem?_map]
  cases (transitions g s)[x]? <;> simp

/-- Numbers of transitions lie within their list. -/
theorem lt_of_idxOf? (hk : (transitions g s).idxOf? t = some k) : k < (transitions g s).length :=
  (List.getElem?_eq_some_iff.mp (getElem?_of_idxOf? hk)).1

theorem bounded_reads (h : g.Ready) :
    Bounded (Relations.of g s).reads (Relations.of g s).directReads := by
  intro x y hedge
  obtain ⟨t, ht, hy⟩ := edge_reads_iff.mp hedge
  obtain ⟨_, _, _, _, _, hindex⟩ := (mem_reads_iff h).mp hy
  have hlength : (Relations.of g s).directReads.length = (transitions g s).length :=
    List.length_map _
  rw [hlength]
  exact ⟨(List.getElem?_eq_some_iff.mp ht).1, lt_of_idxOf? hindex⟩

theorem length_read (h : g.Ready) :
    (Relations.of g s).read.length = (transitions g s).length :=
  (length_closeSets (bounded_reads h)).trans (List.length_map _)

/-! ## Soundness -/

/-- A terminal after a dot of the state at the end of a string is readable behind each nonterminal
in the string if only vanishing symbols stand between. -/
theorem readable_of_afterDot (h : g.Ready) (hs : Collected g s)
    (hpath : s.path? 0 (γ ++ .nonterminal name :: η) = some j) (hη : g.Vanishing η)
    (hterminal : symbol.isTerminal = true) (hafter : AfterDot g s j symbol) :
    g.Readable γ name symbol := by
  obtain ⟨i, dot, hitem, hsymbol⟩ := hafter
  have hviable := viable_of_holds h hs hpath hitem
  obtain ⟨k, d, tail, hk, hname, hderives⟩ := hviable.origin h.wellFormed
  refine Or.inl ⟨k, d, hk, hname, hterminal, g.rest i (dot + 1) ++ tail, hderives.trans ?_⟩
  have hgone := (vanishing_iff.mp hη).context [] (g.rest i dot ++ tail)
  rw [rest_of_symbolAt hsymbol] at hgone ⊢
  simpa using hgone

/-- A number that is readable behind each nonterminal of a string that ends with a transition if
only vanishing symbols stand between. -/
def ReadableFrom (g : Grammar α) (s : States) (k v : Nat) : Prop :=
  ∀ {t : Transition} {front γ η : List Symbol} {name : String}, (transitions g s)[k]? = some t →
    s.path? 0 front = some t.state →
    front ++ [.nonterminal t.name] = γ ++ .nonterminal name :: η → g.Vanishing η →
    ∃ symbol, g.terminalIndex? symbol = some v ∧ g.Readable γ name symbol

theorem readableFrom_of_directReads (h : g.Ready) (hs : Collected g s)
    (hdirect : v ∈ (Relations.of g s).directReads[k]?.getD []) : ReadableFrom g s k v := by
  intro t front γ η name ht hfront hsplit hη
  obtain ⟨_, ht', hread⟩ := mem_directReads_at_iff.mp hdirect
  cases ht.symm.trans ht'
  obtain ⟨symbol, hindex, ⟨j, hgoto, hterminal, hafter⟩ | ⟨rfl, hzero, hstart⟩⟩ :=
    (mem_directReads_iff h).mp hread
  · have hpath : s.path? 0 (γ ++ .nonterminal name :: η) = some j := by
      rw [← hsplit, States.path?_concat hfront, hgoto]
    exact ⟨symbol, hindex, readable_of_afterDot h hs hpath hη hterminal hafter⟩
  · -- the end of input is read in state 0 only, at the end of the empty string
    rw [hzero] at hfront
    have hnil : front = [] :=
      States.path?_eq_zero (fun p symbol hgoto => hs.ne_zero_of_goto? h hgoto rfl) hfront
    subst hnil
    rw [List.nil_append] at hsplit
    cases γ with
    | cons first rest => simp at hsplit
    | nil =>
        cases hsplit
        exact ⟨_, hindex, Or.inr ⟨rfl, rfl, hstart⟩⟩

/-- Along an edge the string grows by a nonterminal that vanishes. -/
theorem readableFrom_of_reads (h : g.Ready) (hedge : Edge (Relations.of g s).reads k r)
    (hnext : ReadableFrom g s r v) : ReadableFrom g s k v := by
  intro t front γ η name ht hfront hsplit hη
  obtain ⟨_, ht', hread⟩ := edge_reads_iff.mp hedge
  cases ht.symm.trans ht'
  obtain ⟨j, next, hgoto, ⟨i, dot, hitem, hsymbol⟩, hnullable, hindex⟩ :=
    (mem_reads_iff h).mp hread
  have hvanishing : g.Vanishing [.nonterminal next] :=
    (mem_nullable_iff_vanishing h.wellFormed (knows_of_symbolAt h.wellFormed hsymbol)).mp hnullable
  have hpath : s.path? 0 (front ++ [.nonterminal t.name]) = some j := by
    rw [States.path?_concat hfront, hgoto]
  refine hnext (η := η ++ [.nonterminal next]) (getElem?_of_idxOf? hindex) hpath ?_
    (vanishing_append.mpr ⟨hη, hvanishing⟩)
  rw [hsplit]
  simp

/-! ## Completeness -/

/-- What can be read in a state: a terminal after a dot, or what a transition on a vanishing
nonterminal after a dot reads. -/
def ReadAt (g : Grammar α) (s : States) (j v : Nat) : Prop :=
  (∃ symbol, AfterDot g s j symbol ∧ symbol.isTerminal = true ∧
    g.terminalIndex? symbol = some v) ∨
  ∃ name k, AfterDot g s j (.nonterminal name) ∧ name ∈ nullable g ∧
    (transitions g s).idxOf? ⟨j, name⟩ = some k ∧ v ∈ (Relations.of g s).read[k]?.getD []

/-- A transition reads what can be read in the state it leads to. -/
theorem ReadAt.mem_read (h : g.Ready) (ht : (transitions g s)[k]? = some t)
    (hgoto : s.goto? t.state (.nonterminal t.name) = some j) (hread : ReadAt g s j v) :
    v ∈ (Relations.of g s).read[k]?.getD [] := by
  rcases hread with ⟨symbol, hafter, hterminal, hindex⟩ | ⟨name, k', hafter, hnullable, hk', hv⟩
  · refine mem_closeSets_of_initial (bounded_reads h) (mem_directReads_at_iff.mpr ⟨t, ht, ?_⟩)
    exact (mem_directReads_iff h).mpr ⟨symbol, hindex, Or.inl ⟨j, hgoto, hterminal, hafter⟩⟩
  · refine mem_closeSets_of_edge (bounded_reads h) (edge_reads_iff.mpr ⟨t, ht, ?_⟩) hv
    exact (mem_reads_iff h).mpr ⟨j, name, hgoto, hafter, hnullable, hk'⟩

/-- The nonterminal after a dot has a transition, which has a number. -/
theorem exists_transition (h : g.Ready) (hafter : AfterDot g s q (.nonterminal name)) :
    ∃ k, (transitions g s).idxOf? ⟨q, name⟩ = some k :=
  exists_idxOf? ((mem_transitions_iff h).mpr hafter)

/-- The terminals that begin what comes behind the dot of a valid item can be read in the state. -/
theorem readAt_of_starting (h : g.Ready) (hs : Collected g s) {xs : List Symbol}
    (hstarting : g.Starting xs symbol) (hxs : g.rest i dot = xs) (hitem : g.Viable γ i dot)
    (hpath : s.path? 0 γ = some q) (hindex : g.terminalIndex? symbol = some v) :
    ReadAt g s q v := by
  induction hstarting generalizing γ i dot q with
  | terminal hterminal =>
      have hheld := (holds_iff_viable h hs hpath).mpr hitem
      exact Or.inl ⟨_, ⟨i, dot, hheld, (symbolAt_of_rest hxs).1⟩, hterminal, hindex⟩
  | @inside k p rest t hp _ ih =>
      obtain ⟨hsymbol, _⟩ := symbolAt_of_rest hxs
      have hne := ne_zero_of_knows h.wellFormed hp (knows_of_symbolAt h.wellFormed hsymbol)
      have hrule : k ∈ g.ruleIndices p.name := h.wellFormed.rules.mpr ⟨hne, p, hp, rfl⟩
      refine ih ?_ (.expand hitem hsymbol hrule) hpath hindex
      rw [rest_of_production? hp, List.drop_zero]
  | @past first rest t hvanishing _ ih =>
      obtain ⟨hsymbol, hrest⟩ := symbolAt_of_rest hxs
      cases hvanishing with
      | cons hp hsymbols hnil =>
          rename_i k p
          have hnullable : p.name ∈ nullable g :=
            (mem_nullable_iff_vanishing h.wellFormed
              (knows_of_symbolAt h.wellFormed hsymbol)).mpr (.cons hp hsymbols .nil)
          -- behind the vanishing nonterminal it can be read, so the transition on it reads it
          have hheld := (holds_iff_viable h hs hpath).mpr hitem
          obtain ⟨j, hgoto, _⟩ := hs.exists_goto? h hheld hsymbol
          have hnext : s.path? 0 (γ ++ [.nonterminal p.name]) = some j := by
            rw [States.path?_concat hpath, hgoto]
          have hread := ih hrest (.read hitem hsymbol) hnext hindex
          obtain ⟨k', hk'⟩ := exists_transition h ⟨i, dot, hheld, hsymbol⟩
          refine Or.inr ⟨p.name, k', ⟨i, dot, hheld, hsymbol⟩, hnullable, hk', ?_⟩
          exact hread.mem_read h (getElem?_of_idxOf? hk') hgoto

/-! ## The sets -/

/-- After a string that leads to its state, a transition reads what is readable behind its
nonterminal. -/
theorem mem_read_iff (h : g.Ready) (hs : Collected g s) (ht : (transitions g s)[k]? = some t)
    (hpath : s.path? 0 γ = some t.state) : v ∈ (Relations.of g s).read[k]?.getD [] ↔
      ∃ symbol, g.terminalIndex? symbol = some v ∧ g.Readable γ t.name symbol := by
  constructor
  · intro hv
    have hfrom : ReadableFrom g s k v :=
      closeSets_induction (bounded_reads h) (P := ReadableFrom g s)
        (fun _ _ hdirect => readableFrom_of_directReads h hs hdirect)
        (fun _ _ _ hedge hnext => readableFrom_of_reads h hedge hnext) hv
    exact hfrom ht hpath rfl .nil
  · rintro ⟨symbol, hindex, ⟨i, dot, hitem, hname, hbegins⟩ | ⟨rfl, rfl, hstart⟩⟩
    · have hheld := (holds_iff_viable h hs hpath).mpr hitem
      obtain ⟨j, hgoto, _⟩ := hs.exists_goto? h hheld hname
      have hnext : s.path? 0 (γ ++ [.nonterminal t.name]) = some j := by
        rw [States.path?_concat hpath, hgoto]
      have hread : ReadAt g s j v :=
        readAt_of_starting h hs (starting_iff.mpr hbegins) rfl (.read hitem hname) hnext hindex
      exact hread.mem_read h ht hgoto
    · have hzero : t.state = 0 := (Option.some.inj hpath).symm
      refine mem_closeSets_of_initial (bounded_reads h) (mem_directReads_at_iff.mpr ⟨t, ht, ?_⟩)
      exact (mem_directReads_iff h).mpr ⟨_, hindex, Or.inr ⟨rfl, hzero, hstart⟩⟩

/-- What can come behind a nonterminal after a string, by the items of the state at its end. -/
theorem readable_iff (h : g.Ready) (hs : Collected g s) (hpath : s.path? 0 γ = some q) :
    g.Readable γ name symbol ↔
      (∃ i dot, g.Holds (s.itemsOf q) i dot ∧ g.symbolAt i dot = some (.nonterminal name) ∧
        g.BeginsWith (g.rest i (dot + 1)) symbol) ∨
      symbol = .endOfInput ∧ q = 0 ∧ g.start = some name := by
  have hnil : γ = [] ↔ q = 0 := by
    constructor
    · rintro rfl
      exact (Option.some.inj hpath).symm
    · rintro rfl
      exact States.path?_eq_zero (fun p symbol hgoto => hs.ne_zero_of_goto? h hgoto rfl) hpath
  simp only [Readable, hnil, holds_iff_viable h hs hpath]

/-- A transition reads what can come right behind its nonterminal in the items of its state, and the
end of input if it is on the start symbol in state 0. -/
theorem mem_read_iff_holds (h : g.Ready) (hs : Collected g s)
    (ht : (transitions g s)[k]? = some t) : v ∈ (Relations.of g s).read[k]?.getD [] ↔
      (∃ i dot symbol, g.Holds (s.itemsOf t.state) i dot ∧
        g.symbolAt i dot = some (.nonterminal t.name) ∧
        g.BeginsWith (g.rest i (dot + 1)) symbol ∧ g.terminalIndex? symbol = some v) ∨
      t.state = 0 ∧ g.start = some t.name ∧ g.terminalIndex? .endOfInput = some v := by
  obtain ⟨_, _, hheld, _⟩ := (mem_transitions_iff h).mp (List.mem_of_getElem? ht)
  obtain ⟨γ, hpath⟩ := hs.exists_path? (Collected.lt_of_holds hheld)
  rw [mem_read_iff h hs ht hpath]
  simp only [readable_iff h hs hpath]
  constructor
  · rintro ⟨symbol, hindex, ⟨i, dot, hitem, hname, hbegins⟩ | ⟨rfl, hzero, hstart⟩⟩
    · exact Or.inl ⟨i, dot, symbol, hitem, hname, hbegins, hindex⟩
    · exact Or.inr ⟨hzero, hstart, hindex⟩
  · rintro (⟨i, dot, symbol, hitem, hname, hbegins, hindex⟩ | ⟨hzero, hstart, hindex⟩)
    · exact ⟨symbol, hindex, Or.inl ⟨i, dot, hitem, hname, hbegins⟩⟩
    · exact ⟨_, hindex, Or.inr ⟨rfl, hzero, hstart⟩⟩

/-- In a grammar whose nonterminals all have productions, the read set of every transition on a
nonterminal has just the numbers of the terminals in FIRST of what stands behind the nonterminal in
an item of the state; on the start symbol in state 0 it also has that of the end of input. -/
theorem read_iff_first (hmade : g.Made) (hitems : g.items ≠ [])
    (hdefined : ∀ i p name, g.production? i = some p → .nonterminal name ∈ p.symbols →
      g.ruleIndices name ≠ []) :
    (∃ first, g.computeFirst.1 = .ok first) ∧
    ∀ q name r, (states g).goto? q (.nonterminal name) = some r →
      (∃ k : Nat, (Relations.of g (states g)).transitions[k]? = some ⟨q, name⟩) ∧
      ∀ k : Nat, (Relations.of g (states g)).transitions[k]? = some ⟨q, name⟩ →
        ∃ set, (Relations.of g (states g)).read[k]? = some set ∧ ∀ v, v ∈ set ↔
          (∃ i dot symbol, g.Holds ((states g).itemsOf q) i dot ∧
            g.symbolAt i dot = some (.nonterminal name) ∧
            symbol ∈ (g.computeFirst.2.firstOf (g.rest i (dot + 1))).terminals ∧
            g.terminalIndex? symbol = some v) ∨
          q = 0 ∧ g.start = some name ∧ g.terminalIndex? .endOfInput = some v := by
  have h := hmade.ready hitems
  have hs := h.collection
  have hcomputed := hmade.computeFirst_of_defined hdefined
  have hfirst : ∀ i dot symbol,
      symbol ∈ (g.computeFirst.2.firstOf (g.rest i dot)).terminals ↔
        g.BeginsWith (g.rest i dot) symbol := by
    intro i dot symbol
    rw [hcomputed]
    exact mem_ofSequence_iff h.wellFormed fun s hmem => knows_of_mem_rest h.wellFormed hmem
  refine ⟨⟨_, congrArg Prod.fst hcomputed⟩, fun q name r hgoto => ⟨?_, fun k hk => ?_⟩⟩
  · obtain ⟨i, dot, hheld, hsymbol⟩ := hs.exists_holds_of_goto? h hgoto
    obtain ⟨k, hk⟩ := exists_transition h ⟨i, dot, hheld, hsymbol⟩
    exact ⟨k, getElem?_of_idxOf? hk⟩
  · have hlt : k < (Relations.of g (states g)).read.length := by
      rw [length_read h]
      exact (List.getElem?_eq_some_iff.mp hk).1
    refine ⟨_, List.getElem?_eq_getElem hlt, fun v => ?_⟩
    have hread := mem_read_iff_holds h hs hk (v := v)
    rw [List.getElem?_eq_getElem hlt, Option.getD_some] at hread
    simp only [hread, hfirst]

/-- In nested parentheses, behind the items of a list another list may begin. -/
theorem read_iff_first_parentheses :
    (parentheses (none : Option Unit)).buildItems.Made ∧
      (parentheses (none : Option Unit)).buildItems.items ≠ [] ∧
      (∀ i p name, (parentheses (none : Option Unit)).buildItems.production? i = some p →
        .nonterminal name ∈ p.symbols →
        (parentheses (none : Option Unit)).buildItems.ruleIndices name ≠ []) ∧
      (states (parentheses (none : Option Unit)).buildItems).goto? 2 (.nonterminal "items") =
        some 3 ∧
      ∃ i dot symbol, (parentheses (none : Option Unit)).buildItems.Holds
          ((states (parentheses (none : Option Unit)).buildItems).itemsOf 2) i dot ∧
        (parentheses (none : Option Unit)).buildItems.symbolAt i dot =
          some (.nonterminal "items") ∧
        symbol ∈ ((parentheses (none : Option Unit)).buildItems.computeFirst.2.firstOf
          ((parentheses (none : Option Unit)).buildItems.rest i (dot + 1))).terminals ∧
        (parentheses (none : Option Unit)).buildItems.terminalIndex? symbol = some 3 := by
  have hmade : (parentheses (none : Option Unit)).buildItems.Made :=
    .buildItems (made_parentheses none)
  have hitems : (parentheses (none : Option Unit)).buildItems.items ≠ [] := by decide
  have hdefined : ∀ i p name, (parentheses (none : Option Unit)).buildItems.production? i = some p →
      .nonterminal name ∈ p.symbols →
      (parentheses (none : Option Unit)).buildItems.ruleIndices name ≠ [] := by
    have hall : ∀ p ∈ (parentheses (none : Option Unit)).buildItems.productions,
        ∀ name ∈ p.symbols.filterMap Symbol.nonterminalName?,
        (parentheses (none : Option Unit)).buildItems.ruleIndices name ≠ [] := by
      decide
    intro i p name hp hmem
    exact hall p (List.mem_of_getElem? hp) name (List.mem_filterMap.mpr ⟨_, hmem, rfl⟩)
  have hgoto : (states (parentheses (none : Option Unit)).buildItems).goto? 2
      (.nonterminal "items") = some 3 := by decide
  have hread : (Relations.of (parentheses (none : Option Unit)).buildItems
      (states (parentheses (none : Option Unit)).buildItems)).read[1]? = some [2, 3] := by
    decide
  refine ⟨hmade, hitems, hdefined, hgoto, ?_⟩
  obtain ⟨_, hall⟩ := read_iff_first hmade hitems hdefined
  obtain ⟨set, hset, hmem⟩ := (hall 2 "items" 3 hgoto).2 1 (by decide)
  cases hread.symm.trans hset
  exact ((hmem 3).mp (by decide)).resolve_right (fun ⟨hzero, _⟩ => by cases hzero)

end Lookahead

end ShiftReduce
