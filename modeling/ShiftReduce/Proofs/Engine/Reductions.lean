import Mathlib.Order.WellFoundedSet
import ShiftReduce.Proofs.Engine.Completeness

/-!
# Chains of reductions

Before a fixed terminal a table reduces a string of symbols again and again, as long as the state
at its end says so. With a table that has no conflicts, every such chain ends if the lookaheads are
kept apart. A reduction that digs below the end of a string shortens it, or else replaces its last
symbol by a symbol that derives it; what happens above can be seen after any other string that leads
to the same state, in particular after one where the lookahead is really expected. Read `settles`
first.
-/

namespace ShiftReduce

open Grammar Relation

variable {V C : Type} {m : Machine V C} {t X : Symbol} {γ γ' δ ξ ω : List Symbol} {i k q dot : Nat}
  {name : String} {p : Production (Reduction V C)}

namespace Machine

/-- One reduction before a terminal: the right side at the end of a string is replaced by its left
side. -/
def Reduces (m : Machine V C) (t : Symbol) (γ γ' : List Symbol) : Prop :=
  ∃ δ i p q, γ = δ ++ p.symbols ∧ γ' = δ ++ [.nonterminal p.name] ∧
    m.grammar.production? i = some p ∧ (Automaton.states m.grammar).path? 0 γ = some q ∧
    m.table.actionOn q t = some (.reduce i)

/-- No endless chain of reductions begins with a string. -/
def Settles (m : Machine V C) (t : Symbol) (γ : List Symbol) : Prop :=
  Acc (fun γ' γ => m.Reduces t γ γ') γ

/-! ## One chain for each string -/

/-- A string is reduced in one way at most. -/
theorem Reduces.unique {γ'' : List Symbol} (h : m.Reduces t γ γ') (h' : m.Reduces t γ γ'') :
    γ' = γ'' := by
  obtain ⟨δ, i, p, q, hγ, rfl, hp, hpath, haction⟩ := h
  obtain ⟨δ', i', p', q', hγ', rfl, hp', hpath', haction'⟩ := h'
  cases hpath.symm.trans hpath'
  cases haction.symm.trans haction'
  cases hp.symm.trans hp'
  rw [List.append_cancel_right (hγ.symm.trans hγ')]

/-- A string is settled when what it is reduced to is. -/
theorem Settles.of_reduces (h : m.Reduces t γ γ') (hsettles : m.Settles t γ') :
    m.Settles t γ :=
  .intro γ fun _ hother => h.unique hother ▸ hsettles

theorem Settles.of_chain (h : ReflTransGen (m.Reduces t) γ γ') (hsettles : m.Settles t γ') :
    m.Settles t γ := by
  induction h using ReflTransGen.head_induction_on with
  | refl => exact hsettles
  | head hstep _ ih => exact .of_reduces hstep ih

/-- Where the action is no reduction, the chain is at its end. -/
theorem settles_of_actionOn {action : Action}
    (hpath : (Automaton.states m.grammar).path? 0 γ = some q)
    (haction : m.table.actionOn q t = some action) (hother : ∀ i, action ≠ .reduce i) :
    m.Settles t γ := by
  refine .intro γ fun γ' h => ?_
  obtain ⟨_, i, _, _, _, _, _, hpath', hreduce⟩ := h
  cases hpath.symm.trans hpath'
  cases haction.symm.trans hreduce
  exact absurd rfl (hother i)

/-- A chain that comes back does not end. -/
theorem Settles.not_cycle (h : m.Settles t γ) : ¬ TransGen (m.Reduces t) γ γ := by
  unfold Settles at h
  induction h with
  | intro γ _ ih =>
      intro hcycle
      obtain ⟨γ', hstep, hback⟩ := TransGen.head'_iff.mp hcycle
      exact ih γ' hstep (TransGen.tail' hback hstep)

/-! ## Where the lookahead is expected -/

section Expected

variable {method : Method} (h : m.Plain method)

include h

/-- Behind the whole right side of a production that is expected before a terminal, the production
is reduced. -/
theorem reduces_of_expects (hp : m.grammar.production? i = some p) (hi : i ≠ 0)
    (hexpects : m.grammar.Expects δ i 0 t) :
    m.Reduces t (δ ++ p.symbols) (δ ++ [.nonterminal p.name]) := by
  have hready := h.built.ready
  have hcomplete := hexpects.along hp (Nat.le_refl _)
  rw [seen_length hp] at hcomplete
  obtain ⟨q, hpath, _⟩ := hcomplete.viable.exists_path? hready h.built.collected
  exact ⟨δ, i, p, q, rfl, rfl, hp, hpath, h.clear.actionOn_of_expects hp hi hpath hcomplete⟩

omit h in
/-- What may come behind the nonterminal after a dot, after symbols that vanish. -/
theorem expects_of_rest (hitem : m.grammar.Viable γ i dot)
    (hrest : m.grammar.rest i dot = .nonterminal name :: (ξ ++ ω)) (hξ : m.grammar.Vanishing ξ)
    (hahead : m.grammar.Starting ω t ∨ m.grammar.Vanishing ω ∧ m.grammar.Expects γ i dot t)
    (hk : k ∈ m.grammar.ruleIndices name) : m.grammar.Expects γ k 0 t := by
  obtain ⟨hname, hbehind⟩ := symbolAt_of_rest hrest
  rcases hahead with hstarting | ⟨hω, hexpects⟩
  · refine .generate hitem hname hk (starting_iff.mp ?_)
    rw [hbehind]
    exact starting_append.mpr (Or.inr ⟨hξ, hstarting⟩)
  · refine .pass hexpects hname hk (vanishing_iff.mp ?_)
    rw [hbehind]
    exact vanishing_append.mpr ⟨hξ, hω⟩

/-- Behind a dot the symbols that vanish before the terminal are put on by reductions. -/
theorem chain_of_vanishing (hξ : m.grammar.Vanishing ξ) (hitem : m.grammar.Viable γ i dot)
    (hrest : m.grammar.rest i dot = ξ ++ ω)
    (hahead : m.grammar.Starting ω t ∨ m.grammar.Vanishing ω ∧ m.grammar.Expects γ i dot t) :
    ReflTransGen (m.Reduces t) γ (γ ++ ξ) := by
  induction hξ generalizing γ i dot ω with
  | nil => rw [List.append_nil]
  | @cons k p later hp hsymbols hlater ihsymbols ihlater =>
      have hwell := h.built.ready.wellFormed
      obtain ⟨hname, hbehind⟩ := symbolAt_of_rest hrest
      have hk := ne_zero_of_knows hwell hp (Lookahead.knows_of_symbolAt hwell hname)
      have hexpects := expects_of_rest hitem hrest hlater hahead
        (hwell.rules.mpr ⟨hk, p, hp, rfl⟩)
      -- the right side is put on and reduced, then what comes behind it is put on
      have hinner : ReflTransGen (m.Reduces t) γ (γ ++ p.symbols) := by
        refine ihsymbols (ω := []) hexpects.viable ?_ (Or.inr ⟨.nil, hexpects⟩)
        rw [rest_of_production? hp, List.drop_zero, List.append_nil]
      have houter : ReflTransGen (m.Reduces t) (γ ++ [.nonterminal p.name])
          (γ ++ [.nonterminal p.name] ++ later) := by
        refine ihlater (.read hitem hname) hbehind ?_
        exact hahead.imp_right fun ⟨hω, hat⟩ => ⟨hω, .read hat hname⟩
      rw [List.append_cons]
      exact (hinner.tail (reduces_of_expects h hp hk hexpects)).trans houter

/-- Where the terminal can begin what comes behind a dot, the chain ends before it is read. -/
theorem settles_of_starting (hstarting : m.grammar.Starting ξ t)
    (hitem : m.grammar.Viable γ i dot) (hrest : m.grammar.rest i dot = ξ) : m.Settles t γ := by
  have hready := h.built.ready
  induction hstarting generalizing γ i dot with
  | terminal ht =>
      obtain ⟨hsymbol, _⟩ := symbolAt_of_rest hrest
      obtain ⟨q, hpath, hheld⟩ := hitem.exists_path? hready h.built.collected
      obtain ⟨next, hgoto, _⟩ := h.built.collected.exists_goto? hready hheld hsymbol
      exact settles_of_actionOn hpath (h.clear.actionOn (.shift hheld hsymbol ht hgoto))
        fun i hsame => nomatch hsame
  | @inside k p later t hp _ ih =>
      obtain ⟨hname, _⟩ := symbolAt_of_rest hrest
      have hk := ne_zero_of_knows hready.wellFormed hp
        (Lookahead.knows_of_symbolAt hready.wellFormed hname)
      refine ih (.expand hitem hname (hready.wellFormed.rules.mpr ⟨hk, p, hp, rfl⟩)) ?_
      rw [rest_of_production? hp, List.drop_zero]
  | past hs hstarting ih =>
      obtain ⟨hsymbol, hbehind⟩ := symbolAt_of_rest hrest
      exact .of_chain (chain_of_vanishing h hs hitem hrest (Or.inl hstarting))
        (ih (.read hitem hsymbol) hbehind)

/-- With the start symbol alone the input is accepted at its end, so nothing is reduced. -/
theorem settles_start : m.Settles .endOfInput (m.grammar.rest 0 0) := by
  have hready := h.built.ready
  obtain ⟨start, hstart⟩ := h.built.prepared.start
  have hrest := hready.wellFormed.rest_zero hstart
  obtain ⟨hsymbol, hend⟩ := symbolAt_of_rest hrest
  have hnone : m.grammar.symbolAt 0 1 = none := by
    rw [symbolAt_eq_head?, hend, List.head?_nil]
  obtain ⟨q, hpath, hheld⟩ := (Viable.read .start hsymbol).exists_path? hready h.built.collected
  rw [hrest]
  exact settles_of_actionOn hpath (h.clear.actionOn (.accept hheld hnone))
    fun i hsame => nomatch hsame

/-- With all symbols behind the dot of an item before a terminal that it expects, the chain ends. -/
theorem settles_of_expects (hexpects : m.grammar.Expects γ i dot t) :
    m.Settles t (γ ++ m.grammar.rest i dot) := by
  have hwell := h.built.ready.wellFormed
  induction hexpects with
  | start => exact settles_start h
  | read _ hsymbol ih =>
      rw [rest_of_symbolAt hsymbol] at ih
      rwa [List.append_assoc]
  | @generate γ i dot j name t hat hname hj hbegins =>
      obtain ⟨hne, p, hp, rfl⟩ := hwell.rules.mp hj
      rw [rest_of_production? hp, List.drop_zero]
      refine .of_reduces (reduces_of_expects h hp hne (.generate hat hname hj hbegins)) ?_
      exact settles_of_starting h (starting_iff.mpr hbegins) (.read hat hname) rfl
  | @pass γ i dot j name t hexpects hname hj hvanishes ih =>
      obtain ⟨hne, p, hp, rfl⟩ := hwell.rules.mp hj
      rw [rest_of_production? hp, List.drop_zero]
      refine .of_reduces (reduces_of_expects h hp hne (.pass hexpects hname hj hvanishes)) ?_
      -- what comes behind the nonterminal is put on, and the item has all its symbols
      have hread := Expects.read hexpects hname
      rw [rest_of_symbolAt hname, List.append_cons] at ih
      exact .of_chain (chain_of_vanishing h (vanishing_iff.mpr hvanishes) hread.viable
        (List.append_nil _).symm (Or.inr ⟨.nil, hread⟩)) ih

/-- The chain ends where what comes behind the dot vanishes before a terminal that is expected. -/
theorem settles_of_expects_vanishing (hexpects : m.grammar.Expects γ i dot t)
    (hrest : m.grammar.Vanishing (m.grammar.rest i dot)) : m.Settles t γ :=
  .of_chain (chain_of_vanishing h hrest hexpects.viable (List.append_nil _).symm
    (Or.inr ⟨.nil, hexpects⟩)) (settles_of_expects h hexpects)

end Expected

/-! ## Left sides in place of one symbol -/

/-- A symbol that the chain can put in place of another: it derives the other and symbols that
vanish, where the terminal is expected. -/
def Replaces (m : Machine V C) (t : Symbol) (A X : Symbol) : Prop :=
  ∃ i p ω δ, i ≠ 0 ∧ m.grammar.production? i = some p ∧ A = .nonterminal p.name ∧
    p.symbols = X :: ω ∧ m.grammar.Vanishing ω ∧ m.grammar.Expects δ i 0 t

/-- All productions of a symbol are expected after a string. -/
def Called (m : Machine V C) (t A : Symbol) (δ : List Symbol) : Prop :=
  ∀ k p, k ≠ 0 → m.grammar.production? k = some p → A = .nonterminal p.name →
    m.grammar.Expects δ k 0 t

section Replaced

variable {method : Method} (h : m.Plain method) {A : Symbol}

include h

/-- What is expected behind an item is expected behind the symbol after its dot, if the others
vanish. -/
theorem called_of_expects (hexpects : m.grammar.Expects γ i dot t)
    (hrest : m.grammar.rest i dot = X :: ω) (hω : m.grammar.Vanishing ω) : m.Called t X γ := by
  rintro k q hk hq rfl
  obtain ⟨hsymbol, hbehind⟩ := symbolAt_of_rest hrest
  refine .pass hexpects hsymbol (h.built.ready.wellFormed.rules.mpr ⟨hk, q, hq, rfl⟩) ?_
  rw [hbehind]
  exact vanishing_iff.mp hω

/-- Where all productions of a symbol are expected, a symbol that it replaces is reduced to it, and
all productions of that symbol are expected as well. -/
theorem Called.replaces (hcalled : m.Called t A δ) (hreplaces : m.Replaces t A X) :
    TransGen (m.Reduces t) (δ ++ [X]) (δ ++ [A]) ∧ m.Called t X δ := by
  obtain ⟨i, p, ω, _, hi, hp, rfl, hsymbols, hω, _⟩ := hreplaces
  have hexpects := hcalled i p hi hp rfl
  have hrest : m.grammar.rest i 0 = X :: ω := by
    rw [rest_of_production? hp, List.drop_zero, hsymbols]
  obtain ⟨hsymbol, hbehind⟩ := symbolAt_of_rest hrest
  refine ⟨?_, called_of_expects h hexpects hrest hω⟩
  have hread := Expects.read hexpects hsymbol
  have hchain := chain_of_vanishing h hω hread.viable (hbehind.trans (List.append_nil ω).symm)
    (Or.inr ⟨.nil, hread⟩)
  have hlast := reduces_of_expects h hp hi hexpects
  rw [hsymbols, List.append_cons] at hlast
  exact TransGen.tail' hchain hlast

/-- The same for several replacements. -/
theorem Called.reduces (hcalled : m.Called t A δ) (hreplaces : TransGen (m.Replaces t) A X) :
    TransGen (m.Reduces t) (δ ++ [X]) (δ ++ [A]) := by
  induction hreplaces using TransGen.head_induction_on with
  | single hlast => exact (hcalled.replaces h hlast).1
  | head hstep _ ih =>
      obtain ⟨hreduced, hnext⟩ := hcalled.replaces h hstep
      exact (ih hnext).trans hreduced

/-- No symbol is put in its own place, however many replacements are between. -/
theorem not_replaces_cycle : ¬ TransGen (m.Replaces t) A A := by
  intro hcycle
  obtain ⟨X, hfirst, hback⟩ := TransGen.head'_iff.mp hcycle
  have hround : TransGen (m.Replaces t) X X := TransGen.tail' hback hfirst
  obtain ⟨i, p, ω, δ, _, hp, rfl, hsymbols, hω, hexpects⟩ := hfirst
  have hrest : m.grammar.rest i 0 = X :: ω := by
    rw [rest_of_production? hp, List.drop_zero, hsymbols]
  obtain ⟨hsymbol, hbehind⟩ := symbolAt_of_rest hrest
  -- the chain would come back to the first symbol of this right side, but it ends there
  have hsettles : m.Settles t (δ ++ [X]) :=
    settles_of_expects_vanishing h (.read hexpects hsymbol) (hbehind ▸ hω)
  exact hsettles.not_cycle ((called_of_expects h hexpects hrest hω).reduces h hround)

/-- Symbols are put in place of one another finitely often. -/
theorem acc_replaces (X : Symbol) : Acc (m.Replaces t) X := by
  let names : Set Symbol :=
    {A | A ∈ m.grammar.productions.map fun p => Symbol.nonterminal p.name}
  have hmem : ∀ {A X : Symbol}, m.Replaces t A X → A ∈ names := by
    rintro A X ⟨i, p, _, _, _, hp, rfl, _⟩
    exact List.mem_map.mpr ⟨p, List.mem_of_getElem? hp, rfl⟩
  have horder : IsStrictOrder Symbol (TransGen (m.Replaces t)) :=
    { irrefl := fun A => not_replaces_cycle h
      trans := fun A B D => TransGen.trans }
  have hwf := Set.wellFoundedOn_iff.mp
    ((List.finite_toSet _ : names.Finite).wellFoundedOn (r := TransGen (m.Replaces t)))
  have hnames : ∀ A ∈ names, Acc (m.Replaces t) A := by
    intro A hA
    induction A using hwf.induction with
    | _ A ih => exact .intro A fun B hB => ih B ⟨.single hB, hmem hB, hA⟩ (hmem hB)
  exact .intro X fun A hA => hnames A (hmem hA)

end Replaced

/-! ## Wherever the lookahead comes from -/

section Anywhere

variable (h : m.Plain .lalr)

/-- Whatever a reduction that digs below the end of a string makes of it is settled. A part of the
right side lies above the string and has vanished, and its production is expected somewhere. -/
def Dug (m : Machine V C) (t : Symbol) (γ : List Symbol) : Prop :=
  ∀ front back i p ω δ, back ≠ [] → γ = front ++ back → i ≠ 0 →
    m.grammar.production? i = some p → p.symbols = back ++ ω → m.grammar.Vanishing ω →
    m.grammar.Expects δ i 0 t → m.Settles t (front ++ [.nonterminal p.name])

/-- A reduction in a state is expected after some string that leads there. -/
theorem exists_expects_of_reduce (hbuilt : m.Built .lalr)
    (haction : m.table.actionOn q t = some (.reduce i)) :
    ∃ p δ, i ≠ 0 ∧ m.grammar.production? i = some p ∧
      (Automaton.states m.grammar).path? 0 (δ ++ p.symbols) = some q ∧
      m.grammar.Expects δ i 0 t := by
  cases hbuilt.proposed haction with
  | @reduce _ _ p _ hi hp _ hc hmem =>
      obtain ⟨symbol, γ, hindex, hpath, hexpects⟩ :=
        (Lookahead.mem_lookaheads_iff hbuilt.ready hbuilt.collected hp hi).mp hmem
      obtain rfl := Table.eq_of_terminalIndex? hc hindex
      obtain ⟨δ, rfl, hfront⟩ := hexpects.front
      rw [seen_length hp] at hpath
      exact ⟨p, δ, hi, hp, hpath, hfront⟩

include h

/-- Above two strings that lead to one state the chain goes the same way, until a reduction digs
below. -/
theorem settles_above (hγ : (Automaton.states m.grammar).path? 0 γ = some q)
    (hδ : (Automaton.states m.grammar).path? 0 δ = some q) (hdug : m.Dug t γ)
    (hω : m.grammar.Vanishing ω) (hsettles : m.Settles t (δ ++ ω)) : m.Settles t (γ ++ ω) := by
  generalize hstring : δ ++ ω = other at hsettles
  unfold Settles at hsettles
  induction hsettles generalizing ω with
  | intro other _ ih =>
      subst hstring
      refine .intro (γ ++ ω) ?_
      rintro _ ⟨front, i, p, r, hsplit, rfl, hp, hpath, haction⟩
      have hpath' : (Automaton.states m.grammar).path? 0 (δ ++ ω) = some r := by
        rw [States.path?_append, hδ, ← hpath, States.path?_append, hγ]
      -- a right side above the strings is reduced in the same way after both
      have habove : ∀ ω', ω = ω' ++ p.symbols → front = γ ++ ω' →
          m.Settles t (front ++ [.nonterminal p.name]) := by
        rintro ω' rfl rfl
        obtain ⟨hω', hsymbols⟩ := vanishing_append.mp hω
        rw [List.append_assoc]
        refine ih (δ ++ (ω' ++ [.nonterminal p.name])) ?_
          (vanishing_append.mpr ⟨hω', .cons hp hsymbols .nil⟩) rfl
        exact ⟨δ ++ ω', i, p, r, by simp, by simp, hp, hpath', haction⟩
      rcases List.append_eq_append_iff.mp hsplit with ⟨ω', hfront, hrest⟩ | ⟨back, hback, hsymbols⟩
      · exact habove ω' hrest hfront
      · by_cases hnil : back = []
        · subst hnil
          exact habove [] (by simpa using hsymbols.symm) (by simpa using hback.symm)
        · obtain ⟨p', δ', hi, hp', _, hexpects⟩ := exists_expects_of_reduce h.built haction
          cases hp.symm.trans hp'
          exact hdug front back i p ω δ' hnil hback hi hp hsymbols hω hexpects

/-- A string is settled when all is settled that reductions digging below its end make of it. -/
theorem settles_of_dug (hdug : m.Dug t γ) : m.Settles t γ := by
  by_cases hreduces : ∃ γ', m.Reduces t γ γ'
  · obtain ⟨_, _, i, p, q, _, _, hp, hpath, haction⟩ := hreduces
    obtain ⟨p', δ, _, hp', hpath', hexpects⟩ := exists_expects_of_reduce h.built haction
    cases hp.symm.trans hp'
    have hcomplete := hexpects.along hp (Nat.le_refl _)
    rw [seen_length hp] at hcomplete
    have hend : m.grammar.rest i p.symbols.length = [] := by
      rw [rest_of_production? hp, List.drop_length]
    have hsettles := settles_of_expects h hcomplete
    rw [hend] at hsettles
    rw [← List.append_nil γ]
    exact settles_above h hpath hpath' hdug .nil hsettles
  · exact .intro γ fun γ' hstep => absurd ⟨γ', hstep⟩ hreduces

/-- With a table without conflicts, whose lookaheads are kept apart, every chain of reductions
ends. -/
theorem settles (t : Symbol) (γ : List Symbol) : m.Settles t γ := by
  induction hlength : γ.length using Nat.strong_induction_on generalizing γ with
  | _ n ih =>
      rcases List.eq_nil_or_concat γ with rfl | ⟨δ, X, rfl⟩
      · refine settles_of_dug h fun front back i p ω δ hback hsplit => ?_
        exact absurd (List.append_eq_nil_iff.mp hsplit.symm).2 hback
      · simp only [List.concat_eq_append, List.length_append, List.length_singleton] at hlength ⊢
        -- a reduction that digs leaves a shorter string, or replaces the last symbol
        induction acc_replaces h X (t := t) with
        | intro X _ ihX =>
            refine settles_of_dug h ?_
            intro front back i p ω δ' hback hsplit hi hp hsymbols hω hexpects
            rcases List.eq_nil_or_concat back with rfl | ⟨inner, Y, rfl⟩
            · exact absurd rfl hback
            · rw [List.concat_eq_append, ← List.append_assoc] at hsplit
              obtain ⟨rfl, hsame⟩ := List.append_inj' hsplit rfl
              cases hsame
              cases inner with
              | nil =>
                  simp only [List.append_nil] at ihX
                  exact ihX _ ⟨i, p, ω, δ', hi, hp, rfl, hsymbols, hω, hexpects⟩
              | cons first inner =>
                  refine ih _ ?_ _ rfl
                  simp only [List.length_append, List.length_cons, List.length_nil] at hlength ⊢
                  omega

end Anywhere

end Machine

end ShiftReduce
