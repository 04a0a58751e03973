import ShiftReduce.Proofs.Automaton.Collection
import ShiftReduce.Proofs.Grammar.Derivation

/-!
# Viable prefixes

A string of symbols is read along the transitions of the automaton. The items that are valid for a
string are given by three rules that speak of the grammar only; the state that is reached by the
string holds exactly these. Read `holds_iff_viable` first.
-/

namespace ShiftReduce

variable {α : Type} {g : Grammar α} {s : States}

/-- The state reached from a state by reading symbols one after the other. -/
def States.path? (s : States) : Nat → List Symbol → Option Nat
  | q, [] => some q
  | q, symbol :: rest => (s.goto? q symbol).bind fun next => s.path? next rest

/-- The items that are valid for a string: the item of production 0 for the empty string, an item
whose dot is moved over the next symbol, and the first items of the nonterminal after a dot. -/
inductive Grammar.Viable (g : Grammar α) : List Symbol → Nat → Nat → Prop
  | start : Viable g [] 0 0
  | read {γ : List Symbol} {i dot : Nat} {symbol : Symbol} : Viable g γ i dot →
      g.symbolAt i dot = some symbol → Viable g (γ ++ [symbol]) i (dot + 1)
  | expand {γ : List Symbol} {i dot j : Nat} {name : String} : Viable g γ i dot →
      g.symbolAt i dot = some (.nonterminal name) → j ∈ g.ruleIndices name → Viable g γ j 0

namespace States

variable {q r : Nat} {γ δ : List Symbol} {symbol : Symbol}

theorem path?_cons : s.path? q (symbol :: γ) = (s.goto? q symbol).bind (s.path? · γ) := rfl

/-- Reading two strings one after the other. -/
theorem path?_append : s.path? q (γ ++ δ) = (s.path? q γ).bind (s.path? · δ) := by
  induction γ generalizing q with
  | nil => rfl
  | cons symbol rest ih =>
      rw [List.cons_append, path?_cons, path?_cons, Option.bind_assoc]
      congr 1
      funext next
      exact ih

theorem path?_singleton : s.path? q [symbol] = s.goto? q symbol := by
  rw [path?_cons]
  cases s.goto? q symbol <;> rfl

/-- Reading one symbol more. -/
theorem path?_concat (h : s.path? q γ = some r) :
    s.path? q (γ ++ [symbol]) = s.goto? r symbol := by
  rw [path?_append, h]
  exact path?_singleton

/-- What was read before the last symbol. -/
theorem path?_concat_inv (h : s.path? q (γ ++ [symbol]) = some r) :
    ∃ before, s.path? q γ = some before ∧ s.goto? before symbol = some r := by
  rw [path?_append] at h
  obtain ⟨before, hbefore, hlast⟩ := Option.bind_eq_some_iff.mp h
  exact ⟨before, hbefore, path?_singleton.symm.trans hlast⟩

/-- Nothing leads back to a state without a transition into it but the empty string. -/
theorem path?_eq_zero (hzero : ∀ p symbol, s.goto? p symbol ≠ some 0)
    (h : s.path? q γ = some 0) : γ = [] := by
  rcases List.eq_nil_or_concat γ with hnil | ⟨front, last, rfl⟩
  · exact hnil
  · rw [List.concat_eq_append] at h
    obtain ⟨before, _, hlast⟩ := path?_concat_inv h
    exact absurd hlast (hzero before last)

end States

namespace Grammar

variable {q i j dot : Nat} {γ δ η : List Symbol} {name : String} {symbol : Symbol}

/-! ## Items of the state at the end of a string -/

/-- The state that a string leads to holds the items that are valid for it. -/
theorem Viable.exists_path? (h : g.Ready) (hs : Collected g s) (hitem : g.Viable γ i dot) :
    ∃ q, s.path? 0 γ = some q ∧ g.Holds (s.itemsOf q) i dot := by
  induction hitem with
  | start => exact ⟨0, rfl, hs.holds_zero h⟩
  | read _ hsymbol ih =>
      obtain ⟨q, hpath, hheld⟩ := ih
      obtain ⟨j, hgoto, hmoved⟩ := hs.exists_goto? h hheld hsymbol
      exact ⟨j, by rw [States.path?_concat hpath, hgoto], hmoved⟩
  | expand _ hsymbol hj ih =>
      obtain ⟨q, hpath, hheld⟩ := ih
      exact ⟨q, hpath, hs.holds_expand h hheld hsymbol hj⟩

/-- The items of the state that a string leads to are valid for it. -/
theorem viable_of_holds (h : g.Ready) (hs : Collected g s) (hpath : s.path? 0 γ = some q)
    (hitem : g.Holds (s.itemsOf q) i dot) : g.Viable γ i dot := by
  induction γ using List.reverseRecOn generalizing q i dot with
  | nil =>
      cases hpath
      exact hs.zero_induction h (P := g.Viable []) .start
        (fun i dot name j hbefore hsymbol hj => .expand hbefore hsymbol hj) hitem
  | append_singleton γ symbol ih =>
      obtain ⟨before, hbefore, hgoto⟩ := States.path?_concat_inv hpath
      exact hs.goto?_induction h hgoto (P := g.Viable (γ ++ [symbol]))
        (fun i dot hheld hsymbol => .read (ih hbefore hheld) hsymbol)
        (fun i dot name j hat hsymbol hj => .expand hat hsymbol hj) hitem

/-- The state that a string leads to holds exactly the items that are valid for it. -/
theorem holds_iff_viable (h : g.Ready) (hs : Collected g s) (hpath : s.path? 0 γ = some q) :
    g.Holds (s.itemsOf q) i dot ↔ g.Viable γ i dot := by
  constructor
  · exact viable_of_holds h hs hpath
  · intro hitem
    obtain ⟨r, hr, hheld⟩ := hitem.exists_path? h hs
    cases hpath.symm.trans hr
    exact hheld

/-! ## What stands before a dot -/

/-- The symbols of a right side before a dot. -/
def seen (g : Grammar α) (production dot : Nat) : List Symbol :=
  (g.rest production 0).take dot

theorem seen_zero : g.seen i 0 = [] := List.take_zero

/-- Moving the dot adds the symbol it is moved over. -/
theorem seen_succ (hsymbol : g.symbolAt i dot = some symbol) :
    g.seen i (dot + 1) = g.seen i dot ++ [symbol] := by
  obtain ⟨p, hp, hget⟩ := exists_production?_of_symbolAt hsymbol
  rw [seen, seen, rest_of_production? hp, List.drop_zero, List.take_add_one, hget]
  rfl

theorem seen_of_production? {p : Production α} (hp : g.production? i = some p) :
    g.seen i dot = p.symbols.take dot := by
  rw [seen, rest_of_production? hp, List.drop_zero]

/-- With the dot behind all symbols, all of them have been seen. -/
theorem seen_length {p : Production α} (hp : g.production? i = some p) :
    g.seen i p.symbols.length = p.symbols := by
  rw [seen_of_production? hp, List.take_length]

/-- What reading a symbol keeps holds wherever the dot gets to on a right side. -/
theorem seen_induction {P : List Symbol → Nat → Prop} {p : Production α}
    (hp : g.production? i = some p)
    (hread : ∀ {γ : List Symbol} {dot : Nat} {symbol : Symbol}, P γ dot →
      g.symbolAt i dot = some symbol → P (γ ++ [symbol]) (dot + 1))
    (hfirst : P δ 0) (hdot : dot ≤ p.symbols.length) : P (δ ++ g.seen i dot) dot := by
  induction dot with
  | zero =>
      rw [seen_zero, List.append_nil]
      exact hfirst
  | succ dot ih =>
      have hsymbol : g.symbolAt i dot = some p.symbols[dot] := by
        rw [symbolAt_of_production? hp]
        exact List.getElem?_eq_getElem hdot
      rw [seen_succ hsymbol, ← List.append_assoc]
      exact hread (ih (Nat.le_of_succ_le hdot)) hsymbol

/-- A right side is what stands before a symbol, the symbol, and what stands behind it. -/
theorem symbols_eq_of_symbolAt {p : Production α} (hp : g.production? i = some p)
    (hsymbol : g.symbolAt i dot = some symbol) :
    p.symbols = g.seen i dot ++ symbol :: g.rest i (dot + 1) := by
  have hrest := rest_of_symbolAt hsymbol
  rw [rest_of_production? hp] at hrest
  rw [seen_of_production? hp, ← hrest, List.take_append_drop]

/-- Where a right side is split at a symbol, a dot can stand. -/
theorem dot_of_symbols_eq {p : Production α} {front rest : List Symbol}
    (hp : g.production? i = some p) (hsymbols : p.symbols = front ++ symbol :: rest) :
    g.seen i front.length = front ∧ g.symbolAt i front.length = some symbol ∧
      g.rest i (front.length + 1) = rest := by
  have hrest : g.rest i front.length = symbol :: rest := by
    rw [rest_of_production? hp, hsymbols, List.drop_left' rfl]
  refine ⟨?_, symbolAt_of_rest hrest⟩
  rw [seen_of_production? hp, hsymbols, List.take_left' rfl]

/-- A string for which an item is valid ends with what stands before its dot. -/
theorem Viable.front (hitem : g.Viable γ i dot) :
    ∃ δ, γ = δ ++ g.seen i dot ∧ g.Viable δ i 0 := by
  induction hitem with
  | start => exact ⟨[], by rw [seen_zero]; rfl, .start⟩
  | read _ hsymbol ih =>
      obtain ⟨δ, rfl, hfront⟩ := ih
      exact ⟨δ, by rw [seen_succ hsymbol, List.append_assoc], hfront⟩
  | expand hat hsymbol hj _ =>
      exact ⟨_, by rw [seen_zero, List.append_nil], .expand hat hsymbol hj⟩

/-- From a valid first item the dot can be moved over all symbols. -/
theorem Viable.along {p : Production α} (hp : g.production? i = some p) (hitem : g.Viable δ i 0)
    (hdot : dot ≤ p.symbols.length) : g.Viable (δ ++ g.seen i dot) i dot :=
  seen_induction (P := fun γ dot => g.Viable γ i dot) hp .read hitem hdot

/-- The first item of production 0 is valid for the empty string only. -/
theorem Viable.nil_of_zero (h : g.WellFormed) (hitem : g.Viable γ 0 0) : γ = [] := by
  cases hitem with
  | start => rfl
  | expand _ _ hj => exact absurd rfl (h.rules.mp hj).1

/-- The first item of any other production is called for by an item with its name after the dot. -/
theorem Viable.caller (hitem : g.Viable γ i 0) (hi : i ≠ 0) :
    ∃ j d name, g.Viable γ j d ∧ g.symbolAt j d = some (.nonterminal name) ∧
      i ∈ g.ruleIndices name := by
  cases hitem with
  | start => exact absurd rfl hi
  | expand hat hsymbol hj => exact ⟨_, _, _, hat, hsymbol, hj⟩

/-- What is valid after a symbol and more symbols stems from an item with that symbol after its dot:
what comes behind there derives the symbols and then what comes from the dot on here. -/
theorem Viable.origin (h : g.WellFormed) (hitem : g.Viable (γ ++ symbol :: η) i dot) :
    ∃ j d tail, g.Viable γ j d ∧ g.symbolAt j d = some symbol ∧
      g.Derives (g.rest j (d + 1)) (η ++ g.rest i dot ++ tail) := by
  generalize hfull : γ ++ symbol :: η = full at hitem
  induction hitem generalizing η with
  | start => exact absurd hfull (by simp)
  | @read front i dot last hat hlast ih =>
      rcases List.eq_nil_or_concat η with rfl | ⟨begin, last', rfl⟩
      -- the symbol itself was read last, or it was read before and the item is older
      · obtain ⟨rfl, hsame⟩ := List.append_inj' hfull rfl
        cases hsame
        exact ⟨i, dot, [], hat, hlast, by simp; exact .refl⟩
      · rw [List.concat_eq_append, ← List.cons_append, ← List.append_assoc] at hfull
        obtain ⟨rfl, hsame⟩ := List.append_inj' hfull rfl
        cases hsame
        obtain ⟨j, d, tail, hj, hsymbol, hderives⟩ := ih rfl
        refine ⟨j, d, tail, hj, hsymbol, ?_⟩
        rw [rest_of_symbolAt hlast] at hderives
        simpa using hderives
  | @expand front i dot k name hat hname hk ih =>
      obtain ⟨j, d, tail, hj, hsymbol, hderives⟩ := ih hfull
      obtain ⟨_, p, hp, rfl⟩ := h.rules.mp hk
      refine ⟨j, d, g.rest i (dot + 1) ++ tail, hj, hsymbol, hderives.trans ?_⟩
      -- one more step of the derivation replaces the nonterminal after the dot
      have hinner : g.Derives [.nonterminal p.name] (g.rest k 0) := by
        rw [rest_of_production? hp, List.drop_zero]
        exact .of_production hp .refl
      have hstep := hinner.context η (g.rest i (dot + 1) ++ tail)
      rw [rest_of_symbolAt hname]
      simpa using hstep

end Grammar

namespace Collected

/-- Every state is at the end of a string. -/
theorem exists_path? {q : Nat} (hs : Collected g s) (hlt : q < s.states.length) :
    ∃ γ, s.path? 0 γ = some q := by
  refine hs.state_induction (P := fun q => ∃ γ, s.path? 0 γ = some q) ⟨[], rfl⟩ ?_ hlt
  rintro q symbol j ⟨γ, hγ⟩ hgoto
  exact ⟨γ ++ [symbol], by rw [States.path?_concat hγ, hgoto]⟩

end Collected

end ShiftReduce
