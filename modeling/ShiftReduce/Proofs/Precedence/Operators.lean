import ShiftReduce.Proofs.Table.Expected
import ShiftReduce.Proofs.Table.Settled

/-!
# Tables of binary operators

A grammar of numbers with binary operators between them is ambiguous, but its table has no conflicts
if every operator has a precedence. The strings for which items are valid are operands with an
operator behind each, and possibly what is begun behind them; behind an operand, an operator and an
operand the next operator is shifted or the one before is reduced as their precedences ask for.
-/

namespace ShiftReduce

/-- What operators stand between. -/
def operand : Symbol := .nonterminal "e"

/-- The terminal of numbers. -/
def numeral : Symbol := .token "NUM"

namespace Grammar

variable {α : Type} {g : Grammar α} {s : States} {method : Method} {ops γ δ : List Symbol}
  {prec : Symbol → Precedence} {i j dot q : Nat} {op t : Symbol} {name : String}
  {p : Production α}

/-- A grammar in which an operand is a number or two operands with an operator between them. Its
operators have precedences. -/
structure Operators (g : Grammar α) (ops : List Symbol) (prec : Symbol → Precedence) : Prop where
  start : g.start = some "e"
  rule : ∀ {i : Nat} {p : Production α}, i ≠ 0 → g.production? i = some p → p.name = "e" ∧
    (p.symbols = [numeral] ∨ ∃ op ∈ ops, p.symbols = [operand, op, operand] ∧ p.prec = prec op)
  number : ∃ i p, i ≠ 0 ∧ g.production? i = some p ∧ p.symbols = [numeral]
  operator : ∀ op ∈ ops, ∃ i p, i ≠ 0 ∧ g.production? i = some p ∧
    p.symbols = [operand, op, operand]
  unique : ∀ {i j : Nat} {p p' : Production α}, i ≠ 0 → j ≠ 0 → g.production? i = some p →
    g.production? j = some p' → p.symbols = p'.symbols → i = j
  precedenceOf : ∀ op ∈ ops, g.precedenceOf op = prec op
  declared : ∀ op ∈ ops, (prec op).level ≠ 0
  terminal : ∀ op ∈ ops, op.isTerminal = true ∧ op ≠ numeral ∧ op ≠ .endOfInput

/-- Operands with an operator behind each. -/
inductive Stem (ops : List Symbol) : List Symbol → Prop
  | nil : Stem ops []
  | snoc {γ : List Symbol} {op : Symbol} : Stem ops γ → op ∈ ops →
      Stem ops (γ ++ [operand, op])

/-- Operands with operators end with an operator. -/
theorem Stem.ne_concat (hstem : Stem ops γ) {last : Symbol} (hlast : last ∉ ops) :
    γ ≠ δ ++ [last] := by
  intro hsame
  cases hstem with
  | nil => simp at hsame
  | @snoc γ op _ hop =>
      rw [show [operand, op] = [operand] ++ [op] from rfl, ← List.append_assoc] at hsame
      cases (List.append_inj' hsame rfl).2
      exact hlast hop

namespace Operators

/-! ## Valid items -/

section Items

variable (h : g.Operators ops prec) (hwell : g.WellFormed)

include h hwell

/-- All productions but production 0 are those of operands. -/
theorem mem_ruleIndices (hi : i ≠ 0) (hp : g.production? i = some p) :
    i ∈ g.ruleIndices "e" :=
  hwell.rules.mpr ⟨hi, p, hp, (h.rule hi hp).1⟩

/-- Where an operand is called for. -/
theorem symbolAt_operand (hname : g.symbolAt i dot = some (.nonterminal name)) :
    g.seen i dot = [] ∨ i ≠ 0 ∧ ∃ op ∈ ops, g.seen i dot = [operand, op] := by
  obtain ⟨p, hp, hget⟩ := exists_production?_of_symbolAt hname
  rw [seen_of_production? hp]
  by_cases hi : i = 0
  · subst hi
    obtain ⟨rfl, _⟩ := hwell.symbolAt_zero hname
    exact Or.inl List.take_zero
  · rcases (h.rule hi hp).2 with hsymbols | ⟨op, hop, hsymbols, _⟩
    · rw [hsymbols] at hget
      match dot, hget with
      | 0, hget => cases hget
    · rw [hsymbols] at hget ⊢
      match dot, hget with
      | 0, _ => exact Or.inl rfl
      | 1, hget =>
          cases hget
          exact absurd (h.terminal _ hop).1 (by simp [Symbol.isTerminal, Symbol.isNonterminal])
      | 2, _ => exact Or.inr ⟨hi, op, hop, rfl⟩

/-- A first item is valid for operands with operators behind them only, and that of production 0 for
the empty string only. -/
theorem stem_of_viable (hitem : g.Viable γ i dot) :
    ∃ δ, Stem ops δ ∧ γ = δ ++ g.seen i dot ∧ (i = 0 → δ = []) := by
  induction hitem with
  | start => exact ⟨[], .nil, by rw [seen_zero]; rfl, fun _ => rfl⟩
  | read _ hsymbol ih =>
      obtain ⟨δ, hstem, rfl, hzero⟩ := ih
      exact ⟨δ, hstem, by rw [seen_succ hsymbol, List.append_assoc], hzero⟩
  | @expand γ i dot j name _ hname hj ih =>
      obtain ⟨δ, hstem, rfl, _⟩ := ih
      refine ⟨_, ?_, by rw [seen_zero, List.append_nil], fun hzero => ?_⟩
      · rcases h.symbolAt_operand hwell hname with hseen | ⟨_, op, hop, hseen⟩
        · rwa [hseen, List.append_nil]
        · rw [hseen]
          exact .snoc hstem hop
      · exact absurd hzero (hwell.rules.mp hj).1

/-- Behind operands with operators every first item of an operand is valid. -/
theorem viable_of_stem (hstem : Stem ops γ) (hi : i ≠ 0)
    (hp : g.production? i = some p) : g.Viable γ i 0 := by
  induction hstem generalizing i p with
  | nil =>
      obtain ⟨hsymbol, _⟩ := symbolAt_of_rest (hwell.rest_zero h.start)
      exact .expand .start hsymbol (h.mem_ruleIndices hwell hi hp)
  | @snoc γ op _ hop ih =>
      obtain ⟨j, p', hj, hp', hsymbols⟩ := h.operator op hop
      have hat : g.Viable (γ ++ g.seen j 2) j 2 := (ih hj hp').along hp' (by simp [hsymbols])
      rw [seen_of_production? hp', hsymbols] at hat
      refine .expand hat ?_ (h.mem_ruleIndices hwell hi hp)
      rw [symbolAt_of_production? hp', hsymbols]
      rfl

/-- Behind operands with operators every first item of an operand expects the end of input and every
operator. -/
theorem expects_of_stem (hstem : Stem ops γ) (hi : i ≠ 0)
    (hp : g.production? i = some p) (ht : t = .endOfInput ∨ t ∈ ops) : g.Expects γ i 0 t := by
  rcases ht with rfl | ht
  · induction hstem generalizing i p with
    | nil =>
        obtain ⟨hsymbol, hrest⟩ := symbolAt_of_rest (hwell.rest_zero h.start)
        refine .pass .start hsymbol (h.mem_ruleIndices hwell hi hp) ?_
        rw [hrest]
        exact .refl
    | @snoc γ op _ hop ih =>
        obtain ⟨j, p', hj, hp', hsymbols⟩ := h.operator op hop
        have hat : g.Expects (γ ++ g.seen j 2) j 2 .endOfInput :=
          (ih hj hp').along hp' (by simp [hsymbols])
        rw [seen_of_production? hp', hsymbols] at hat
        refine .pass hat ?_ (h.mem_ruleIndices hwell hi hp) ?_
        · rw [symbolAt_of_production? hp', hsymbols]
          rfl
        · rw [rest_of_production? hp', hsymbols]
          exact .refl
  · -- the operator stands behind the first operand of its own production
    obtain ⟨j, p', hj, hp', hsymbols⟩ := h.operator t ht
    refine .generate (h.viable_of_stem hwell hstem hj hp') ?_ (h.mem_ruleIndices hwell hi hp) ?_
    · rw [symbolAt_of_production? hp', hsymbols]
      rfl
    · rw [rest_of_production? hp', hsymbols]
      exact ⟨(h.terminal t ht).1, _, .refl⟩

omit hwell in
theorem numeral_notMem : numeral ∉ ops := fun hmem => (h.terminal _ hmem).2.1 rfl

omit hwell in
theorem operand_notMem : operand ∉ ops := fun hmem => absurd (h.terminal _ hmem).1 (by decide)

omit hwell in
/-- No right side ends with an operator. -/
theorem symbols_eq_concat (hi : i ≠ 0) (hp : g.production? i = some p) :
    ∃ front last, p.symbols = front ++ [last] ∧ last ∉ ops := by
  rcases (h.rule hi hp).2 with hsymbols | ⟨op, _, hsymbols, _⟩
  · exact ⟨[], numeral, hsymbols, h.numeral_notMem⟩
  · exact ⟨[operand, op], operand, hsymbols, h.operand_notMem⟩

omit hwell in
/-- The precedence of a production is that of its operator. -/
theorem productionPrecedence (hi : i ≠ 0) (hp : g.production? i = some p)
    (hsymbols : p.symbols = [operand, op, operand]) : Table.productionPrecedence g i = prec op := by
  rw [Table.productionPrecedence, hp]
  rcases (h.rule hi hp).2 with hsymbols' | ⟨op', _, hsymbols', hprec⟩
  · cases hsymbols.symm.trans hsymbols'
  · cases hsymbols.symm.trans hsymbols'
    exact hprec

/-- Behind operands with operators and one operand more every operator is called for. -/
theorem viable_operator (hstem : Stem ops γ) (hop : op ∈ ops) :
    ∃ i, g.Viable (γ ++ [operand]) i 1 ∧ g.symbolAt i 1 = some op := by
  obtain ⟨i, p, hi, hp, hsymbols⟩ := h.operator op hop
  refine ⟨i, .read (h.viable_of_stem hwell hstem hi hp) ?_, ?_⟩
  · rw [symbolAt_of_production? hp, hsymbols]
    rfl
  · rw [symbolAt_of_production? hp, hsymbols]
    rfl

end Items

/-! ## What is called for -/

section Actions

variable (h : g.Operators ops prec) (hready : g.Ready) (hs : Collected g s)

include h hready hs

/-- Where the input is accepted there is one operand. -/
theorem of_accept (hpath : s.path? 0 γ = some q)
    (hproposed : Table.Proposed g s method q t .accept) : γ = [operand] ∧ t = .endOfInput := by
  cases hproposed with
  | @accept dot hheld hnone =>
      obtain ⟨zero, hzero, _, _, hsymbols⟩ := hready.wellFormed.zero
      have hdot := Table.eq_length_of_symbolAt hready hheld hzero hnone
      obtain ⟨δ, _, hsplit, hempty⟩ :=
        h.stem_of_viable hready.wellFormed ((holds_iff_viable hready hs hpath).mp hheld)
      rw [hempty rfl, hdot, seen_length hzero, hsymbols, h.start] at hsplit
      exact ⟨hsplit, rfl⟩

/-- A number is shifted behind operands with operators, and an operator behind one operand more. -/
theorem of_shift (hpath : s.path? 0 γ = some q)
    (hproposed : Table.Proposed g s method q t (.shift j)) :
    s.goto? q t = some j ∧
      (t = numeral ∧ Stem ops γ ∨ t ∈ ops ∧ ∃ δ, Stem ops δ ∧ γ = δ ++ [operand]) := by
  cases hproposed with
  | @shift i dot _ _ hheld hsymbol hterminal hgoto =>
      refine ⟨hgoto, ?_⟩
      obtain ⟨δ, hstem, rfl, _⟩ :=
        h.stem_of_viable hready.wellFormed ((holds_iff_viable hready hs hpath).mp hheld)
      obtain ⟨p, hp, hget⟩ := exists_production?_of_symbolAt hsymbol
      have hi : i ≠ 0 := by
        rintro rfl
        obtain ⟨_, _, _, rfl⟩ := hready.wellFormed.symbolAt_zero hsymbol
        cases hterminal
      rw [seen_of_production? hp]
      rcases (h.rule hi hp).2 with hsymbols | ⟨op, hop, hsymbols, _⟩
      · rw [hsymbols] at hget ⊢
        match dot, hget with
        | 0, hget =>
            cases hget
            exact Or.inl ⟨rfl, by rwa [List.take_zero, List.append_nil]⟩
      · rw [hsymbols] at hget ⊢
        match dot, hget with
        | 0, hget =>
            cases hget
            cases hterminal
        | 1, hget =>
            cases hget
            exact Or.inr ⟨hop, δ, hstem, rfl⟩
        | 2, hget =>
            cases hget
            cases hterminal

/-- A terminal is shifted to one state. -/
theorem shift_unique {k : Nat} (hpath : s.path? 0 γ = some q)
    (hj : Table.Proposed g s method q t (.shift j))
    (hk : Table.Proposed g s method q t (.shift k)) : j = k :=
  Option.some.inj ((h.of_shift hready hs hpath hj).1.symm.trans (h.of_shift hready hs hpath hk).1)

/-- The end of input is not shifted. -/
theorem not_shift_end (hpath : s.path? 0 γ = some q) :
    ¬ Table.Proposed g s method q .endOfInput (.shift j) := by
  intro hproposed
  rcases (h.of_shift hready hs hpath hproposed).2 with ⟨hsame, _⟩ | ⟨hmem, _⟩
  · exact absurd hsame (by decide)
  · exact (h.terminal _ hmem).2.2 rfl

/-- A production is reduced behind operands with operators and its right side. -/
theorem of_reduce (hpath : s.path? 0 γ = some q)
    (hproposed : Table.Proposed g s method q t (.reduce i)) :
    i ≠ 0 ∧ ∃ p δ, g.production? i = some p ∧ Stem ops δ ∧ γ = δ ++ p.symbols := by
  cases hproposed with
  | @reduce _ _ p _ hi hp hheld _ _ =>
      obtain ⟨δ, hstem, hsplit, _⟩ :=
        h.stem_of_viable hready.wellFormed ((holds_iff_viable hready hs hpath).mp hheld)
      rw [seen_length hp] at hsplit
      exact ⟨hi, p, δ, hp, hstem, hsplit⟩

omit hready hs in
/-- Right sides that end a string alike are one. -/
theorem symbols_unique {p' : Production α} {δ' : List Symbol} (hi : i ≠ 0) (hj : j ≠ 0)
    (hp : g.production? i = some p) (hp' : g.production? j = some p')
    (hsame : δ ++ p.symbols = δ' ++ p'.symbols) : p.symbols = p'.symbols := by
  rcases (h.rule hi hp).2 with hsymbols | ⟨op, _, hsymbols, _⟩ <;>
    rcases (h.rule hj hp').2 with hsymbols' | ⟨op', _, hsymbols', _⟩ <;>
    rw [hsymbols, hsymbols'] at hsame ⊢
  · have hsplit := hsame.trans (List.append_assoc δ' [operand, op'] _).symm
    cases (List.append_inj' hsplit rfl).2
  · have hsplit := (List.append_assoc δ [operand, op] _).trans hsame
    cases (List.append_inj' hsplit rfl).2
  · exact (List.append_inj' hsame rfl).2

/-- Behind one operand nothing is reduced. -/
theorem not_reduce_operand (hpath : s.path? 0 [operand] = some q) :
    ¬ Table.Proposed g s method q t (.reduce i) := by
  intro hproposed
  obtain ⟨hi, p, δ, hp, _, hsplit⟩ := h.of_reduce hready hs hpath hproposed
  rcases (h.rule hi hp).2 with hsymbols | ⟨op, _, hsymbols, _⟩
  · rw [hsymbols] at hsplit
    have hlast : some operand = some numeral := by simpa using congrArg List.getLast? hsplit
    cases hlast
  · have hlength := congrArg List.length hsplit
    simp [hsymbols] at hlength

/-- At most one production is reduced in a state. -/
theorem reduce_unique (hpath : s.path? 0 γ = some q)
    (hi : Table.Proposed g s method q t (.reduce i))
    (hj : Table.Proposed g s method q t (.reduce j)) : i = j := by
  obtain ⟨hine, p, δ, hp, _, hsplit⟩ := h.of_reduce hready hs hpath hi
  obtain ⟨hjne, p', δ', hp', _, hsplit'⟩ := h.of_reduce hready hs hpath hj
  exact h.unique hine hjne hp hp'
    (h.symbols_unique hine hjne hp hp' (hsplit.symm.trans hsplit'))

/-- Where a shift and a reduction are called for, an operator is read behind two operands with an
operator between them. -/
theorem of_both (hpath : s.path? 0 γ = some q)
    (hshift : Table.Proposed g s method q t (.shift j))
    (hreduce : Table.Proposed g s method q t (.reduce i)) :
    t ∈ ops ∧ ∃ op ∈ ops, Table.productionPrecedence g i = prec op := by
  obtain ⟨hi, p, δ, hp, _, rfl⟩ := h.of_reduce hready hs hpath hreduce
  obtain ⟨_, hcases⟩ := h.of_shift hready hs hpath hshift
  rcases (h.rule hi hp).2 with hsymbols | ⟨op, hop, hsymbols, hprec⟩
  · rw [hsymbols] at hcases
    rcases hcases with ⟨_, hstem⟩ | ⟨_, δ', _, hsame⟩
    · exact absurd rfl (hstem.ne_concat h.numeral_notMem)
    · cases (List.append_inj' hsame rfl).2
  · rw [hsymbols, show [operand, op, operand] = [operand, op] ++ [operand] from rfl,
      ← List.append_assoc] at hcases
    rcases hcases with ⟨_, hstem⟩ | ⟨ht, _⟩
    · exact absurd rfl (hstem.ne_concat h.operand_notMem)
    · refine ⟨ht, op, hop, ?_⟩
      rw [Table.productionPrecedence, hp]
      exact hprec

/-- Unless the input is accepted, the items of a state call for a contest. -/
theorem contest (hpath : s.path? 0 γ = some q)
    (haccept : ¬ Table.Proposed g s method q t .accept)
    (hshift : ∀ k, Table.Proposed g s method q t (.shift k) → k = j)
    (hreduce : ∀ k, Table.Proposed g s method q t (.reduce k) → k = i) :
    Table.Contest g s method q t j i := by
  refine ⟨fun action hproposed => ?_, fun hj hi => ?_⟩
  · cases action with
    | accept => exact absurd hproposed haccept
    | shift k => exact Or.inl (congrArg Action.shift (hshift k hproposed))
    | reduce k => exact Or.inr (congrArg Action.reduce (hreduce k hproposed))
  · obtain ⟨_, op, hop, hprec⟩ := h.of_both hready hs hpath hj hi
    have hlevel := h.declared op hop
    simp [undeclared, hprec, hlevel]

/-- On every terminal the items of a state call for acceptance only, or for a contest. -/
theorem clear (hlt : q < s.states.length) (t : Symbol) :
    (∀ action, Table.Proposed g s method q t action → action = .accept) ∨
      ∃ j i, Table.Contest g s method q t j i := by
  obtain ⟨γ, hpath⟩ := hs.exists_path? hlt
  by_cases haccept : Table.Proposed g s method q t .accept
  · refine Or.inl fun action hproposed => ?_
    obtain ⟨rfl, rfl⟩ := h.of_accept hready hs hpath haccept
    cases action with
    | accept => rfl
    | shift k => exact absurd hproposed (h.not_shift_end hready hs hpath)
    | reduce k => exact absurd hproposed (h.not_reduce_operand hready hs hpath)
  · refine Or.inr ?_
    have hshift : ∀ k, Table.Proposed g s method q t (.shift k) → k = (s.goto? q t).getD 0 :=
      fun k hk => by rw [(h.of_shift hready hs hpath hk).1]; rfl
    by_cases hany : ∃ i, Table.Proposed g s method q t (.reduce i)
    · obtain ⟨i, hi⟩ := hany
      exact ⟨_, i, h.contest hready hs hpath haccept hshift fun k hk =>
        h.reduce_unique hready hs hpath hk hi⟩
    · exact ⟨_, 0, h.contest hready hs hpath haccept hshift fun k hk =>
        absurd ⟨k, hk⟩ hany⟩

end Actions

end Operators

end Grammar

end ShiftReduce
