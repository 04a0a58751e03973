import ShiftReduce.Lexer.Token
import ShiftReduce.Proofs.Grammar.Derivation

/-!
# Parse trees

A parse tree has tokens as its leaves and productions at its other nodes. `ParseTree.Parses` says
that a tree is one of a grammar, for a symbol. The productions of a tree in the order in which they
are reduced come bottom-up and from left to right. Lists of trees parse strings of symbols; they are
what lies on the stack of a parser.
-/

namespace ShiftReduce

/-- A parse tree. -/
inductive ParseTree where
  | leaf (token : Token)
  | node (production : Nat) (children : List ParseTree)

namespace ParseTree

variable {α : Type} {g : Grammar α} {tree : ParseTree} {trees front back : List ParseTree} {i : Nat}
  {symbol : Symbol} {symbols begin rest : List Symbol} {token : Token}

mutual

/-- The tokens at the leaves of a tree, from left to right. -/
def yield : ParseTree → List Token
  | leaf token => [token]
  | node _ children => yields children

/-- The tokens at the leaves of trees. -/
def yields : List ParseTree → List Token
  | [] => []
  | tree :: trees => tree.yield ++ yields trees

end

mutual

/-- The productions of a tree, bottom-up and from left to right. -/
def productions : ParseTree → List Nat
  | leaf _ => []
  | node i children => productionsOf children ++ [i]

/-- The productions of trees. -/
def productionsOf : List ParseTree → List Nat
  | [] => []
  | tree :: trees => tree.productions ++ productionsOf trees

end

mutual

/-- A tree of a grammar for a symbol: a token of that kind for a terminal, and otherwise a
production of that name with trees for its right side. -/
def Parses (g : Grammar α) : ParseTree → Symbol → Prop
  | leaf token, symbol => token.kind = symbol ∧ symbol.isTerminal = true
  | node i children, symbol =>
      ∃ p, g.production? i = some p ∧ symbol = .nonterminal p.name ∧ ParsesAll g children p.symbols

/-- Trees of a grammar for a string of symbols. -/
def ParsesAll (g : Grammar α) : List ParseTree → List Symbol → Prop
  | [], symbols => symbols = []
  | tree :: trees, symbols =>
      ∃ symbol rest, symbols = symbol :: rest ∧ tree.Parses g symbol ∧ ParsesAll g trees rest

end

/-- Induction on lists of trees, with the children of a node before the node. -/
theorem forest_induction {P : List ParseTree → Prop} (hnil : P [])
    (hleaf : ∀ token trees, P trees → P (leaf token :: trees))
    (hnode : ∀ i children trees, P children → P trees → P (node i children :: trees))
    (trees : List ParseTree) : P trees := by
  refine ParseTree.rec_1 (motive_1 := fun tree => ∀ trees, P trees → P (tree :: trees))
    (motive_2 := P) hleaf ?_ hnil ?_ trees
  · exact fun i children hchildren trees htrees => hnode i children trees hchildren htrees
  · exact fun tree trees htree htrees => htree trees htrees

/-! ## Lists of trees -/

theorem yields_append (front back : List ParseTree) :
    yields (front ++ back) = yields front ++ yields back := by
  induction front with
  | nil => rfl
  | cons tree front ih => simp only [List.cons_append, yields, ih, List.append_assoc]

theorem productionsOf_append (front back : List ParseTree) :
    productionsOf (front ++ back) = productionsOf front ++ productionsOf back := by
  induction front with
  | nil => rfl
  | cons tree front ih => simp only [List.cons_append, productionsOf, ih, List.append_assoc]

theorem yields_singleton (tree : ParseTree) : yields [tree] = tree.yield :=
  List.append_nil _

theorem productionsOf_singleton (tree : ParseTree) : productionsOf [tree] = tree.productions :=
  List.append_nil _

theorem parsesAll_singleton : ParsesAll g [tree] [symbol] ↔ tree.Parses g symbol := by
  simp [ParsesAll]

theorem ParsesAll.length_eq (h : ParsesAll g trees symbols) : trees.length = symbols.length := by
  induction trees generalizing symbols with
  | nil =>
      rw [show symbols = [] from h]
      rfl
  | cons tree trees ih =>
      obtain ⟨symbol, rest, rfl, _, hrest⟩ := h
      rw [List.length_cons, List.length_cons, ih hrest]

theorem ParsesAll.append (hfront : ParsesAll g front begin) (hback : ParsesAll g back rest) :
    ParsesAll g (front ++ back) (begin ++ rest) := by
  induction front generalizing begin with
  | nil =>
      rw [show begin = [] from hfront]
      exact hback
  | cons tree front ih =>
      obtain ⟨symbol, begin, rfl, htree, hfront⟩ := hfront
      exact ⟨symbol, begin ++ rest, rfl, htree, ih hfront⟩

/-- Trees for a string that is in two parts are in two parts themselves. -/
theorem ParsesAll.split (h : ParsesAll g trees (begin ++ rest)) :
    ∃ front back, trees = front ++ back ∧ ParsesAll g front begin ∧ ParsesAll g back rest := by
  induction begin generalizing trees with
  | nil => exact ⟨[], trees, rfl, rfl, h⟩
  | cons symbol begin ih =>
      cases trees with
      | nil => cases h
      | cons tree trees =>
          obtain ⟨_, _, hsame, htree, htrees⟩ := h
          cases hsame
          obtain ⟨front, back, rfl, hfront, hback⟩ := ih htrees
          exact ⟨tree :: front, back, rfl, ⟨symbol, begin, rfl, htree, hfront⟩, hback⟩

/-- Tokens of terminal kinds are trees for their kinds. -/
theorem parsesAll_leaves {tokens : List Token}
    (hterminal : ∀ token ∈ tokens, token.kind.isTerminal = true) :
    ParsesAll g (tokens.map leaf) (tokens.map Token.kind) := by
  induction tokens with
  | nil => rfl
  | cons token tokens ih =>
      rw [List.forall_mem_cons] at hterminal
      exact ⟨token.kind, tokens.map Token.kind, rfl, ⟨rfl, hterminal.1⟩, ih hterminal.2⟩

theorem yields_leaves (tokens : List Token) : yields (tokens.map leaf) = tokens := by
  induction tokens with
  | nil => rfl
  | cons token tokens ih =>
      rw [List.map_cons, yields, ih]
      rfl

/-- Trees for terminals are leaves. -/
theorem ParsesAll.productionsOf_eq_nil (h : ParsesAll g trees symbols)
    (hterminal : ∀ symbol ∈ symbols, symbol.isTerminal = true) : productionsOf trees = [] := by
  induction trees generalizing symbols with
  | nil => rfl
  | cons tree trees ih =>
      obtain ⟨symbol, rest, rfl, htree, htrees⟩ := h
      rw [List.forall_mem_cons] at hterminal
      rw [productionsOf, ih htrees hterminal.2, List.append_nil]
      cases tree with
      | leaf token => rfl
      | node i children =>
          obtain ⟨p, _, rfl, _⟩ := htree
          exact absurd hterminal.1 (by simp [Symbol.isTerminal, Symbol.isNonterminal])

/-! ## Trees and derivations -/

/-- The leaves of trees are of terminal kinds. -/
theorem ParsesAll.isTerminal (h : ParsesAll g trees symbols) :
    ∀ token ∈ yields trees, token.kind.isTerminal = true := by
  induction trees using forest_induction generalizing symbols with
  | hnil => exact fun token hmem => absurd hmem List.not_mem_nil
  | hleaf token trees ih =>
      obtain ⟨symbol, rest, rfl, ⟨hkind, hterminal⟩, htrees⟩ := h
      rw [← hkind] at hterminal
      exact List.forall_mem_cons.mpr ⟨hterminal, ih htrees⟩
  | hnode i children trees ihchildren ihtrees =>
      obtain ⟨symbol, rest, rfl, ⟨p, _, _, hchildren⟩, htrees⟩ := h
      intro token hmem
      rcases List.mem_append.mp hmem with hmem | hmem
      · exact ihchildren hchildren token hmem
      · exact ihtrees htrees token hmem

/-- What trees parse derives the kinds of their leaves. -/
theorem ParsesAll.derives (h : ParsesAll g trees symbols) :
    g.Derives symbols ((yields trees).map Token.kind) := by
  induction trees using forest_induction generalizing symbols with
  | hnil =>
      rw [show symbols = [] from h]
      exact .refl
  | hleaf token trees ih =>
      obtain ⟨symbol, rest, rfl, ⟨hkind, _⟩, htrees⟩ := h
      rw [← hkind]
      exact Grammar.Derives.append (.refl : g.Derives [token.kind] [token.kind]) (ih htrees)
  | hnode i children trees ihchildren ihtrees =>
      obtain ⟨symbol, rest, rfl, ⟨p, hp, rfl, hchildren⟩, htrees⟩ := h
      have hfirst := Grammar.Derives.of_production hp (ihchildren hchildren)
      have hall := hfirst.append (ihtrees htrees)
      rw [← List.map_append] at hall
      exact hall

/-- Trees for a rewritten string become trees for the string before. -/
theorem ParsesAll.fold {p : Production α} (hp : g.production? i = some p)
    (h : ParsesAll g trees (begin ++ p.symbols ++ rest)) :
    ∃ front children back, trees = front ++ children ++ back ∧
      ParsesAll g (front ++ node i children :: back) (begin ++ .nonterminal p.name :: rest) ∧
      ParsesAll g back rest := by
  obtain ⟨inner, back, rfl, hinner, hback⟩ := h.split
  obtain ⟨front, children, rfl, hfront, hchildren⟩ := hinner.split
  refine ⟨front, children, back, rfl, ?_, hback⟩
  exact hfront.append ⟨.nonterminal p.name, rest, rfl, ⟨p, hp, rfl, hchildren⟩, hback⟩

/-- Every derivation of a string of terminals has trees. -/
theorem exists_parsesAll_of_derives {tokens : List Token}
    (h : g.Derives symbols (tokens.map Token.kind))
    (hterminal : ∀ token ∈ tokens, token.kind.isTerminal = true) :
    ∃ trees, ParsesAll g trees symbols ∧ yields trees = tokens := by
  induction h using Relation.ReflTransGen.head_induction_on with
  | refl => exact ⟨tokens.map leaf, parsesAll_leaves hterminal, yields_leaves tokens⟩
  | head hstep _ ih =>
      obtain ⟨trees, htrees, hyield⟩ := ih
      obtain ⟨i, p, begin, rest, hp, rfl, rfl⟩ := hstep
      obtain ⟨front, children, back, rfl, hfold, _⟩ := htrees.fold hp
      refine ⟨_, hfold, ?_⟩
      rw [← hyield]
      simp only [yields_append, yields, yield, List.append_assoc]

end ParseTree

end ShiftReduce
