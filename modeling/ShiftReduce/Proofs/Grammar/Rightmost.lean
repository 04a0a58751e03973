import ShiftReduce.Proofs.Grammar.ParseTree

/-!
# Rightmost derivations

A rightmost derivation replaces the last nonterminal at each step. The rightmost derivations of a
string of terminals are its parse trees: the productions of a derivation, read backwards, are those
of a tree bottom-up and from left to right.
-/

namespace ShiftReduce

variable {α : Type} {g : Grammar α} {xs ys zs left right symbols : List Symbol}
  {is js : List Nat} {trees : List ParseTree} {tokens : List Token}

/-- A derivation in which only the last nonterminal is ever replaced, with its productions. -/
inductive Grammar.Rightmost (g : Grammar α) : List Symbol → List Nat → List Symbol → Prop
  | refl {xs : List Symbol} : Rightmost g xs [] xs
  | step {i : Nat} {p : Production α} {left right ys : List Symbol} {is : List Nat} :
      g.production? i = some p → (∀ s ∈ right, s.isTerminal = true) →
      Rightmost g (left ++ p.symbols ++ right) is ys →
      Rightmost g (left ++ .nonterminal p.name :: right) (i :: is) ys

namespace Grammar.Rightmost

theorem trans (h : g.Rightmost xs is ys) (hmore : g.Rightmost ys js zs) :
    g.Rightmost xs (is ++ js) zs := by
  induction h with
  | refl => exact hmore
  | step hp hright _ ih => exact .step hp hright (ih hmore)

/-- A rightmost derivation can take place before terminals. -/
theorem context (h : g.Rightmost xs is ys) (left right : List Symbol)
    (hright : ∀ s ∈ right, s.isTerminal = true) :
    g.Rightmost (left ++ xs ++ right) is (left ++ ys ++ right) := by
  induction h with
  | refl => exact .refl
  | @step i p before behind ys is hp hbehind _ ih =>
      have hstep : g.Rightmost ((left ++ before) ++ .nonterminal p.name :: (behind ++ right))
          (i :: is) (left ++ ys ++ right) :=
        .step hp (List.forall_mem_append.mpr ⟨hbehind, hright⟩)
          (by simpa only [List.append_assoc] using ih)
      simpa only [List.append_assoc, List.cons_append] using hstep

end Grammar.Rightmost

namespace ParseTree

/-- Trees give a rightmost derivation of the kinds of their leaves. -/
theorem ParsesAll.rightmost (h : ParsesAll g trees symbols) :
    g.Rightmost symbols (productionsOf trees).reverse ((yields trees).map Token.kind) := by
  induction trees using forest_induction generalizing symbols with
  | hnil =>
      rw [show symbols = [] from h]
      exact .refl
  | hleaf token trees ih =>
      obtain ⟨symbol, rest, rfl, ⟨hkind, _⟩, htrees⟩ := h
      have hrest := (ih htrees).context [token.kind] []
        fun s hs => absurd hs List.not_mem_nil
      rw [List.append_nil, List.append_nil] at hrest
      rw [← hkind]
      exact hrest
  | hnode i children trees ihchildren ihtrees =>
      obtain ⟨symbol, rest, rfl, ⟨p, hp, rfl, hchildren⟩, htrees⟩ := h
      -- First what comes behind the nonterminal is derived, then the nonterminal itself.
      have hbehind := (ihtrees htrees).context [.nonterminal p.name] []
        fun s hs => absurd hs List.not_mem_nil
      rw [List.append_nil, List.append_nil] at hbehind
      have hterminal : ∀ s ∈ (yields trees).map Token.kind, s.isTerminal = true := by
        intro s hs
        obtain ⟨token, htoken, rfl⟩ := List.mem_map.mp hs
        exact htrees.isTerminal token htoken
      have hinner := (ihchildren hchildren).context [] _ hterminal
      have hstep : g.Rightmost ([] ++ .nonterminal p.name :: (yields trees).map Token.kind)
          (i :: (productionsOf children).reverse) _ := .step hp hterminal hinner
      have hall := hbehind.trans hstep
      simpa [productionsOf, productions, yields, yield] using hall

/-- Every rightmost derivation of terminals has trees with its productions. -/
theorem exists_parsesAll_of_rightmost (h : g.Rightmost symbols is (tokens.map Token.kind))
    (hterminal : ∀ token ∈ tokens, token.kind.isTerminal = true) :
    ∃ trees, ParsesAll g trees symbols ∧ yields trees = tokens ∧
      productionsOf trees = is.reverse := by
  generalize hkinds : tokens.map Token.kind = ys at h
  induction h with
  | refl =>
      subst hkinds
      refine ⟨tokens.map leaf, parsesAll_leaves hterminal, yields_leaves tokens, ?_⟩
      refine (parsesAll_leaves (g := g) hterminal).productionsOf_eq_nil fun s hs => ?_
      obtain ⟨token, htoken, rfl⟩ := List.mem_map.mp hs
      exact hterminal token htoken
  | @step i p left right ys is hp hright _ ih =>
      obtain ⟨trees, htrees, hyields, hproductions⟩ := ih hkinds
      obtain ⟨front, children, back, rfl, hfold, hback⟩ := htrees.fold hp
      refine ⟨_, hfold, ?_, ?_⟩
      · rw [← hyields]
        simp only [yields_append, yields, yield, List.append_assoc]
      · -- Behind the node there are leaves only, so its production is the last one.
        have hnone := hback.productionsOf_eq_nil hright
        rw [List.reverse_cons, ← hproductions]
        simp only [productionsOf_append, productionsOf, productions, hnone, List.append_nil,
          List.append_assoc]

end ParseTree

end ShiftReduce
