import ShiftReduce.Proofs.Builder.Declarations
import ShiftReduce.Proofs.Grammar.History

/-!
# What a builder hands to its parser

The productions of a parser are those that its builder collected, with their actions, and its table
is built from them. Read `Builder.build_spec` first.
-/

namespace ShiftReduce

variable {α V C : Type} {method : Method}

namespace Grammar

/-- What the productions but production 0 declare, in order. -/
def declarations (g : Grammar α) : List (String × List Symbol × Precedence × Option α) :=
  g.productions.tail.map Production.declaration

/-- Preparing a grammar leaves the declarations alone. -/
theorem declarations_prepare (g : Grammar α) : g.prepare.2.declarations = g.declarations := by
  refine prepare_induction (P := fun later => later.declarations = g.declarations)
    ?_ ?_ ?_ ?_ rfl
  · intro later name h
    obtain hsame | ⟨start, _, hsame⟩ := setStart_grammar later name
    · rwa [hsame]
    · rwa [hsame]
  · intro later h
    rwa [declarations, List.map_tail, declarations_buildItems, ← List.map_tail]
  · intro later h
    obtain ⟨_, hsame⟩ := computeFirst_grammar later
    rwa [hsame]
  · intro later start h
    obtain ⟨_, _, _, hsame⟩ := computeFollow_grammar later start
    rwa [hsame]

end Grammar

namespace Builder

/-- A parser that was built from made declarations. -/
theorem build_spec {b : Builder V C} {parser : Parser V C} (hmade : b.grammar.Made)
    (h : b.build method = .ok parser) : parser.toMachine.Built method ∧
      parser.grammar.declarations = b.grammar.declarations ∧ parser.handler = b.handler ∧
      parser.lexer = b.lexer := by
  rcases hset : b.grammar.setStart b.start with ⟨_ | _, started⟩
  · simp only [build, hset] at h
    cases h
  · rcases hbuild : started.buildTable method with ⟨_ | table, final⟩
    · simp only [build, hset, hbuild] at h
      cases h
    · simp only [build, hset, hbuild] at h
      cases h
      have hstarted : started = (b.grammar.setStart b.start).2 := by rw [hset]
      have hfinal : final = started.prepare.2 := by
        rw [← Grammar.buildTable_grammar started method, hbuild]
      refine ⟨⟨started, ?_, hbuild⟩, ?_, rfl, rfl⟩
      · rw [hstarted]
        exact hmade.setStart b.start
      · show final.declarations = _
        rw [hfinal, Grammar.declarations_prepare, hstarted]
        obtain hsame | ⟨start, _, hsame⟩ := Grammar.setStart_grammar b.grammar b.start
        · rw [hsame]
        · rw [hsame]
          rfl

/-- Adding a production appends its declaration, if it is not refused. -/
theorem production_spec {b : Builder V C} (name : String) (symbols : List Symbol)
    (action : Reduction V C) (hmade : b.grammar.Made)
    (h : (b.production name symbols none action).1 = .ok ()) :
    (b.production name symbols none action).2.grammar.Made ∧
      (b.production name symbols none action).2.grammar.precedence = b.grammar.precedence ∧
      (b.production name symbols none action).2.grammar.declarations = b.grammar.declarations ++
        [(name, symbols, b.grammar.rightmostPrecedence symbols, some action)] ∧
      (b.production name symbols none action).2.lexer = b.lexer := by
  have hadded := hmade.addProduction name symbols none (some action)
  rcases hanswer : b.grammar.addProduction name symbols none (some action) with ⟨_ | p, final⟩
  · simp only [production, declare, hanswer] at h
    cases h
  · have hp : (b.grammar.addProduction name symbols none (some action)).1 = .ok p := by rw [hanswer]
    obtain ⟨_, hname, hsymbols, hprec, haction, hgrammar⟩ := Grammar.addProduction_untagged hp
    rw [hanswer] at hadded hgrammar
    obtain rfl : final = b.grammar.append p := hgrammar
    have hpresent : b.grammar.productions ≠ [] :=
      List.ne_nil_of_length_pos (Nat.pos_of_ne_zero hmade.wellFormed.length_ne_zero)
    simp only [production, declare, hanswer]
    refine ⟨hadded, Grammar.append_precedence _ p, ?_, trivial⟩
    rw [Grammar.declarations, Grammar.append_productions, List.tail_append_of_ne_nil hpresent,
      List.map_append, List.map_singleton, Production.declaration, hname, hsymbols, hprec, haction]
    rfl

end Builder

end ShiftReduce
