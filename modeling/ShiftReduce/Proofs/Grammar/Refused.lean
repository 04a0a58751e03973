import ShiftReduce.Grammar.Unused
import ShiftReduce.Proofs.Grammar.Core
import ShiftReduce.Proofs.Grammar.Parentheses

/-!
# Declarations that are refused

A declaration that is refused leaves a grammar as it was, with one exception: a production that is
given again, with a tag, is refused only after the tag was noted. Nothing is seen of that but that
the precedence of the tag is no longer reported as unused. Read `refused_leaves` first.
-/

namespace ShiftReduce

variable {α β : Type}

/-- The cause that an answer gives, if it is no success. -/
def GrammarError.of? : Except GrammarError β → Option GrammarError
  | .error e => some e
  | .ok _ => none

namespace Grammar

variable {g : Grammar α} {call : Call α} {e : GrammarError} {name : String} {symbols : List Symbol}
  {tag : Symbol} {action : Option α}

/-- The cause for which a declaration is refused, if it is one and is refused. -/
def refusal? (g : Grammar α) : Call α → Option GrammarError
  | .setPrecedence s assoc level => GrammarError.of? (g.setPrecedence s assoc level).1
  | .addProduction name symbols tag action =>
      GrammarError.of? (g.addProduction name symbols tag action).1
  | .setStart name => GrammarError.of? (g.setStart name).1
  | _ => none

/-- All that can be seen of a grammar: its parts, what was computed from them, and what it reports
as declared in vain. -/
structure View (α : Type) where
  productions : List (Production α)
  rules : Registry String (List Nat)
  terminals : Registry Symbol (List Nat)
  nonterminals : Registry String (List Nat)
  precedence : Registry Symbol Precedence
  start : Option String
  items : List Item
  first : Registry Symbol FirstSet
  follow : Registry String (List Symbol)
  unusedTerminals : List Symbol
  unusedRules : List String
  undefinedSymbols : List (String × Nat)
  unusedPrecedence : List Symbol

/-- What can be seen of a grammar. -/
def view (g : Grammar α) : View α :=
  { productions := g.productions
    rules := g.rules
    terminals := g.terminals
    nonterminals := g.nonterminals
    precedence := g.precedence
    start := g.start
    items := g.items
    first := g.first
    follow := g.follow
    unusedTerminals := g.unusedTerminals
    unusedRules := g.unusedRules
    undefinedSymbols := g.undefinedSymbols
    unusedPrecedence := g.unusedPrecedence }

/-- A call gives a production that there is already, with a tag that has a precedence. -/
inductive Repeats (g : Grammar α) (tag : Symbol) : Call α → Prop
  | addProduction {name : String} {symbols : List Symbol} (action : Option α) :
      g.ruleFault? name symbols = none → tag ∈ g.precedence.keys → (name, symbols) ∈ g.declared →
      Repeats g tag (.addProduction name symbols (some tag) action)

/-- A start symbol that is refused leaves the grammar as it is. -/
theorem setStart_of_error {name : Option String} (h : (g.setStart name).1 = .error e) :
    (g.setStart name).2 = g := by
  unfold setStart at h ⊢
  split at h
  · rfl
  · dsimp only at h ⊢
    split at h
    · cases h
    · rename_i hunknown
      rw [if_neg hunknown]

/-- A tag has a precedence just if it gives one. -/
theorem mem_precedence_iff : tag ∈ g.precedence.keys ↔
    ∃ prec, g.rulePrecedence symbols (some tag) = .ok prec := by
  rw [← not_iff_not, ← Registry.get?_eq_none_iff]
  cases hget : g.precedence.get? tag <;> simp [rulePrecedence, hget]

/-- A production that is refused leaves the grammar as it is, unless there is one like it and it has
a tag: this is noted. -/
theorem addProduction_refused {tag : Option Symbol}
    (h : (g.addProduction name symbols tag action).1 = .error e) :
    (∀ noted, ¬ g.Repeats noted (.addProduction name symbols tag action)) ∧
        (g.addProduction name symbols tag action).2 = g ∨
      ∃ noted, g.Repeats noted (.addProduction name symbols tag action) ∧
        (g.addProduction name symbols tag action).2 = g.noteTag (some noted) := by
  unfold addProduction at h ⊢
  cases hfault : g.ruleFault? name symbols with
  | some fault =>
      refine Or.inl ⟨fun noted hrepeats => ?_, rfl⟩
      cases hrepeats with
      | addProduction _ hnone => cases hfault.symm.trans hnone
  | none =>
      rw [hfault] at h
      cases hprec : g.rulePrecedence symbols tag with
      | error cause =>
          refine Or.inl ⟨fun noted hrepeats => ?_, rfl⟩
          cases hrepeats with
          | addProduction _ _ htag =>
              obtain ⟨prec, hok⟩ : ∃ prec, g.rulePrecedence symbols (some noted) = .ok prec :=
                mem_precedence_iff.mp htag
              cases hprec.symm.trans hok
      | ok prec =>
          rw [hprec] at h
          dsimp only at h ⊢
          have hdeclared : (name, symbols) ∈ (g.noteTag tag).declared := by
            by_contra hnew
            rw [if_neg hnew] at h
            cases h
          rw [if_pos hdeclared]
          cases tag with
          | none => exact Or.inl ⟨nofun, rfl⟩
          | some tag =>
              exact Or.inr ⟨tag, .addProduction action hfault (mem_precedence_iff.mpr ⟨prec, hprec⟩)
                hdeclared, rfl⟩

/-- A declaration that is refused leaves the grammar as it is, or with a note of its tag. -/
theorem perform_refused (h : g.refusal? call = some e) :
    (∀ tag, ¬ g.Repeats tag call) ∧ g.perform call = g ∨
      ∃ tag, g.Repeats tag call ∧ g.perform call = g.noteTag (some tag) := by
  have herror : ∀ {β : Type} {answer : Except GrammarError β},
      GrammarError.of? answer = some e → answer = .error e := by
    intro β answer hcause
    cases answer with
    | ok b => cases hcause
    | error cause =>
        cases hcause
        rfl
  cases call with
  | setPrecedence s assoc level => exact Or.inl ⟨nofun, setPrecedence_of_error (herror h)⟩
  | addProduction name symbols tag action => exact addProduction_refused (herror h)
  | setStart name => exact Or.inl ⟨nofun, setStart_of_error (herror h)⟩
  | buildItems | computeFirst | computeFollow | buildTable => cases h

/-- A note of a tag is seen only where unused precedences are reported. -/
theorem view_noteTag (g : Grammar α) (tag : Symbol) : (g.noteTag (some tag)).view =
    { g.view with unusedPrecedence := g.unusedPrecedence.filter (· ≠ tag) } := by
  have hunused : (g.noteTag (some tag)).unusedPrecedence =
      g.unusedPrecedence.filter (· ≠ tag) := by
    rw [unusedPrecedence, unusedPrecedence, List.filter_filter]
    refine List.filter_congr fun s _ => ?_
    by_cases hsame : s = tag <;> simp [hsame, noteTag]
  rw [view, hunused]
  rfl

/-- A declaration that is refused leaves the grammar as it is, unless it repeats a production with
a tag. Then the tag is noted, and it is not reported any more as a precedence without a use; nothing
else that can be seen changes. So the grammar looks the same just if the tag was not so reported. -/
theorem refused_leaves (h : g.refusal? call = some e) :
    ((∀ tag, ¬ g.Repeats tag call) → g.perform call = g) ∧
    (∀ tag, g.Repeats tag call → g.perform call = g.noteTag (some tag) ∧ (g.perform call).view =
      { g.view with unusedPrecedence := g.unusedPrecedence.filter (· ≠ tag) }) ∧
    ((g.perform call).view = g.view ↔ ∀ tag, g.Repeats tag call → tag ∉ g.unusedPrecedence) := by
  rcases perform_refused h with ⟨hnot, hsame⟩ | ⟨tag, hrepeats, hnoted⟩
  · refine ⟨fun _ => hsame, fun tag hrepeats => absurd hrepeats (hnot tag), ?_⟩
    rw [hsame]
    exact iff_of_true rfl fun tag hrepeats => absurd hrepeats (hnot tag)
  · have hunique : ∀ other, g.Repeats other call → other = tag := by
      intro other hother
      cases hother
      cases hrepeats
      rfl
    have hview := view_noteTag g tag
    rw [hnoted]
    refine ⟨fun hnot => absurd hrepeats (hnot tag), fun other hother => ?_, ?_⟩
    · rw [hunique other hother]
      exact ⟨rfl, hview⟩
    · rw [hview]
      constructor
      · intro hsame other hother
        have hfilter : g.unusedPrecedence.filter (· ≠ tag) = g.unusedPrecedence :=
          congrArg View.unusedPrecedence hsame
        rw [hunique other hother]
        intro hmem
        simpa using List.filter_eq_self.mp hfilter tag hmem
      · intro hunused
        have hfilter : g.unusedPrecedence.filter (· ≠ tag) = g.unusedPrecedence := by
          refine List.filter_eq_self.mpr fun s hs => decide_eq_true ?_
          rintro rfl
          exact hunused s hrepeats hs
        rw [hfilter]
        rfl

/-- Negations, with a precedence that is there for a tag only, which they do not have yet. -/
def negations : Grammar Unit :=
  let g := blank
  let g := (g.setPrecedence (.token "NEGATION") .right 1).2
  (g.addProduction "term" [.literal '-', .nonterminal "term"] none none).2

theorem made_negations : negations.Made :=
  .addProduction _ _ _ _ (.setPrecedence _ _ _ made_blank)

/-- The production of negations once more, now with the tag. -/
def negationAgain : Call Unit :=
  .addProduction "term" [.literal '-', .nonterminal "term"] (some (.token "NEGATION")) none

theorem refused_leaves_negations :
    negations.refusal? negationAgain = some (.duplicateProduction "term -> '-' term") ∧
      negations.perform negationAgain = negations.noteTag (some (.token "NEGATION")) := by
  have hrefused : negations.refusal? negationAgain =
      some (.duplicateProduction "term -> '-' term") := by decide +kernel
  have hrepeats : negations.Repeats (.token "NEGATION") negationAgain :=
    .addProduction none (by decide +kernel) (by decide +kernel) (by decide +kernel)
  exact ⟨hrefused, ((refused_leaves hrefused).2.1 _ hrepeats).1⟩

/-- The production is refused, and what the grammar reports as declared in vain is different
afterwards. -/
theorem seen_although_refused : negations.Made ∧
    negations.refusal? negationAgain = some (.duplicateProduction "term -> '-' term") ∧
    negations.unusedPrecedence = [.token "NEGATION"] ∧
    (negations.perform negationAgain).unusedPrecedence = [] := by
  refine ⟨made_negations, ?_, ?_, ?_⟩ <;> decide +kernel

end Grammar

end ShiftReduce
