import ShiftReduce.Proofs.Engine.Source

/-!
# Runs that end have asked for everything

A run that accepts its input or gives up does so at the end of input. The token that stands for the
end is made up when the source is asked and has nothing left, and may then be put back, thrown away
and made up again. So however errors were dealt with, some step of such a run asked the source at
its end, and a source with an error in it never lets a run get that far. Read `nothing_ignored`
first.
-/

namespace ShiftReduce

variable {V C : Type} {m : Machine V C} {method : Method} {c fetched : Config V C}
  {token : Token} {fuel : Nat}

/-- A run that ends without an error of the source. -/
def Outcome.Ends (outcome : Outcome V) : Prop :=
  outcome = .failed ∨ ∃ value, outcome = .accepted value

namespace Engine

/-- The next step asks the source for a token, and the source has none left. -/
structure AsksAtEnd (c : Config V C) : Prop where
  waiting : c.waiting = []
  source : c.source = []

/-- Some step of a run asks the source for a token when there is none left. -/
def ReportsEnd (m : Machine V C) (fuel : Nat) (c : Config V C) : Prop :=
  ∃ steps < fuel, ∃ moment, run m steps c = (.unfinished, moment) ∧ AsksAtEnd moment

/-- What a later part of a run reports, the run reports. -/
theorem ReportsEnd.succ (hrunning : (step m c).status = .running)
    (h : ReportsEnd m fuel (step m c).config) : ReportsEnd m (fuel + 1) c := by
  obtain ⟨steps, hlt, moment, hrun, hasks⟩ := h
  refine ⟨steps + 1, Nat.succ_lt_succ hlt, moment, ?_, hasks⟩
  rw [run]
  simp only [hrunning]
  exact hrun

/-- When the end of input is looked at, it waited or the source was asked for it. -/
theorem waits_or_asks (hplain : ∀ token, .ok token ∈ c.source → token.kind ≠ .endOfInput)
    (hfetch : c.fetch = (.ok token, fetched)) (hend : token.kind = .endOfInput) :
    (∃ other ∈ c.waiting, other.kind = .endOfInput) ∨ AsksAtEnd c := by
  rcases (fetch_cases hfetch).1 with ⟨hmem, _⟩ | hread | ⟨_, hsource, _, hwaiting⟩
  · exact Or.inl ⟨token, hmem, hend⟩
  · exact absurd hend (hplain token (by rw [hread]; exact List.mem_cons_self))
  · exact Or.inr ⟨hwaiting, hsource⟩

/-- An end of input that waits after a step waited before it, or the source was asked for it. -/
theorem waits_or_asks_of_step
    (hresumes : ∀ token, m.ResumesWith token → token.kind ≠ .endOfInput)
    (hplain : ∀ token, .ok token ∈ c.source → token.kind ≠ .endOfInput)
    (hfetch : c.fetch = (.ok token, fetched))
    (h : ∃ other ∈ (step m c).config.waiting, other.kind = .endOfInput) :
    (∃ other ∈ c.waiting, other.kind = .endOfInput) ∨ AsksAtEnd c := by
  obtain ⟨other, hmem, hend⟩ := h
  rcases (waits_step m hfetch).waiting other hmem with hwaited | rfl | herror | hresumed
  · exact Or.inl ⟨other, (fetch_cases hfetch).2 other hwaited, hend⟩
  · exact waits_or_asks hplain hfetch hend
  · rw [herror] at hend
    exact absurd hend (by decide)
  · exact absurd hend (hresumes other hresumed)

/-- A run that ends has asked the source at its end, unless the end of input waited from the
start. -/
theorem waits_or_reports (hbuilt : m.Built method)
    (hresumes : ∀ token, m.ResumesWith token → token.kind ≠ .endOfInput)
    (haligned : c.Aligned (Automaton.states m.grammar))
    (hplain : ∀ token, .ok token ∈ c.source → token.kind ≠ .endOfInput)
    (hends : (run m fuel c).1.Ends) :
    (∃ other ∈ c.waiting, other.kind = .endOfInput) ∨ ReportsEnd m fuel c := by
  induction fuel generalizing c with
  | zero =>
      rcases hends with hends | ⟨_, hends⟩
      · cases hends
      · cases hends
  | succ fuel ih =>
      have hfirst : AsksAtEnd c → ReportsEnd m (fuel + 1) c :=
        fun hasks => ⟨0, Nat.succ_pos fuel, c, rfl, hasks⟩
      rcases hfetch : c.fetch with ⟨e | token, fetched⟩
      · rw [run] at hends
        simp only [step_of_fetch_error m hfetch] at hends
        rcases hends with hends | ⟨_, hends⟩
        · cases hends
        · cases hends
      · rcases step_status hbuilt haligned hfetch with hrunning | ⟨hend, _⟩
        · obtain ⟨read, hread⟩ := source_of_step m hfetch
          have hplain' : ∀ token, .ok token ∈ (step m c).config.source →
              token.kind ≠ .endOfInput := fun token hmem =>
            hplain token (by rw [hread]; exact List.mem_append_right _ hmem)
          rw [run] at hends
          simp only [hrunning] at hends
          have haligned' := aligned_step_of_running hbuilt haligned hrunning
          rcases ih haligned' hplain' hends with hwaits | hreports
          · exact (waits_or_asks_of_step hresumes hplain hfetch hwaits).imp_right hfirst
          · exact Or.inr (hreports.succ hrunning)
        · exact (waits_or_asks hplain hfetch hend).imp_right hfirst

/-- On a source without tokens for the end of input, and with a handler that makes up none, a run
only accepts its input or gives up after it asked the source until that had nothing left; so a run
that ends on a source with an error ends with the first one. -/
theorem nothing_ignored (hbuilt : m.Built method)
    (hresumes : ∀ token, m.ResumesWith token → token.kind ≠ .endOfInput)
    {source : List (Except LexError Token)}
    (hplain : ∀ token, .ok token ∈ source → token.kind ≠ .endOfInput) (context : C) (fuel : Nat) :
    ((run m fuel { source, context }).1.Ends →
      ReportsEnd m fuel { source, context } ∧ (run m fuel { source, context }).2.source = []) ∧
    ∀ {tokens : List Token} {e : LexError} {later : List (Except LexError Token)},
      source = tokens.map .ok ++ .error e :: later →
      (run m fuel { source, context }).1 ≠ .unfinished →
      (run m fuel { source, context }).1 = .illegal e := by
  have hdrained : Drained ({ source, context } : Config V C) := drained_start context hplain
  have haligned : ({ source, context } : Config V C).Aligned (Automaton.states m.grammar) :=
    .start _ source context
  refine ⟨fun hends => ⟨?_, source_eq_nil_of_run hbuilt hresumes haligned hdrained hends⟩, ?_⟩
  · refine (waits_or_reports hbuilt hresumes haligned hplain hends).resolve_left ?_
    rintro ⟨other, hmem, _⟩
    cases hmem
  · intro tokens e later hsource hfinished
    exact illegal_of_error hbuilt hresumes haligned hdrained hfinished hsource

/-- The machine of nested parentheses with a handler that closes one at the end of input, and leaves
other errors to the engine. -/
def closingMachine : Machine Nat Nat :=
  ⟨(Machine.nesting .lalr).grammar, (Machine.nesting .lalr).table,
    some fun count offending =>
      match offending with
      | none => (.resume (some (Machine.parenthesis ')')), count + 1)
      | some _ => (.unwind, count + 1)⟩

/-- The handler closes parentheses only. -/
theorem kind_of_resumesWith_closing (h : closingMachine.ResumesWith token) :
    token.kind = .literal ')' := by
  obtain ⟨handler, context, offending, hhandler, hanswer⟩ := h
  cases hhandler
  cases offending with
  | none =>
      cases hanswer
      rfl
  | some _ => cases hanswer

/-- A missing parenthesis is made up before the end of input is asked for again, and an error of the
source ends the run also behind a parenthesis that was thrown away. -/
theorem nothing_ignored_closing :
    (run closingMachine 20 { source := [.ok (Machine.parenthesis '(')], context := 0 }).1 =
        .accepted (some 3) ∧
      ReportsEnd closingMachine 20
        { source := [.ok (Machine.parenthesis '(')], context := 0 } ∧
      (run closingMachine 20
        { source := [.ok (Machine.parenthesis ')'), .error ⟨'?', 1⟩], context := 0 }).1 =
          .illegal ⟨'?', 1⟩ := by
  have hbuilt : closingMachine.Built .lalr := Machine.built_nesting .lalr
  have hresumes : ∀ token, closingMachine.ResumesWith token → token.kind ≠ .endOfInput := by
    intro token htoken
    rw [kind_of_resumesWith_closing htoken]
    decide
  have haccepted : (run closingMachine 20
      { source := [.ok (Machine.parenthesis '(')], context := 0 }).1 = .accepted (some 3) := rfl
  have hopening : ∀ token, Except.ok token ∈
      [(Except.ok (Machine.parenthesis '(') : Except LexError Token)] →
      token.kind ≠ .endOfInput := by
    intro token hmem
    obtain rfl : token = Machine.parenthesis '(' := by simpa using hmem
    decide
  have hclosing : ∀ token, Except.ok token ∈
      [(Except.ok (Machine.parenthesis ')') : Except LexError Token), .error ⟨'?', 1⟩] →
      token.kind ≠ .endOfInput := by
    intro token hmem
    obtain rfl : token = Machine.parenthesis ')' := by simpa using hmem
    decide
  have hsplit : [(Except.ok (Machine.parenthesis ')') : Except LexError Token), .error ⟨'?', 1⟩] =
      [Machine.parenthesis ')'].map .ok ++ .error ⟨'?', 1⟩ :: [] := rfl
  refine ⟨haccepted, ?_, ?_⟩
  · exact ((nothing_ignored hbuilt hresumes hopening 0 20).1 (Or.inr ⟨_, haccepted⟩)).1
  · refine (nothing_ignored hbuilt hresumes hclosing 0 20).2 hsplit ?_
    exact nofun

end Engine

end ShiftReduce
