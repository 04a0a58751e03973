import ShiftReduce.Proofs.Engine.Reductions
import ShiftReduce.Proofs.Engine.Soundness
import ShiftReduce.Proofs.Table.Refinement

/-!
# Runs end

With a table without conflicts, whose lookaheads are kept apart, and without the error token in the
grammar, every run ends: between two tokens there are finitely many reductions, and an error gives
up the whole stack and the token, or the token alone, unless it is the end of input. Read `run_ends`
first.
-/

namespace ShiftReduce

variable {V C : Type} {m : Machine V C} {method : Method} {c c' fetched : Config V C}
  {stack : List (Frame V)} {context : C} {rest later tokens : List Token} {token : Token}

/-- A machine that never resumes parsing after an error. -/
def Machine.Unwinds (m : Machine V C) : Prop :=
  ∀ handler, m.handler = some handler → ∀ context token, (handler context token).1 = .unwind

/-- No production has the error token on its right side. -/
def Table.ErrorNowhere {α : Type} (g : Grammar α) : Prop :=
  ∀ {i : Nat} {p : Production α}, g.production? i = some p → .error ∉ p.symbols

namespace Engine

/-- A run that ends with the input accepted or given up. -/
def Ends (m : Machine V C) (c : Config V C) : Prop :=
  ∃ fuel, (∃ value, (run m fuel c).1 = .accepted value) ∨ (run m fuel c).1 = .failed

theorem Ends.of_step (hrunning : (step m c).status = .running) (h : Ends m (step m c).config) :
    Ends m c := by
  obtain ⟨fuel, hfuel⟩ := h
  refine ⟨fuel + 1, ?_⟩
  rw [(run_succ hrunning fuel).1]
  exact hfuel

theorem ends_of_accepted {value : Option V} (h : (step m c).status = .accepted value) :
    Ends m c :=
  ⟨1, Or.inl ⟨value, congrArg Prod.fst (run_succ_of_accepted h 0).1⟩⟩

theorem ends_of_failed (h : (step m c).status = .failed) : Ends m c := by
  refine ⟨1, Or.inr ?_⟩
  rw [run]
  simp only [h]

/-! ## Errors -/

/-- On the error token there is no action. -/
theorem actionOn_error (hbuilt : m.Built method) (herror : Table.ErrorNowhere m.grammar) (q : Nat) :
    m.table.actionOn q .error = none := by
  cases haction : m.table.actionOn q .error with
  | none => rfl
  | some action =>
      exfalso
      have hproposed := hbuilt.proposed haction
      rcases hproposed.eq_endOfInput_or_mem hbuilt.prepared hbuilt.collected with
        hend | ⟨_, p, hp, hmem⟩
      · exact absurd hend (by decide)
      · exact herror hp hmem

/-- Dealing with an error comes down to unwinding, with the bookkeeping and the context changed. -/
theorem error_eq_unwind (hunwinds : m.Unwinds) (c : Config V C) (token : Token) :
    ∃ events c', error m c token = after events (unwind c' token) ∧ c.SameStacks c' ∧
      c'.lookahead = c.lookahead ∧ c'.pushback = c.pushback ∧ c'.source = c.source := by
  unfold error
  dsimp only
  split
  · cases hhandler : m.handler with
    | none =>
        dsimp only
        cases hend : token.kind.isEnd with
        | true =>
            -- at the end of input unwinding fails as well
            refine ⟨[.reported (reportable token)],
              { c with errorCount := recoveryShifts, errorOk := false }, ?_, ⟨rfl, rfl, rfl⟩, rfl,
              rfl, rfl⟩
            simp [unwind, reportable, hend]
        | false =>
            simp only [reportable, hend, Bool.false_eq_true, if_false]
            exact ⟨_, _, rfl, ⟨rfl, rfl, rfl⟩, rfl, rfl, rfl⟩
    | some handler =>
        rcases hanswer : handler c.context (reportable token) with ⟨answer, context⟩
        obtain rfl : answer = .unwind := by
          have hsame := hunwinds handler hhandler c.context (reportable token)
          rwa [hanswer] at hsame
        simp only [hanswer, answered]
        exact ⟨_, _, rfl, ⟨rfl, rfl, rfl⟩, rfl, rfl, rfl⟩
  · exact ⟨_, _, rfl, ⟨rfl, rfl, rfl⟩, rfl, rfl, rfl⟩

/-- A step on a token without an action unwinds. -/
theorem step_unwinds (hunwinds : m.Unwinds) (hfetch : c.fetch = (.ok token, fetched))
    (hnone : m.table.actionOn fetched.state token.kind = none) :
    ∃ c', (step m c).status = (unwind c' token).status ∧
      (step m c).config = (unwind c' token).config ∧ fetched.SameStacks c' ∧
      c'.lookahead = fetched.lookahead ∧ c'.pushback = fetched.pushback ∧
      c'.source = fetched.source := by
  have hstep := step_of_fetch (m := m) hfetch
  rw [hnone] at hstep
  obtain ⟨events, c', herror, hkept⟩ := error_eq_unwind hunwinds fetched token
  refine ⟨c', ?_, ?_, hkept⟩
  · rw [hstep, act, herror]
    rfl
  · rw [hstep, act, herror]
    rfl

/-- Unwinding at a token discards it, or looks at an error token next. -/
theorem unwind_cases (hstack : c.Stacked stack) (hplain : token.kind.isEnd = false) :
    (unwind c token).status = .running ∧
      (stack = [] ∧ (unwind c token).config = { c with pushback := [] } ∨
        (unwind c token).config = c ∨
        ∃ left error, (unwind c token).config.Stacked left ∧ error.kind = .error ∧
          (unwind c token).config.lookahead = some error ∧
          (unwind c token).config.source = c.source) := by
  cases stack with
  | nil =>
      rw [unwind_of_low hstack.low hplain]
      exact ⟨rfl, Or.inl ⟨rfl, rfl⟩⟩
  | cons top below =>
      by_cases hkind : token.kind = .error
      · rw [unwind_of_error hstack.high hkind]
        have hpopped := (hstack.looking token).pop (List.cons_ne_nil top below)
        exact ⟨rfl, Or.inr (Or.inr ⟨below, token, hpopped, hkind, rfl, rfl⟩)⟩
      · rw [unwind_of_plain hstack.high hplain (beq_false_of_ne hkind)]
        split
        · exact ⟨rfl, Or.inr (Or.inl rfl)⟩
        · exact ⟨rfl, Or.inr (Or.inr
            ⟨_, _, hstack.congr ⟨rfl, rfl, rfl⟩, rfl, rfl, rfl⟩)⟩

/-- A configuration that looks at the error token, with tokens that come later. -/
structure GivingUp (c : Config V C) (later : List Token) : Prop where
  lookahead : ∃ token, c.lookahead = some token ∧ token.kind = .error
  source : c.source = later.map .ok
  plain : ∀ token ∈ later, token.kind ≠ .endOfInput

/-- Giving up levels empties the stacks and drops what was put back, so that the run goes on with
the tokens that come later. -/
theorem GivingUp.ends (hunwinds : m.Unwinds) (hnone : ∀ q, m.table.actionOn q .error = none)
    (hnext : ∀ {c : Config V C} {context : C}, At c [] context later → Ends m c)
    (hstack : c.Stacked stack) (h : GivingUp c later) : Ends m c := by
  induction stack generalizing c with
  | nil =>
      obtain ⟨⟨token, hlookahead, hkind⟩, hsource, hplain⟩ := h
      have hfetch : c.fetch = (.ok token, { c with lookahead := none }) := by
        rw [Config.fetch, hlookahead]
      obtain ⟨c', hstatus, hconfig, hsame, hlookahead', _, hsource'⟩ :=
        step_unwinds hunwinds hfetch (hkind ▸ hnone _)
      have hbottom := (hstack.fetch hfetch).congr hsame
      rw [unwind_of_low hbottom.low (by rw [hkind]; rfl)] at hstatus hconfig
      have hat : At { c' with pushback := [] } [] c'.context later :=
        ⟨hbottom.congr ⟨rfl, rfl, rfl⟩, rfl, rfl, hplain,
          Or.inl ⟨hlookahead', hsource'.trans hsource⟩⟩
      refine .of_step hstatus ?_
      rw [hconfig]
      exact hnext hat
  | cons top below ih =>
      obtain ⟨⟨token, hlookahead, hkind⟩, hsource, hplain⟩ := h
      have hfetch : c.fetch = (.ok token, { c with lookahead := none }) := by
        rw [Config.fetch, hlookahead]
      obtain ⟨c', hstatus, hconfig, hsame, _, _, hsource'⟩ :=
        step_unwinds hunwinds hfetch (hkind ▸ hnone _)
      have hstack' := (hstack.fetch hfetch).congr hsame
      rw [unwind_of_error hstack'.high hkind] at hstatus hconfig
      refine .of_step hstatus (ih ?_ ?_)
      · rw [hconfig]
        exact (hstack'.looking token).pop (List.cons_ne_nil top below)
      · rw [hconfig]
        exact ⟨⟨token, rfl, hkind⟩, hsource'.trans hsource, hplain⟩

/-- Fetching takes the token to look at out of the configuration. -/
theorem fetch_lookahead (c : Config V C) : c.fetch.2.lookahead = none := by
  unfold Config.fetch Config.nextToken
  split
  · rfl
  · rename_i hlookahead
    repeat' split
    all_goals exact hlookahead

/-- After an error the run ends, or it goes on with the tokens behind the next one. -/
theorem ends_of_none (hunwinds : m.Unwinds) (herror : ∀ q, m.table.actionOn q .error = none)
    (hat : At c stack context rest) (hlinked : Linked (Automaton.states m.grammar) stack)
    (hnone : m.table.actionOn (topState stack) (ahead rest) = none)
    (hnext : ∀ {token : Token} {later : List Token}, rest = token :: later →
      ∀ {c : Config V C} {stack : List (Frame V)} {context : C}, At c stack context later →
        Linked (Automaton.states m.grammar) stack → Ends m c) : Ends m c := by
  obtain ⟨token, fetched, hfetch, hkind, _, hlater⟩ := hat.fetch
  have hstack := hat.stack.fetch hfetch
  have hempty : fetched.lookahead = none := by
    have hlookahead := fetch_lookahead c
    rwa [hfetch] at hlookahead
  obtain ⟨c', hstatus, hconfig, hsame, hlookahead', hpushback', hsource'⟩ :=
    step_unwinds hunwinds hfetch (by rwa [hstack.state_eq, hkind])
  have hstack' := hstack.congr hsame
  cases rest with
  | nil =>
      -- the end of input cannot be given up
      refine ends_of_failed (hstatus.trans ?_)
      have hend : token.kind.isEnd = true := by rw [hkind]; rfl
      simp [unwind, hend]
  | cons first later =>
      obtain ⟨rfl, hgone⟩ := hlater first later rfl
      have hsource : fetched.source = later.map .ok := by
        refine (hgone.source.resolve_right ?_).2
        rintro ⟨_, hsome, _⟩
        exact absurd (hsome.symm.trans hempty) (by simp)
      have hplain : token.kind.isEnd = false :=
        beq_false_of_ne (hat.plain token List.mem_cons_self)
      obtain ⟨hrunning, hcases⟩ := unwind_cases hstack' hplain
      refine .of_step (hstatus.trans hrunning) ?_
      rw [hconfig]
      rcases hcases with ⟨rfl, hdiscarded⟩ | hdiscarded |
        ⟨left, error, hleft, herrorKind, hlooked, hkept⟩
      · have hat' : At { c' with pushback := [] } [] c'.context later :=
          ⟨hstack'.congr ⟨rfl, rfl, rfl⟩, rfl, rfl, hgone.plain,
            Or.inl ⟨hlookahead'.trans hempty, hsource'.trans hsource⟩⟩
        rw [hdiscarded]
        exact hnext rfl hat' .nil
      · have hat' : At c' stack c'.context later :=
          ⟨hstack', rfl, hpushback'.trans hgone.pushback, hgone.plain,
            Or.inl ⟨hlookahead'.trans hempty, hsource'.trans hsource⟩⟩
        rw [hdiscarded]
        exact hnext rfl hat' hlinked
      · exact GivingUp.ends hunwinds herror (fun hat => hnext rfl hat .nil) hleft
          ⟨⟨error, hlooked, herrorKind⟩, hkept.trans (hsource'.trans hsource), hgone.plain⟩

/-! ## Whole runs -/

/-- If the run ends once the next token is gone, it ends: before the next token there are finitely
many reductions. -/
theorem ends_of_next (h : m.Plain .lalr) (hunwinds : m.Unwinds)
    (herror : ∀ q, m.table.actionOn q .error = none) (hat : At c stack context rest)
    (hlinked : Linked (Automaton.states m.grammar) stack)
    (hnext : ∀ {token : Token} {later : List Token}, rest = token :: later →
      ∀ {c : Config V C} {stack : List (Frame V)} {context : C}, At c stack context later →
        Linked (Automaton.states m.grammar) stack → Ends m c) : Ends m c := by
  have hsettles := Machine.settles h (ahead rest) (symbolsOf stack)
  generalize hγ : symbolsOf stack = γ at hsettles
  unfold Machine.Settles at hsettles
  induction hsettles generalizing c stack context with
  | intro γ _ ih =>
      subst hγ
      cases haction : m.table.actionOn (topState stack) (ahead rest) with
      | none => exact ends_of_none hunwinds herror hat hlinked haction hnext
      | some action =>
          cases action with
          | accept => exact ends_of_accepted (hat.accept haction).1
          | shift n =>
              cases rest with
              | nil => exact absurd rfl (ne_endOfInput_of_shift h.built h.ends haction)
              | cons token later =>
                  obtain ⟨hquiet, hat'⟩ := hat.shift haction
                  exact .of_step hquiet.running
                    (hnext rfl hat' (linked_shift h.built hlinked haction).2)
          | reduce i =>
              obtain ⟨p, next, hp, hle, htop, hgoto⟩ :=
                exists_production?_of_reduce h.built hlinked haction
              obtain ⟨hquiet, hat'⟩ := hat.reduce haction hp
                (h.built.ready.wellFormed.index hp) hle (h.unfaulting.succeeds hp _ _) hgoto rfl
              have hslot := p.reduced_token? ((stack.take p.length).reverse.map Frame.slot) context
              refine .of_step hquiet.running
                (ih _ ?_ hat' (linked_goto h.built (hlinked.drop _) hgoto hslot) rfl)
              refine ⟨symbolsOf (stack.drop p.length), i, p, topState stack, ?_, symbolsOf_cons, hp,
                hlinked.path?, haction⟩
              rw [← htop, symbolsOf_drop_append_take]

/-- With a table without conflicts, whose lookaheads are kept apart, of a grammar without
precedences, and with neither the end of input nor the error token on right sides, every run ends,
if no reduction complains and no handler resumes parsing. -/
theorem run_ends (hbuilt : m.Built .lalr) (hprecedence : m.grammar.precedence.keys = [])
    (hends : Table.EndsNowhere m.grammar) (herror : Table.ErrorNowhere m.grammar)
    (hconflicts : m.table.conflicts = []) (hunfaulting : m.Unfaulting) (hunwinds : m.Unwinds)
    (hplain : ∀ token ∈ tokens, token.kind ≠ .endOfInput) (context : C) :
    ∃ fuel, (∃ value, (run m fuel { source := tokens.map .ok, context }).1 = .accepted value) ∨
      (run m fuel { source := tokens.map .ok, context }).1 = .failed := by
  have h : m.Plain .lalr := ⟨hbuilt, hprecedence, hends, hconflicts, hunfaulting⟩
  have hall : ∀ {rest : List Token} {c : Config V C} {stack : List (Frame V)} {context : C},
      At c stack context rest → Linked (Automaton.states m.grammar) stack → Ends m c := by
    intro rest
    induction rest with
    | nil =>
        intro c stack context hat hlinked
        exact ends_of_next h hunwinds (actionOn_error hbuilt herror) hat hlinked
          fun hsame => nomatch hsame
    | cons token later ih =>
        intro c stack context hat hlinked
        refine ends_of_next h hunwinds (actionOn_error hbuilt herror) hat hlinked ?_
        intro token' later' hsame
        cases hsame
        exact ih
  exact hall (at_start hplain) .nil

/-- The machine of nested parentheses with a handler that counts errors. -/
def countingMachine : Machine Nat Nat :=
  ⟨(Machine.nesting .lalr).grammar, (Machine.nesting .lalr).table,
    some fun errors _ => (.unwind, errors + 1)⟩

/-- A run on a closing parenthesis before an opening one ends. -/
theorem run_ends_counting_errors :
    ∃ fuel,
      (∃ value, (run countingMachine fuel
        { source := [')', '('].map fun c => .ok (Machine.parenthesis c), context := 0 }).1 =
          .accepted value) ∨
      (run countingMachine fuel
        { source := [')', '('].map fun c => .ok (Machine.parenthesis c), context := 0 }).1 =
          .failed := by
  have hbuilt : countingMachine.Built .lalr := Machine.built_nesting .lalr
  have herror : ∀ p ∈ countingMachine.grammar.productions, Symbol.error ∉ p.symbols := by
    decide +kernel
  have hplain : ∀ token ∈ [')', '('].map Machine.parenthesis, token.kind ≠ .endOfInput := by
    decide +kernel
  exact run_ends hbuilt (by decide +kernel) (Machine.endsNowhere_nesting .lalr)
    (fun hp => herror _ (List.mem_of_getElem? hp)) (by decide +kernel)
    (Machine.unfaulting_nesting .lalr)
    (fun handler hhandler context token => by cases hhandler; rfl) hplain 0

end Engine

end ShiftReduce
