import ShiftReduce.Proofs.Engine.Meaning

/-!
# How long runs take

With a level of stacks that every reduction lowers and every shift raises by a bounded amount only,
the work that lies ahead can be counted: so much for each token that is still to come, and the level
of the stack. While levels are given up after an error, their number counts instead. Every step
lowers the work, so a run with as many steps ends. Read `finished_of_work` first.

A handler that counts errors tells afterwards whether there were any; see `errorless_of_count`.
-/

namespace ShiftReduce

variable {V C : Type} {m : Machine V C} {M : Meaning V} {P : Token → Prop} {c fetched : Config V C}
  {stack : List (Frame V)} {token : Token} {level : List Symbol → Nat} {K : Nat}

/-- A level of stacks. Every reduction lowers it, and a shift raises it by less than what a token is
worth. -/
structure Machine.Graded (m : Machine V C) (level : List Symbol → Nat) (K : Nat) : Prop where
  two_le : 2 ≤ K
  nil : level [] = 0
  length_le : ∀ γ, γ.length ≤ level γ
  shift : ∀ γ symbol, level (γ ++ [symbol]) < level γ + K
  reduce : ∀ {t : Symbol} {γ γ' : List Symbol}, m.Reduces t γ γ' → level γ' < level γ

/-- What a token adds to the work: the end of input adds nothing. -/
def Token.work (K : Nat) (token : Token) : Nat :=
  if token.kind.isEnd then 0 else K

/-- The work that lies ahead of a configuration. -/
def Config.work (level : List Symbol → Nat) (K : Nat) (c : Config V C) : Nat :=
  match c.lookahead with
  | none => K * c.source.length + level c.stackSymbols
  | some token =>
      if token.kind.isError then K * c.source.length + c.states.length
      else K * c.source.length + token.work K + level c.stackSymbols

namespace Engine

/-- A moment at which nothing was put back, or at which the error token is looked at. -/
structure Orderly (c : Config V C) : Prop where
  source : ∀ token, .ok token ∈ c.source → token.kind ≠ .error ∧ token.kind ≠ .endOfInput
  pushback : c.pushback = [] ∨ ∃ token, c.lookahead = some token ∧ token.kind = .error

theorem orderly_start {source : List (Except LexError Token)} (context : C)
    (hplain : ∀ token, .ok token ∈ source → token.kind ≠ .error ∧ token.kind ≠ .endOfInput) :
    Orderly ({ source, context } : Config V C) :=
  ⟨hplain, Or.inl rfl⟩

/-- The work before a step, by the token that it looks at. -/
theorem Orderly.fetch (level : List Symbol → Nat) (K : Nat) (h : Orderly c)
    (hfetch : c.fetch = (.ok token, fetched)) :
    fetched.lookahead = none ∧
      (token.kind = .error ∧
          c.work level K = K * fetched.source.length + fetched.states.length ∨
        token.kind ≠ .error ∧ fetched.pushback = [] ∧
          c.work level K = K * fetched.source.length + token.work K +
            level fetched.stackSymbols) := by
  have hlooked := fetch_lookahead c
  rw [hfetch] at hlooked
  refine ⟨hlooked, ?_⟩
  unfold Config.fetch at hfetch
  split at hfetch
  · rename_i hlookahead
    cases hfetch
    by_cases herror : token.kind = .error
    · refine Or.inl ⟨herror, ?_⟩
      simp only [Config.work, hlookahead, herror]
      rfl
    · refine Or.inr ⟨herror, ?_, ?_⟩
      · refine h.pushback.resolve_right ?_
        intro ⟨other, hother, hkind⟩
        cases hlookahead.symm.trans hother
        exact herror hkind
      · simp only [Config.work, hlookahead]
        rw [if_neg (by simpa [Symbol.isError] using herror)]
        rfl
  · rename_i hlookahead
    have hpushback : c.pushback = [] := by
      refine h.pushback.resolve_right ?_
      intro ⟨other, hother, _⟩
      cases hlookahead.symm.trans hother
    unfold Config.nextToken at hfetch
    simp only [hpushback] at hfetch
    refine Or.inr ?_
    split at hfetch
    · cases hfetch
      refine ⟨show Symbol.endOfInput ≠ .error by decide, hpushback, ?_⟩
      simp only [Config.work, hlookahead]
      rfl
    · cases hfetch
    · rename_i first rest hsource
      cases hfetch
      obtain ⟨herror, hend⟩ := h.source token (by rw [hsource]; exact List.mem_cons_self)
      refine ⟨herror, rfl, ?_⟩
      simp only [Config.work, hlookahead, hsource, List.length_cons, Token.work]
      rw [if_neg (by simpa [Symbol.isEnd] using hend), Nat.mul_succ]
      rfl

/-- What unwinding at another token than the error token does, unless it fails: it discards the
token, or looks at the error token next. -/
theorem unwind_of_running (hkind : token.kind ≠ .error)
    (hrunning : (unwind c token).status = .running) : token.kind.isEnd = false ∧
      ((unwind c token).config = { c with pushback := [] } ∨ (unwind c token).config = c ∨
        (unwind c token).config =
          { c with
            lookahead := some (errorToken token.text token)
            pushback := token :: c.pushback }) := by
  have hplain : token.kind.isEnd = false := by
    by_contra hend
    rw [Bool.not_eq_false] at hend
    simp [unwind, hend] at hrunning
  refine ⟨hplain, ?_⟩
  rcases Nat.lt_or_ge 1 c.states.length with hhigh | hlow
  · rw [unwind_of_plain hhigh hplain (beq_false_of_ne hkind)]
    split
    · exact Or.inr (Or.inl rfl)
    · exact Or.inr (Or.inr rfl)
  · rw [unwind_of_low hlow hplain]
    exact Or.inl rfl

/-- Unwinding at the error token gives up a level, or forgets what was put back, and lowers the work
that lies ahead. -/
theorem unwind_work_of_error (hgraded : m.Graded level K) (hstack : c.Stacked stack)
    (hlooked : c.lookahead = none)
    (hsource : ∀ token, .ok token ∈ c.source → token.kind ≠ .error ∧ token.kind ≠ .endOfInput)
    (hkind : token.kind = .error) : Orderly (unwind c token).config ∧
      (unwind c token).config.work level K < K * c.source.length + c.states.length := by
  have hheight := hstack.length_states
  cases stack with
  | nil =>
      rw [unwind_of_low hstack.low (by rw [hkind]; rfl)]
      refine ⟨⟨hsource, Or.inl rfl⟩, ?_⟩
      have hbottom := hstack.stackSymbols_eq
      rw [Config.stackSymbols] at hbottom
      simp only [Config.work, hlooked, Config.stackSymbols, hbottom]
      rw [show symbolsOf ([] : List (Frame V)) = [] from rfl, hgraded.nil, hheight]
      exact Nat.lt_succ_self _
  | cons top below =>
      rw [unwind_of_error hstack.high hkind]
      refine ⟨⟨hsource, Or.inr ⟨token, rfl, hkind⟩⟩, ?_⟩
      have hpopped := ((hstack.looking token).pop (List.cons_ne_nil top below)).length_states
      simp only [Config.work, Config.pop, hkind] at hpopped ⊢
      rw [if_pos (show Symbol.error.isError = true from rfl), hpopped, hheight]
      simp

/-- Unwinding at another token lowers the work too. -/
theorem unwind_work_of_plain (hgraded : m.Graded level K) (hstack : c.Stacked stack)
    (hlooked : c.lookahead = none)
    (hsource : ∀ token, .ok token ∈ c.source → token.kind ≠ .error ∧ token.kind ≠ .endOfInput)
    (hrunning : (unwind c token).status = .running) (hkind : token.kind ≠ .error)
    (hpushback : c.pushback = []) : Orderly (unwind c token).config ∧
      (unwind c token).config.work level K <
        K * c.source.length + token.work K + level c.stackSymbols := by
  have hK := hgraded.two_le
  obtain ⟨hplain, hcases⟩ := unwind_of_running hkind hrunning
  have hworth : token.work K = K := by rw [Token.work, if_neg (by simp [hplain])]
  rw [hworth]
  rcases hcases with hconfig | hconfig | hconfig
  · rw [hconfig]
    refine ⟨⟨hsource, Or.inl rfl⟩, ?_⟩
    simp only [Config.work, Config.stackSymbols, hlooked]
    omega
  · rw [hconfig]
    refine ⟨⟨hsource, Or.inl hpushback⟩, ?_⟩
    simp only [Config.work, hlooked]
    omega
  · rw [hconfig]
    refine ⟨⟨hsource, Or.inr ⟨_, rfl, rfl⟩⟩, ?_⟩
    -- every level that will be given up was paid for
    have hheight := hgraded.length_le (symbolsOf stack)
    rw [symbolsOf_length] at hheight
    simp only [Config.work]
    rw [if_pos (show (errorToken token.text token).kind.isError = true from rfl),
      hstack.stackSymbols_eq, hstack.length_states]
    omega

/-- A step on a token without an action lowers the work that lies ahead, unless the run fails. -/
theorem Orderly.step_of_none (hunwinds : m.Unwinds) (hgraded : m.Graded level K)
    (hstack : c.Stacked stack) (h : Orderly c) (hfetch : c.fetch = (.ok token, fetched))
    (hsource : ∀ token, .ok token ∈ fetched.source →
      token.kind ≠ .error ∧ token.kind ≠ .endOfInput)
    (haction : m.table.actionOn fetched.state token.kind = none)
    (hrunning : (step m c).status = .running) :
    Orderly (step m c).config ∧ (step m c).config.work level K < c.work level K := by
  obtain ⟨hlooked, hwork⟩ := h.fetch level K hfetch
  have hfetched := hstack.fetch hfetch
  obtain ⟨c', hstatus, hconfig, hsame, hlooked', hpushback', hsource'⟩ :=
    step_unwinds hunwinds hfetch haction
  rw [hstatus] at hrunning
  rw [hconfig]
  have hstack' := hfetched.congr hsame
  have hplain : ∀ token, .ok token ∈ c'.source →
      token.kind ≠ .error ∧ token.kind ≠ .endOfInput := by rwa [hsource']
  rcases hwork with ⟨hkind, hwork⟩ | ⟨hkind, hpushback, hwork⟩
  · have := unwind_work_of_error hgraded hstack' (hlooked'.trans hlooked) hplain hkind
    rwa [hsource', hsame.states, ← hwork] at this
  · have := unwind_work_of_plain hgraded hstack' (hlooked'.trans hlooked) hplain hrunning hkind
      (hpushback'.trans hpushback)
    rwa [hsource', hstack'.stackSymbols_eq, ← hfetched.stackSymbols_eq, ← hwork] at this

/-- A step lowers the work that lies ahead, and leaves an orderly moment. -/
theorem Orderly.step (hbuilt : m.Built .lalr) (hends : Table.EndsNowhere m.grammar)
    (hunwinds : m.Unwinds) (hcomputes : m.Computes M P) (hgraded : m.Graded level K)
    (hmeaningful : Meaningful m M P c) (hnone : ∀ q, m.table.actionOn q .error = none)
    (h : Orderly c) (hfetch : c.fetch = (.ok token, fetched))
    (hrunning : (step m c).status = .running) :
    Orderly (step m c).config ∧ (step m c).config.work level K < c.work level K := by
  obtain ⟨hlooked, hwork⟩ := h.fetch level K hfetch
  have hsource : ∀ token, .ok token ∈ fetched.source →
      token.kind ≠ .error ∧ token.kind ≠ .endOfInput := by
    obtain ⟨read, hread⟩ := source_of_step m hfetch
    rw [(waits_step m hfetch).source] at hread
    exact fun other hmem => h.source other (by rw [hread]; exact List.mem_append_right _ hmem)
  obtain ⟨stack, hstack, hlinked, hframes⟩ := hmeaningful.levels
  have hfetched := hstack.fetch hfetch
  by_cases haction : m.table.actionOn (topState stack) token.kind = none
  · rw [← hfetched.state_eq] at haction
    exact h.step_of_none hunwinds hgraded hstack hfetch hsource haction hrunning
  · obtain ⟨hkind, hpushback, hwork⟩ := hwork.resolve_left fun ⟨hkind, _⟩ =>
      haction (by rw [hkind]; exact hnone _)
    have hmove := move_step hbuilt hcomputes hstack hlinked hframes hfetch
    rw [hwork, hfetched.stackSymbols_eq]
    generalize Engine.step m c = turn at hmove hrunning ⊢
    cases hmove with
    | @shift n _ hshift _ =>
        have hworth : token.work K = K := by
          rw [Token.work, if_neg]
          simpa [Symbol.isEnd] using ne_endOfInput_of_shift hbuilt hends hshift
        refine ⟨⟨hsource, Or.inl hpushback⟩, ?_⟩
        have hraised := hgraded.shift (symbolsOf stack) token.kind
        have hnext : (shift fetched token n).config.lookahead = none := hlooked
        rw [after_config, Config.work, hnext, (hfetched.shift token n).stackSymbols_eq,
          symbolsOf_cons]
        show K * fetched.source.length + level (symbolsOf stack ++ [token.kind]) < _
        omega
    | @reduce i next p slot c' events hreduce hp htop hslot hstack' hkept _ =>
        obtain ⟨_, hpushback', hsource', hlookahead', _⟩ := hkept
        refine ⟨⟨hsource'.symm ▸ hsource, Or.inl (hpushback'.trans hpushback)⟩, ?_⟩
        have hreduces : m.Reduces token.kind (symbolsOf stack)
            (symbolsOf (stack.drop p.length) ++ [.nonterminal p.name]) := by
          refine ⟨_, i, p, topState stack, ?_, rfl, hp, hlinked.path?, hreduce⟩
          rw [← htop, symbolsOf_drop_append_take]
        have := hgraded.reduce hreduces
        simp only [Config.work, hlookahead', hsource', hstack'.stackSymbols_eq, symbolsOf_cons]
        rw [if_neg (by simpa [Symbol.isError] using hkind)]
        omega
    | accept _ _ => cases hrunning
    | error hnone => exact absurd hnone haction

/-- A run with more steps than work lying ahead ends. -/
theorem finished_of_work (hbuilt : m.Built .lalr) (hends : Table.EndsNowhere m.grammar)
    (herror : Table.ErrorNowhere m.grammar) (hunwinds : m.Unwinds) (hcomputes : m.Computes M P)
    (hgraded : m.Graded level K) (hmeaningful : Meaningful m M P c) (h : Orderly c) {fuel : Nat}
    (hfuel : c.work level K < fuel) : (run m fuel c).1 ≠ .unfinished := by
  induction fuel generalizing c with
  | zero => exact absurd hfuel (Nat.not_lt_zero _)
  | succ fuel ih =>
      rw [run]
      rcases hfetch : c.fetch with ⟨e | token, fetched⟩
      · simp [step_of_fetch_error m hfetch]
      · cases hstatus : (step m c).status with
        | running =>
            obtain ⟨horderly, hless⟩ := h.step hbuilt hends hunwinds hcomputes hgraded hmeaningful
              (actionOn_error hbuilt herror) hfetch hstatus
            exact ih (hmeaningful.step hbuilt hends herror hunwinds hcomputes hfetch hstatus)
              horderly (by omega)
        | accepted value => simp
        | failed => simp
        | illegal e => simp

/-- A run that has ended does nothing more. -/
theorem run_add_of_finished {fuel : Nat} (h : (run m fuel c).1 ≠ .unfinished) (more : Nat) :
    run m (fuel + more) c = run m fuel c := by
  induction fuel generalizing c with
  | zero => exact absurd rfl h
  | succ fuel ih =>
      rw [show fuel + 1 + more = fuel + more + 1 by omega]
      rw [run] at h
      rw [run, run]
      cases hstatus : (step m c).status with
      | running =>
          simp only [hstatus] at h
          exact ih h
      | accepted value => rfl
      | failed => rfl
      | illegal e => rfl

/-- However many steps are allowed, runs that end end in the same way. -/
theorem run_eq_of_finished {fuel fuel' : Nat} (h : (run m fuel c).1 ≠ .unfinished)
    (h' : (run m fuel' c).1 ≠ .unfinished) : run m fuel c = run m fuel' c := by
  rw [← run_add_of_finished h fuel', Nat.add_comm, run_add_of_finished h' fuel]

end Engine

/-! ## Counting errors -/

section Counting

variable {m : Machine V Nat} {c fetched : Config V Nat}

/-- A machine whose context counts the errors that are reported. -/
def Machine.CountsErrors (m : Machine V Nat) : Prop :=
  ∃ handler, m.handler = some handler ∧
    ∀ errors token, handler errors token = (.unwind, errors + 1)

theorem Machine.CountsErrors.unwinds (h : m.CountsErrors) : m.Unwinds := by
  obtain ⟨_, hcounts, hanswers⟩ := h
  intro handler hhandler context token
  cases hcounts.symm.trans hhandler
  rw [hanswers]

namespace Engine

/-- A moment at which recovery is only going on if an error was counted. -/
def Counted (c : Config V Nat) : Prop :=
  c.context = 0 → c.errorCount = 0

/-- Fetching a token leaves the context and the count of shifts alone. -/
theorem fetch_bookkeeping (c : Config V C) :
    c.fetch.2.context = c.context ∧ c.fetch.2.errorCount = c.errorCount := by
  unfold Config.fetch Config.nextToken
  repeat' split
  all_goals exact ⟨rfl, rfl⟩

theorem unwind_context (c : Config V Nat) (token : Token) :
    (unwind c token).config.context = c.context := by
  unfold unwind
  repeat' split
  all_goals rfl

/-- After an error the count is not zero. -/
theorem error_context (hcounts : m.CountsErrors) (h : Counted c) (token : Token) :
    c.context ≤ (error m c token).config.context ∧ 0 < (error m c token).config.context := by
  obtain ⟨handler, hhandler, hanswers⟩ := hcounts
  unfold error
  dsimp only
  split
  · simp only [hhandler, hanswers, after_config, answered, unwind_context]
    omega
  · rename_i hsilent
    simp only [after_config, unwind_context]
    have hpositive : c.context ≠ 0 := by
      intro hzero
      simp [h hzero] at hsilent
    omega

/-- A step that shows an error leaves a count. -/
theorem Counted.step {method : Method} (hbuilt : m.Built method) (hcomputes : m.Computes M P)
    (hcounts : m.CountsErrors) (hmeaningful : Meaningful m M P c) (h : Counted c)
    (hfetch : c.fetch = (.ok token, fetched)) :
    Counted (step m c).config ∧ c.context ≤ (step m c).config.context ∧
      ∀ event ∈ (step m c).events, event.isError = true → 0 < (step m c).config.context := by
  have hkept := fetch_bookkeeping c
  rw [hfetch] at hkept
  have hfetched : Counted fetched := by
    unfold Counted
    rw [hkept.1, hkept.2]
    exact h
  rw [← hkept.1]
  obtain ⟨stack, hstack, hlinked, hframes⟩ := hmeaningful.levels
  have hmove := move_step hbuilt hcomputes hstack hlinked hframes hfetch
  generalize Engine.step m c = turn at hmove ⊢
  have hquiet : ∀ {events : List Event} {n : Nat}, (∀ event ∈ events, event.isError = false) →
      ∀ event ∈ events, event.isError = true → 0 < n := by
    intro events n hevents event hmem hshown
    rw [hevents event hmem] at hshown
    cases hshown
  cases hmove with
  | shift _ hevents =>
      refine ⟨fun hzero => ?_, le_rfl, hquiet hevents⟩
      show fetched.errorCount - 1 = 0
      rw [hfetched hzero]
  | reduce _ _ _ _ _ hkept hevents =>
      obtain ⟨hcontext, _, _, _, hcount⟩ := hkept
      refine ⟨fun hzero => ?_, hcontext.ge, hquiet hevents⟩
      exact hcount.trans (hfetched (hcontext.symm.trans hzero))
  | accept _ hevents => exact ⟨hfetched, le_rfl, hquiet hevents⟩
  | error _ =>
      obtain ⟨hle, hpositive⟩ := error_context hcounts hfetched token
      exact ⟨fun hzero => absurd hzero hpositive.ne', hle, fun _ _ _ => hpositive⟩

/-- A run that ends with a count of zero has met no error. -/
theorem errorless_of_count (hbuilt : m.Built .lalr) (hends : Table.EndsNowhere m.grammar)
    (herror : Table.ErrorNowhere m.grammar) (hcounts : m.CountsErrors)
    (hcomputes : m.Computes M P) (fuel : Nat) (hmeaningful : Meaningful m M P c) (h : Counted c) :
    c.context ≤ (run m fuel c).2.context ∧
      ((run m fuel c).2.context = 0 → Errorless m fuel c) := by
  induction fuel generalizing c with
  | zero => exact ⟨le_rfl, fun _ _ hmem => absurd hmem List.not_mem_nil⟩
  | succ fuel ih =>
      unfold Errorless
      rw [run, events]
      rcases hfetch : c.fetch with ⟨e | token, fetched⟩
      · have hkept := (fetch_bookkeeping c).1
        rw [hfetch] at hkept
        simp only [step_of_fetch_error m hfetch]
        exact ⟨hkept.ge, fun _ _ hmem => absurd hmem List.not_mem_nil⟩
      · obtain ⟨hcounted, hle, hshown⟩ := h.step hbuilt hcomputes hcounts hmeaningful hfetch
        have hquiet : (Engine.step m c).config.context = 0 →
            ∀ event ∈ (Engine.step m c).events, event.isError = false := by
          intro hzero event hmem
          by_contra hloud
          exact (hshown event hmem (Bool.not_eq_false _ ▸ hloud)).ne' hzero
        cases hstatus : (Engine.step m c).status with
        | running =>
            obtain ⟨hlater, hall⟩ :=
              ih (hmeaningful.step hbuilt hends herror hcounts.unwinds hcomputes hfetch hstatus)
                hcounted
            refine ⟨hle.trans hlater, fun hzero => ?_⟩
            refine List.forall_mem_append.mpr ⟨hquiet ?_, hall hzero⟩
            exact Nat.le_zero.mp (hlater.trans_eq hzero)
        | accepted value => exact ⟨hle, hquiet⟩
        | failed => exact ⟨hle, hquiet⟩
        | illegal e => exact ⟨hle, hquiet⟩

end Engine

end Counting

end ShiftReduce
