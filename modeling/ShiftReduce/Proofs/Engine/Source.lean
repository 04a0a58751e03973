import ShiftReduce.Proofs.Engine.Trace

/-!
# What a run reads

Steps take tokens from the front of the source and give none back to it, so what is left of the
source tells how far a run has read. A run only ends at the end of input, and the end of input is
looked at only once the source is used up: no token is ignored, and an error of the source ends the
run. Read `source_of_run` and `source_eq_nil_of_run` first.
-/

namespace ShiftReduce

variable {V C : Type} {m : Machine V C} {method : Method} {c fetched : Config V C}
  {token : Token} {e : LexError}

/-- The tokens that are read again before the source is. -/
def Config.waiting (c : Config V C) : List Token :=
  c.lookahead.toList ++ c.pushback

/-- What a run that was ended by the source read last. -/
def Outcome.illegals : Outcome V → List (Except LexError Token)
  | .illegal e => [.error e]
  | _ => []

/-- A handler of the machine goes on with a token. -/
def Machine.ResumesWith (m : Machine V C) (token : Token) : Prop :=
  ∃ handler context offending, m.handler = some handler ∧
    (handler context offending).1 = .resume (some token)

namespace Engine

/-! ## Fetching -/

/-- A token is fetched from those that wait or, if none does, from the source, which is followed by
the end of input. -/
theorem fetch_cases (hfetch : c.fetch = (.ok token, fetched)) :
    (token ∈ c.waiting ∧ fetched.source = c.source ∨
      c.source = .ok token :: fetched.source ∨
      token.kind = .endOfInput ∧ c.source = [] ∧ fetched.source = [] ∧ c.waiting = []) ∧
    ∀ other ∈ fetched.waiting, other ∈ c.waiting := by
  unfold Config.fetch Config.nextToken at hfetch
  split at hfetch
  · rename_i hlookahead
    cases hfetch
    refine ⟨Or.inl ⟨by simp [Config.waiting, hlookahead], rfl⟩, ?_⟩
    intro other hother
    rw [Config.waiting, hlookahead]
    exact List.mem_cons_of_mem _ hother
  · rename_i hlookahead
    split at hfetch
    · rename_i hpushback
      cases hfetch
      refine ⟨Or.inl ⟨by simp [Config.waiting, hlookahead, hpushback], rfl⟩, ?_⟩
      intro other hother
      simp only [Config.waiting, hlookahead, hpushback] at hother ⊢
      exact List.mem_cons_of_mem _ hother
    · rename_i hpushback
      split at hfetch
      · rename_i hsource
        cases hfetch
        have hnone : c.waiting = [] := by simp [Config.waiting, hlookahead, hpushback]
        exact ⟨Or.inr (Or.inr ⟨rfl, hsource, hsource, hnone⟩), fun other hother => hother⟩
      · cases hfetch
      · rename_i hsource
        cases hfetch
        exact ⟨Or.inr (Or.inl hsource), fun other hother => hother⟩

/-- An error comes from the source. -/
theorem source_of_fetch_error (hfetch : c.fetch = (.error e, fetched)) :
    c.source = .error e :: fetched.source := by
  unfold Config.fetch Config.nextToken at hfetch
  split at hfetch
  · cases hfetch
  · split at hfetch
    · cases hfetch
    · split at hfetch
      · cases hfetch
      · rename_i hsource
        cases hfetch
        exact hsource
      · cases hfetch

/-! ## Steps -/

/-- What is changed while an error is dealt with: the source stays, and every token that waits
afterwards waited before, is the offending one, stands for the error, or comes from the handler. -/
structure Waits (m : Machine V C) (c : Config V C) (token : Token) (after : Config V C) : Prop where
  source : after.source = c.source
  waiting : ∀ other ∈ after.waiting, other ∈ c.waiting ∨ other = token ∨ other.kind = .error ∨
    m.ResumesWith other

/-- The token is looked at again. -/
theorem Waits.again {after : Config V C} (hsource : after.source = c.source)
    (hwaiting : after.waiting = token :: c.pushback) : Waits m c token after := by
  refine ⟨hsource, fun other hother => ?_⟩
  rw [hwaiting] at hother
  rcases List.mem_cons.mp hother with rfl | hother
  · exact Or.inr (Or.inl rfl)
  · exact Or.inl (List.mem_append_right _ hother)

/-- A token that stands for the error is looked at, and then the token again. -/
theorem Waits.afterError {after : Config V C} {error : Token} (herror : error.kind = .error)
    (hsource : after.source = c.source)
    (hwaiting : after.waiting = error :: token :: c.pushback) : Waits m c token after := by
  refine ⟨hsource, fun other hother => ?_⟩
  rw [hwaiting] at hother
  rcases List.mem_cons.mp hother with rfl | hother
  · exact Or.inr (Or.inr (Or.inl herror))
  · rcases List.mem_cons.mp hother with rfl | hother
    · exact Or.inr (Or.inl rfl)
    · exact Or.inl (List.mem_append_right _ hother)

theorem waits_unwind (m : Machine V C) (c : Config V C) (token : Token) :
    Waits m c token (unwind c token).config := by
  unfold unwind
  split
  · refine ⟨rfl, fun other hother => Or.inl ?_⟩
    simp only [Config.waiting, List.append_nil] at hother ⊢
    exact List.mem_append_left _ hother
  · split
    · exact ⟨rfl, fun other hother => Or.inl hother⟩
    · split
      · exact .again rfl rfl
      · split
        · exact ⟨rfl, fun other hother => Or.inl hother⟩
        · exact .afterError rfl rfl rfl

/-- The bookkeeping of errors matters neither to the source nor to what waits. -/
theorem Waits.congr {c' after : Config V C} (h : Waits m c' token after)
    (hsource : c'.source = c.source) (hwaiting : c'.waiting = c.waiting) :
    Waits m c token after :=
  ⟨h.source.trans hsource, fun other hother => hwaiting ▸ h.waiting other hother⟩

theorem waits_error (m : Machine V C) (c : Config V C) (token : Token) :
    Waits m c token (error m c token).config := by
  unfold error
  dsimp only
  split
  · split
    · rename_i handler hhandler
      rcases hanswer : handler c.context (reportable token) with ⟨_ | _, context⟩
      · rename_i answer
        simp only [after_config, answered]
        split
        · exact ⟨rfl, fun other hother => Or.inl hother⟩
        · refine ⟨rfl, fun other hother => ?_⟩
          rcases List.mem_append.mp hother with hother | hother
          · obtain rfl : answer = some other := Option.mem_toList.mp hother
            exact Or.inr (Or.inr (Or.inr ⟨handler, _, _, hhandler, congrArg Prod.fst hanswer⟩))
          · exact Or.inl (List.mem_append_right _ hother)
      · exact (waits_unwind m _ token).congr rfl rfl
    · simp only [after_config]
      split
      · exact ⟨rfl, fun other hother => Or.inl hother⟩
      · exact (waits_unwind m _ token).congr rfl rfl
  · exact (waits_unwind m _ token).congr rfl rfl

theorem waits_goOn (m : Machine V C) (c : Config V C) (p : Production (Reduction V C))
    (slot : Slot V) (token : Token) : Waits m c token (goOn m c p slot token).config := by
  unfold goOn
  split
  · exact ⟨rfl, fun other hother => Or.inl hother⟩
  · exact .again rfl rfl

theorem waits_reduce (m : Machine V C) (c : Config V C) (p : Production (Reduction V C))
    (token : Token) : Waits m c token (reduce m c p token).config := by
  cases haction : p.action with
  | none =>
      rw [reduce_of_none haction]
      exact (waits_goOn m _ p _ token).congr rfl rfl
  | some action =>
      rcases hrun : action.run.run ⟨c.context, c.rightSide p.length⟩ with ⟨_ | value, after⟩
      · rw [reduce_of_error haction hrun]
        obtain ⟨hpushback, hsource⟩ := giveUp_tokens ((c.cut p.length).acted after) p.length
          (c.rightSymbols p.length) (vacate after.rhs.taken (c.rightSide p.length).slots)
        exact .afterError rfl hsource (congrArg (_ :: token :: ·) hpushback)
      · rw [reduce_of_ok haction hrun]
        exact (waits_goOn m _ p _ token).congr rfl rfl

/-- A step keeps what fetching left of the source, and says where the tokens that wait come from. -/
theorem waits_step (m : Machine V C) (hfetch : c.fetch = (.ok token, fetched)) :
    Waits m fetched token (step m c).config := by
  rw [step_of_fetch hfetch]
  cases m.table.actionOn fetched.state token.kind with
  | none => exact waits_error m fetched token
  | some action =>
      cases action with
      | shift n => exact ⟨rfl, fun other hother => Or.inl hother⟩
      | accept => exact ⟨rfl, fun other hother => Or.inl hother⟩
      | reduce i =>
          simp only [after_config, act]
          split
          · exact waits_reduce m fetched _ token
          · exact ⟨rfl, fun other hother => Or.inl hother⟩

/-- A step on a token leaves the run going, unless the token is the end of input. -/
theorem step_status (hbuilt : m.Built method)
    (haligned : c.Aligned (Automaton.states m.grammar)) (hfetch : c.fetch = (.ok token, fetched)) :
    (step m c).status = .running ∨ token.kind = .endOfInput ∧
      ((step m c).status = .failed ∨ ∃ value, (step m c).status = .accepted value) := by
  obtain ⟨stack, hstack, hlinked⟩ := haligned
  have hfetched := hstack.fetch hfetch
  rw [step_of_fetch hfetch, after_status, hfetched.state_eq]
  cases haction : m.table.actionOn (topState stack) token.kind with
  | none =>
      rcases error_status m fetched token with hrunning | ⟨hfailed, hend⟩
      · exact Or.inl hrunning
      · exact Or.inr ⟨hend, Or.inl hfailed⟩
  | some action =>
      cases action with
      | shift n => exact Or.inl rfl
      | accept => exact Or.inr ⟨(stack_of_accept hbuilt hlinked haction).1, Or.inr ⟨_, rfl⟩⟩
      | reduce i => exact Or.inl (aligned_reduce hbuilt hfetched hlinked haction).1

/-! ## Runs -/

/-- A step reads at most one token of the source. -/
theorem source_of_step (m : Machine V C) (hfetch : c.fetch = (.ok token, fetched)) :
    ∃ read : List Token, c.source = read.map .ok ++ (step m c).config.source := by
  rw [(waits_step m hfetch).source]
  rcases (fetch_cases hfetch).1 with ⟨_, hsame⟩ | hread | ⟨_, hnil, hsame, _⟩
  · exact ⟨[], hsame.symm⟩
  · exact ⟨[token], hread⟩
  · exact ⟨[], by rw [hnil, hsame]; rfl⟩

/-- A run has read tokens from the front of the source, and at last the error that ended it. -/
theorem source_of_run (hbuilt : m.Built method) (fuel : Nat)
    (haligned : c.Aligned (Automaton.states m.grammar)) :
    ∃ read : List Token,
      c.source = read.map .ok ++ (run m fuel c).1.illegals ++ (run m fuel c).2.source := by
  induction fuel generalizing c with
  | zero => exact ⟨[], rfl⟩
  | succ fuel ih =>
      rw [run]
      rcases hfetch : c.fetch with ⟨e | token, fetched⟩
      · simp only [step_of_fetch_error m hfetch]
        exact ⟨[], source_of_fetch_error hfetch⟩
      · obtain ⟨front, hfront⟩ := source_of_step m hfetch
        rcases step_status hbuilt haligned hfetch with hstatus | ⟨_, hstatus | ⟨value, hstatus⟩⟩
        · obtain ⟨read, hread⟩ := ih (aligned_step_of_running hbuilt haligned hstatus)
          refine ⟨front ++ read, ?_⟩
          simp only [hstatus]
          rw [hfront, hread, List.map_append]
          simp only [List.append_assoc]
        · refine ⟨front, ?_⟩
          simp only [hstatus, Outcome.illegals, List.append_nil]
          exact hfront
        · refine ⟨front, ?_⟩
          simp only [hstatus, Outcome.illegals, List.append_nil]
          exact hfront

/-- The end of input only comes at the end of the source, and only once the source is used up does
it wait to be read again. -/
structure Drained (c : Config V C) : Prop where
  source : ∀ token, .ok token ∈ c.source → token.kind ≠ .endOfInput
  waiting : ∀ token ∈ c.waiting, token.kind = .endOfInput → c.source = []

theorem drained_start {source : List (Except LexError Token)} (context : C)
    (hplain : ∀ token, .ok token ∈ source → token.kind ≠ .endOfInput) :
    Drained ({ source, context } : Config V C) :=
  ⟨hplain, fun _ hmem => absurd hmem List.not_mem_nil⟩

/-- When the end of input is looked at, nothing is left of the source. -/
theorem Drained.fetch (h : Drained c) (hfetch : c.fetch = (.ok token, fetched))
    (hend : token.kind = .endOfInput) : fetched.source = [] := by
  rcases (fetch_cases hfetch).1 with ⟨hmem, hsame⟩ | hread | ⟨_, _, hnil, _⟩
  · exact hsame.trans (h.waiting token hmem hend)
  · exact absurd hend (h.source token (by rw [hread]; exact List.mem_cons_self))
  · exact hnil

/-- A step keeps the end of input where it belongs, unless the handler makes it up. -/
theorem Drained.step (hresumes : ∀ token, m.ResumesWith token → token.kind ≠ .endOfInput)
    (h : Drained c) (hfetch : c.fetch = (.ok token, fetched)) : Drained (step m c).config := by
  have hwaits := waits_step m hfetch
  obtain ⟨read, hread⟩ := source_of_step m hfetch
  constructor
  · intro other hmem
    exact h.source other (by rw [hread]; exact List.mem_append_right _ hmem)
  · intro other hmem hend
    rw [hwaits.source]
    rcases hwaits.waiting other hmem with hwaited | rfl | herror | hresumed
    · have hnil := h.waiting other ((fetch_cases hfetch).2 other hwaited) hend
      rw [hread, List.append_eq_nil_iff] at hnil
      exact hwaits.source.symm.trans hnil.2
    · exact h.fetch hfetch hend
    · rw [herror] at hend
      exact absurd hend (by decide)
    · exact absurd hend (hresumes other hresumed)

/-- A run that accepts its input or gives up has used up the source. -/
theorem source_eq_nil_of_run (hbuilt : m.Built method)
    (hresumes : ∀ token, m.ResumesWith token → token.kind ≠ .endOfInput) {fuel : Nat}
    (haligned : c.Aligned (Automaton.states m.grammar)) (h : Drained c)
    (hdone : (run m fuel c).1 = .failed ∨ ∃ value, (run m fuel c).1 = .accepted value) :
    (run m fuel c).2.source = [] := by
  induction fuel generalizing c with
  | zero =>
      rcases hdone with hdone | ⟨_, hdone⟩
      · cases hdone
      · cases hdone
  | succ fuel ih =>
      rw [run] at hdone ⊢
      rcases hfetch : c.fetch with ⟨e | token, fetched⟩
      · simp only [step_of_fetch_error m hfetch] at hdone
        rcases hdone with hdone | ⟨_, hdone⟩
        · cases hdone
        · cases hdone
      · rcases step_status hbuilt haligned hfetch with hstatus | ⟨hend, hstatus | ⟨value, hstatus⟩⟩
        · simp only [hstatus] at hdone ⊢
          exact ih (aligned_step_of_running hbuilt haligned hstatus) (h.step hresumes hfetch) hdone
        · simp only [hstatus]
          rw [(waits_step m hfetch).source, h.fetch hfetch hend]
        · simp only [hstatus]
          rw [(waits_step m hfetch).source, h.fetch hfetch hend]

/-- The errors of a source. -/
def errorsOf (source : List (Except LexError Token)) : List LexError :=
  source.filterMap fun
    | .error e => some e
    | .ok _ => none

theorem errorsOf_tokens (tokens : List Token) (later : List (Except LexError Token)) :
    errorsOf (tokens.map .ok ++ later) = errorsOf later := by
  simp [errorsOf, List.filterMap_append, List.filterMap_map]

/-- A run that ends on a source with an error ends with the first one. -/
theorem illegal_of_error (hbuilt : m.Built method)
    (hresumes : ∀ token, m.ResumesWith token → token.kind ≠ .endOfInput) {fuel : Nat}
    (haligned : c.Aligned (Automaton.states m.grammar)) (h : Drained c)
    (hfinished : (run m fuel c).1 ≠ .unfinished) {tokens : List Token}
    {later : List (Except LexError Token)}
    (hsource : c.source = tokens.map .ok ++ .error e :: later) :
    (run m fuel c).1 = .illegal e := by
  obtain ⟨read, hread⟩ := source_of_run hbuilt fuel haligned
  have herrors := congrArg errorsOf (hsource.symm.trans hread)
  rw [errorsOf_tokens, List.append_assoc, errorsOf_tokens] at herrors
  have hnil : _ → (run m fuel c).2.source = [] := source_eq_nil_of_run hbuilt hresumes haligned h
  cases houtcome : (run m fuel c).1 with
  | illegal e' =>
      rw [houtcome] at herrors
      exact congrArg Outcome.illegal (List.cons.inj herrors).1.symm
  | accepted value =>
      rw [houtcome, hnil (Or.inr ⟨value, houtcome⟩)] at herrors
      cases herrors
  | failed =>
      rw [houtcome, hnil (Or.inl houtcome)] at herrors
      cases herrors
  | unfinished => exact absurd houtcome hfinished

/-- Without errors in the source a run does not end with one. -/
theorem legal_of_tokens (hbuilt : m.Built method)
    (haligned : c.Aligned (Automaton.states m.grammar)) {tokens : List Token}
    (hsource : c.source = tokens.map .ok) (fuel : Nat) : (run m fuel c).1 ≠ .illegal e := by
  intro houtcome
  obtain ⟨read, hread⟩ := source_of_run hbuilt fuel haligned
  have herrors := congrArg errorsOf (hsource.symm.trans hread)
  rw [List.append_assoc, errorsOf_tokens, houtcome, ← List.append_nil (tokens.map _),
    errorsOf_tokens] at herrors
  cases herrors

end Engine

end ShiftReduce
