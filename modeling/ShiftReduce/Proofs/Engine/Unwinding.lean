import ShiftReduce.Proofs.Engine.Work

/-!
# Unwinding after an error

When a token has no action and nobody resumes parsing, the error token is looked at in its place and
levels of the stacks are given up until a state has an action on the error token. Meanwhile nothing
is read, nothing is reduced and nobody is asked. Without such a state all levels are given up, and
the token is forgotten. Read `unwinds_to_nearest` first.
-/

namespace ShiftReduce

variable {V C : Type} {m : Machine V C} {method : Method} {c c' fetched : Config V C}
  {stack : List (Frame V)} {context : C} {token : Token} {k n q : Nat}

/-- Whether an event is of a step that finds no action and keeps it to itself. -/
def Event.isSilent : Event → Bool
  | .looked _ _ _ none => true
  | .suppressed _ => true
  | .discarded _ => true
  | _ => false

namespace Config

/-- A moment of unwinding: a number of levels was given up, and the error token is looked at in
place of a token, which is the first to be read again. -/
def unwinding (c : Config V C) (token : Token) (context : C) (k : Nat) : Config V C :=
  { c with
    states := c.states.drop k
    symbols := c.symbols.drop k
    values := c.values.drop k
    lookahead := some (Engine.errorToken token.text token)
    pushback := token :: c.pushback
    errorCount := recoveryShifts
    errorOk := false
    context }

/-- The moment at which unwinding has given up everything: a run starts again on what is left of the
source. -/
def restarted (c : Config V C) (context : C) : Config V C :=
  { source := c.source
    endPos := c.endPos
    endLine := c.endLine
    errorCount := recoveryShifts
    context }

end Config

namespace Engine

/-- A number of steps that lead from one moment to another. Each finds its token at hand and no
action for it, and tells nobody. -/
inductive Silently (m : Machine V C) : Nat → Config V C → Config V C → Prop
  | refl {c : Config V C} : Silently m 0 c c
  | step {n : Nat} {c c' : Config V C} : c.lookahead ≠ none → (step m c).status = .running →
      (∀ event ∈ (step m c).events, event.isSilent = true) → Silently m n (step m c).config c' →
      Silently m (n + 1) c c'

/-- Below a number of levels there is a state with an action on the error token, and above there is
none. -/
structure Nearest (m : Machine V C) (states : List Nat) (k : Nat) : Prop where
  action : ∃ q, states[k]? = some q ∧ m.table.actionOn q .error ≠ none
  above : ∀ q ∈ states.take k, m.table.actionOn q .error = none

/-- No state, that of the bottom included, has an action on the error token. -/
def Helpless (m : Machine V C) (states : List Nat) : Prop :=
  ∀ q ∈ states, m.table.actionOn q .error = none

namespace Silently

theorem trans {c'' : Config V C} {more : Nat} (h : Silently m n c c')
    (hmore : Silently m more c' c'') : Silently m (n + more) c c'' := by
  induction h with
  | refl => rwa [Nat.zero_add]
  | step hhand hrunning hsilent _ ih =>
      rw [Nat.add_right_comm]
      exact .step hhand hrunning hsilent (ih hmore)

end Silently

/-! ## Steps of unwinding -/

section Steps

variable (c : Config V C) (token : Token) (context : C)

theorem state_unwinding (hstate : c.states[k]? = some q) :
    (c.unwinding token context k).state = q := by
  rw [Config.state, Config.unwinding, List.head?_drop, hstate]
  rfl

/-- While levels are given up, an error token without action is looked at and suppressed. -/
theorem step_unwinding (hstate : c.states[k]? = some q)
    (hnone : m.table.actionOn q .error = none) :
    step m (c.unwinding token context k) =
      after
        [.looked q (c.unwinding token context k).stackSymbols (errorToken token.text token) none,
          .suppressed (errorToken token.text token)]
        (unwind (c.unwinding token context k).fetch.2 (errorToken token.text token)) := by
  have hfetch : (c.unwinding token context k).fetch =
      (.ok (errorToken token.text token), (c.unwinding token context k).fetch.2) := rfl
  have hlooked : (c.unwinding token context k).fetch.2.state = q :=
    state_unwinding c token context hstate
  have haction : m.table.actionOn q (errorToken token.text token).kind = none := hnone
  rw [step_of_fetch hfetch, hlooked, haction]
  rfl

/-- A level without action on the error token is given up. -/
theorem silently_giveUp (hstate : c.states[k]? = some q) (hhigh : k + 1 < c.states.length)
    (hnone : m.table.actionOn q .error = none) :
    Silently m 1 (c.unwinding token context k) (c.unwinding token context (k + 1)) := by
  have hstep := step_unwinding c token context hstate hnone
  have hlevels : 1 < (c.unwinding token context k).fetch.2.states.length := by
    show 1 < (c.states.drop k).length
    rw [List.length_drop]
    omega
  rw [unwind_of_error hlevels rfl] at hstep
  have hconfig : (step m (c.unwinding token context k)).config =
      c.unwinding token context (k + 1) := by
    rw [hstep]
    simp only [after_config, Config.unwinding, Config.fetch, Config.pop, List.tail_drop]
  refine .step (Option.some_ne_none _) (by rw [hstep]; rfl) ?_ (hconfig ▸ .refl)
  rw [hstep]
  exact List.forall_mem_cons.mpr ⟨rfl, List.forall_mem_singleton.mpr rfl⟩

/-- If the bottom has no action on the error token either, the token is forgotten. -/
theorem silently_restart (hstack : c.Stacked stack) (hnone : m.table.actionOn 0 .error = none) :
    Silently m 1 (c.unwinding token context stack.length) (c.restarted context) := by
  have hbottom {α : Type} (f : Frame V → α) (bottom : α) :
      (stack.map f ++ [bottom]).drop stack.length = [bottom] := by
    rw [drop_levels f bottom (Nat.le_refl _), List.drop_length]
    rfl
  have hstates : c.states.drop stack.length = [0] := by rw [hstack.states, hbottom]
  have hsymbols : c.symbols.drop stack.length = [.endOfInput] := by rw [hstack.symbols, hbottom]
  have hvalues : c.values.drop stack.length = [.empty] := by rw [hstack.values, hbottom]
  have hstate : c.states[stack.length]? = some 0 := by
    rw [← List.head?_drop, hstates]
    rfl
  have hstep := step_unwinding c token context hstate hnone
  have hlow : (c.unwinding token context stack.length).fetch.2.states.length ≤ 1 := by
    show (c.states.drop stack.length).length ≤ 1
    rw [hstates]
    exact Nat.le_refl 1
  rw [unwind_of_low hlow rfl] at hstep
  have hconfig : (step m (c.unwinding token context stack.length)).config =
      c.restarted context := by
    rw [hstep]
    simp only [after_config, Config.unwinding, Config.fetch, Config.restarted, hstates, hsymbols,
      hvalues]
  refine .step (Option.some_ne_none _) (by rw [hstep]; rfl) ?_ (hconfig ▸ .refl)
  rw [hstep]
  exact List.forall_mem_cons.mpr
    ⟨rfl, List.forall_mem_cons.mpr ⟨rfl, List.forall_mem_singleton.mpr rfl⟩⟩

/-- Levels without action on the error token are given up one after the other. -/
theorem silently_unwinding (hlt : k < c.states.length)
    (hnone : ∀ q ∈ c.states.take k, m.table.actionOn q .error = none) :
    Silently m k (c.unwinding token context 0) (c.unwinding token context k) := by
  induction k with
  | zero => exact .refl
  | succ k ih =>
      have hstate := List.getElem?_eq_getElem (Nat.lt_of_succ_lt hlt)
      have htaken : c.states.take (k + 1) = c.states.take k ++ [c.states[k]] :=
        (List.take_append_getElem _).symm
      rw [htaken] at hnone
      have habove := ih (Nat.lt_of_succ_lt hlt) fun q hmem =>
        hnone q (List.mem_append_left _ hmem)
      exact habove.trans (silently_giveUp c token context hstate hlt
        (hnone _ (List.mem_append_right _ (List.mem_singleton_self _))))

/-- Without any action on the error token everything is given up. -/
theorem Helpless.silently (h : Helpless m c.states) (hstack : c.Stacked stack) :
    Silently m c.states.length (c.unwinding token context 0) (c.restarted context) := by
  have hheight := hstack.length_states
  have hlt : stack.length < c.states.length := by
    rw [hheight]
    exact Nat.lt_succ_self _
  have hlevels := silently_unwinding c token context hlt fun q hmem =>
    h q (List.mem_of_mem_take hmem)
  have hbottom : 0 ∈ c.states := by
    rw [hstack.states]
    exact List.mem_append_right _ (List.mem_singleton_self 0)
  rw [hheight]
  exact hlevels.trans (silently_restart c token context hstack (h 0 hbottom))

end Steps

/-- Some state has an action on the error token, and then there is a nearest one, or none has. -/
theorem nearest_or_helpless (m : Machine V C) (states : List Nat) :
    (∃ k < states.length, Nearest m states k) ∨ Helpless m states := by
  by_cases h : ∃ k : Nat, ∃ q, states[k]? = some q ∧ m.table.actionOn q .error ≠ none
  · obtain ⟨q, hq, haction⟩ := Nat.find_spec h
    refine Or.inl ⟨Nat.find h, (List.getElem?_eq_some_iff.mp hq).1, ⟨q, hq, haction⟩, ?_⟩
    intro other hmem
    obtain ⟨j, hj, hother⟩ := List.mem_take_iff_getElem.mp hmem
    obtain ⟨hless, hlt⟩ := Nat.lt_min.mp hj
    by_contra hne
    refine Nat.find_min h hless ⟨other, ?_, hne⟩
    rw [List.getElem?_eq_getElem hlt, hother]
  · refine Or.inr fun q hmem => ?_
    obtain ⟨k, hk⟩ := List.mem_iff_getElem?.mp hmem
    by_contra hne
    exact h ⟨k, q, hk, hne⟩

/-! ## The error -/

theorem fetch_errorOk (c : Config V C) : c.fetch.2.errorOk = c.errorOk := by
  unfold Config.fetch Config.nextToken
  repeat' split
  all_goals rfl

/-- If nobody resumes parsing, unwinding begins. -/
theorem error_unwinds (hhigh : 1 < c.states.length) (htop : c.symbols.head? ≠ some .error)
    (hend : token.kind ≠ .endOfInput) (herror : token.kind ≠ .error)
    (hpanics : ∀ handler, m.handler = some handler → c.errorCount = 0 ∨ c.errorOk = true →
      (handler c.context (some token)).1 = .unwind) :
    ∃ events context, error m c token =
      after events { status := .running, config := c.unwinding token context 0 } := by
  have hlevel : c.symbols.head?.any Symbol.isError = false := by
    rw [← Bool.not_eq_true, Option.any_eq_true]
    rintro ⟨symbol, hsymbol, hisError⟩
    exact htop (hsymbol.trans (congrArg some (eq_of_beq hisError)))
  have hunwind : ∀ (errorOk : Bool) (context : C), errorOk = false →
      unwind { c with errorCount := recoveryShifts, errorOk, context } token =
        { status := .running, config := c.unwinding token context 0 } := by
    intro errorOk context hok
    have hlevels : 1 < ({ c with errorCount := recoveryShifts, errorOk, context } :
        Config V C).states.length := hhigh
    rw [unwind_of_plain hlevels (beq_false_of_ne hend) (beq_false_of_ne herror), hok]
    simp only [hlevel, Bool.false_eq_true, if_false]
    rfl
  have hreportable : reportable token = some token := if_neg (by simpa [Symbol.isEnd] using hend)
  unfold error
  dsimp only
  rw [hreportable]
  split
  · rename_i hreport
    rw [Bool.or_eq_true, beq_iff_eq] at hreport
    cases hhandler : m.handler with
    | none => exact ⟨_, _, congrArg (after _) (hunwind false c.context rfl)⟩
    | some handler =>
        have hanswered := hunwind false (handler c.context (some token)).2 rfl
        refine ⟨_, _, congrArg (after _) (Eq.trans ?_ hanswered)⟩
        rw [hpanics handler hhandler hreport]
        rfl
  · rename_i hsilent
    rw [Bool.or_eq_true, not_or, Bool.not_eq_true, Bool.not_eq_true] at hsilent
    exact ⟨_, _, congrArg (after _) (hunwind c.errorOk c.context hsilent.2)⟩

/-- The step on a token without action begins to unwind, if nobody resumes parsing. -/
theorem step_begins (hfetch : c.fetch = (.ok token, fetched))
    (hnone : m.table.actionOn c.state token.kind = none) (hhigh : 1 < c.states.length)
    (htop : c.symbols.head? ≠ some .error) (hend : token.kind ≠ .endOfInput)
    (herror : token.kind ≠ .error)
    (hpanics : ∀ handler, m.handler = some handler → c.errorCount = 0 ∨ c.errorOk = true →
      (handler c.context (some token)).1 = .unwind) :
    (step m c).status = .running ∧
      (step m c).config = fetched.unwinding token (step m c).config.context 0 := by
  obtain ⟨hcontext, hcount⟩ := fetch_bookkeeping c
  have hsame := sameStacks_of_fetch hfetch
  have hok := fetch_errorOk c
  rw [hfetch] at hcontext hcount hok
  dsimp only at hcontext hcount hok
  rw [Config.state, ← hsame.states] at hnone
  rw [← hcontext, ← hcount, ← hok] at hpanics
  rw [← hsame.states] at hhigh
  rw [← hsame.symbols] at htop
  obtain ⟨events, context, hunwinds⟩ := error_unwinds hhigh htop hend herror hpanics
  have hstep := step_of_fetch (m := m) hfetch
  rw [show m.table.actionOn fetched.state token.kind = none from hnone, act, hunwinds] at hstep
  rw [hstep]
  exact ⟨rfl, rfl⟩

/-! ## What was put back -/

theorem recoveryShifts_ne_zero : recoveryShifts ≠ 0 := by decide

/-- A moment at which nothing was put back, or at which the error token is looked at and errors are
not reported. -/
def Withheld (c : Config V C) : Prop :=
  c.pushback = [] ∨
    (∃ token, c.lookahead = some token ∧ token.kind = .error) ∧ c.errorCount ≠ 0 ∧
      c.errorOk = false

theorem fetch_pushback (h : c.pushback = []) : c.fetch.2.pushback = [] := by
  unfold Config.fetch Config.nextToken
  simp only [h]
  repeat' split
  all_goals first
    | rfl
    | exact h

/-- After a token was taken out, nothing is put back or the token is the error token and errors are
not reported. -/
theorem Withheld.fetch (h : Withheld c) (hfetch : c.fetch = (.ok token, fetched)) :
    fetched.pushback = [] ∨
      token.kind = .error ∧ fetched.errorCount ≠ 0 ∧ fetched.errorOk = false := by
  rcases h with hnil | ⟨⟨error, hlookahead, hkind⟩, hsilent⟩
  · have hempty := fetch_pushback hnil
    rw [hfetch] at hempty
    exact Or.inl hempty
  · rw [Config.fetch, hlookahead] at hfetch
    cases hfetch
    exact Or.inr ⟨hkind, hsilent⟩

/-- Unwinding puts a token back only behind the error token. -/
theorem withheld_unwind (hcount : c.errorCount ≠ 0) (hok : c.errorOk = false)
    (h : c.pushback = [] ∨ token.kind = .error) : Withheld (unwind c token).config := by
  have hnil : token.kind ≠ .error → c.pushback = [] := fun hkind => h.resolve_right hkind
  unfold unwind
  split
  · exact Or.inl rfl
  · split
    · rename_i hend
      exact Or.inl (hnil fun hkind => by rw [hkind] at hend; cases hend)
    · split
      · rename_i hkind
        exact Or.inr ⟨⟨token, rfl, eq_of_beq hkind⟩, hcount, hok⟩
      · rename_i hkind
        split
        · exact Or.inl (hnil fun herror => hkind (by rw [herror]; rfl))
        · exact Or.inr ⟨⟨_, rfl, rfl⟩, hcount, hok⟩

/-- So does all the dealing with an error. -/
theorem withheld_error (h : c.pushback = [] ∨
      token.kind = .error ∧ c.errorCount ≠ 0 ∧ c.errorOk = false) :
    Withheld (error m c token).config := by
  have hunwind : ∀ (errorOk : Bool) (context : C), errorOk = false →
      Withheld (unwind { c with errorCount := recoveryShifts, errorOk, context } token).config :=
    fun errorOk context hok => withheld_unwind recoveryShifts_ne_zero hok (h.imp_right And.left)
  unfold error
  dsimp only
  split
  · rename_i hreport
    -- an error is only reported when nothing was put back
    have hnil : c.pushback = [] := by
      refine h.resolve_right fun hsilent => ?_
      obtain ⟨_, hcount, hok⟩ := hsilent
      simp [hcount, hok] at hreport
    split
    · rename_i handler _
      generalize handler c.context (reportable token) = answer
      obtain ⟨_ | _, context⟩ := answer
      · dsimp only [after_config, answered]
        split
        · exact Or.inl hnil
        · exact Or.inl hnil
      · exact hunwind false context rfl
    · dsimp only [after_config]
      split
      · exact Or.inl hnil
      · exact hunwind false c.context rfl
  · rename_i hsilent
    rw [Bool.or_eq_true, not_or, Bool.not_eq_true, Bool.not_eq_true] at hsilent
    exact hunwind c.errorOk c.context hsilent.2

/-- A complaint puts the token back behind the error token. -/
theorem withheld_reduce (h : c.pushback = []) (p : Production (Reduction V C)) (token : Token) :
    Withheld (reduce m c p token).config := by
  have hgoOn : ∀ (c' : Config V C) (slot : Slot V), c'.pushback = [] →
      Withheld (goOn m c' p slot token).config := by
    intro c' slot hnil
    unfold goOn
    split
    · exact Or.inl hnil
    · exact Or.inl hnil
  cases haction : p.action with
  | none =>
      rw [reduce_of_none haction]
      exact hgoOn _ _ h
  | some action =>
      rcases hrun : action.run.run ⟨c.context, c.rightSide p.length⟩ with ⟨_ | value, after⟩
      · rw [reduce_of_error haction hrun]
        exact Or.inr ⟨⟨_, rfl, rfl⟩, recoveryShifts_ne_zero, rfl⟩
      · rw [reduce_of_ok haction hrun]
        exact hgoOn _ _ h

/-- If the error token never has an action, no step puts a token back otherwise. -/
theorem Withheld.step (herror : ∀ q, m.table.actionOn q .error = none) (h : Withheld c) :
    Withheld (step m c).config := by
  rcases hfetch : c.fetch with ⟨e | token, fetched⟩
  · rw [step_of_fetch_error m hfetch]
    rcases h with hnil | ⟨⟨error, hlookahead, _⟩, _⟩
    · have hempty := fetch_pushback hnil
      rw [hfetch] at hempty
      exact Or.inl hempty
    · rw [Config.fetch, hlookahead] at hfetch
      cases hfetch
  · have hfetched := h.fetch hfetch
    rw [step_of_fetch hfetch, after_config]
    cases haction : m.table.actionOn fetched.state token.kind with
    | none => exact withheld_error hfetched
    | some action =>
        have hnil : fetched.pushback = [] := by
          refine hfetched.resolve_right fun hkind => ?_
          rw [hkind.1, herror] at haction
          cases haction
        cases action with
        | shift n => exact Or.inl hnil
        | accept => exact Or.inl hnil
        | reduce i =>
            unfold act
            dsimp only
            split
            · exact withheld_reduce hnil _ token
            · exact Or.inl hnil

/-! ## Unwinding -/

/-- What happens after a token has no action, if nobody resumes parsing and the topmost level holds
no error token. Levels are given up, silently, until the nearest state with an action on the error
token looks at it in place of the token; or, without such a state, everything is given up and the
token is forgotten. If no production has the error token it is the latter, and the run starts again
with the next token of the source. -/
theorem unwinds_to_nearest (hbuilt : m.Built method) {source : List (Except LexError Token)}
    {context : C} {before : Nat} (hreached : run m before { source, context } = (.unfinished, c))
    (hfetch : c.fetch = (.ok token, fetched)) (hnone : m.table.actionOn c.state token.kind = none)
    (hend : token.kind ≠ .endOfInput) (herror : token.kind ≠ .error)
    (hhigh : 1 < c.states.length) (htop : c.symbols.head? ≠ some .error)
    (hpanics : ∀ handler, m.handler = some handler → c.errorCount = 0 ∨ c.errorOk = true →
      (handler c.context (some token)).1 = .unwind) :
    (step m c).status = .running ∧
      ((∃ k, Nearest m c.states k ∧ Silently m k (step m c).config
          (fetched.unwinding token (step m c).config.context k)) ∨
        Helpless m c.states ∧ Silently m c.states.length (step m c).config
          (fetched.restarted (step m c).config.context)) ∧
      (Table.ErrorNowhere m.grammar → fetched.waiting = [] ∧
        Silently m c.states.length (step m c).config
          (fetched.restarted (step m c).config.context)) := by
  obtain ⟨stack, hstack, _⟩ : c.Aligned (Automaton.states m.grammar) := by
    have haligned := aligned_run hbuilt before (.start _ source context)
    rw [hreached] at haligned
    rcases haligned with ⟨_, haligned⟩ | ⟨_, haccepted, _⟩
    · exact haligned
    · cases haccepted
  have hfetched := hstack.fetch hfetch
  have hstates := (sameStacks_of_fetch hfetch).states
  obtain ⟨hrunning, hconfig⟩ := step_begins hfetch hnone hhigh htop hend herror hpanics
  rw [hconfig, ← hstates]
  refine ⟨hrunning, ?_, fun hnowhere => ?_⟩
  · obtain ⟨k, hk, hnearest⟩ | hhelpless := nearest_or_helpless m fetched.states
    · exact Or.inl ⟨k, hnearest, silently_unwinding fetched token _ hk hnearest.above⟩
    · exact Or.inr ⟨hhelpless, hhelpless.silently fetched token _ hfetched⟩
  · have hnever := actionOn_error hbuilt hnowhere
    have hhelpless : Helpless m fetched.states := fun _ _ => hnever _
    have hwithheld : Withheld (run m before { source, context }).2 :=
      run_induction (P := Withheld) (fun _ h => h.step hnever) before (Or.inl rfl)
    rw [hreached] at hwithheld
    have hempty := (hwithheld.fetch hfetch).resolve_right fun hkind => herror hkind.1
    have hlooked := fetch_lookahead c
    rw [hfetch] at hlooked
    refine ⟨?_, hhelpless.silently fetched token _ hfetched⟩
    rw [Config.waiting, hlooked, hempty]
    rfl

/-- Blocks of one number, in place of which an error may stand. -/
def blocks : Grammar (Reduction Nat Nat) :=
  let g := Grammar.blank
  let g := (g.addProduction "block" [.literal '{', .nonterminal "body", .literal '}'] none none).2
  let g := (g.addProduction "body" [.literal '1'] none none).2
  (g.addProduction "body" [.error] none none).2

theorem made_blocks : blocks.Made :=
  .addProduction _ _ _ _ (.addProduction _ _ _ _ (.addProduction _ _ _ _ Grammar.made_blank))

/-- The machine of blocks, which counts the errors that are reported. -/
def blockMachine : Machine Nat Nat :=
  ⟨blocks.prepare.2, Table.ofStates blocks.prepare.2 (Automaton.states blocks.prepare.2) .lalr,
    some fun errors _ => (.unwind, errors + 1)⟩

/-- After the first number of a block, which may not be followed by another. -/
def twoNumbers : Config Nat Nat :=
  { states := [4, 2, 0]
    symbols := [.literal '1', .literal '{', .endOfInput]
    values := [.token (Machine.parenthesis '1'), .token (Machine.parenthesis '{'), .empty]
    source := ['1', '}'].map fun c => .ok (Machine.parenthesis c)
    endPos := 1
    context := 0 }

/-- At the second number of a block the first is given up: where it stood, an error may stand. -/
theorem unwinds_to_nearest_blocks :
    ∃ fetched, blockMachine.Built .lalr ∧
      run blockMachine 2
          { source := ['{', '1', '1', '}'].map fun c => .ok (Machine.parenthesis c)
            context := 0 } = (.unfinished, twoNumbers) ∧
      twoNumbers.fetch = (.ok (Machine.parenthesis '1'), fetched) ∧
      blockMachine.table.actionOn twoNumbers.state (.literal '1') = none ∧
      Nearest blockMachine twoNumbers.states 1 ∧
      Silently blockMachine 1 (step blockMachine twoNumbers).config
        (fetched.unwinding (Machine.parenthesis '1') 1 1) := by
  have hbuilt : blockMachine.Built .lalr :=
    Machine.built_of_prepare made_blocks rfl _
  have hreached : run blockMachine 2
      { source := ['{', '1', '1', '}'].map fun c => .ok (Machine.parenthesis c), context := 0 } =
        (.unfinished, twoNumbers) := rfl
  have hnone : blockMachine.table.actionOn twoNumbers.state (.literal '1') = none := by
    decide +kernel
  have hbelow : blockMachine.table.actionOn 2 .error ≠ none := by decide +kernel
  have htop : blockMachine.table.actionOn 4 .error = none := by decide +kernel
  obtain ⟨_, hunwinds, _⟩ := unwinds_to_nearest hbuilt hreached rfl hnone (by decide) (by decide)
    (by decide) (by decide) (fun handler hhandler _ => by cases hhandler; rfl)
  rcases hunwinds with ⟨k, hnearest, hsilent⟩ | ⟨hhelpless, _⟩
  · have hone : k = 1 := by
      by_contra hne
      rcases Nat.lt_or_gt_of_ne hne with hlt | hgt
      · obtain rfl := Nat.lt_one_iff.mp hlt
        obtain ⟨_, hstate, haction⟩ := hnearest.action
        cases hstate
        exact haction htop
      · refine hbelow (hnearest.above 2 (List.mem_take_iff_getElem.mpr ⟨1, ?_, rfl⟩))
        exact Nat.lt_min.mpr ⟨hgt, by decide⟩
    subst hone
    exact ⟨_, hbuilt, hreached, rfl, hnone, hnearest, hsilent⟩
  · exact absurd (hhelpless 2 (by decide)) hbelow

end Engine

end ShiftReduce
