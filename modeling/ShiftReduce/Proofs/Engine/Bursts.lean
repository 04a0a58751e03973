import ShiftReduce.Proofs.Engine.Unwinding

/-!
# When errors are reported again

After an error the handler is not asked again before a number of tokens was shifted, unless a
reduction or the handler itself ended recovery. `Books` says what each kind of step does to the
count of missing shifts and to the flag that ends recovery; what follows for runs is in
`reports_apart`, which is to be read first.
-/

namespace ShiftReduce

variable {V C : Type} {m : Machine V C} {c second : Config V C} {token : Token}
  {source : List (Except LexError Token)} {context : C} {front between back : List (Config V C)}

/-- What matters for error recovery among the things that happen in a step. -/
inductive Sign where
  /-- A token was shifted, which may be the error token. -/
  | shift
  /-- A token had no action. -/
  | error
  /-- A reduction complained. -/
  | fault
  /-- The error handler was asked. -/
  | answer (answer : Recovery)
deriving DecidableEq

/-- The sign of an event, if it matters for error recovery. -/
def Event.sign? : Event → Option Sign
  | .looked _ _ _ none => some .error
  | .shifted _ => some .shift
  | .faulted _ _ => some .fault
  | .consulted _ answer => some (.answer answer)
  | _ => none

/-- The signs of a turn in order. -/
def Turn.signs (turn : Turn V C) : List Sign :=
  turn.events.filterMap Event.sign?

namespace Engine

/-- The configurations at which a run takes its steps, at most a given number, in order. -/
def moments (m : Machine V C) : Nat → Config V C → List (Config V C)
  | 0, _ => []
  | fuel + 1, c =>
      match (step m c).status with
      | .running => c :: moments m fuel (step m c).config
      | _ => [c]

/-- The number of tokens that are shifted at some moments. -/
def shiftsAt (m : Machine V C) (moments : List (Config V C)) : Nat :=
  moments.countP fun c => decide (Sign.shift ∈ (step m c).signs)

/-- A moment at which a production is reduced whose action ends error recovery. -/
def Recovers (m : Machine V C) (c : Config V C) : Prop :=
  ∃ token fetched i p action, c.fetch = (.ok token, fetched) ∧
    m.table.actionOn fetched.state token.kind = some (.reduce i) ∧
    m.grammar.production? i = some p ∧ p.action = some action ∧
    (action.run.run ⟨fetched.context, fetched.rightSide p.length⟩).2.rhs.recovered = true

/-- A moment at which nobody is asked, and recovery goes on if it does. -/
structure Unanswered (m : Machine V C) (c : Config V C) : Prop where
  silent : ∀ answer, .answer answer ∉ (step m c).signs
  lasting : ¬ Recovers m c

/-! ## The books of a step -/

/-- How the signs of a step at a moment go with the count of missing shifts and the flag after it,
one constructor for each kind of step. -/
inductive Books (m : Machine V C) (c : Config V C) : List Sign → Nat → Bool → Prop
  | shift : Books m c [.shift] (c.errorCount - 1) c.errorOk
  /-- Only a reduction can end recovery. -/
  | calm {ok : Bool} : ok = c.errorOk ∨ Recovers m c → Books m c [] c.errorCount ok
  | fault : Books m c [.fault] recoveryShifts false
  /-- An error that comes too soon after another starts the count again. -/
  | suppressed : c.errorCount ≠ 0 → c.errorOk = false → Books m c [.error] recoveryShifts false
  | reported : m.handler = none → Books m c [.error] recoveryShifts false
  /-- Only an answer that resumes parsing leaves recovery. -/
  | answered {answer : Recovery} {ok : Bool} : c.errorCount = 0 ∨ c.errorOk = true →
      (answer = .unwind → ok = false) → Books m c [.error, .answer answer] recoveryShifts ok

@[simp] theorem signs_after (events : List Event) (turn : Turn V C) :
    (after events turn).signs = events.filterMap Event.sign? ++ turn.signs :=
  List.filterMap_append

/-- Unwinding shows nothing and leaves the books alone. -/
theorem unwind_signs (c : Config V C) (token : Token) :
    (unwind c token).signs = [] ∧ (unwind c token).config.errorCount = c.errorCount ∧
      (unwind c token).config.errorOk = c.errorOk := by
  unfold unwind
  repeat' split
  all_goals exact ⟨rfl, rfl, rfl⟩

/-- Going on after a reduction does so too, whether there is a goto or not. -/
theorem goOn_signs (c : Config V C) (p : Production (Reduction V C)) (slot : Slot V)
    (token : Token) : (goOn m c p slot token).signs = [] ∧
      (goOn m c p slot token).config.errorCount = c.errorCount ∧
      (goOn m c p slot token).config.errorOk = c.errorOk := by
  unfold goOn
  split
  · exact ⟨rfl, rfl, rfl⟩
  · exact ⟨rfl, rfl, rfl⟩

/-- Unless the handler resumes parsing, its answer does not end recovery. -/
theorem answered_signs (c : Config V C) (token : Token) (answer : Recovery) :
    (answered c token answer).signs = [] ∧
      (answered c token answer).config.errorCount = c.errorCount ∧
      (answer = .unwind → (answered c token answer).config.errorOk = c.errorOk) := by
  cases answer with
  | resume answer =>
      unfold answered
      dsimp only
      split
      · exact ⟨rfl, rfl, nofun⟩
      · exact ⟨rfl, rfl, nofun⟩
  | unwind =>
      obtain ⟨hsigns, hcount, hok⟩ := unwind_signs c token
      exact ⟨hsigns, hcount, fun _ => hok⟩

/-- An error is reported, and then the handler is asked if there is one, or it comes too soon. The
books at the moment before the token was taken out are the same. -/
theorem error_books {before : Config V C} (hcount : c.errorCount = before.errorCount)
    (hok : c.errorOk = before.errorOk) (token : Token) :
    Books m before (.error :: (error m c token).signs) (error m c token).config.errorCount
      (error m c token).config.errorOk := by
  unfold error
  dsimp only
  rw [hcount, hok]
  split
  · rename_i hreport
    rw [Bool.or_eq_true, beq_iff_eq] at hreport
    split
    · rename_i handler _
      obtain ⟨answer, context⟩ := handler c.context (reportable token)
      obtain ⟨hsigns, hcount, hok⟩ := answered_signs
        { c with errorCount := recoveryShifts, errorOk := false, context } token answer
      dsimp only
      rw [signs_after, after_config, hsigns, hcount]
      exact .answered hreport hok
    · rename_i hnone
      rw [signs_after, after_config]
      split
      · exact .reported hnone
      · obtain ⟨hsigns, hcount, hok⟩ := unwind_signs
          { c with errorCount := recoveryShifts, errorOk := false } token
        rw [hsigns, hcount, hok]
        exact .reported hnone
  · rename_i hsilent
    rw [Bool.or_eq_true, not_or, beq_iff_eq, Bool.not_eq_true] at hsilent
    obtain ⟨hsigns, hcount, hkept⟩ := unwind_signs
      { c with errorCount := recoveryShifts, errorOk := before.errorOk } token
    rw [signs_after, after_config, hsigns, hcount, hkept, hsilent.2]
    exact .suppressed hsilent.1 hsilent.2

/-- A reduction leaves the books alone, except that its action may end recovery or complain. -/
theorem reduce_books {before : Config V C} (hcount : c.errorCount = before.errorCount)
    (hok : c.errorOk = before.errorOk) (p : Production (Reduction V C)) (token : Token)
    (hrecovers : ∀ action, p.action = some action →
      (action.run.run ⟨c.context, c.rightSide p.length⟩).2.rhs.recovered = true →
        Recovers m before) :
    Books m before (reduce m c p token).signs (reduce m c p token).config.errorCount
      (reduce m c p token).config.errorOk := by
  cases haction : p.action with
  | none =>
      obtain ⟨hsigns, hcount', hok'⟩ :=
        goOn_signs (m := m) ((c.cut p.length).truncate p.length) p .empty token
      rw [reduce_of_none haction, hsigns, hcount', hok']
      exact hcount.symm ▸ .calm (Or.inl hok)
  | some action =>
      have hends := hrecovers action haction
      rcases hrun : action.run.run ⟨c.context, c.rightSide p.length⟩ with ⟨_ | value, after⟩
      · rw [reduce_of_error haction hrun]
        exact .fault
      · rw [hrun] at hends
        obtain ⟨hsigns, hcount', hok'⟩ := goOn_signs (m := m)
          (((c.cut p.length).acted after).truncate p.length) p (.value value) token
        rw [reduce_of_ok haction hrun, hsigns, hcount', hok']
        show Books m before [] c.errorCount (c.errorOk || after.rhs.recovered)
        rw [hcount]
        refine .calm ?_
        cases hrecovered : after.rhs.recovered with
        | false => exact Or.inl (by rw [Bool.or_false, hok])
        | true => exact Or.inr (hends hrecovered)

/-- What a step shows goes with what it does to the books. -/
theorem step_books (m : Machine V C) (c : Config V C) :
    Books m c (step m c).signs (step m c).config.errorCount (step m c).config.errorOk := by
  obtain ⟨_, hcount⟩ := fetch_bookkeeping c
  have hok := fetch_errorOk c
  rcases hfetch : c.fetch with ⟨e | token, fetched⟩
  · rw [hfetch] at hcount hok
    rw [step_of_fetch_error m hfetch, hcount]
    exact .calm (Or.inl hok)
  · rw [hfetch] at hcount hok
    rw [step_of_fetch hfetch, signs_after, after_config]
    cases haction : m.table.actionOn fetched.state token.kind with
    | none => exact error_books hcount hok token
    | some action =>
        cases action with
        | shift n =>
            dsimp only [act]
            have hshift : Books m c [.shift] (c.errorCount - 1) c.errorOk := .shift
            rw [← hcount, ← hok] at hshift
            exact hshift
        | accept =>
            have hcalm : Books m c [] c.errorCount fetched.errorOk := .calm (Or.inl hok)
            rw [← hcount] at hcalm
            exact hcalm
        | reduce i =>
            unfold act
            dsimp only
            split
            · rename_i p hp
              exact reduce_books hcount hok p token fun action hactionOf hrecovered =>
                ⟨token, fetched, i, p, action, hfetch, haction, hp, hactionOf, hrecovered⟩
            · have hcalm : Books m c [] c.errorCount fetched.errorOk := .calm (Or.inl hok)
              rw [← hcount] at hcalm
              exact hcalm

namespace Books

variable {signs : List Sign} {n count : Nat} {ok : Bool} {answer : Recovery}

/-- The handler is only asked when no shift is missing or recovery was ended. -/
theorem asked (h : Books m c signs count ok) (hanswer : .answer answer ∈ signs) :
    c.errorCount = 0 ∨ c.errorOk = true := by
  cases h with
  | answered hreport _ => exact hreport
  | _ => simp at hanswer

/-- The handler is asked at most once in a step, and only about an error. -/
theorem answer_unique (h : Books m c signs count ok) (hanswer : .answer answer ∈ signs) :
    .error ∈ signs ∧ ∀ other, .answer other ∈ signs → other = answer := by
  cases h with
  | answered _ _ => simp_all
  | _ => simp at hanswer

/-- After an error or a complaint the whole count is missing, unless the handler resumed parsing. -/
theorem resets (h : Books m c signs count ok) (hsigns : .error ∈ signs ∨ .fault ∈ signs)
    (hunwinds : ∀ answer, .answer answer ∈ signs → answer = .unwind) :
    count = recoveryShifts ∧ ok = false := by
  cases h with
  | shift => simp at hsigns
  | calm _ => simp at hsigns
  | fault => exact ⟨rfl, rfl⟩
  | suppressed _ _ => exact ⟨rfl, rfl⟩
  | reported _ => exact ⟨rfl, rfl⟩
  | @answered answer ok _ hunwind =>
      exact ⟨rfl, hunwind (hunwinds answer (by simp))⟩

/-- While recovery lasts, only a shift lowers the count of missing shifts. -/
theorem lasts (h : Books m c signs count ok) (hok : c.errorOk = false)
    (hsilent : ∀ answer, .answer answer ∉ signs) (hlasting : ¬ Recovers m c)
    (hn : n ≤ recoveryShifts) (hcount : n ≤ c.errorCount) :
    ok = false ∧ n ≤ count + if .shift ∈ signs then 1 else 0 := by
  cases h with
  | shift =>
      rw [if_pos List.mem_cons_self]
      exact ⟨hok, by omega⟩
  | calm hkept => exact ⟨(hkept.resolve_right hlasting).trans hok, by omega⟩
  | fault => exact ⟨rfl, by omega⟩
  | suppressed _ _ => exact ⟨rfl, by omega⟩
  | reported _ => exact ⟨rfl, by omega⟩
  | @answered answer _ _ _ => exact absurd (by simp) (hsilent answer)

/-- Without an error and a complaint no shift begins to be missing. -/
theorem stays_zero (h : Books m c signs count ok) (herror : .error ∉ signs)
    (hfault : .fault ∉ signs) (hzero : c.errorCount = 0) : count = 0 := by
  cases h with
  | shift => rw [hzero]
  | calm _ => exact hzero
  | fault => simp at hfault
  | _ => simp at herror

/-- When no shift is missing, an error makes the machine ask its handler. -/
theorem asks (h : Books m c signs count ok) (herror : .error ∈ signs) (hzero : c.errorCount = 0)
    (hhandler : m.handler ≠ none) : ∃ answer, .answer answer ∈ signs := by
  cases h with
  | suppressed hcount _ => exact absurd hzero hcount
  | reported hnone => exact absurd hnone hhandler
  | @answered answer _ _ _ => exact ⟨answer, by simp⟩
  | _ => simp at herror

end Books

/-! ## The moments of a run -/

section Moments

variable {fuel : Nat} {rest : List (Config V C)}

/-- A run begins where it is said to begin, and goes on where its first step leads. -/
theorem moments_cons (h : moments m fuel c = second :: rest) :
    second = c ∧ (rest = [] ∨ ∃ fewer, moments m fewer (step m c).config = rest) := by
  cases fuel with
  | zero => cases h
  | succ fuel =>
      unfold moments at h
      split at h
      · cases h
        exact ⟨rfl, Or.inr ⟨fuel, rfl⟩⟩
      · cases h
        exact ⟨rfl, Or.inl rfl⟩

/-- From each of its moments on, a run is a run from there. -/
theorem moments_suffix (h : moments m fuel c = front ++ second :: rest) :
    ∃ fewer, moments m fewer second = second :: rest := by
  induction front generalizing fuel c with
  | nil =>
      obtain ⟨rfl, _⟩ := moments_cons h
      exact ⟨fuel, h⟩
  | cons first front ih =>
      obtain ⟨_, hnil | ⟨fewer, hfewer⟩⟩ := moments_cons h
      · simp at hnil
      · exact ih hfewer

theorem shiftsAt_cons (m : Machine V C) (c : Config V C) (rest : List (Config V C)) :
    shiftsAt m (c :: rest) =
      (if .shift ∈ (step m c).signs then 1 else 0) + shiftsAt m rest := by
  simp only [shiftsAt, List.countP_cons, decide_eq_true_eq]
  exact Nat.add_comm _ _

/-- While nobody is asked and recovery lasts, the shifts that are missing go down by those that are
made only. -/
theorem missing_between {n : Nat} (h : moments m fuel c = between ++ second :: rest)
    (hok : c.errorOk = false) (hn : n ≤ recoveryShifts) (hcount : n ≤ c.errorCount)
    (hquiet : ∀ other ∈ between, Unanswered m other) :
    second.errorOk = false ∧ n ≤ second.errorCount + shiftsAt m between := by
  induction between generalizing fuel c n with
  | nil =>
      obtain ⟨rfl, _⟩ := moments_cons h
      exact ⟨hok, Nat.le_add_right_of_le hcount⟩
  | cons first between ih =>
      obtain ⟨rfl, hnil | ⟨fewer, hfewer⟩⟩ := moments_cons h
      · simp at hnil
      · obtain ⟨⟨hsilent, hlasting⟩, hlater⟩ := List.forall_mem_cons.mp hquiet
        obtain ⟨hok', hcount'⟩ := (step_books m first).lasts hok hsilent hlasting hn hcount
        obtain ⟨hsecond, hmissing⟩ := ih (n := n - if .shift ∈ (step m first).signs then 1 else 0)
          hfewer hok' (by omega) (by omega) hlater
        rw [shiftsAt_cons]
        exact ⟨hsecond, by omega⟩

/-- Between an error, or a complaint, and the next time that the handler is asked, enough tokens are
shifted, if recovery lasts. -/
theorem shifts_before_answer {answer : Recovery}
    (h : moments m fuel c = c :: (between ++ second :: rest))
    (hsigns : .error ∈ (step m c).signs ∨ .fault ∈ (step m c).signs)
    (hunwinds : ∀ answer, .answer answer ∈ (step m c).signs → answer = .unwind)
    (hquiet : ∀ other ∈ between, Unanswered m other)
    (hanswer : .answer answer ∈ (step m second).signs) :
    recoveryShifts ≤ shiftsAt m between := by
  obtain ⟨hcount, hok⟩ := (step_books m c).resets hsigns hunwinds
  obtain ⟨_, hnil | ⟨fewer, hfewer⟩⟩ := moments_cons h
  · simp at hnil
  · obtain ⟨hsecond, hmissing⟩ := missing_between hfewer hok le_rfl hcount.ge hquiet
    have hzero := ((step_books m second).asked hanswer).resolve_right (by rw [hsecond]; decide)
    omega

/-- Before the first error or complaint of a run no shift is missing. -/
theorem errorCount_of_calm (h : moments m fuel c = between ++ second :: rest)
    (hzero : c.errorCount = 0)
    (hcalm : ∀ other ∈ between, .error ∉ (step m other).signs ∧ .fault ∉ (step m other).signs) :
    second.errorCount = 0 := by
  induction between generalizing fuel c with
  | nil =>
      obtain ⟨rfl, _⟩ := moments_cons h
      exact hzero
  | cons first between ih =>
      obtain ⟨rfl, hnil | ⟨fewer, hfewer⟩⟩ := moments_cons h
      · simp at hnil
      · obtain ⟨⟨herror, hfault⟩, hlater⟩ := List.forall_mem_cons.mp hcalm
        exact ih hfewer ((step_books m first).stays_zero herror hfault hzero) hlater

end Moments

/-! ## Reports apart -/

/-- Errors are not reported in bursts. When the handler was asked and let the stack be unwound, then
at least `recoveryShifts` tokens are shifted before it is asked again, and as many after the last
error or complaint before that, unless a reduction ends recovery in between. And the first error of
a run is reported to the handler, unless a reduction complained before. -/
theorem reports_apart (m : Machine V C) (source : List (Except LexError Token)) (context : C)
    (fuel : Nat) :
    (∀ before between rest first second answer,
      moments m fuel { source, context } = before ++ first :: (between ++ second :: rest) →
      .answer .unwind ∈ (step m first).signs → .answer answer ∈ (step m second).signs →
      (∀ c ∈ between, Unanswered m c) →
        recoveryShifts ≤ shiftsAt m between ∧
        ∀ front back c, first :: between = front ++ c :: back →
          .error ∈ (step m c).signs ∨ .fault ∈ (step m c).signs →
          recoveryShifts ≤ shiftsAt m back) ∧
    (∀ before rest c, moments m fuel { source, context } = before ++ c :: rest →
      .error ∈ (step m c).signs →
      (∀ other ∈ before, .error ∉ (step m other).signs ∧ .fault ∉ (step m other).signs) →
      m.handler ≠ none → ∃ answer, .answer answer ∈ (step m c).signs) := by
  constructor
  · intro before between rest first second answer hmoments hfirst hsecond hquiet
    obtain ⟨herror, hunwinds⟩ := (step_books m first).answer_unique hfirst
    have hafter : ∀ front back c, first :: between = front ++ c :: back →
        .error ∈ (step m c).signs ∨ .fault ∈ (step m c).signs →
        recoveryShifts ≤ shiftsAt m back := by
      intro front back c hsplit hsigns
      rw [← List.cons_append, hsplit, List.append_assoc, List.cons_append, ← List.append_assoc]
        at hmoments
      obtain ⟨fewer, hfewer⟩ := moments_suffix hmoments
      -- the step is that of the first answer, or one of those at which nobody is asked
      cases front with
      | nil =>
          obtain ⟨rfl, rfl⟩ := List.cons_eq_cons.mp hsplit
          exact shifts_before_answer hfewer hsigns hunwinds hquiet hsecond
      | cons _ front =>
          obtain ⟨-, rfl⟩ := List.cons_eq_cons.mp hsplit
          refine shifts_before_answer hfewer hsigns ?_ (fun other hmem => hquiet other ?_) hsecond
          · exact fun answer hanswer => absurd hanswer ((hquiet c (by simp)).silent answer)
          · simp [hmem]
    exact ⟨hafter [] between first rfl (Or.inl herror), hafter⟩
  · intro before rest c hmoments herror hcalm hhandler
    have hzero := errorCount_of_calm hmoments rfl hcalm
    exact (step_books m c).asks herror hzero hhandler

/-- The machine of nested parentheses with a handler that counts errors. -/
def alarmed : Machine Nat Nat :=
  { Machine.nesting .lalr with handler := some fun errors _ => (.unwind, errors + 1) }

/-- Some parentheses before a run, of which only the first should not be there. -/
def closedFirst : Config Nat Nat :=
  { source := [')', '(', '(', '('].map fun c => .ok (Machine.parenthesis c), context := 0 }

/-- The first parenthesis is reported, and the end of input after three more. -/
theorem reports_apart_parentheses :
    ∃ between second, moments alarmed 7 closedFirst = closedFirst :: (between ++ [second]) ∧
      .answer .unwind ∈ (step alarmed closedFirst).signs ∧
      .answer .unwind ∈ (step alarmed second).signs ∧
      (∀ c ∈ between, Unanswered alarmed c) ∧ recoveryShifts ≤ shiftsAt alarmed between := by
  let between := ((moments alarmed 7 closedFirst).drop 1).take 5
  let second := (run alarmed 6 closedFirst).2
  have hmoments : moments alarmed 7 closedFirst = closedFirst :: (between ++ [second]) := by rfl
  have hfirst : .answer .unwind ∈ (step alarmed closedFirst).signs := by decide
  have hsecond : .answer .unwind ∈ (step alarmed second).signs := by decide
  have hsilent : ∀ c ∈ between,
      (step alarmed c).signs = [.shift] ∨ (step alarmed c).signs = [] := by decide
  have hquiet : ∀ c ∈ between, Unanswered alarmed c := by
    intro c hmem
    refine ⟨fun answer hanswer => ?_, ?_⟩
    · rcases hsilent c hmem with hsigns | hsigns
      · simp [hsigns] at hanswer
      · simp [hsigns] at hanswer
    · intro ⟨_, _, _, _, _, _, _, hp, haction, hrecovered⟩
      obtain rfl := Machine.action_nesting .lalr hp haction
      cases hrecovered
  obtain ⟨hapart, _⟩ := reports_apart alarmed closedFirst.source 0 7
  exact ⟨between, second, hmoments, hfirst, hsecond, hquiet,
    (hapart [] between [] closedFirst second .unwind hmoments hfirst hsecond hquiet).1⟩

end Engine

end ShiftReduce
