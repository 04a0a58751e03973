import ShiftReduce.Proofs.Grammar.History

/-!
# What declarations alone make of a grammar

The core of a grammar is what its precedences and productions make of it: no start symbol is chosen,
nothing is computed, and nothing is noted of declarations that were refused. A declaration that is
accepted acts on the core, and no other call changes it. So the core depends on the accepted
declarations of a history alone, and the core with the start symbol is all there is to a grammar but
what it has computed. Read `core_performAll` and `Made.bare_eq` first.
-/

namespace ShiftReduce

variable {α : Type}

/-- A production without places for its items. -/
def Production.unplaced (p : Production α) : Production α :=
  { p with range := {} }

namespace Grammar

variable {g : Grammar α} {p : Production α} {name start : String} {symbols : List Symbol}
  {tag : Option Symbol} {action : Option α} {call : Call α}

/-- A grammar without anything that was computed from it, and without its notes of tags. -/
def bare (g : Grammar α) : Grammar α :=
  { g.forget with productions := g.productions.map Production.unplaced, usedTags := [] }

/-- Production 0 as long as no start symbol is chosen. -/
def unstarted : Production α :=
  { index := 0, name := augmentedStart, symbols := [] }

/-- A grammar without its start symbol. -/
def withdrawn (g : Grammar α) : Grammar α :=
  { g with
    productions := unstarted :: g.productions.tail
    nonterminals := g.releaseStart
    start := none }

/-- What the precedences and productions of a grammar make of it. -/
def core (g : Grammar α) : Grammar α :=
  g.bare.withdrawn

/-- The grammar with a start symbol, if one is given. -/
def started (g : Grammar α) : Option String → Grammar α
  | none => g
  | some start => g.restart start

/-! ## Accepted declarations -/

/-- Whether a call is a declaration of a precedence or a production that is accepted. -/
def accepts (g : Grammar α) : Call α → Bool
  | .setPrecedence s assoc level => (g.setPrecedence s assoc level).1.isOk
  | .addProduction name symbols tag action => (g.addProduction name symbols tag action).1.isOk
  | _ => false

/-- The calls of a history that are accepted declarations of precedences and productions. -/
def accepted (g : Grammar α) : List (Call α) → List (Call α)
  | [] => []
  | call :: calls =>
      if g.accepts call then call :: (g.perform call).accepted calls
      else (g.perform call).accepted calls

/-- What an accepted declaration adds to a grammar, without a note of its tag. -/
def declare (g : Grammar α) : Call α → Grammar α
  | .setPrecedence s assoc level => (g.setPrecedence s assoc level).2
  | .addProduction name symbols tag action =>
      match (g.addProduction name symbols tag action).1 with
      | .ok p => g.append p
      | .error _ => g
  | _ => g

theorem exists_error_of_isOk {β : Type} {answer : Except GrammarError β}
    (h : answer.isOk = false) : ∃ e, answer = .error e := by
  cases answer with
  | error e => exact ⟨e, rfl⟩
  | ok b => cases h

/-- A precedence that is refused leaves the grammar as it is. -/
theorem setPrecedence_of_error {s : Symbol} {assoc : Assoc} {level : Nat} {e : GrammarError}
    (h : (g.setPrecedence s assoc level).1 = .error e) : (g.setPrecedence s assoc level).2 = g := by
  unfold setPrecedence at h ⊢
  split
  · rfl
  · rename_i hearly
    rw [if_neg hearly] at h
    split
    · rfl
    · rename_i hterminal
      rw [if_neg hterminal] at h
      split
      · rfl
      · rename_i hnew
        rw [if_neg hnew] at h
        cases h

/-- A production that is refused leaves a note of its tag at most. -/
theorem addProduction_of_error {e : GrammarError}
    (h : (g.addProduction name symbols tag action).1 = .error e) :
    (g.addProduction name symbols tag action).2 = g ∨
      (g.addProduction name symbols tag action).2 = g.noteTag tag := by
  unfold addProduction at h ⊢
  split at h
  · exact Or.inl rfl
  · split at h
    · exact Or.inl rfl
    · dsimp only at h ⊢
      split at h
      · rename_i hdeclared
        exact Or.inr (by rw [if_pos hdeclared])
      · cases h

/-! ## Calls that leave the core alone -/

theorem bare_noteTag (g : Grammar α) (tag : Option Symbol) : (g.noteTag tag).bare = g.bare := by
  cases tag <;> rfl

theorem bare_buildItems (g : Grammar α) : g.buildItems.bare = g.bare := by
  have hproductions : g.buildItems.productions.map Production.unplaced =
      g.productions.map Production.unplaced :=
    map_buildItems (fun _ _ => rfl) g
  rw [bare, hproductions]
  rfl

theorem bare_computeFirst (g : Grammar α) : g.computeFirst.2.bare = g.bare := by
  obtain ⟨_, hsame⟩ := computeFirst_grammar g
  rw [hsame]
  rfl

theorem bare_computeFollow (g : Grammar α) (start : Option String) :
    (g.computeFollow start).2.bare = g.bare := by
  obtain ⟨_, _, _, hsame⟩ := computeFollow_grammar g start
  rw [hsame]
  rfl

/-- Choosing another start symbol and withdrawing it leaves nothing of either. -/
theorem releaseStart_restart (h : g.Made) (hstart : start ∈ g.rules.keys) :
    (g.restart start).releaseStart = g.releaseStart := by
  have hwell := h.wellFormed
  have hmem : start ∈ g.releaseStart.keys := by
    rw [keys_releaseStart]
    exact hwell.mem_nonterminals_of_mem_rules hstart
  obtain ⟨uses, huses⟩ := Registry.exists_get?_of_mem_keys hmem
  have hstruck := h.registered.releaseStart hwell start
  rw [huses, Option.getD_some] at hstruck
  show (g.releaseStart.update start [] (0 :: ·)).modify start (·.filter (· != 0)) = g.releaseStart
  rw [Registry.update, Registry.register_eq_self hmem, Registry.modify_modify]
  refine Registry.modify_eq_self (keys_releaseStart g ▸ hwell.nodupNonterminals) huses ?_
  simp [hstruck]

theorem core_restart (h : g.Made) (hstart : start ∈ g.rules.keys) :
    (g.restart start).core = g.core := by
  have hrelease : (g.restart start).bare.releaseStart = g.bare.releaseStart :=
    releaseStart_restart h hstart
  have htail : (g.restart start).bare.productions.tail = g.bare.productions.tail := by
    show ((g.restart start).productions.map Production.unplaced).tail =
      (g.productions.map Production.unplaced).tail
    rw [← List.map_tail, ← List.map_tail]
    rfl
  rw [core, withdrawn, hrelease, htail]
  rfl

theorem core_setStart (h : g.Made) (name : Option String) : (g.setStart name).2.core = g.core := by
  obtain hsame | ⟨start, hstart, hsame⟩ := setStart_grammar g name
  · rw [hsame]
  · rw [hsame, core_restart h hstart]

/-- Preparing a grammar leaves its core alone. -/
theorem core_prepare (h : g.Made) : g.prepare.2.core = g.core := by
  have hall : g.prepare.2.Made ∧ g.prepare.2.core = g.core := by
    refine prepare_induction (P := fun later => later.Made ∧ later.core = g.core)
      ?_ ?_ ?_ ?_ ⟨h, rfl⟩
    · exact fun later name hlater =>
        ⟨hlater.1.setStart name, (core_setStart hlater.1 name).trans hlater.2⟩
    · exact fun later hlater =>
        ⟨hlater.1.buildItems, (congrArg withdrawn (bare_buildItems later)).trans hlater.2⟩
    · exact fun later hlater =>
        ⟨hlater.1.computeFirst, (congrArg withdrawn (bare_computeFirst later)).trans hlater.2⟩
    · exact fun later start hlater =>
        ⟨hlater.1.computeFollow start,
          (congrArg withdrawn (bare_computeFollow later start)).trans hlater.2⟩
  exact hall.2

/-- A call that is not an accepted declaration leaves the core alone. -/
theorem core_perform_of_not_accepts (h : g.Made) (haccepts : g.accepts call = false) :
    (g.perform call).core = g.core := by
  cases call with
  | setPrecedence s assoc level =>
      obtain ⟨e, herror⟩ := exists_error_of_isOk haccepts
      show (g.setPrecedence s assoc level).2.core = g.core
      rw [setPrecedence_of_error herror]
  | addProduction name symbols tag action =>
      obtain ⟨e, herror⟩ := exists_error_of_isOk haccepts
      show (g.addProduction name symbols tag action).2.core = g.core
      obtain hsame | hsame := addProduction_of_error herror
      · rw [hsame]
      · rw [hsame]
        exact congrArg withdrawn (bare_noteTag g tag)
  | setStart name => exact core_setStart h name
  | buildItems => exact congrArg withdrawn (bare_buildItems g)
  | computeFirst => exact congrArg withdrawn (bare_computeFirst g)
  | computeFollow start => exact congrArg withdrawn (bare_computeFollow g start)
  | buildTable method =>
      show (g.buildTable method).2.core = g.core
      rw [buildTable_grammar]
      exact core_prepare h

/-! ## Accepted declarations act on the core -/

/-- Withdrawing the start symbol and appending a production do not get in each other's way: only
production 0 is struck, and another one is listed. -/
theorem releaseStart_append (g : Grammar α) (hindex : p.index ≠ 0) :
    (g.append p).releaseStart =
      p.symbols.foldl (noteNonterminal p.index) (g.releaseStart.register p.name []) := by
  unfold releaseStart
  rw [append_start]
  split
  · exact append_nonterminals g p
  · rename_i old _
    have hlist : ∀ uses : List Nat, (uses ++ [p.index]).filter (· != 0) =
        uses.filter (· != 0) ++ [p.index] := by
      intro uses
      simp [List.filter_append, hindex]
    have hnote : ∀ (r : Registry String (List Nat)) (s : Symbol),
        noteNonterminal p.index (r.modify old (·.filter (· != 0))) s =
          (noteNonterminal p.index r s).modify old (·.filter (· != 0)) := by
      intro r s
      cases s with
      | nonterminal name => exact (Registry.modify_update rfl hlist).symm
      | token name => rfl
      | literal c => rfl
    rw [append_nonterminals, ← Registry.modify_register rfl]
    exact (List.foldl_hom (fun r : Registry String (List Nat) =>
      r.modify old (·.filter (· != 0))) hnote).symm

theorem core_append (hpresent : g.productions ≠ []) (hindex : p.index ≠ 0)
    (hplaceless : p.unplaced = p) : (g.append p).core = g.core.append p := by
  have hproductions : (g.append p).bare.productions.tail = g.bare.productions.tail ++ [p] := by
    show ((g.append p).productions.map Production.unplaced).tail =
      (g.productions.map Production.unplaced).tail ++ [p]
    rw [append_productions, List.map_append, List.tail_append_of_ne_nil (by simpa using hpresent),
      List.map_singleton, hplaceless]
  have hrelease : (g.append p).bare.releaseStart =
      p.symbols.foldl (noteNonterminal p.index) (g.core.nonterminals.register p.name []) :=
    releaseStart_append g hindex
  rw [core, withdrawn, hproductions, hrelease, append_eq g.core, append_eq g]
  rfl

theorem length_core (hpresent : g.productions ≠ []) :
    g.core.productions.length = g.productions.length := by
  obtain ⟨zero, rest, hproductions⟩ := List.exists_cons_of_ne_nil hpresent
  simp [core, withdrawn, bare, forget, hproductions]

theorem core_setPrecedence (hpresent : g.productions ≠ []) (s : Symbol) (assoc : Assoc)
    (level : Nat) :
    (g.setPrecedence s assoc level).2.core = (g.core.setPrecedence s assoc level).2 := by
  have hprecedence : g.core.precedence = g.precedence := rfl
  unfold setPrecedence
  rw [length_core hpresent, hprecedence]
  by_cases hlate : 1 < g.productions.length
  · rw [if_pos hlate, if_pos hlate]
  · rw [if_neg hlate, if_neg hlate]
    cases s.isNonterminal with
    | true => rfl
    | false => cases g.precedence.contains s <;> rfl

/-- The answer to a production is read off the core. -/
theorem addProduction_core (hpresent : g.productions ≠ []) (name : String) (symbols : List Symbol)
    (tag : Option Symbol) (action : Option α) :
    (g.core.addProduction name symbols tag action).1 =
      (g.addProduction name symbols tag action).1 := by
  have hfault : g.core.ruleFault? name symbols = g.ruleFault? name symbols := rfl
  have hprec : g.core.rulePrecedence symbols tag = g.rulePrecedence symbols tag := rfl
  have hnoted : ∀ other : Grammar α, (other.noteTag tag).productions = other.productions ∧
      (other.noteTag tag).declared = other.declared := by
    intro other
    cases tag <;> exact ⟨rfl, rfl⟩
  unfold addProduction
  rw [hfault, hprec]
  split
  · rfl
  · split
    · rfl
    · dsimp only
      have hdeclared : g.core.declared = g.declared := rfl
      rw [(hnoted g.core).1, (hnoted g.core).2, (hnoted g).1, (hnoted g).2, length_core hpresent,
        hdeclared]
      split <;> rfl

/-- An accepted declaration acts on the core. -/
theorem core_perform_of_accepts (h : g.Made) (haccepts : g.accepts call = true) :
    (g.perform call).core = g.core.declare call := by
  have hpresent : g.productions ≠ [] :=
    List.ne_nil_of_length_pos (Nat.pos_of_ne_zero h.wellFormed.length_ne_zero)
  cases call with
  | setPrecedence s assoc level => exact core_setPrecedence hpresent s assoc level
  | addProduction name symbols tag action =>
      cases hadded : (g.addProduction name symbols tag action).1 with
      | error e =>
          rw [accepts, hadded] at haccepts
          cases haccepts
      | ok p =>
          obtain ⟨⟨prec, _, hp⟩, hgrammar⟩ := addProduction_accepted hadded
          have hindex : p.index ≠ 0 := by
            rw [hp]
            exact h.wellFormed.length_ne_zero
          have hplaceless : p.unplaced = p := by rw [hp, Production.unplaced]
          have hnoted : (g.noteTag tag).productions ≠ [] := by cases tag <;> exact hpresent
          have hcore : (g.noteTag tag).core = g.core := congrArg withdrawn (bare_noteTag g tag)
          show (g.addProduction name symbols tag action).2.core = _
          rw [declare, addProduction_core hpresent, hadded, hgrammar,
            core_append hnoted hindex hplaceless, hcore]
  | setStart name => cases haccepts
  | buildItems => cases haccepts
  | computeFirst => cases haccepts
  | computeFollow start => cases haccepts
  | buildTable method => cases haccepts

/-- The core of a grammar after a history is what the accepted declarations make of the core before
it. -/
theorem core_performAll (h : g.Made) (calls : List (Call α)) :
    (g.performAll calls).core = (g.accepted calls).foldl declare g.core := by
  induction calls generalizing g with
  | nil => rfl
  | cons call calls ih =>
      have hrest := ih (h.perform call)
      show ((g.perform call).performAll calls).core = _
      rw [hrest, accepted]
      cases haccepts : g.accepts call with
      | true =>
          rw [core_perform_of_accepts h haccepts]
          rfl
      | false =>
          rw [core_perform_of_not_accepts h haccepts]
          rfl

/-! ## The start symbol -/

/-- What holds of production 0 under every start symbol, and of every production that is accepted,
holds of all productions if it does not speak of their items. -/
theorem Made.production_induction {P : Nat → Production α → Prop} (h : g.Made)
    (hzero : ∀ symbols, P 0 { index := 0, name := augmentedStart, symbols })
    (hadded : ∀ {g : Grammar α} {name : String} {symbols : List Symbol} {tag : Option Symbol}
      {action : Option α} {p : Production α}, g.Made →
      (g.addProduction name symbols tag action).1 = .ok p → P g.productions.length p)
    (hrange : ∀ {i : Nat} {p : Production α} (range : ItemRange), P i p → P i { p with range })
    {i : Nat} {p : Production α} (hp : g.production? i = some p) : P i p := by
  induction h generalizing i p with
  | ofTokens h =>
      unfold Grammar.ofTokens at h
      split at h
      · cases h
      · cases h
        cases i with
        | zero =>
            cases hp
            exact hzero []
        | succ i => cases hp
  | @setPrecedence g s assoc level _ ih =>
      obtain ⟨_, hsame⟩ := setPrecedence_grammar g s assoc level
      rw [hsame] at hp
      exact ih hp
  | @addProduction g name symbols tag action hmade ih =>
      have hnote : (g.noteTag tag).productions = g.productions := by cases tag <;> rfl
      cases hanswer : (g.addProduction name symbols tag action).1 with
      | error e =>
          obtain hsame | hsame := addProduction_of_error hanswer
          · exact ih (hsame ▸ hp)
          · rw [hsame, production?, hnote] at hp
            exact ih hp
      | ok q =>
          rw [(addProduction_accepted hanswer).2] at hp
          rcases production?_append.mp hp with hold | ⟨rfl, rfl⟩
          · rw [production?, hnote] at hold
            exact ih hold
          · rw [hnote]
            exact hadded hmade hanswer
  | @setStart g name _ ih =>
      obtain hsame | ⟨start, _, hsame⟩ := setStart_grammar g name
      · exact ih (hsame ▸ hp)
      · rw [hsame] at hp
        cases i with
        | zero =>
            cases hp
            exact hzero [.nonterminal start]
        | succ i =>
            rw [production?_restart_succ] at hp
            exact ih hp
  | buildItems _ ih =>
      rw [production?_buildItems, Option.map_eq_some_iff] at hp
      obtain ⟨q, hq, rfl⟩ := hp
      exact hrange _ (ih hq)
  | @computeFirst g _ ih =>
      obtain ⟨_, hsame⟩ := computeFirst_grammar g
      rw [hsame] at hp
      exact ih hp
  | @computeFollow g start _ ih =>
      obtain ⟨_, _, _, hsame⟩ := computeFollow_grammar g start
      rw [hsame] at hp
      exact ih hp

/-- Production 0 never has an action. -/
theorem Made.action_zero (h : g.Made) (hp : g.production? 0 = some p) : p.action = none := by
  refine h.production_induction (P := fun i p => i = 0 → p.action = none) ?_ ?_ ?_ hp rfl
  · exact fun _ _ => rfl
  · exact fun hmade _ hlength => absurd hlength hmade.wellFormed.length_ne_zero
  · exact fun _ h => h

/-- Production 0 leads to the start symbol and holds nothing else. -/
theorem Made.productions_bare (h : g.Made) : g.bare.productions =
    { unstarted with symbols := g.start.toList.map Symbol.nonterminal } ::
      g.bare.productions.tail := by
  obtain ⟨zero, hzero, hname, hprec, hsymbols⟩ := h.wellFormed.zero
  have hindex := h.wellFormed.index hzero
  have haction := h.action_zero hzero
  obtain ⟨first, rest, hproductions⟩ := List.exists_cons_of_ne_nil
    (List.ne_nil_of_length_pos (Nat.pos_of_ne_zero h.wellFormed.length_ne_zero))
  obtain rfl : first = zero := by
    rw [production?, hproductions] at hzero
    exact Option.some.inj hzero
  show g.productions.map Production.unplaced = _ :: (g.productions.map Production.unplaced).tail
  rw [hproductions, List.map_cons, List.tail_cons, Production.unplaced, unstarted, hindex, hname,
    hsymbols, hprec, haction]

/-- Of the uses of the start symbol, that in production 0 comes first. -/
theorem Made.uses_start (h : g.Made) (hstart : g.start = some start) :
    g.nonterminalUses start = 0 :: (g.nonterminalUses start).filter (· != 0) := by
  obtain ⟨hascending, hcount⟩ := h.registered.nonterminals start
  obtain ⟨zero, hzero, _, _, hsymbols⟩ := h.wellFormed.zero
  have hone : (g.nonterminalUses start).count 0 = 1 := by
    rw [hcount, rightSide_of_production? hzero, hsymbols, hstart]
    simp
  cases huses : g.nonterminalUses start with
  | nil =>
      rw [huses] at hone
      cases hone
  | cons first rest =>
      rw [huses] at hascending hone
      have hle := (List.pairwise_cons.mp hascending).1
      -- 0 is listed, and nothing is less, so it is the first
      have hfirst : first = 0 := by
        by_contra hne
        rw [List.count_cons_of_ne hne] at hone
        have hmem : 0 ∈ rest := List.count_pos_iff.mp (by omega)
        exact hne (Nat.le_zero.mp (hle 0 hmem))
      subst hfirst
      rw [List.count_cons_self] at hone
      have hnone : 0 ∉ rest := List.count_eq_zero.mp (by omega)
      have hkept : rest.filter (· != 0) = rest :=
        List.filter_eq_self.mpr fun i hi => by
          have hne : i ≠ 0 := fun hzero => hnone (hzero ▸ hi)
          simpa using hne
      simp [hkept]

/-- A grammar lists its start symbol for production 0 as choosing it anew would. -/
theorem Made.nonterminals_eq (h : g.Made) (hstart : g.start = some start) :
    g.nonterminals = g.releaseStart.update start [] (0 :: ·) := by
  have hwell := h.wellFormed
  have hrelease : g.releaseStart = g.nonterminals.modify start (·.filter (· != 0)) := by
    rw [releaseStart, hstart]
  have hmem := hwell.mem_nonterminals_of_mem_rules (hwell.start hstart)
  obtain ⟨uses, huses⟩ := Registry.exists_get?_of_mem_keys hmem
  have hlist : uses = 0 :: uses.filter (· != 0) := by
    have hsame := h.uses_start hstart
    rwa [nonterminalUses, huses, Option.getD_some] at hsame
  rw [hrelease, Registry.update,
    Registry.register_eq_self (by rwa [Registry.keys_modify]), Registry.modify_modify,
    Registry.modify_eq_self hwell.nodupNonterminals huses hlist.symm]

/-- Without what it has computed, a grammar is its core with its start symbol. -/
theorem Made.bare_eq (h : g.Made) : g.bare = g.core.started g.start := by
  have hbare : g.bare =
      { g.bare with
        productions := { unstarted with symbols := g.start.toList.map Symbol.nonterminal } ::
          g.bare.productions.tail } :=
    congrArg (fun productions => { g.bare with productions }) h.productions_bare
  refine hbare.trans ?_
  cases hstart : g.start with
  | none =>
      have hcore : g.core.started none =
          { g.bare with
            productions := unstarted :: g.bare.productions.tail
            nonterminals := g.releaseStart
            start := g.start } := by
        rw [hstart]
        rfl
      have hrelease : g.releaseStart = g.nonterminals := by rw [releaseStart, hstart]
      rw [hcore, hrelease]
      rfl
  | some start =>
      have hcore : g.core.started (some start) =
          { g.bare with
            productions := { unstarted with symbols := [.nonterminal start] } ::
              g.bare.productions.tail
            nonterminals := g.releaseStart.update start [] (0 :: ·)
            start := g.start } := by
        rw [hstart]
        rfl
      rw [hcore, ← h.nonterminals_eq hstart]
      rfl

end Grammar

end ShiftReduce
