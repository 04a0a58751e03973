import ShiftReduce.Proofs.Grammar.Registered
import ShiftReduce.Proofs.Table.Built

/-!
# Histories of a grammar

A grammar is used by calls: declarations, computations and the building of tables, in any order and
whether or not they are refused. Whatever the history, the registries agree with the productions,
and a production without a tag has the precedence that is now declared for its rightmost terminal,
since precedences cannot be declared any more once there is a production. Read `registries_agree`
first.
-/

namespace ShiftReduce.Grammar

variable {α : Type} {g later last : Grammar α} {name : String} {symbols : List Symbol}

/-- What can be done to a grammar. -/
inductive Call (α : Type) where
  | setPrecedence (s : Symbol) (assoc : Assoc) (level : Nat)
  | addProduction (name : String) (symbols : List Symbol) (tag : Option Symbol) (action : Option α)
  | setStart (name : Option String)
  | buildItems
  | computeFirst
  | computeFollow (start : Option String)
  | buildTable (method : Method)
deriving DecidableEq

/-- The grammar that a call leaves behind, whatever its answer. -/
def perform (g : Grammar α) : Call α → Grammar α
  | .setPrecedence s assoc level => (g.setPrecedence s assoc level).2
  | .addProduction name symbols tag action => (g.addProduction name symbols tag action).2
  | .setStart name => (g.setStart name).2
  | .buildItems => g.buildItems
  | .computeFirst => g.computeFirst.2
  | .computeFollow start => (g.computeFollow start).2
  | .buildTable method => (g.buildTable method).2

/-- The grammar that calls leave behind in turn. -/
def performAll (g : Grammar α) (calls : List (Call α)) : Grammar α :=
  calls.foldl perform g

/-! ## Building a table as a history of its own -/

/-- What choosing a start symbol, building the items and computing the sets keep, preparing a
grammar keeps. -/
theorem prepare_induction {P : Grammar α → Prop} (hstart : ∀ g name, P g → P (g.setStart name).2)
    (hitems : ∀ g, P g → P g.buildItems) (hfirst : ∀ g, P g → P g.computeFirst.2)
    (hfollow : ∀ g start, P g → P (g.computeFollow start).2) (h : P g) : P g.prepare.2 := by
  have hstarted : P g.ensureStart.2 := by
    unfold ensureStart
    split
    · exact h
    · exact hstart g none h
  unfold prepare
  split
  · rename_i hrefused
    rwa [hrefused] at hstarted
  · rename_i started hanswer
    rw [hanswer] at hstarted
    have hcomputed := hfirst _ (hitems _ hstarted)
    split
    · rename_i hrefused
      rwa [hrefused] at hcomputed
    · rename_i computed hanswer
      rw [hanswer] at hcomputed
      have hfollowed := hfollow _ computed.start hcomputed
      split <;> rename_i hanswer <;> rwa [hanswer] at hfollowed

/-- Building a table leaves the prepared grammar, by either method. -/
theorem buildTable_grammar (g : Grammar α) (method : Method) :
    (g.buildTable method).2 = g.prepare.2 := by
  unfold buildTable
  split <;> rename_i hanswer <;> rw [hanswer]

theorem Made.perform (h : g.Made) (call : Call α) : (g.perform call).Made := by
  cases call with
  | setPrecedence s assoc level => exact h.setPrecedence s assoc level
  | addProduction name symbols tag action => exact h.addProduction name symbols tag action
  | setStart name => exact h.setStart name
  | buildItems => exact h.buildItems
  | computeFirst => exact h.computeFirst
  | computeFollow start => exact h.computeFollow start
  | buildTable method =>
      show (g.buildTable method).2.Made
      rw [buildTable_grammar]
      exact prepare_induction (fun _ name h => h.setStart name) (fun _ h => h.buildItems)
        (fun _ h => h.computeFirst) (fun _ start h => h.computeFollow start) h

theorem Made.performAll (h : g.Made) (calls : List (Call α)) : (g.performAll calls).Made :=
  foldl_induction (fun _ call _ hmade => hmade.perform call) h

/-! ## What no call takes away -/

/-- A later grammar has the same precedences and the productions it had, up to their items. -/
structure Retains (g later : Grammar α) : Prop where
  precedence : later.precedence = g.precedence
  production : ∀ {i : Nat} {p : Production α}, g.production? (i + 1) = some p →
    ∃ q, later.production? (i + 1) = some q ∧ q.name = p.name ∧ q.symbols = p.symbols ∧
      q.prec = p.prec

theorem Retains.refl (g : Grammar α) : g.Retains g :=
  ⟨rfl, fun hp => ⟨_, hp, rfl, rfl, rfl⟩⟩

theorem Retains.trans (h : g.Retains later) (hnext : later.Retains last) : g.Retains last := by
  refine ⟨hnext.precedence.trans h.precedence, fun hp => ?_⟩
  obtain ⟨q, hq, hname, hsymbols, hprec⟩ := h.production hp
  obtain ⟨r, hr, hname', hsymbols', hprec'⟩ := hnext.production hq
  exact ⟨r, hr, hname'.trans hname, hsymbols'.trans hsymbols, hprec'.trans hprec⟩

/-- What leaves the productions and the precedences alone takes nothing away. -/
theorem Retains.of_same (hprecedence : later.precedence = g.precedence)
    (hproductions : later.productions = g.productions) : g.Retains later := by
  refine ⟨hprecedence, fun hp => ⟨_, ?_, rfl, rfl, rfl⟩⟩
  rwa [production?, hproductions]

theorem retains_setStart (g : Grammar α) (name : Option String) :
    g.Retains (g.setStart name).2 := by
  obtain hsame | ⟨start, _, hsame⟩ := setStart_grammar g name
  · rw [hsame]
    exact .refl g
  · rw [hsame]
    refine ⟨rfl, fun {i} _ hp => ⟨_, ?_, rfl, rfl, rfl⟩⟩
    rwa [production?_restart_succ]

theorem retains_buildItems (g : Grammar α) : g.Retains g.buildItems := by
  refine ⟨rfl, fun {i} p hp => ?_⟩
  rw [production?_buildItems, hp]
  exact ⟨_, rfl, rfl, rfl, rfl⟩

theorem retains_computeFirst (g : Grammar α) : g.Retains g.computeFirst.2 := by
  obtain ⟨_, hsame⟩ := computeFirst_grammar g
  rw [hsame]
  exact .of_same rfl rfl

theorem retains_computeFollow (g : Grammar α) (start : Option String) :
    g.Retains (g.computeFollow start).2 := by
  obtain ⟨_, _, _, hsame⟩ := computeFollow_grammar g start
  rw [hsame]
  exact .of_same rfl rfl

theorem retains_addProduction (g : Grammar α) (name : String) (symbols : List Symbol)
    (tag : Option Symbol) (action : Option α) :
    g.Retains (g.addProduction name symbols tag action).2 := by
  obtain ⟨usedTags, hsame | ⟨p, hsame⟩⟩ := addProduction_grammar g name symbols tag action
  · rw [hsame]
    exact .of_same rfl rfl
  · rw [hsame]
    exact ⟨append_precedence _ p,
      fun hp => ⟨_, production?_append.mpr (Or.inl hp), rfl, rfl, rfl⟩⟩

/-- Preparing a grammar takes nothing away. -/
theorem retains_prepare (g : Grammar α) : g.Retains g.prepare.2 :=
  prepare_induction (fun _ name h => h.trans (retains_setStart _ name))
    (fun _ h => h.trans (retains_buildItems _)) (fun _ h => h.trans (retains_computeFirst _))
    (fun _ start h => h.trans (retains_computeFollow _ start)) (.refl g)

/-- Once there is a production, no precedence can be declared. -/
theorem setPrecedence_refused (hlength : 1 < g.productions.length) (s : Symbol) (assoc : Assoc)
    (level : Nat) :
    g.setPrecedence s assoc level = (.error (.precedenceAfterProductions s.text), g) := by
  rw [setPrecedence, if_pos hlength]

/-- Once there is a production, no call takes anything away. -/
theorem retains_perform (hlength : 1 < g.productions.length) (call : Call α) :
    g.Retains (g.perform call) := by
  cases call with
  | setPrecedence s assoc level =>
      show g.Retains (g.setPrecedence s assoc level).2
      rw [setPrecedence_refused hlength]
      exact .refl g
  | addProduction name symbols tag action => exact retains_addProduction g name symbols tag action
  | setStart name => exact retains_setStart g name
  | buildItems => exact retains_buildItems g
  | computeFirst => exact retains_computeFirst g
  | computeFollow start => exact retains_computeFollow g start
  | buildTable method =>
      show g.Retains (g.buildTable method).2
      rw [buildTable_grammar]
      exact retains_prepare g

/-- Once there is a production, no history takes anything away. -/
theorem retains_performAll {i : Nat} {p : Production α} (hp : g.production? (i + 1) = some p)
    (calls : List (Call α)) : g.Retains (g.performAll calls) := by
  refine foldl_induction (P := g.Retains) (fun later call _ hlater => ?_) (.refl g)
  obtain ⟨q, hq, _⟩ := hlater.production hp
  have hlt : i + 1 < later.productions.length := (List.getElem?_eq_some_iff.mp hq).1
  exact hlater.trans (retains_perform (by omega) call)

/-! ## The precedence of productions without a tag -/

/-- A precedence is the one declared for the rightmost terminal of a right side; without terminal or
without declaration it is the default one. -/
structure Inherits (g : Grammar α) (symbols : List Symbol) (prec : Precedence) : Prop where
  rightmost : ∀ {front : List Symbol} {s : Symbol} {back : List Symbol},
    symbols = front ++ s :: back → s.isTerminal = true → (∀ t ∈ back, t.isTerminal = false) →
    prec = (g.precedence.get? s).getD {}
  none : (∀ s ∈ symbols, s.isTerminal = false) → prec = {}

theorem inherits_rightmostPrecedence (g : Grammar α) (symbols : List Symbol) :
    g.Inherits symbols (g.rightmostPrecedence symbols) where
  rightmost := by
    intro front s back hsplit hs hback
    have hskip : back.reverse.find? Symbol.isTerminal = Option.none :=
      List.find?_eq_none.mpr fun t ht => by simp [hback t (List.mem_reverse.mp ht)]
    have hfind : symbols.reverse.find? Symbol.isTerminal = some s := by
      simp [hsplit, List.find?_append, hskip, hs]
    rw [rightmostPrecedence, hfind]
    rfl
  none := by
    intro hnone
    have hfind : symbols.reverse.find? Symbol.isTerminal = Option.none :=
      List.find?_eq_none.mpr fun t ht => by simp [hnone t (List.mem_reverse.mp ht)]
    rw [rightmostPrecedence, hfind]

/-- A production that is accepted takes the precedence it asks for and is appended behind all
others. -/
theorem addProduction_accepted {tag : Option Symbol} {action : Option α} {p : Production α}
    (h : (g.addProduction name symbols tag action).1 = .ok p) :
    (∃ prec, g.rulePrecedence symbols tag = .ok prec ∧
      p = { index := g.productions.length, name, symbols, prec, action }) ∧
      (g.addProduction name symbols tag action).2 = (g.noteTag tag).append p := by
  have hlength : (g.noteTag tag).productions = g.productions := by cases tag <;> rfl
  unfold addProduction at h ⊢
  split at h
  · cases h
  · split at h
    · cases h
    · rename_i prec hprec
      dsimp only at h ⊢
      split at h
      · cases h
      · rename_i hnew
        rw [if_neg hnew]
        cases h
        exact ⟨⟨prec, hprec, by rw [hlength]⟩, rfl⟩

/-- A production that is added without a tag takes the precedence of its rightmost terminal. -/
theorem addProduction_untagged {action : Option α} {p : Production α}
    (h : (g.addProduction name symbols none action).1 = .ok p) :
    p.index = g.productions.length ∧ p.name = name ∧ p.symbols = symbols ∧
      p.prec = g.rightmostPrecedence symbols ∧ p.action = action ∧
      (g.addProduction name symbols none action).2 = g.append p := by
  obtain ⟨⟨prec, hprec, rfl⟩, hgrammar⟩ := addProduction_accepted h
  cases hprec
  exact ⟨rfl, rfl, rfl, rfl, rfl, hgrammar⟩

/-- Every production that a history adds without a tag has in the end the precedence that is
declared for its rightmost terminal. -/
def InheritsPrecedences (g : Grammar α) (calls : List (Call α)) : Prop :=
  ∀ {before after : List (Call α)} {name : String} {symbols : List Symbol} {action : Option α}
    {p : Production α}, calls = before ++ .addProduction name symbols none action :: after →
    ((g.performAll before).addProduction name symbols none action).1 = .ok p →
    ∃ q, (g.performAll calls).production? p.index = some q ∧ q.name = name ∧
      q.symbols = symbols ∧ (g.performAll calls).Inherits symbols q.prec

theorem Made.inheritsPrecedences (h : g.Made) (calls : List (Call α)) :
    g.InheritsPrecedences calls := by
  intro before after name symbols action p hcalls hadded
  obtain ⟨hindex, hname, hsymbols, hprec, _, hgrammar⟩ := addProduction_untagged hadded
  have hlast : g.performAll calls = ((g.performAll before).append p).performAll after := by
    rw [hcalls, Grammar.performAll, List.foldl_append, ← hgrammar]
    rfl
  obtain ⟨i, hi⟩ : ∃ i, p.index = i + 1 := by
    have hne := (h.performAll before).wellFormed.length_ne_zero
    exact Nat.exists_eq_succ_of_ne_zero (hindex ▸ hne)
  have hp : ((g.performAll before).append p).production? (i + 1) = some p :=
    production?_append.mpr (Or.inr ⟨hi ▸ hindex, rfl⟩)
  have hretains := retains_performAll hp after
  obtain ⟨q, hq, hqname, hqsymbols, hqprec⟩ := hretains.production hp
  obtain ⟨hrightmost, hnone⟩ := inherits_rightmostPrecedence (g.performAll before) symbols
  rw [hlast, hi]
  refine ⟨q, hq, hqname.trans hname, hqsymbols.trans hsymbols, ?_⟩
  rw [hqprec, hprec]
  -- the precedences are those there were when the production was added
  refine ⟨fun hsplit hs hback => ?_, hnone⟩
  rw [hretains.precedence, append_precedence]
  exact hrightmost hsplit hs hback

/-! ## Registries and productions -/

/-- The registries of a grammar agree with its productions. -/
structure Agrees (g : Grammar α) : Prop where
  index : ∀ {i : Nat} {p : Production α}, g.production? i = some p → p.index = i
  /-- No rule is declared twice. -/
  distinct : g.ruleList.Nodup
  declared : ∀ {rule : String × List Symbol}, rule ∈ g.declared ↔ rule ∈ g.ruleList
  /-- The productions of a name are listed in ascending order. -/
  rules : ∀ {name : String} {indices : List Nat}, g.rules.get? name = some indices →
    indices.Pairwise (· < ·) ∧ ∀ i, i ∈ indices ↔
      1 ≤ i ∧ ∃ p, g.production? i = some p ∧ p.name = name
  defined : ∀ {name : String}, name ∈ g.rules.keys ↔
    ∃ i p, g.production? (i + 1) = some p ∧ p.name = name
  /-- A terminal is listed with the production of every occurrence. -/
  terminals : ∀ {s : Symbol} {uses : List Nat}, g.terminals.get? s = some uses → g.ListsUses s uses
  nonterminals : ∀ {name : String} {uses : List Nat}, g.nonterminals.get? name = some uses →
    g.ListsUses (.nonterminal name) uses
  /-- Production 0 is listed for the start symbol only. -/
  start : ∀ {name : String}, (∃ uses, g.nonterminals.get? name = some uses ∧ 0 ∈ uses) ↔
    g.start = some name
  registered : ∀ {i : Nat} {s : Symbol}, s ∈ g.rightSide i → s.isTerminal = true →
    s ∈ g.terminals.keys
  known : ∀ {name : String}, name ∈ g.nonterminals.keys ↔
    (∃ i p, g.production? (i + 1) = some p ∧ p.name = name) ∨
      ∃ i, Symbol.nonterminal name ∈ g.rightSide i
  /-- Production 0 leads to the start symbol, if there is one. -/
  augmented : ∃ p, g.production? 0 = some p ∧ p.name = augmentedStart ∧
    p.symbols = g.start.toList.map Symbol.nonterminal

/-- In every grammar that declarations can make the registries agree with the productions. -/
theorem Made.agrees (h : g.Made) : g.Agrees := by
  have hwell := h.wellFormed
  have hregistered := h.registered
  have huses : ∀ {name : String} {uses : List Nat}, g.nonterminals.get? name = some uses →
      g.ListsUses (.nonterminal name) uses := by
    intro name uses huses
    have hlists := hregistered.nonterminals name
    rwa [nonterminalUses, huses] at hlists
  have hknown : ∀ {i : Nat} {name : String}, Symbol.nonterminal name ∈ g.rightSide i →
      name ∈ g.nonterminals.keys := by
    intro i name hi
    obtain ⟨p, hp, hs⟩ := exists_production?_of_mem_rightSide hi
    exact (hwell.knows hp hs).2
  obtain ⟨zero, hzero, hname, _, hsymbols⟩ := hwell.zero
  refine
    { index := hwell.index
      distinct := hregistered.distinct
      declared := by rw [hregistered.declared]
      rules := ?_
      defined := hwell.mem_rules_iff
      terminals := ?_
      nonterminals := huses
      start := ?_
      registered := ?_
      known := ?_
      augmented := ⟨zero, hzero, hname, hsymbols⟩ }
  · intro name indices hindices
    have hsame : g.ruleIndices name = indices := by
      rw [ruleIndices, hindices]
      rfl
    refine ⟨hsame ▸ hregistered.ascending name, fun i => ?_⟩
    rw [← hsame, hwell.rules, Nat.one_le_iff_ne_zero]
  · intro s uses huses
    have hlists := hregistered.terminals s (hwell.terminal (Registry.mem_keys_of_get? huses))
    rwa [terminalUses, huses] at hlists
  · intro name
    rw [← hwell.mem_rightSide_zero]
    constructor
    · rintro ⟨uses, hget, hmem⟩
      exact (huses hget).mem_iff.mp hmem
    · intro hmem
      obtain ⟨uses, hget⟩ := Registry.exists_get?_of_mem_keys (hknown hmem)
      exact ⟨uses, hget, (huses hget).mem_iff.mpr hmem⟩
  · intro i s hs hterminal
    obtain ⟨p, hp, hmem⟩ := exists_production?_of_mem_rightSide hs
    exact (hwell.knows hp hmem).mem_keys hterminal
  · intro name
    rw [← exists_mem_tail_iff]
    refine ⟨hregistered.known name, fun hused => ?_⟩
    obtain hleft | ⟨i, hi⟩ := hused
    · obtain ⟨i, p, hp, hpname⟩ := exists_mem_tail_iff.mp hleft
      exact hpname ▸ (hwell.name hp).2
    · exact hknown hi

/-- Whatever is done to a grammar after it was made from tokens, its registries agree with its
productions, and productions without a tag have the precedence now declared for their rightmost
terminal. -/
theorem registries_agree {tokens : List String} (h : ofTokens tokens = .ok g)
    (calls : List (Call α)) : (g.performAll calls).Agrees ∧ g.InheritsPrecedences calls :=
  ⟨((Made.ofTokens h).performAll calls).agrees, (Made.ofTokens h).inheritsPrecedences calls⟩

/-- The grammar over the token of numbers, before any production. -/
def numbers : Grammar Unit :=
  { productions := [{ index := 0, name := augmentedStart, symbols := [] }]
    terminals := ⟨[(.endOfInput, []), (.error, []), (.token "NUMBER", [])]⟩ }

/-- Declarations of sums, with an undeclared token and a repeated production that are refused, the
start symbol changed, and a precedence that comes too late. -/
def sumCalls : List (Call Unit) :=
  [.setPrecedence (.literal '+') .left 1, .addProduction "sum" [.token "NUMBER"] none none,
    .addProduction "sum" [.token "NAME"] none none,
    .addProduction "sum" [.nonterminal "sum", .literal '+', .nonterminal "sum"] none none,
    .addProduction "sum" [.token "NUMBER"] none none, .setStart none,
    .addProduction "sums" [.nonterminal "sums", .nonterminal "sum"] none none, .buildTable .lalr,
    .setStart (some "sums"), .setPrecedence (.token "NUMBER") .right 2, .computeFollow none]

theorem registries_agree_sums : ofTokens ["NUMBER"] = .ok numbers ∧
    (numbers.performAll sumCalls).Agrees ∧ numbers.InheritsPrecedences sumCalls :=
  have hmade : ofTokens ["NUMBER"] = .ok numbers := rfl
  ⟨hmade, registries_agree hmade sumCalls⟩

example : (numbers.performAll sumCalls).nonterminalUses "sum" = [2, 2, 3] ∧
    (numbers.performAll sumCalls).nonterminalUses "sums" = [0, 3] ∧
    (numbers.performAll sumCalls).ruleIndices "sum" = [1, 2] := by decide +kernel

end ShiftReduce.Grammar
