import ShiftReduce.Grammar.Follow
import ShiftReduce.Proofs.Collections
import ShiftReduce.Proofs.Grammar.Arena
import ShiftReduce.Proofs.Rounds

/-!
# Grammars that declarations can make

`Made g` says that `g` comes from a list of tokens by declarations and computations in any order,
refused ones included. Every such grammar is well formed: its registries speak of its productions,
production 0 leads to the start symbol, and the items in its arena, if there are any, are those of
the productions it has. Read `Made.wellFormed` and `Made.arena` first.
-/

namespace ShiftReduce

variable {α : Type} {g : Grammar α}

namespace Grammar

/-- The grammars that declarations and computations can lead to, whether or not one of them was
refused on the way. -/
inductive Made : Grammar α → Prop
  | ofTokens {tokens : List String} {g : Grammar α} : ofTokens tokens = .ok g → Made g
  | setPrecedence {g : Grammar α} (s : Symbol) (assoc : Assoc) (level : Nat) :
      Made g → Made (g.setPrecedence s assoc level).2
  | addProduction {g : Grammar α} (name : String) (symbols : List Symbol) (tag : Option Symbol)
      (action : Option α) : Made g → Made (g.addProduction name symbols tag action).2
  | setStart {g : Grammar α} (name : Option String) : Made g → Made (g.setStart name).2
  | buildItems {g : Grammar α} : Made g → Made g.buildItems
  | computeFirst {g : Grammar α} : Made g → Made g.computeFirst.2
  | computeFollow {g : Grammar α} (start : Option String) : Made g → Made (g.computeFollow start).2

/-- A symbol that the registries know of; nonterminals are also written in their own style. -/
def Knows (g : Grammar α) : Symbol → Prop
  | .nonterminal name => isNonterminalName name = true ∧ name ∈ g.nonterminals.keys
  | s => s ∈ g.terminals.keys

/-- A terminal that the grammar knows is registered. -/
theorem Knows.mem_keys {s : Symbol} (h : g.Knows s) (hs : s.isTerminal = true) :
    s ∈ g.terminals.keys := by
  cases s with
  | nonterminal name => cases hs
  | token name => exact h
  | literal c => exact h

/-- The productions of a name, as the registry of rules lists them. -/
def ruleIndices (g : Grammar α) (name : String) : List Nat :=
  (g.rules.get? name).getD []

/-- The productions of a grammar agree with its registries. -/
structure WellFormed (g : Grammar α) : Prop where
  zero : ∃ p, g.production? 0 = some p ∧ p.name = augmentedStart ∧ p.prec = {} ∧
    p.symbols = g.start.toList.map Symbol.nonterminal
  index : ∀ {i : Nat} {p : Production α}, g.production? i = some p → p.index = i
  name : ∀ {i : Nat} {p : Production α}, g.production? (i + 1) = some p →
    isNonterminalName p.name = true ∧ p.name ∈ g.nonterminals.keys
  knows : ∀ {i : Nat} {p : Production α} {s : Symbol}, g.production? i = some p →
    s ∈ p.symbols → g.Knows s
  rules : ∀ {name : String} {i : Nat}, i ∈ g.ruleIndices name ↔
    i ≠ 0 ∧ ∃ p, g.production? i = some p ∧ p.name = name
  defined : ∀ {name : String}, name ∈ g.rules.keys → g.ruleIndices name ≠ []
  start : ∀ {name : String}, g.start = some name → name ∈ g.rules.keys
  terminal : ∀ {s : Symbol}, s ∈ g.terminals.keys → s.isTerminal = true
  endOfInput : Symbol.endOfInput ∈ g.terminals.keys
  nodupTerminals : g.terminals.keys.Nodup
  nodupNonterminals : g.nonterminals.keys.Nodup
  plain : g.precedence.keys = [] → ∀ {i : Nat} {p : Production α}, g.production? i = some p →
    p.prec = {}

/-! ## A grammar of tokens -/

/-- Registering tokens keeps what was registered and adds terminals only. -/
theorem registerTokens_spec {tokens : List String} {start result : Registry Symbol (List Nat)}
    (h : registerTokens start tokens = .ok result) :
    (∀ s ∈ start.keys, s ∈ result.keys) ∧
      ((∀ s ∈ start.keys, s.isTerminal = true) → ∀ s ∈ result.keys, s.isTerminal = true) ∧
      (start.keys.Nodup → result.keys.Nodup) := by
  induction tokens generalizing start with
  | nil =>
      cases h
      exact ⟨fun _ hs => hs, fun hs => hs, fun hs => hs⟩
  | cons name rest ih =>
      simp only [registerTokens] at h
      split at h
      · cases h
      · obtain ⟨hkeep, hterminal, hnodup⟩ := ih h
        refine ⟨?_, ?_, ?_⟩
        · exact fun s hs => hkeep s (Registry.mem_keys_register.mpr (Or.inl hs))
        · intro hstart
          refine hterminal fun s hs => ?_
          rcases Registry.mem_keys_register.mp hs with hold | rfl
          · exact hstart s hold
          · rfl
        · exact fun hs => hnodup (Registry.nodup_keys_register hs)

/-- A grammar that was just made from tokens is well formed. -/
theorem wellFormed_ofTokens {tokens : List String} (h : ofTokens tokens = .ok g) :
    g.WellFormed := by
  unfold ofTokens at h
  split at h
  · cases h
  · rename_i terminals hterminals
    cases h
    obtain ⟨hkeep, hterminal, hnodup⟩ := registerTokens_spec hterminals
    have honly : ∀ {i : Nat} {p : Production α},
        [({ index := 0, name := augmentedStart, symbols := [] } : Production α)][i]? = some p →
        i = 0 ∧ p = { index := 0, name := augmentedStart, symbols := [] } := by
      intro i p hp
      cases i with
      | zero => exact ⟨rfl, by simpa using hp.symm⟩
      | succ i => simp at hp
    refine
      { zero := ⟨_, rfl, rfl, rfl, rfl⟩
        index := ?_
        name := ?_
        knows := ?_
        rules := ?_
        defined := ?_
        start := ?_
        terminal := ?_
        endOfInput := hkeep _ (by simp [Registry.keys])
        nodupTerminals := hnodup (by decide)
        nodupNonterminals := List.nodup_nil
        plain := ?_ }
    · intro i p hp
      obtain ⟨rfl, rfl⟩ := honly hp
      rfl
    · intro i p hp
      exact absurd (honly hp).1 (Nat.succ_ne_zero i)
    · intro i p s hp hs
      obtain ⟨rfl, rfl⟩ := honly hp
      simp at hs
    · intro name i
      constructor
      · intro hi
        simp [ruleIndices, Registry.get?] at hi
      · rintro ⟨hi, p, hp, _⟩
        exact absurd (honly hp).1 hi
    · intro name hname
      simp [Registry.keys] at hname
    · intro name hname
      cases hname
    · exact fun hs => hterminal (by decide) _ hs
    · intro _ i p hp
      obtain ⟨rfl, rfl⟩ := honly hp
      rfl

/-! ## What a well-formed grammar is read by -/

/-- Well-formedness speaks of the productions, the registries and the start symbol only, and not of
the ranges of items. -/
theorem WellFormed.congr {other : Grammar α} (h : g.WellFormed)
    (hforth : ∀ {i : Nat} {p : Production α}, other.production? i = some p →
      ∃ q, g.production? i = some q ∧ p.index = q.index ∧ p.name = q.name ∧ p.prec = q.prec ∧
        p.symbols = q.symbols)
    (hback : ∀ {i : Nat} {q : Production α}, g.production? i = some q →
      ∃ p, other.production? i = some p ∧ p.index = q.index ∧ p.name = q.name ∧ p.prec = q.prec ∧
        p.symbols = q.symbols)
    (hrules : other.rules = g.rules) (hterminals : other.terminals = g.terminals)
    (hnonterminals : other.nonterminals = g.nonterminals)
    (hprecedence : other.precedence.keys = [] → g.precedence.keys = [])
    (hstart : other.start = g.start) : other.WellFormed where
  zero := by
    obtain ⟨q, hq, hname, hprec, hsymbols⟩ := h.zero
    obtain ⟨p, hp, _, hpname, hpprec, hpsymbols⟩ := hback hq
    exact ⟨p, hp, hpname.trans hname, hpprec.trans hprec, by rw [hpsymbols, hsymbols, hstart]⟩
  index := by
    intro i p hp
    obtain ⟨q, hq, hindex, _⟩ := hforth hp
    exact hindex.trans (h.index hq)
  name := by
    intro i p hp
    obtain ⟨q, hq, _, hname, _⟩ := hforth hp
    rw [hname, hnonterminals]
    exact h.name hq
  knows := by
    intro i p s hp hs
    obtain ⟨q, hq, _, _, _, hsymbols⟩ := hforth hp
    have hknown := h.knows hq (hsymbols ▸ hs)
    cases s <;> simpa only [Knows, hterminals, hnonterminals] using hknown
  rules := by
    intro name i
    rw [ruleIndices, hrules]
    refine h.rules.trans (and_congr_right fun _ => ?_)
    constructor
    · rintro ⟨q, hq, rfl⟩
      obtain ⟨p, hp, _, hname, _⟩ := hback hq
      exact ⟨p, hp, hname⟩
    · rintro ⟨p, hp, rfl⟩
      obtain ⟨q, hq, _, hname, _⟩ := hforth hp
      exact ⟨q, hq, hname.symm⟩
  defined := by
    intro name hname
    rw [ruleIndices, hrules]
    exact h.defined (hrules ▸ hname)
  start := by
    intro name hname
    rw [hrules]
    exact h.start (hstart ▸ hname)
  terminal := fun hs => h.terminal (hterminals ▸ hs)
  endOfInput := hterminals ▸ h.endOfInput
  nodupTerminals := hterminals ▸ h.nodupTerminals
  nodupNonterminals := hnonterminals ▸ h.nodupNonterminals
  plain := by
    intro hnone i p hp
    obtain ⟨q, hq, _, _, hprec, _⟩ := hforth hp
    exact hprec.trans (h.plain (hprecedence hnone) hq)

/-- What leaves productions, registries and the start symbol alone keeps a grammar well formed. -/
theorem WellFormed.of_same {other : Grammar α} (h : g.WellFormed)
    (hproductions : other.productions = g.productions) (hrules : other.rules = g.rules)
    (hterminals : other.terminals = g.terminals)
    (hnonterminals : other.nonterminals = g.nonterminals)
    (hprecedence : other.precedence.keys = [] → g.precedence.keys = [])
    (hstart : other.start = g.start) : other.WellFormed := by
  refine h.congr ?_ ?_ hrules hterminals hnonterminals hprecedence hstart
  · intro i p hp
    exact ⟨p, by rwa [production?, hproductions] at hp, rfl, rfl, rfl, rfl⟩
  · intro i q hq
    exact ⟨q, by rwa [production?, hproductions], rfl, rfl, rfl, rfl⟩

/-! ## Adding a production -/

/-- Registers an occurrence of a symbol among the terminals. -/
def noteTerminal (index : Nat) (terminals : Registry Symbol (List Nat)) :
    Symbol → Registry Symbol (List Nat)
  | .nonterminal _ => terminals
  | s => terminals.update s [] (· ++ [index])

/-- Registers an occurrence of a symbol among the nonterminals. -/
def noteNonterminal (index : Nat) (nonterminals : Registry String (List Nat)) :
    Symbol → Registry String (List Nat)
  | .nonterminal name => nonterminals.update name [] (· ++ [index])
  | _ => nonterminals

/-- The symbols of a right side are noted among the terminals and among the nonterminals
separately. -/
theorem foldl_noteOccurrence (index : Nat) (symbols : List Symbol) (g : Grammar α) :
    symbols.foldl (noteOccurrence index) g =
      { g with
        terminals := symbols.foldl (noteTerminal index) g.terminals
        nonterminals := symbols.foldl (noteNonterminal index) g.nonterminals } := by
  induction symbols generalizing g with
  | nil => rfl
  | cons s rest ih =>
      rw [List.foldl_cons, ih]
      cases s <;> rfl

/-- All that appending a production changes. -/
theorem append_eq (g : Grammar α) (p : Production α) :
    g.append p =
      { g.forget with
        productions := g.productions ++ [p]
        rules := g.rules.update p.name [] (· ++ [p.index])
        declared := g.declared ++ [(p.name, p.symbols)]
        terminals := p.symbols.foldl (noteTerminal p.index) g.terminals
        nonterminals :=
          p.symbols.foldl (noteNonterminal p.index) (g.nonterminals.register p.name []) } := by
  simp only [append, forget, foldl_noteOccurrence]

/-- The terminals after the symbols of a right side were noted. -/
theorem mem_terminals_noteOccurrences (index : Nat) (symbols : List Symbol) (g : Grammar α)
    (t : Symbol) : t ∈ (symbols.foldl (noteOccurrence index) g).terminals.keys ↔
      t ∈ g.terminals.keys ∨ t ∈ symbols ∧ t.isTerminal = true := by
  induction symbols generalizing g with
  | nil => simp
  | cons s rest ih =>
      rw [List.foldl_cons, ih]
      cases s with
      | nonterminal name =>
          have hne : t.isTerminal = true → t ≠ .nonterminal name := by
            rintro ht rfl
            cases ht
          simp only [noteOccurrence, List.mem_cons]
          grind
      | token name =>
          simp only [noteOccurrence, Registry.mem_keys_update, List.mem_cons]
          grind [Symbol.isTerminal, Symbol.isNonterminal]
      | literal c =>
          simp only [noteOccurrence, Registry.mem_keys_update, List.mem_cons]
          grind [Symbol.isTerminal, Symbol.isNonterminal]

/-- The nonterminals after the symbols of a right side were noted. -/
theorem mem_nonterminals_noteOccurrences (index : Nat) (symbols : List Symbol) (g : Grammar α)
    (name : String) : name ∈ (symbols.foldl (noteOccurrence index) g).nonterminals.keys ↔
      name ∈ g.nonterminals.keys ∨ .nonterminal name ∈ symbols := by
  induction symbols generalizing g with
  | nil => simp
  | cons s rest ih =>
      rw [List.foldl_cons, ih]
      cases s <;> simp [noteOccurrence, or_assoc]

/-- Noting the symbols of a right side lists no terminal and no nonterminal twice. -/
theorem nodup_noteOccurrences (index : Nat) (symbols : List Symbol) {g : Grammar α}
    (hterminals : g.terminals.keys.Nodup) (hnonterminals : g.nonterminals.keys.Nodup) :
    (symbols.foldl (noteOccurrence index) g).terminals.keys.Nodup ∧
      (symbols.foldl (noteOccurrence index) g).nonterminals.keys.Nodup := by
  refine foldl_induction
    (P := fun other : Grammar α =>
      other.terminals.keys.Nodup ∧ other.nonterminals.keys.Nodup) ?_ ⟨hterminals, hnonterminals⟩
  intro other s _ hother
  cases s with
  | nonterminal name => exact ⟨hother.1, Registry.nodup_keys_update hother.2⟩
  | token name => exact ⟨Registry.nodup_keys_update hother.1, hother.2⟩
  | literal c => exact ⟨Registry.nodup_keys_update hother.1, hother.2⟩

section Append

variable (g) (p : Production α)

theorem append_productions : (g.append p).productions = g.productions ++ [p] := by
  rw [append_eq]

theorem append_declared : (g.append p).declared = g.declared ++ [(p.name, p.symbols)] := by
  rw [append_eq]

theorem append_rules : (g.append p).rules = g.rules.update p.name [] (· ++ [p.index]) := by
  rw [append_eq]

theorem append_precedence : (g.append p).precedence = g.precedence := by
  rw [append_eq]
  rfl

theorem append_start : (g.append p).start = g.start := by
  rw [append_eq]
  rfl

theorem append_nonterminals : (g.append p).nonterminals =
    p.symbols.foldl (noteNonterminal p.index) (g.nonterminals.register p.name []) := by
  rw [append_eq]

theorem mem_append_terminals {t : Symbol} : t ∈ (g.append p).terminals.keys ↔
    t ∈ g.terminals.keys ∨ t ∈ p.symbols ∧ t.isTerminal = true :=
  mem_terminals_noteOccurrences p.index p.symbols _ t

theorem mem_append_nonterminals {name : String} : name ∈ (g.append p).nonterminals.keys ↔
    (name ∈ g.nonterminals.keys ∨ name = p.name) ∨ .nonterminal name ∈ p.symbols := by
  have h := mem_nonterminals_noteOccurrences p.index p.symbols
    { g with nonterminals := g.nonterminals.register p.name [] } name
  rw [Registry.mem_keys_register] at h
  exact h

/-- The productions of a name after one more production was appended. -/
theorem ruleIndices_append (name : String) : (g.append p).ruleIndices name =
    if name = p.name then g.ruleIndices name ++ [p.index] else g.ruleIndices name := by
  rw [ruleIndices, append_rules]
  by_cases hname : name = p.name
  · subst hname
    rw [Registry.get?_update_self, if_pos rfl]
    rfl
  · rw [Registry.get?_update_of_ne hname, if_neg hname]
    rfl

end Append

/-- The productions after one more was appended: those before it, and the new one behind them. -/
theorem production?_append {p q : Production α} {i : Nat} :
    (g.append p).production? i = some q ↔
      g.production? i = some q ∨ i = g.productions.length ∧ q = p := by
  rw [production?, append_productions]
  by_cases hi : i < g.productions.length
  · rw [List.getElem?_append_left hi]
    exact ⟨Or.inl, fun h => h.elim id fun hlast => absurd hlast.1 (by omega)⟩
  · have hnone : g.production? i = none := List.getElem?_eq_none (by omega)
    rw [List.getElem?_append_right (by omega), List.getElem?_singleton, hnone]
    constructor
    · intro h
      split at h
      · exact Or.inr ⟨by omega, (Option.some.inj h).symm⟩
      · cases h
    · rintro (h | ⟨rfl, rfl⟩)
      · cases h
      · simp

/-- What the registries know, they know after a production was appended. -/
theorem Knows.append {s : Symbol} (h : g.Knows s) (p : Production α) : (g.append p).Knows s := by
  cases s with
  | nonterminal name =>
      exact ⟨h.1, (mem_append_nonterminals g p).mpr (Or.inl (Or.inl h.2))⟩
  | token name => exact (mem_append_terminals g p).mpr (Or.inl h)
  | literal c => exact (mem_append_terminals g p).mpr (Or.inl h)

/-- Without a fault the symbols of a new production are known once it is appended. -/
theorem knows_of_symbolFault? {p : Production α} {s : Symbol} (hs : s ∈ p.symbols)
    (hfault : g.symbolFault? s = none) : (g.append p).Knows s := by
  cases s with
  | nonterminal name =>
      simp only [symbolFault?] at hfault
      split at hfault
      · cases hfault
      · rename_i hvalid
        exact ⟨by simp_all, (mem_append_nonterminals g p).mpr (Or.inr hs)⟩
  | token name => exact (mem_append_terminals g p).mpr (Or.inr ⟨hs, rfl⟩)
  | literal c => exact (mem_append_terminals g p).mpr (Or.inr ⟨hs, rfl⟩)

/-- Without a fault of the left side it is written like a nonterminal. -/
theorem isNonterminalName_of_leftSideFault? {name : String} (h : leftSideFault? name = none) :
    isNonterminalName name = true := by
  unfold leftSideFault? at h
  split at h
  · cases h
  · simpa using h

/-- Without a fault of the rule there is none of its left side and its symbols. -/
theorem faults_of_ruleFault? {name : String} {symbols : List Symbol}
    (h : g.ruleFault? name symbols = none) :
    leftSideFault? name = none ∧ ∀ s ∈ symbols, g.symbolFault? s = none := by
  unfold ruleFault? at h
  split at h
  · cases h
  · rename_i hleft
    exact ⟨hleft, List.findSome?_eq_none_iff.mp h⟩

/-- A well-formed grammar has production 0. -/
theorem WellFormed.length_ne_zero (h : g.WellFormed) : g.productions.length ≠ 0 := by
  obtain ⟨zero, hzero, _⟩ := h.zero
  have hlt : 0 < g.productions.length := (List.getElem?_eq_some_iff.mp hzero).1
  omega

/-- The registry of rules lists the new production under its name. -/
theorem WellFormed.mem_ruleIndices_append {p : Production α} (h : g.WellFormed)
    (hindex : p.index = g.productions.length) {name : String} {i : Nat} :
    i ∈ (g.append p).ruleIndices name ↔
      i ≠ 0 ∧ ∃ q, (g.append p).production? i = some q ∧ q.name = name := by
  have hold : i ∈ g.ruleIndices name ↔ _ := h.rules
  simp only [ruleIndices_append, production?_append]
  by_cases hname : name = p.name
  · rw [if_pos hname, List.mem_append, List.mem_singleton, hold, hindex]
    constructor
    · rintro (⟨hi, q, hq, hqname⟩ | rfl)
      · exact ⟨hi, q, Or.inl hq, hqname⟩
      · exact ⟨h.length_ne_zero, p, Or.inr ⟨rfl, rfl⟩, hname.symm⟩
    · rintro ⟨hi, q, hq | ⟨rfl, rfl⟩, hqname⟩
      · exact Or.inl ⟨hi, q, hq, hqname⟩
      · exact Or.inr rfl
  · rw [if_neg hname, hold]
    constructor
    · rintro ⟨hi, q, hq, hqname⟩
      exact ⟨hi, q, Or.inl hq, hqname⟩
    · rintro ⟨hi, q, hq | ⟨rfl, rfl⟩, hqname⟩
      · exact ⟨hi, q, hq, hqname⟩
      · exact absurd hqname.symm hname

/-- No name is listed without a production after one was appended. -/
theorem WellFormed.defined_append (h : g.WellFormed) (p : Production α) {name : String}
    (hname : name ∈ (g.append p).rules.keys) : (g.append p).ruleIndices name ≠ [] := by
  rw [append_rules, Registry.mem_keys_update] at hname
  rw [ruleIndices_append]
  by_cases hsame : name = p.name
  · simp [hsame]
  · rw [if_neg hsame]
    exact h.defined (hname.resolve_right hsame)

/-- A production without fault keeps the grammar well formed. -/
theorem WellFormed.append {p : Production α} (h : g.WellFormed)
    (hindex : p.index = g.productions.length) (hfault : g.ruleFault? p.name p.symbols = none)
    (hprec : g.precedence.keys = [] → p.prec = {}) : (g.append p).WellFormed := by
  obtain ⟨hleft, hsymbols⟩ := faults_of_ruleFault? hfault
  obtain ⟨hterminals, hnonterminals⟩ := nodup_noteOccurrences p.index p.symbols
    (g := { g with nonterminals := g.nonterminals.register p.name [] }) h.nodupTerminals
    (Registry.nodup_keys_register h.nodupNonterminals)
  refine
    { zero := ?_
      index := ?_
      name := ?_
      knows := ?_
      rules := h.mem_ruleIndices_append hindex
      defined := h.defined_append p
      start := ?_
      terminal := ?_
      endOfInput := (mem_append_terminals g p).mpr (Or.inl h.endOfInput)
      nodupTerminals := hterminals
      nodupNonterminals := hnonterminals
      plain := ?_ }
  · obtain ⟨zero, hzero, hrest⟩ := h.zero
    exact ⟨zero, production?_append.mpr (Or.inl hzero), by rwa [append_start]⟩
  · intro i q hq
    rcases production?_append.mp hq with hold | ⟨rfl, rfl⟩
    · exact h.index hold
    · exact hindex
  · intro i q hq
    rw [mem_append_nonterminals]
    rcases production?_append.mp hq with hold | ⟨_, rfl⟩
    · exact ⟨(h.name hold).1, Or.inl (Or.inl (h.name hold).2)⟩
    · exact ⟨isNonterminalName_of_leftSideFault? hleft, Or.inl (Or.inr rfl)⟩
  · intro i q s hq hs
    rcases production?_append.mp hq with hold | ⟨_, rfl⟩
    · exact (h.knows hold hs).append p
    · exact knows_of_symbolFault? hs (hsymbols s hs)
  · intro name hstart
    rw [append_start] at hstart
    rw [append_rules, Registry.mem_keys_update]
    exact Or.inl (h.start hstart)
  · intro s hs
    rcases (mem_append_terminals g p).mp hs with hold | ⟨_, hs⟩
    · exact h.terminal hold
    · exact hs
  · intro hnone i q hq
    rw [append_precedence] at hnone
    rcases production?_append.mp hq with hold | ⟨_, rfl⟩
    · exact h.plain hnone hold
    · exact hprec hnone

/-- Adding a production, refused or not, keeps the grammar well formed. -/
theorem WellFormed.addProduction (h : g.WellFormed) (name : String) (symbols : List Symbol)
    (tag : Option Symbol) (action : Option α) :
    (g.addProduction name symbols tag action).2.WellFormed := by
  unfold Grammar.addProduction
  split
  · exact h
  · rename_i hfault
    split
    · exact h
    · rename_i prec hprec
      have htagged : (g.noteTag tag).WellFormed := by
        cases tag with
        | none => exact h
        | some tag => exact h.of_same rfl rfl rfl rfl id rfl
      have hfields : (g.noteTag tag).productions = g.productions ∧
          (g.noteTag tag).precedence = g.precedence ∧
          (g.noteTag tag).ruleFault? name symbols = g.ruleFault? name symbols := by
        cases tag <;> exact ⟨rfl, rfl, rfl⟩
      obtain ⟨hproductions, hprecedence, hsame⟩ := hfields
      dsimp only
      split
      · exact htagged
      · refine htagged.append rfl (hsame.trans hfault) ?_
        intro hnone
        rw [hprecedence] at hnone
        -- without declared precedences a tag would be refused, and the default one is taken
        have hempty : ∀ s, g.precedence.get? s = none := by
          intro s
          rw [Registry.get?_eq_none_iff, hnone]
          exact List.not_mem_nil
        cases tag with
        | none =>
            simp only [rulePrecedence, rightmostPrecedence, precedenceOf, hempty] at hprec
            cases hprec
            split <;> rfl
        | some tag => simp [rulePrecedence, hempty] at hprec

/-! ## Choosing the start symbol -/

/-- Withdrawing a start symbol unregisters no nonterminal. -/
theorem keys_releaseStart (g : Grammar α) : g.releaseStart.keys = g.nonterminals.keys := by
  unfold releaseStart
  split
  · rfl
  · exact Registry.keys_modify _ _ _

/-- The nonterminals after a start symbol was chosen. -/
theorem mem_restart_nonterminals {start name : String} :
    name ∈ (g.restart start).nonterminals.keys ↔ name ∈ g.nonterminals.keys ∨ name = start :=
  Registry.mem_keys_update.trans (by rw [keys_releaseStart])

/-- Choosing a start symbol replaces production 0. -/
theorem production?_restart_zero (start : String) : (g.restart start).production? 0 =
    some { index := 0, name := augmentedStart, symbols := [.nonterminal start] } :=
  rfl

/-- Choosing a start symbol leaves the other productions alone. -/
theorem production?_restart_succ (start : String) (i : Nat) :
    (g.restart start).production? (i + 1) = g.production? (i + 1) := by
  have htail : g.productions.tail[i]? = g.productions[i + 1]? := by
    rw [List.getElem?_tail]
  exact htail

/-- A name with a production is written like a nonterminal. -/
theorem WellFormed.isNonterminalName_of_mem_rules {name : String} (h : g.WellFormed)
    (hname : name ∈ g.rules.keys) : isNonterminalName name = true := by
  obtain ⟨i, hi⟩ := List.exists_mem_of_ne_nil _ (h.defined hname)
  obtain ⟨hne, p, hp, rfl⟩ := h.rules.mp hi
  obtain ⟨j, rfl⟩ := Nat.exists_eq_succ_of_ne_zero hne
  exact (h.name hp).1

/-- What the registries know, they know after a start symbol was chosen. -/
theorem Knows.restart {s : Symbol} (h : g.Knows s) (start : String) :
    (g.restart start).Knows s := by
  cases s with
  | nonterminal name => exact ⟨h.1, mem_restart_nonterminals.mpr (Or.inl h.2)⟩
  | token name => exact h
  | literal c => exact h

/-- No nonterminal is listed twice after a start symbol was chosen. -/
theorem WellFormed.nodup_restart (h : g.WellFormed) (start : String) :
    (g.restart start).nonterminals.keys.Nodup := by
  refine Registry.nodup_keys_update ?_
  rw [keys_releaseStart]
  exact h.nodupNonterminals

/-- A start symbol with a production keeps the grammar well formed. -/
theorem WellFormed.restart {start : String} (h : g.WellFormed) (hstart : start ∈ g.rules.keys) :
    (g.restart start).WellFormed := by
  refine
    { zero := ⟨_, production?_restart_zero start, rfl, rfl, rfl⟩
      index := ?_
      name := ?_
      knows := ?_
      rules := ?_
      defined := h.defined
      start := ?_
      terminal := h.terminal
      endOfInput := h.endOfInput
      nodupTerminals := h.nodupTerminals
      nodupNonterminals := h.nodup_restart start
      plain := ?_ }
  · intro i p hp
    cases i with
    | zero =>
        cases hp
        rfl
    | succ i => exact h.index (production?_restart_succ start i ▸ hp)
  · intro i p hp
    rw [production?_restart_succ] at hp
    exact ⟨(h.name hp).1, mem_restart_nonterminals.mpr (Or.inl (h.name hp).2)⟩
  · intro i p s hp hs
    cases i with
    | zero =>
        cases hp
        rw [List.mem_singleton.mp hs]
        exact ⟨h.isNonterminalName_of_mem_rules hstart, mem_restart_nonterminals.mpr (Or.inr rfl)⟩
    | succ i => exact (h.knows (production?_restart_succ start i ▸ hp) hs).restart start
  · intro name i
    have hold : i ∈ g.ruleIndices name ↔ _ := h.rules
    refine hold.trans (and_congr_right fun hi => ?_)
    obtain ⟨j, rfl⟩ := Nat.exists_eq_succ_of_ne_zero hi
    rw [production?_restart_succ]
  · intro name hname
    cases hname
    exact hstart
  · intro hnone i p hp
    cases i with
    | zero =>
        cases hp
        rfl
    | succ i => exact h.plain hnone (production?_restart_succ start i ▸ hp)

/-- Choosing a start symbol, refused or not, keeps the grammar well formed. -/
theorem WellFormed.setStart (h : g.WellFormed) (name : Option String) :
    (g.setStart name).2.WellFormed := by
  unfold Grammar.setStart
  split
  · exact h
  · dsimp only
    split
    · rename_i hcontains
      exact h.restart (Registry.contains_iff.mp hcontains)
    · exact h

/-! ## What every declaration keeps -/

/-- Declaring a precedence, refused or not, keeps the grammar well formed. -/
theorem WellFormed.setPrecedence (h : g.WellFormed) (s : Symbol) (assoc : Assoc) (level : Nat) :
    (g.setPrecedence s assoc level).2.WellFormed := by
  unfold Grammar.setPrecedence
  split
  · exact h
  · split
    · exact h
    · split
      · exact h
      · refine h.of_same rfl rfl rfl rfl (fun hnone => ?_) rfl
        refine List.eq_nil_iff_forall_not_mem.mpr fun key hkey => ?_
        have hkept : key ∈ (g.precedence.register s ⟨assoc, level⟩).keys :=
          Registry.mem_keys_register.mpr (Or.inl hkey)
        exact List.not_mem_nil (hnone ▸ hkept)

/-- Building the items keeps the grammar well formed. -/
theorem WellFormed.buildItems (h : g.WellFormed) : g.buildItems.WellFormed := by
  refine h.congr ?_ ?_ rfl rfl rfl id rfl
  · intro i p hp
    rw [production?_buildItems, Option.map_eq_some_iff] at hp
    obtain ⟨q, hq, rfl⟩ := hp
    exact ⟨q, hq, rfl, rfl, rfl, rfl⟩
  · intro i q hq
    rw [production?_buildItems, hq]
    exact ⟨_, rfl, rfl, rfl, rfl, rfl⟩

/-- Declaring a precedence changes nothing but the precedences. -/
theorem setPrecedence_grammar (g : Grammar α) (s : Symbol) (assoc : Assoc) (level : Nat) :
    ∃ precedence, (g.setPrecedence s assoc level).2 = { g with precedence } := by
  unfold Grammar.setPrecedence
  split
  · exact ⟨_, rfl⟩
  · split
    · exact ⟨_, rfl⟩
    · split <;> exact ⟨_, rfl⟩

/-- Adding a production notes its tag at most, or appends it. -/
theorem addProduction_grammar (g : Grammar α) (name : String) (symbols : List Symbol)
    (tag : Option Symbol) (action : Option α) :
    ∃ usedTags, (g.addProduction name symbols tag action).2 = { g with usedTags } ∨
      ∃ p, (g.addProduction name symbols tag action).2 =
        Grammar.append { g with usedTags } p := by
  obtain ⟨usedTags, htag⟩ : ∃ usedTags, g.noteTag tag = { g with usedTags } := by
    cases tag <;> exact ⟨_, rfl⟩
  unfold Grammar.addProduction
  split
  · exact ⟨g.usedTags, Or.inl rfl⟩
  · split
    · exact ⟨g.usedTags, Or.inl rfl⟩
    · rw [htag]
      dsimp only
      split
      · exact ⟨usedTags, Or.inl rfl⟩
      · exact ⟨usedTags, Or.inr ⟨_, rfl⟩⟩

/-- Choosing a start symbol changes nothing, or starts the grammar anew from a name with rules. -/
theorem setStart_grammar (g : Grammar α) (name : Option String) :
    (g.setStart name).2 = g ∨
      ∃ start ∈ g.rules.keys, (g.setStart name).2 = g.restart start := by
  unfold Grammar.setStart
  split
  · exact Or.inl rfl
  · dsimp only
    split
    · rename_i hcontains
      exact Or.inr ⟨_, Registry.contains_iff.mp hcontains, rfl⟩
    · exact Or.inl rfl

/-- Computing FIRST sets changes nothing but the remembered FIRST sets. -/
theorem computeFirst_grammar (g : Grammar α) :
    ∃ first, g.computeFirst.2 = { g with first } := by
  unfold computeFirst
  split
  · exact ⟨_, rfl⟩
  · split <;> exact ⟨_, rfl⟩

/-- Computing FOLLOW sets changes nothing but the remembered FIRST and FOLLOW sets. -/
theorem computeFollow_grammar (g : Grammar α) (start : Option String) :
    ∃ first follow followStart,
      (g.computeFollow start).2 = { g with first, follow, followStart } := by
  obtain ⟨first, hfirst⟩ := computeFirst_grammar g
  unfold computeFollow
  split
  · exact ⟨_, _, _, rfl⟩
  · split
    · exact ⟨_, _, _, rfl⟩
    · split <;> rename_i hcompute <;> rw [hcompute] at hfirst <;> cases hfirst <;>
        exact ⟨_, _, _, rfl⟩

/-- Every grammar that declarations can make is well formed. -/
theorem Made.wellFormed (h : g.Made) : g.WellFormed := by
  induction h with
  | ofTokens h => exact wellFormed_ofTokens h
  | setPrecedence s assoc level _ ih => exact ih.setPrecedence s assoc level
  | addProduction name symbols tag action _ ih => exact ih.addProduction name symbols tag action
  | setStart name _ ih => exact ih.setStart name
  | buildItems _ ih => exact ih.buildItems
  | @computeFirst g _ ih =>
      obtain ⟨_, hsame⟩ := computeFirst_grammar g
      rw [hsame]
      exact ih.of_same rfl rfl rfl rfl id rfl
  | @computeFollow g start _ ih =>
      obtain ⟨_, _, _, hsame⟩ := computeFollow_grammar g start
      rw [hsame]
      exact ih.of_same rfl rfl rfl rfl id rfl

/-! ## Names of productions -/

/-- The left side of production 0 is not written like a nonterminal. -/
theorem isNonterminalName_augmentedStart : isNonterminalName augmentedStart = false := by
  decide +kernel

/-- Names that right sides know are names of productions other than production 0. -/
theorem ne_zero_of_knows {i : Nat} {p : Production α} (h : g.WellFormed)
    (hp : g.production? i = some p) (hknows : g.Knows (.nonterminal p.name)) : i ≠ 0 := by
  rintro rfl
  obtain ⟨zero, hzero, hname, _⟩ := h.zero
  cases hzero.symm.trans hp
  rw [hname] at hknows
  have hwritten := isNonterminalName_augmentedStart.symm.trans hknows.1
  cases hwritten

/-- The productions of the rounds are those other than production 0. -/
theorem mem_tail_iff {p : Production α} :
    p ∈ g.productions.tail ↔ ∃ i, g.production? (i + 1) = some p := by
  rw [List.mem_iff_getElem?]
  refine exists_congr fun i => ?_
  rw [production?, List.getElem?_tail]

/-! ## Items -/

/-- The arena speaks of the productions, the rules and the items only. -/
theorem Arena.of_same {other : Grammar α} (h : g.Arena)
    (hproductions : other.productions = g.productions) (hrules : other.rules = g.rules)
    (hitems : other.items = g.items) : other.Arena := by
  have hproduction : other.production? = g.production? := by
    funext i
    rw [production?, hproductions, production?]
  have hitem : other.item? = g.item? := by
    funext id
    rw [item?, hitems, item?]
  have hat : other.itemAt = g.itemAt := by
    funext p base dot
    rw [itemAt, hrules, itemAt]
  constructor
  · rw [hproduction, hitem, hat]
    exact h.item
  · rw [hproduction, hitem, hat]
    exact h.origin
  · rw [hproduction]
    exact h.past

/-- Where a grammar that declarations can make has items, they are those of its productions. -/
theorem Made.arena (h : g.Made) (hitems : g.items ≠ []) : g.Arena := by
  induction h with
  | ofTokens h =>
      unfold Grammar.ofTokens at h
      split at h
      · cases h
      · cases h
        exact absurd rfl hitems
  | @setPrecedence g s assoc level _ ih =>
      obtain ⟨_, hsame⟩ := setPrecedence_grammar g s assoc level
      rw [hsame] at hitems ⊢
      exact (ih hitems).of_same rfl rfl rfl
  | @addProduction g name symbols tag action _ ih =>
      obtain ⟨_, hsame | ⟨p, hsame⟩⟩ := addProduction_grammar g name symbols tag action
      · rw [hsame] at hitems ⊢
        exact (ih hitems).of_same rfl rfl rfl
      · -- a new production forgets the items
        rw [hsame] at hitems
        exact absurd rfl hitems
  | @setStart g name _ ih =>
      rcases setStart_grammar g name with hsame | ⟨start, _, hsame⟩
      · rw [hsame] at hitems ⊢
        exact ih hitems
      · rw [hsame] at hitems
        exact absurd rfl hitems
  | @buildItems g _ _ => exact arena_buildItems g
  | @computeFirst g _ ih =>
      obtain ⟨_, hsame⟩ := computeFirst_grammar g
      rw [hsame] at hitems ⊢
      exact (ih hitems).of_same rfl rfl rfl
  | @computeFollow g start _ ih =>
      obtain ⟨_, _, _, hsame⟩ := computeFollow_grammar g start
      rw [hsame] at hitems ⊢
      exact (ih hitems).of_same rfl rfl rfl

end Grammar

end ShiftReduce
