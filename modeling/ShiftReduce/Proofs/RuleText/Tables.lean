import ShiftReduce.RuleText.Parse
import ShiftReduce.Proofs.Builder.Building
import ShiftReduce.Proofs.Engine.Work

/-!
# The tables of the reader of rules

The reader of rules is a parser like any other: its table was built from the productions it was
given, with their actions. `production?_reader` lists them, and `graded_reader` bounds the
reductions between two tokens.
-/

namespace ShiftReduce

open Grammar

namespace RuleText

set_option maxRecDepth 4000 in
theorem start_parser? :
    parser?.map (fun parser => parser.grammar.start) = some (some "grammar") := by
  decide +kernel

theorem isSome_parser? : parser?.isSome = true := by
  rw [← Option.isSome_map, start_parser?]
  rfl

/-- The parser that the reader uses. -/
@[irreducible] def reader : Parser Value Nat :=
  parser?.get isSome_parser?

theorem parser?_eq : parser? = some reader := by
  unfold reader
  exact (Option.some_get isSome_parser?).symm

/-- The names, right sides and actions of the productions, by their indices. -/
def table : List (String × List Symbol × Option (Reading Value)) :=
  [("S'", [.nonterminal "grammar"], none),
   ("grammar", [.token "ID", .literal ':', .nonterminal "rules"], some reduceRule),
   ("rules", [.nonterminal "rules", .literal '|', .nonterminal "rule"],
    some reduceMoreAlternatives),
   ("rules", [.nonterminal "rule"], some reduceFirstAlternative),
   ("rule", [.nonterminal "symbols"], some reducePlain),
   ("rule", [.nonterminal "symbols", .token "PREC", .token "ID"], some reduceTagged),
   ("rule", [], some reduceNothing),
   ("symbols", [.nonterminal "symbols", .nonterminal "symbol"], some reduceMoreSymbols),
   ("symbols", [.nonterminal "symbol"], some reduceFirstSymbol),
   ("symbol", [.token "ID"], some reduceName),
   ("symbol", [.token "LITERAL"], some reduceLiteral)]

/-- Adding productions in turn appends their declarations. -/
theorem addProductions_spec {b final : Builder Value Nat}
    {rules : List (String × List String × Reading Value)} (hmade : b.grammar.Made)
    (hprecedence : b.grammar.precedence = ({} : Registry Symbol Precedence))
    (h : addProductions b rules = some final) :
    final.grammar.Made ∧ final.lexer = b.lexer ∧
      final.grammar.declarations = b.grammar.declarations ++
        rules.map fun rule => (rule.1, rule.2.1.map .ofName, ({} : Precedence), some rule.2.2) := by
  induction rules generalizing b with
  | nil =>
      cases h
      exact ⟨hmade, rfl, by rw [List.map_nil, List.append_nil]⟩
  | cons rule rest ih =>
      obtain ⟨name, symbols, action⟩ := rule
      rw [addProductions] at h
      rcases hanswer : b.production name (symbols.map .ofName) none action with ⟨_ | _, next⟩
      · simp only [hanswer] at h
        cases h
      · simp only [hanswer] at h
        have hspec := Builder.production_spec name (symbols.map .ofName) action hmade
          (by rw [hanswer])
        rw [hanswer] at hspec
        obtain ⟨hnext, hkept, hdeclared, hlexer⟩ := hspec
        have hnone : ∀ symbols, b.grammar.rightmostPrecedence symbols = ({} : Precedence) := by
          intro symbols
          unfold rightmostPrecedence precedenceOf
          rw [hprecedence]
          split <;> rfl
        obtain ⟨hfinal, hlexer', hall⟩ := ih hnext (hkept.trans hprecedence) h
        refine ⟨hfinal, hlexer'.trans hlexer, ?_⟩
        rw [hall, hdeclared, hnone, List.append_assoc]
        rfl

theorem productions_eq : productions.map (fun rule =>
      (rule.1, rule.2.1.map Symbol.ofName, ({} : Precedence), some rule.2.2)) =
    table.tail.map fun entry => (entry.1, entry.2.1, {}, entry.2.2) := by
  have hnames : ["ID", ":", "rules", "|", "rule", "symbols", "PREC", "symbol", "LITERAL"].map
      Symbol.ofName = [.token "ID", .literal ':', .nonterminal "rules", .literal '|',
        .nonterminal "rule", .nonterminal "symbols", .token "PREC", .nonterminal "symbol",
        .token "LITERAL"] := by decide +kernel
  simp only [List.map_cons, List.map_nil, List.cons.injEq, and_true] at hnames
  simp only [productions, table, List.tail_cons, List.map_cons, List.map_nil, hnames]

/-- How the reader was built. -/
theorem exists_builder : ∃ lexer b final, lexerPlan.build? = some lexer ∧
    (Builder.ofLexer lexer : Except BuildError (Builder Value Nat)) = .ok b ∧
    addProductions b productions = some final ∧
    { final with handler := some countError }.build .lalr = .ok reader := by
  have h := parser?_eq
  unfold parser? at h
  simp only [Option.bind_eq_bind, Option.bind_eq_some_iff] at h
  obtain ⟨lexer, hlexer, b, hb, final, hfinal, hbuild⟩ := h
  have hok : ∀ {ε α : Type} {answer : Except ε α} {a : α}, answer.toOption = some a →
      answer = .ok a := by
    intro ε α answer a hanswer
    cases answer with
    | error e => cases hanswer
    | ok a' => exact congrArg Except.ok (Option.some.inj hanswer)
  exact ⟨lexer, b, final, hlexer, hok hb, hfinal, hok hbuild⟩

/-- The reader's table was built from its productions, its handler counts errors, and its lexer is
that of the plan. -/
theorem reader_spec : reader.toMachine.Built .lalr ∧
    reader.grammar.declarations =
      table.tail.map (fun entry => (entry.1, entry.2.1, {}, entry.2.2)) ∧
    reader.handler = some countError ∧ lexerPlan.build? = some reader.lexer := by
  obtain ⟨lexer, b, final, hlexer, hb, hfinal, hbuild⟩ := exists_builder
  obtain ⟨hfresh, _, _⟩ := Builder.ofLexer_spec hb
  have hkeeps : b.lexer = lexer := by
    unfold Builder.ofLexer at hb
    split at hb
    · cases hb
    · cases hb
      rfl
  have hempty : b.grammar.declarations = [] := by
    obtain ⟨p, hp⟩ := List.length_eq_one_iff.mp hfresh.length
    rw [declarations, hp]
    rfl
  obtain ⟨hmade, hkept, hdeclared⟩ := addProductions_spec hfresh.made hfresh.precedence hfinal
  obtain ⟨hbuilt, hsame, hhandler, hlexer'⟩ :=
    Builder.build_spec (b := { final with handler := some countError }) hmade hbuild
  refine ⟨hbuilt, ?_, hhandler, ?_⟩
  · rw [hsame, ← productions_eq, ← List.nil_append (List.map _ productions), ← hempty]
    exact hdeclared
  · rw [hlexer, hlexer', ← hkeeps]
    exact congrArg some hkept.symm

set_option maxRecDepth 4000 in
/-- What the tables of the reader are like: production 0 has no action, there are no conflicts and
no precedences, and an empty alternative is only made right after a colon or a bar. -/
theorem tables_parser? : ∀ parser ∈ parser?,
    parser.grammar.productions.head?.map
        (fun p => (p.name, p.symbols, p.action.isNone)) =
      some ("S'", [.nonterminal "grammar"], true) ∧
    parser.grammar.start = some "grammar" ∧ parser.grammar.precedence.keys = [] ∧
    parser.table.conflicts = [] ∧
    ∀ q ∈ List.range parser.table.action.length,
      some (.reduce 6) ∈ (parser.table.action[q]?).getD [] → q ≠ 0 ∧
        ∀ row ∈ (Automaton.states parser.grammar).transitions, ∀ entry ∈ row.entries,
          entry.2 = q → entry.1 = .literal ':' ∨ entry.1 = .literal '|' := by
  decide +kernel

/-- The productions of the reader by their indices. -/
theorem production?_reader (i : Nat) :
    (reader.grammar.production? i).map (fun p => (p.name, p.symbols, p.action)) = table[i]? := by
  cases i with
  | zero =>
      obtain ⟨p, hp, hzero⟩ := Option.map_eq_some_iff.mp (tables_parser? reader parser?_eq).1
      simp only [Prod.mk.injEq, Option.isNone_iff_eq_none] at hzero
      rw [production?, ← List.head?_eq_getElem?, hp, Option.map_some, hzero.1, hzero.2.1, hzero.2.2]
      rfl
  | succ k =>
      have hall := congrArg (·[k]?) reader_spec.2.1
      simp only [declarations, List.getElem?_map, List.getElem?_tail] at hall
      have hparts := congrArg (Option.map fun declaration => (declaration.1, declaration.2.1,
        declaration.2.2.2)) hall
      rw [production?]
      simpa only [Option.map_map, Function.comp_def, Production.declaration, Option.map_id_fun',
        id_eq] using hparts

/-- The productions are those of the table, in the order of their indices. -/
theorem getElem?_table {i : Nat} {p : Production (Reading Value)}
    (hp : reader.grammar.production? i = some p) :
    table[i]? = some (p.name, p.symbols, p.action) := by
  rw [← production?_reader, hp, Option.map_some]

/-- Neither the end of input nor the error token stands in a production. -/
theorem nowhere_reader {i : Nat} {p : Production (Reading Value)}
    (hp : reader.grammar.production? i = some p) :
    .endOfInput ∉ p.symbols ∧ .error ∉ p.symbols := by
  have hall : ∀ entry ∈ table.map (fun entry => entry.2.1),
      .endOfInput ∉ entry ∧ .error ∉ entry := by decide
  exact hall p.symbols (List.mem_map_of_mem (List.mem_of_getElem? (getElem?_table hp)))

/-- The table of the reader has nothing to settle. -/
theorem clear_reader : reader.toMachine.Clear .lalr := by
  obtain ⟨_, _, hprecedence, hconflicts, _⟩ := tables_parser? reader parser?_eq
  exact ⟨reader_spec.1, hprecedence, fun hp => (nowhere_reader hp).1, hconflicts⟩

theorem countsErrors_reader : reader.toMachine.CountsErrors :=
  ⟨countError, reader_spec.2.2.1, fun _ _ => rfl⟩

/-! ## Reductions between two tokens -/

/-- Where a symbol stands on the way from a token to the rule: the further it has come, the lower.
A colon and a bar have an empty alternative before them. -/
def rank : Symbol → Nat
  | .literal ':' => 6
  | .literal '|' => 6
  | .token "ID" => 4
  | .token "LITERAL" => 4
  | .nonterminal "symbol" => 3
  | .nonterminal "symbols" => 2
  | .nonterminal "rule" => 1
  | .nonterminal "grammar" => 1
  | _ => 0

/-- The level of a stack: its height and the rank of its topmost symbol. -/
def level (γ : List Symbol) : Nat :=
  4 * γ.length + (γ.getLast?.map rank).getD 0

theorem rank_le (symbol : Symbol) : rank symbol ≤ 6 := by
  unfold rank
  split <;> omega

theorem level_append (γ : List Symbol) {δ : List Symbol} (hne : δ ≠ []) :
    level (γ ++ δ) = 4 * γ.length + level δ := by
  obtain ⟨front, last, rfl⟩ := (List.eq_nil_or_concat δ).resolve_left hne
  simp only [level, List.concat_eq_append, ← List.append_assoc, List.getLast?_concat,
    List.length_append]
  omega

/-- An empty alternative is only made right after a colon or a bar. -/
theorem exists_mark {γ : List Symbol} {q : Nat} {t : Symbol}
    (hpath : (Automaton.states reader.grammar).path? 0 γ = some q)
    (haction : reader.table.actionOn q t = some (.reduce 6)) :
    ∃ front mark, γ = front ++ [mark] ∧ (mark = .literal ':' ∨ mark = .literal '|') := by
  obtain ⟨_, _, _, _, hmarks⟩ := tables_parser? reader parser?_eq
  simp only [Table.actionOn, Option.bind_eq_bind, Option.bind_eq_some_iff] at haction
  obtain ⟨column, _, row, hrow, cell, hcell, rfl⟩ := haction
  obtain ⟨hzero, hentries⟩ := hmarks q
    (List.mem_range.mpr (List.getElem?_eq_some_iff.mp hrow).1)
    (by rw [hrow]; exact List.mem_of_getElem? hcell)
  rcases List.eq_nil_or_concat γ with rfl | ⟨front, mark, rfl⟩
  · exact absurd (Option.some.inj hpath).symm hzero
  · rw [List.concat_eq_append] at hpath ⊢
    obtain ⟨before, _, hgoto⟩ := States.path?_concat_inv hpath
    obtain ⟨row, hrow, hget⟩ := Option.bind_eq_some_iff.mp hgoto
    exact ⟨front, mark, rfl,
      hentries row (List.mem_of_getElem? hrow) _ (Registry.mem_entries_of_get? hget) rfl⟩

/-- Reductions lower the level. -/
theorem graded_reader : reader.toMachine.Graded level 16 where
  two_le := by omega
  nil := rfl
  length_le := fun γ => by unfold level; omega
  shift := by
    intro γ symbol
    have := rank_le symbol
    rw [level_append γ (by simp)]
    simp only [level, List.length_singleton, List.getLast?_singleton, Option.map_some,
      Option.getD_some]
    omega
  reduce := by
    intro t γ γ' ⟨δ, i, p, q, hγ, hγ', hp, hpath, haction⟩
    have hentry := getElem?_table hp
    subst hγ hγ'
    rw [level_append δ (by simp)]
    by_cases hne : p.symbols = []
    · -- what is made of nothing takes its rank from a colon or a bar
      have honly : ∀ entry ∈ table.mapIdx (fun i entry => (i, entry.1, entry.2.1)),
          entry.2.2 = [] → entry.1 = 6 ∧ entry.2.1 = "rule" := by decide
      have hmem : (i, p.name, p.symbols) ∈
          table.mapIdx fun i entry => (i, entry.1, entry.2.1) :=
        List.mem_of_getElem? (by rw [List.getElem?_mapIdx, hentry]; rfl)
      obtain ⟨rfl, hname⟩ : i = 6 ∧ p.name = "rule" := honly _ hmem hne
      rw [hne, List.append_nil] at hpath ⊢
      obtain ⟨front, mark, rfl, hmark⟩ := exists_mark hpath haction
      rw [level_append front (by simp), List.length_append, List.length_singleton, hname]
      rcases hmark with rfl | rfl
      · rw [show level [.nonterminal "rule"] = 5 from rfl, show level [.literal ':'] = 10 from rfl]
        omega
      · rw [show level [.nonterminal "rule"] = 5 from rfl, show level [.literal '|'] = 10 from rfl]
        omega
    · have hfalls : ∀ entry ∈ table.map (fun entry => (entry.1, entry.2.1)), entry.2 ≠ [] →
          level [.nonterminal entry.1] < level entry.2 := by decide
      have hfall := hfalls (p.name, p.symbols)
        (List.mem_map.mpr ⟨_, List.mem_of_getElem? hentry, rfl⟩) hne
      rw [level_append δ hne]
      exact Nat.add_lt_add_left hfall _

end RuleText

end ShiftReduce
