import ShiftReduce.Proofs.Grammar.Core
import ShiftReduce.Proofs.RuleText.Written

/-!
# Names of tokens and rules

A grammar takes the name of a token that has no lowercase character, and the name of a rule that has
no uppercase one, while a bare name that starts like an identifier refers to a token just if it has
no lowercase character. So every token is referred to by its name, and every rule but those whose
names have no case. Rule strings can spell the names of ASCII only. `names_agree` says this for
every history of a grammar; it is to be read first.
-/

namespace ShiftReduce

variable {name : String} {c : Char}

/-! ## What names refer to -/

/-- Whether some character of a name is lowercase. -/
def hasLowercase (name : String) : Bool :=
  name.toList.any Text.isLowercase

/-- What starts like an identifier is no single character that refers to itself. -/
theorem Symbol.ofName_of_startsName (h : startsName name = true) :
    Symbol.ofName name = Symbol.ofLongName name := by
  unfold Symbol.ofName
  split
  · rename_i c hname
    rw [startsName, hname, Bool.or_eq_true, beq_iff_eq] at h
    refine if_neg fun hmark => ?_
    simp only [Text.isAlphanumeric, Bool.and_eq_true, Bool.not_eq_true', Bool.or_eq_false_iff,
      bne_iff_ne] at hmark
    rcases h with halphabetic | hlow
    · exact Bool.false_ne_true (hmark.1.1.symm.trans halphabetic)
    · exact hmark.2 hlow
  · rfl

theorem Symbol.ofName_cases (h : startsName name = true) :
    Symbol.ofName name = .token name ∨ Symbol.ofName name = .nonterminal name := by
  rw [Symbol.ofName_of_startsName h, Symbol.ofLongName]
  split
  · exact Or.inl rfl
  · exact Or.inr rfl

theorem ne_endName_of_startsName (h : startsName name = true) : name ≠ endName := by
  rintro rfl
  have hends : startsName endName = false := by decide
  exact Bool.false_ne_true (hends.symm.trans h)

/-- What is written like a token refers to one. -/
theorem Symbol.ofName_of_isTokenName (h : isTokenName name = true) :
    Symbol.ofName name = .token name := by
  have hstarts : startsName name = true := (Bool.and_eq_true _ _ ▸ h).1
  rw [Symbol.ofName_of_startsName hstarts, Symbol.ofLongName, h, Bool.or_true]
  rfl

namespace Grammar

/-- What can be a left side is written like a nonterminal and is not the name of the error token. -/
theorem of_leftSideFault? (h : leftSideFault? name = none) :
    isNonterminalName name = true ∧ name ≠ errorName := by
  refine ⟨isNonterminalName_of_leftSideFault? h, ?_⟩
  rintro rfl
  cases h

/-- What can be a left side refers to a nonterminal just if it has a lowercase character. -/
theorem ofName_of_leftSideFault? (h : leftSideFault? name = none) :
    Symbol.ofName name = if hasLowercase name then .nonterminal name else .token name := by
  obtain ⟨hwritten, herror⟩ := of_leftSideFault? h
  have hstarts : startsName name = true := (Bool.and_eq_true _ _ ▸ hwritten).1
  have htoken : isTokenName name = !hasLowercase name := by
    rw [isTokenName, hstarts, Bool.true_and]
    rfl
  rw [Symbol.ofName_of_startsName hstarts, Symbol.ofLongName, htoken,
    beq_eq_false_iff_ne.mpr herror, beq_eq_false_iff_ne.mpr (ne_endName_of_startsName hstarts)]
  cases hasLowercase name <;> rfl

end Grammar

/-! ## Rule strings of names -/

namespace RuleText

/-- A name that rule strings can spell starts like an identifier. -/
theorem startsName_of_isName (h : isName name = true) : startsName name = true := by
  obtain ⟨c, run, hname, hstart, _⟩ := exists_of_isName h
  have hbegins : nameStart.holds c = true → (Text.isAlphabetic c || c == '_') = true :=
    nameInside_induction
      (P := fun c => nameStart.holds c = true → (Text.isAlphabetic c || c == '_') = true)
      (by decide) (nameInside_of_nameStart hstart)
  rw [startsName, hname]
  exact hbegins hstart

/-- A name that rule strings can spell is a word for what it refers to. -/
theorem word_of_isName (h : isName name = true) :
    (Symbol.ofName name).Word name.toList ∧ (Symbol.ofName name).Writable (· ≠ '\n') := by
  rcases Symbol.ofName_cases (startsName_of_isName h) with hrefers | hrefers
  · rw [hrefers]
    exact ⟨.token, h, hrefers⟩
  · rw [hrefers]
    exact ⟨.nonterminal, h, hrefers⟩

/-- A rule with one right side: its name, a colon and words, with a space before each. -/
def listing (left : String) (words : List (List Char)) : String :=
  String.ofList (left.toList ++ ([':'] :: words).flatMap (' ' :: ·))

/-- Listed words are read as the symbols they stand for. -/
theorem parse_listing {left : String} {symbols : List Symbol} {words : List (List Char)}
    (hleft : isName left = true) (hwords : List.Forall₂ Symbol.Word symbols words)
    (hsymbols : ∀ s ∈ symbols, s.Writable (· ≠ '\n')) :
    parse (listing left words) = .ok ⟨left, [⟨symbols, none⟩]⟩ := by
  obtain ⟨_, hitems, hspells⟩ := exists_items_rule (.first (.plain hwords)) hleft
    (List.forall_mem_singleton.mpr { symbols := hsymbols, tag := nofun })
  obtain ⟨items, _, hline, hnil, rfl⟩ := List.forall₂_cons_left_iff.mp hitems
  obtain rfl := List.forall₂_nil_left_iff.mp hnil
  have hspaced : Text.Spaced Apart (left.toList :: [':'] :: words)
      ([] ++ left.toList ++ ([':'] :: words).flatMap (' ' :: ·)) :=
    .cons (by simp [Text.Padding]) (fun c hc => by cases hc; exact apart_space _)
      (.of_words apart_space _)
  refine (congrArg parse ?_).trans
    (parse_of_cut (cut_spaced hspaced hline .nil (by simp)) (by simpa using hspells))
  rw [List.nil_append, List.append_nil, listing]

/-- Listed names are read as what they refer to. -/
theorem parse_listing_names {left : String} {names : List String} (hleft : isName left = true)
    (hnames : ∀ name ∈ names, isName name = true) :
    parse (listing left (names.map String.toList)) =
      .ok ⟨left, [⟨names.map Symbol.ofName, none⟩]⟩ := by
  refine parse_listing hleft ?_
    (List.forall_mem_map.mpr fun name hmem => (word_of_isName (hnames name hmem)).2)
  rw [List.forall₂_map_left_iff, List.forall₂_map_right_iff, List.forall₂_same]
  exact fun name hmem => (word_of_isName (hnames name hmem)).1

/-! ## What rule strings mention -/

/-- Tokens without an error, or those before the first error. -/
theorem exists_tokens (source : List (Except LexError Token)) :
    (∃ tokens : List Token, source = tokens.map .ok) ∨
      ∃ (tokens : List Token) (e : LexError) (later : List (Except LexError Token)),
        source = tokens.map .ok ++ .error e :: later := by
  induction source with
  | nil => exact Or.inl ⟨[], rfl⟩
  | cons answer source ih =>
      cases answer with
      | error e => exact Or.inr ⟨[], e, source, rfl⟩
      | ok token =>
          obtain ⟨tokens, rfl⟩ | ⟨tokens, e, later, rfl⟩ := ih
          · exact Or.inl ⟨token :: tokens, rfl⟩
          · exact Or.inr ⟨token :: tokens, e, later, rfl⟩

variable {tokens : List Token} {s : Symbol}

/-- A text that is read as a rule is cut into tokens that spell it. -/
theorem exists_spells_of_parse {text : String} {rule : RuleDecl} (h : parse text = .ok rule) :
    ∃ tokens, ruleLexer.tokens (fuelFor text) text = tokens.map .ok ∧ SpellsRule tokens rule := by
  obtain ⟨_, hsound, hfuel⟩ := tokens_spec text
  rw [parse_eq] at h
  rw [lexer_reader] at h hsound hfuel
  obtain ⟨tokens, hsource⟩ | ⟨tokens, e, later, hsource⟩ :=
    exists_tokens (ruleLexer.tokens (fuelFor text) text)
  · rw [hsource] at h hsound
    exact ⟨tokens, hsource, spells_of_verdict hsound h⟩
  · cases h.symm.trans (verdict_of_error hsound hsource (finished hsound hfuel))

theorem exists_spells_of_forall₂ {symbols : List Symbol}
    (h : List.Forall₂ Token.Spells tokens symbols) (hs : s ∈ symbols) :
    ∃ token ∈ tokens, token.Spells s := by
  induction h with
  | nil => cases hs
  | cons hspells _ ih =>
      rcases List.mem_cons.mp hs with rfl | hs
      · exact ⟨_, List.mem_cons_self, hspells⟩
      · obtain ⟨token, htoken, hspells⟩ := ih hs
        exact ⟨token, List.mem_cons_of_mem _ htoken, hspells⟩

/-- Each symbol of an alternative is spelled by one of its tokens. -/
theorem SpellsAlternative.exists_spells {alt : Alternative} (h : SpellsAlternative tokens alt)
    (hs : s ∈ alt.symbols) : ∃ token ∈ tokens, token.Spells s := by
  cases h with
  | plain hspells => exact exists_spells_of_forall₂ hspells hs
  | tagged hspells _ _ _ =>
      obtain ⟨token, htoken, hspells⟩ := exists_spells_of_forall₂ hspells hs
      exact ⟨token, List.mem_append_left _ htoken, hspells⟩

theorem SpellsAlternatives.exists_spells {alts : List Alternative} {alt : Alternative}
    (h : SpellsAlternatives tokens alts) (halt : alt ∈ alts) (hs : s ∈ alt.symbols) :
    ∃ token ∈ tokens, token.Spells s := by
  induction h with
  | first hspells =>
      obtain rfl := List.mem_singleton.mp halt
      exact hspells.exists_spells hs
  | more _ _ hspells ih =>
      rcases List.mem_append.mp halt with halt | halt
      · obtain ⟨token, htoken, hspells⟩ := ih halt
        exact ⟨token, List.mem_append_left _ htoken, hspells⟩
      · obtain rfl := List.mem_singleton.mp halt
        obtain ⟨token, htoken, hspells⟩ := hspells.exists_spells hs
        exact ⟨token, List.mem_append_right _ (List.mem_cons_of_mem _ htoken), hspells⟩

/-- A symbol that the token of a piece spells can be written. -/
theorem writable_of_piece {token : Token} {text rest : List Char} (h : token.Spells s)
    (hpiece : Piece text rest (some (token.kind, token.text))) : s.Writable (· ≠ '\n') := by
  obtain ⟨kind, spelled, pos, line⟩ := token
  generalize hitem : some (kind, spelled) = item at hpiece
  cases h with
  | name hkind =>
      obtain rfl : kind = .token "ID" := hkind
      cases hpiece with
      | name hstart hrun _ =>
          cases hitem
          refine (word_of_isName ?_).2
          rw [isName, String.toList_ofList]
          simpa [hstart] using hrun
      | _ => simp at hitem
  | @literal c hkind htext =>
      obtain rfl : kind = .token "LITERAL" := hkind
      obtain rfl : spelled = String.ofList [c] := htext
      cases hpiece with
      | literal _ hc =>
          obtain ⟨_, hsame⟩ := Prod.mk.inj (Option.some.inj hitem)
          obtain rfl := List.singleton_injective (String.ofList_injective hsame)
          exact hc
      | _ => simp at hitem

end RuleText

/-- Some rule string mentions the symbol. -/
def Symbol.Mentioned (s : Symbol) : Prop :=
  ∃ text rule, RuleText.parse text = .ok rule ∧ ∃ alt ∈ rule.alternatives, s ∈ alt.symbols

/-- Rule strings mention what can be written, and nothing else. -/
theorem Symbol.mentioned_iff {s : Symbol} : s.Mentioned ↔ s.Writable (· ≠ '\n') := by
  constructor
  · rintro ⟨text, rule, hparse, alt, halt, hs⟩
    obtain ⟨tokens, hsource, hspells⟩ := RuleText.exists_spells_of_parse hparse
    have hfuel := RuleText.length_lt_fuelFor text
    obtain ⟨_, _, htokens⟩ := RuleText.scan_spec (.start text.toList)
      (show text.toList.length < RuleText.fuelFor text by omega)
    cases hspells with
    | rule _ _ halts =>
        obtain ⟨token, htoken, hspelled⟩ := halts.exists_spells halt hs
        have hscanned : .ok token ∈ RuleText.ruleLexer.tokens (RuleText.fuelFor text) text := by
          rw [hsource]
          exact List.mem_map_of_mem (List.mem_cons_of_mem _ (List.mem_cons_of_mem _ htoken))
        obtain ⟨_, _, hpiece⟩ := htokens token hscanned
        exact RuleText.writable_of_piece hspelled hpiece
  · intro hs
    obtain ⟨word, hword⟩ := s.exists_word
    have hparse := RuleText.parse_listing (show RuleText.isName "a" = true by decide)
      (.cons hword .nil) (List.forall_mem_singleton.mpr hs)
    exact ⟨_, _, hparse, _, List.mem_singleton_self _, List.mem_singleton_self _⟩

namespace Grammar

variable {α : Type} {g : Grammar α} {tokens : List String} {symbols : List Symbol}
  {tag : Option Symbol} {action : Option α}

/-! ## Names that a grammar takes -/

/-- What is registered as a token is the built-in error token or written like a token. -/
theorem registerTokens_names {registry result : Registry Symbol (List Nat)}
    (h : registerTokens registry tokens = .ok result) (hname : name ∈ tokens) :
    (name = errorName ∨ isTokenName name = true) ∧ Symbol.token name ∈ result.keys := by
  induction tokens generalizing registry with
  | nil => cases hname
  | cons first rest ih =>
      simp only [registerTokens] at h
      split at h
      · cases h
      · rename_i hvalid
        rcases List.mem_cons.mp hname with rfl | hname
        · have hkept := (registerTokens_spec h).1 _ (Registry.mem_keys_register.mpr (Or.inr rfl))
          simp only [Bool.and_eq_true, bne_iff_ne, Bool.not_eq_true', not_and,
            Bool.not_eq_false] at hvalid
          exact ⟨or_iff_not_imp_left.mpr hvalid, hkept⟩
        · exact ih h hname

/-- A token of a new grammar is registered, and its name refers to it. -/
theorem ofTokens_names (h : ofTokens tokens = .ok g) (hname : name ∈ tokens) :
    Symbol.ofName name = .token name ∧ Symbol.token name ∈ g.terminals.keys := by
  unfold ofTokens at h
  split at h
  · cases h
  · rename_i hregister
    cases h
    obtain ⟨rfl | hwritten, hkey⟩ := registerTokens_names hregister hname
    · exact ⟨by decide, hkey⟩
    · exact ⟨Symbol.ofName_of_isTokenName hwritten, hkey⟩

/-- Nothing withdraws a terminal. -/
theorem mem_terminals_perform {s : Symbol} (hs : s ∈ g.terminals.keys) (call : Call α) :
    s ∈ (g.perform call).terminals.keys := by
  have hstart : ∀ (g : Grammar α) name, s ∈ g.terminals.keys →
      s ∈ (g.setStart name).2.terminals.keys := by
    intro g name hs
    obtain hsame | ⟨_, _, hsame⟩ := setStart_grammar g name <;> rwa [hsame]
  have hfirst : ∀ g : Grammar α, s ∈ g.terminals.keys → s ∈ g.computeFirst.2.terminals.keys := by
    intro g hs
    obtain ⟨_, hsame⟩ := computeFirst_grammar g
    rwa [hsame]
  have hfollow : ∀ (g : Grammar α) start, s ∈ g.terminals.keys →
      s ∈ (g.computeFollow start).2.terminals.keys := by
    intro g start hs
    obtain ⟨_, _, _, hsame⟩ := computeFollow_grammar g start
    rwa [hsame]
  cases call with
  | setPrecedence t assoc level =>
      obtain ⟨_, hsame⟩ := setPrecedence_grammar g t assoc level
      rwa [perform, hsame]
  | addProduction name symbols tag action =>
      obtain ⟨_, hsame | ⟨p, hsame⟩⟩ := addProduction_grammar g name symbols tag action
      · rwa [perform, hsame]
      · rw [perform, hsame]
        exact (mem_append_terminals _ _).mpr (Or.inl hs)
  | setStart name => exact hstart g name hs
  | buildItems => exact hs
  | computeFirst => exact hfirst g hs
  | computeFollow start => exact hfollow g start hs
  | buildTable method =>
      rw [perform, buildTable_grammar]
      exact prepare_induction (P := fun g => s ∈ g.terminals.keys) hstart (fun _ hs => hs) hfirst
        hfollow hs

theorem mem_terminals_performAll {s : Symbol} (hs : s ∈ g.terminals.keys) (calls : List (Call α)) :
    s ∈ (g.performAll calls).terminals.keys :=
  foldl_induction (P := fun g : Grammar α => s ∈ g.terminals.keys)
    (fun _ call _ hs => mem_terminals_perform hs call) hs

/-- What a grammar takes as a left side can be one. -/
theorem leftSideFault?_of_accepted {p : Production α}
    (h : (g.addProduction name symbols tag action).1 = .ok p) : leftSideFault? name = none := by
  unfold addProduction at h
  split at h
  · cases h
  · rename_i hfault
    exact (faults_of_ruleFault? hfault).1

/-- The names of productions other than production 0 can be left sides. -/
theorem Made.leftSideFault? (h : g.Made) {i : Nat} {p : Production α}
    (hp : g.production? (i + 1) = some p) : Grammar.leftSideFault? p.name = none := by
  refine h.production_induction
    (P := fun i p => i ≠ 0 → Grammar.leftSideFault? p.name = none) ?_ ?_ ?_ hp (Nat.succ_ne_zero i)
  · exact fun _ hne => absurd rfl hne
  · intro g name symbols tag action p _ hanswer _
    obtain ⟨⟨_, _, hp⟩, _⟩ := addProduction_accepted hanswer
    rw [hp]
    exact leftSideFault?_of_accepted hanswer
  · exact fun _ h => h

/-! ## Referring to tokens and rules -/

/-- Rule strings refer to a symbol by a name: wherever the name stands among other names it is read
as the symbol, and the grammar lets the symbol stand on a right side. -/
structure Refers (g : Grammar α) (name : String) (s : Symbol) : Prop where
  read : ∀ {left : String} {before after : List String}, RuleText.isName left = true →
    (∀ other ∈ before ++ after, RuleText.isName other = true) →
    RuleText.parse (RuleText.listing left ((before ++ name :: after).map String.toList)) =
      .ok ⟨left, [⟨before.map Symbol.ofName ++ s :: after.map Symbol.ofName, none⟩]⟩
  allowed : g.symbolFault? s = none

/-- A name that rule strings can spell refers to its symbol where the grammar allows it. -/
theorem refers_of_isName {s : Symbol} (hname : RuleText.isName name = true)
    (hrefers : Symbol.ofName name = s) (hallowed : g.symbolFault? s = none) : g.Refers name s := by
  subst hrefers
  refine ⟨fun hleft hothers => ?_, hallowed⟩
  rw [RuleText.parse_listing_names hleft, List.map_append, List.map_cons]
  simp only [List.forall_mem_append, List.forall_mem_cons] at hothers ⊢
  exact ⟨hothers.1, hname, hothers.2⟩

/-- The name of a token refers to that token. The name of a left side refers to a nonterminal if it
has a lowercase character, and to a token if it has none. Rule strings mention the tokens and the
rules with lowercase characters whose names they can spell, and no others, and refer to them by
their names; whatever was done to the grammar. -/
theorem names_agree (h : ofTokens tokens = .ok g) (calls : List (Call α)) :
    (∀ name ∈ tokens, Symbol.ofName name = .token name ∧
      ((Symbol.token name).Mentioned ↔ RuleText.isName name = true) ∧
      (RuleText.isName name = true → (g.performAll calls).Refers name (.token name))) ∧
    (∀ {name : String} {symbols : List Symbol} {tag : Option Symbol} {action : Option α}
      {p : Production α}, ((g.performAll calls).addProduction name symbols tag action).1 = .ok p →
        Symbol.ofName name = if hasLowercase name then .nonterminal name else .token name) ∧
    ∀ name ∈ (g.performAll calls).rules.keys,
      ((Symbol.nonterminal name).Mentioned ↔
        RuleText.isName name = true ∧ hasLowercase name = true) ∧
      (RuleText.isName name = true → hasLowercase name = true →
        (g.performAll calls).Refers name (.nonterminal name)) := by
  refine ⟨fun name hname => ?_, fun hadded => ?_, fun name hname => ?_⟩
  · obtain ⟨hrefers, hkey⟩ := ofTokens_names h hname
    have hallowed : (g.performAll calls).symbolFault? (.token name) = none :=
      if_pos (Registry.contains_iff.mpr (mem_terminals_performAll hkey calls))
    exact ⟨hrefers, Symbol.mentioned_iff.trans (and_iff_left hrefers),
      fun hspelled => refers_of_isName hspelled hrefers hallowed⟩
  · exact ofName_of_leftSideFault? (leftSideFault?_of_accepted hadded)
  · have hmade := (Made.ofTokens h).performAll calls
    obtain ⟨i, p, hp, rfl⟩ := hmade.wellFormed.mem_rules_iff.mp hname
    have hside := hmade.leftSideFault? hp
    have hmeans : Symbol.ofName p.name = .nonterminal p.name ↔ hasLowercase p.name = true := by
      rw [ofName_of_leftSideFault? hside]
      cases hasLowercase p.name <;> simp
    obtain ⟨hwritten, herror⟩ := of_leftSideFault? hside
    have hallowed : (g.performAll calls).symbolFault? (.nonterminal p.name) = none :=
      if_neg (by simp [herror, hwritten])
    exact ⟨Symbol.mentioned_iff.trans (and_congr_right fun _ => hmeans),
      fun hspelled hlower => refers_of_isName hspelled (hmeans.mpr hlower) hallowed⟩

theorem names_agree_sums : ofTokens ["NUMBER"] = .ok numbers ∧
    (numbers.performAll sumCalls).Refers "NUMBER" (.token "NUMBER") ∧
    (numbers.performAll sumCalls).Refers "sum" (.nonterminal "sum") ∧
    ((numbers.performAll sumCalls).addProduction "_" [] none none).1.isOk = true ∧
    Symbol.ofName "_" = .token "_" := by
  have hmade : ofTokens ["NUMBER"] = .ok numbers := rfl
  have hspelled : RuleText.isName "NUMBER" = true ∧ RuleText.isName "sum" = true := by
    decide
  have haccepted :
      ((numbers.performAll sumCalls).addProduction "_" [] none none).1.isOk = true := by
    decide
  obtain ⟨htokens, hsides, hrules⟩ := names_agree hmade sumCalls
  refine ⟨hmade, (htokens _ (by simp)).2.2 hspelled.1,
    (hrules "sum" (by decide)).2 hspelled.2 (by decide), haccepted, ?_⟩
  cases hanswer : ((numbers.performAll sumCalls).addProduction "_" [] none none).1 with
  | error e =>
      rw [hanswer] at haccepted
      cases haccepted
  | ok p =>
      rw [hsides hanswer]
      decide

/-- The grammar over two tokens, of which rule strings can spell one. -/
def accented : Grammar Unit :=
  { productions := [{ index := 0, name := augmentedStart, symbols := [] }]
    terminals := ⟨[(.endOfInput, []), (.error, []), (.token "A", []), (.token "É", [])]⟩ }

/-- A low line is taken as a left side and yet refers to a token, so no rule string mentions its
rule; and none mentions a token whose name it cannot spell. -/
theorem caseless_side : ofTokens ["A", "É"] = .ok accented ∧
    (accented.addProduction "_" [.token "A"] none none).1.isOk = true ∧
    Symbol.ofName "_" = .token "_" ∧ ¬ (Symbol.nonterminal "_").Mentioned ∧
    ¬ (Symbol.token "É").Mentioned := by
  refine ⟨rfl, by decide, by decide, fun h => ?_, fun h => ?_⟩
  · exact absurd (Symbol.mentioned_iff.mp h) (by decide)
  · exact absurd (Symbol.mentioned_iff.mp h) (by decide)

end Grammar

end ShiftReduce
