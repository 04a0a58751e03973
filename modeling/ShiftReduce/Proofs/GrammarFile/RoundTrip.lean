import ShiftReduce.Proofs.GrammarFile.Statements

/-!
# Grammar files are read as they are written

Each part of a file says what it declares to whatever was read before, and the parts follow one
another; so every text of a file is read as the file. Read `parse_layout` first.
-/

namespace ShiftReduce.GrammarFile

variable {file next result : GrammarFile} {lines others : List (List Char)} {line : List Char}
  {names : List String} {text : String}

/-! ## Declarations -/

theorem readDirective_token (h : Text.words text = "token" :: names) :
    file.readDirective text = .ok { file with tokens := file.tokens ++ names } := by
  simp [readDirective, h]

theorem readDirective_level {assoc : Assoc} (h : Text.words text = assoc.text :: names)
    (hne : names ≠ []) : file.readDirective text =
      .ok { file with precedence := file.precedence ++ [(assoc, names.map Symbol.ofWord)] } := by
  obtain ⟨name, names, rfl⟩ := List.exists_cons_of_ne_nil hne
  cases assoc <;> simp [readDirective, h, Assoc.text, addLevel]

theorem readDirective_start {name : String} (h : Text.words text = ["start", name]) :
    file.readDirective text = .ok { file with start := some name } := by
  simp [readDirective, h]

/-! ## Parts of a file -/

/-- Lines that make one file of another, whatever statements follow them. -/
structure Says (file : GrammarFile) (lines : List (List Char)) (next : GrammarFile) : Prop where
  no_feed : ∀ line ∈ lines, '\n' ∉ line
  loud : ∀ line ∈ trims lines, isSilent line = false
  begins : ∀ line ∈ (trims lines).head?, Begins line
  reads : ∀ {more : List String} {result : GrammarFile}, (∀ line ∈ more.head?, Begins line) →
    next.Reads more result → file.Reads (trims lines ++ more) result

namespace Says

theorem nil : file.Says [] file :=
  ⟨by simp, by simp [trims], by simp [trims], fun _ h => h⟩

/-- One part after another. -/
theorem append (h : file.Says lines next) (hothers : next.Says others result) :
    file.Says (lines ++ others) result where
  no_feed := List.forall_mem_append.mpr ⟨h.no_feed, hothers.no_feed⟩
  loud := by
    rw [trims, List.map_append]
    exact List.forall_mem_append.mpr ⟨h.loud, hothers.loud⟩
  begins := by
    rw [trims, List.map_append, List.head?_append]
    intro line hline
    rcases Option.or_eq_some_iff.mp hline with hline | ⟨_, hline⟩
    · exact h.begins line hline
    · exact hothers.begins line hline
  reads := by
    intro more final hmore hreads
    rw [trims, List.map_append, List.append_assoc]
    refine h.reads ?_ (hothers.reads hmore hreads)
    rw [List.head?_append]
    intro line hline
    rcases Option.or_eq_some_iff.mp hline with hline | ⟨_, hline⟩
    · exact hothers.begins line hline
    · exact hmore line hline

/-- The line of a declaration. -/
theorem declaration (name : List Char) {args : List (List Char)}
    (h : Declares (('%' :: name) :: args) line)
    (hwords : ∀ word ∈ name :: args, Text.Solid word)
    (hread : ∀ text, Text.words text = String.ofList name :: args.map String.ofList →
      file.readDirective text = .ok next) : file.Says [line] next := by
  obtain ⟨hfeed, body, htrim, hbody⟩ := h.exists_body hwords
  have htrims : trims [line] = [String.ofList ('%' :: body)] := congrArg (· :: []) htrim
  refine ⟨by simpa using hfeed, ?_, ?_, fun _ hreads => ?_⟩
  · simp [htrims, isSilent]
  · simp [htrims, Begins]
  · rw [htrims]
    exact .of_declaration (hread _ hbody) hreads

/-- The lines of a rule. -/
theorem rule {rule : RuleDecl} (h : rule.Lines lines) (hrule : rule.Writable) :
    file.Says lines { file with rules := file.rules ++ [rule] } := by
  obtain ⟨hfeed, c, rest, texts, htrims, hstart, hbars, hparse⟩ := h.exists_texts hrule
  have hne : c ≠ '#' ∧ c ≠ '|' := by
    constructor <;> rintro rfl <;> revert hstart <;> decide +kernel
  refine ⟨hfeed, ?_, ?_, fun hmore hreads => ?_⟩
  · rw [trims, htrims]
    refine List.forall_mem_cons.mpr ⟨?_, ?_⟩
    · simp [isSilent, hne.1]
    · simp only [List.mem_map, forall_exists_index, and_imp, forall_apply_eq_imp_iff₂]
      intro text hmem
      obtain ⟨rest, rfl⟩ := hbars text hmem
      simp [isSilent]
  · rw [trims, htrims]
    simp [Begins, hne]
  · rw [trims, htrims]
    exact .of_rule hstart hbars hparse hmore hreads

end Says

/-! ## The parts in order -/

/-- The words of symbols are solid and name the symbols. -/
theorem of_symbolWords {symbols : List Symbol} {words : List (List Char)}
    (h : List.Forall₂ Symbol.Word symbols words)
    (hsymbols : ∀ s ∈ symbols, s.Writable (Text.isBlank · = false)) :
    (∀ word ∈ words, Text.Solid word) ∧
      (words.map String.ofList).map Symbol.ofWord = symbols := by
  induction h with
  | nil => exact ⟨by simp, rfl⟩
  | cons hword _ ih =>
      obtain ⟨hs, hsymbols⟩ := List.forall_mem_cons.mp hsymbols
      obtain ⟨hsolid, hsame⟩ := hword.ofWord_eq hs
      obtain ⟨hsolids, hsames⟩ := ih hsymbols
      refine ⟨List.forall_mem_cons.mpr ⟨hsolid, hsolids⟩, ?_⟩
      rw [List.map_cons, List.map_cons, hsame, hsames]

theorem says_tokens (h : Declares ("%token".toList :: names.map String.toList) line)
    (hnames : ∀ name ∈ names, RuleText.isName name = true) :
    file.Says [line] { file with tokens := file.tokens ++ names } := by
  have hsame : (names.map String.toList).map String.ofList = names := by
    simp [Function.comp_def]
  have htoken : Text.Solid "token".toList := Text.solid_of_all (by decide +kernel)
  refine .declaration "token".toList h (List.forall_mem_cons.mpr ⟨htoken, ?_⟩)
    fun text htext => readDirective_token (by rw [htext, hsame, String.ofList_toList])
  simp only [List.mem_map, forall_exists_index, and_imp, forall_apply_eq_imp_iff₂]
  exact fun name hmem => RuleText.solid_of_isName (hnames name hmem)

theorem says_level {level : Assoc × List Symbol} (h : DeclaresLevel level line)
    (hne : level.2 ≠ []) (hsymbols : ∀ s ∈ level.2, s.Writable (Text.isBlank · = false)) :
    file.Says [line] { file with precedence := file.precedence ++ [level] } := by
  obtain ⟨words, hwords, hline⟩ := h
  obtain ⟨hsolid, hsame⟩ := of_symbolWords hwords hsymbols
  have hassoc : Text.Solid level.1.text.toList := by
    cases level.1 <;> exact Text.solid_of_all (by decide +kernel)
  refine .declaration level.1.text.toList hline (List.forall_mem_cons.mpr ⟨hassoc, hsolid⟩)
    fun text htext => ?_
  rw [String.ofList_toList] at htext
  rw [readDirective_level htext, hsame]
  intro hnil
  rw [hnil] at hsame
  exact hne hsame.symm

theorem says_levels {levels : List (Assoc × List Symbol)}
    (h : List.Forall₂ DeclaresLevel levels lines)
    (hlevels : ∀ level ∈ levels, level.2 ≠ [] ∧
      ∀ s ∈ level.2, s.Writable (Text.isBlank · = false)) :
    file.Says lines { file with precedence := file.precedence ++ levels } := by
  induction h generalizing file with
  | nil => simpa using Says.nil
  | cons hline _ ih =>
      obtain ⟨⟨hne, hsymbols⟩, hlevels⟩ := List.forall_mem_cons.mp hlevels
      simpa using (says_level hline hne hsymbols).append (ih hlevels)

theorem says_start {start : Option String}
    (h : List.Forall₂ (fun name => Declares ["%start".toList, name.toList]) start.toList lines)
    (hstart : ∀ name ∈ start, RuleText.isName name = true) (hnone : file.start = none) :
    file.Says lines { file with start := start } := by
  cases start with
  | none =>
      obtain rfl := List.forall₂_nil_left_iff.mp h
      rw [← hnone]
      exact .nil
  | some name =>
      obtain ⟨line, lines, hline, hnil, rfl⟩ := List.forall₂_cons_left_iff.mp h
      obtain rfl := List.forall₂_nil_left_iff.mp hnil
      have hword : Text.Solid "start".toList := Text.solid_of_all (by decide +kernel)
      refine .declaration "start".toList hline (List.forall_mem_cons.mpr
        ⟨hword, by simpa using RuleText.solid_of_isName (hstart name rfl)⟩)
        fun text htext => readDirective_start ?_
      simpa using htext

theorem says_rules {rules : List RuleDecl} {groups : List (List (List Char))}
    (h : List.Forall₂ RuleDecl.Lines rules groups) (hrules : ∀ rule ∈ rules, rule.Writable) :
    file.Says groups.flatten { file with rules := file.rules ++ rules } := by
  induction h generalizing file with
  | nil => simpa using Says.nil
  | cons hlines _ ih =>
      obtain ⟨hrule, hrules⟩ := List.forall_mem_cons.mp hrules
      simpa using (Says.rule hlines hrule).append (ih hrules)

/-- Every text of a file that can be written is read as that file. -/
theorem parse_layout (hfile : file.Writable) (h : file.Layout text) : parse text = .ok file := by
  obtain ⟨_, filled, ⟨htokens, hlevels, hstart, hrules⟩, hfilled, rfl⟩ := h
  have htold : Says {} _ _ := says_tokens htokens hfile.tokens
  have hsays := htold.append ((says_levels hlevels hfile.levels).append
    ((says_start hstart hfile.start rfl).append (says_rules hrules hfile.rules)))
  obtain ⟨numbered, hnumbered, hstatements⟩ := hfilled.exists_gather hsays.no_feed hsays.loud
  rw [parse, hstatements]
  have hend : ∀ line ∈ ([] : List String).head?, Begins line := by simp
  exact hsays.reads hend .nil numbered (by rw [hnumbered, List.append_nil]; rfl)

/-- A file of sums of numbers. -/
def sums : GrammarFile :=
  { tokens := ["NUM"]
    precedence := [(.left, [.literal '+', .literal '\'']), (.none, [.token "NEG"])]
    start := some "sum"
    rules := [⟨"sum", [⟨[.nonterminal "sum", .literal '|', .nonterminal "sum"], some "NEG"⟩,
      ⟨[.token "NUM"], none⟩, ⟨[], none⟩]⟩] }

/-- A text of that file, with a blank line, a comment and a rule over several lines. -/
def sumsText : String :=
  " %token NUM\n\n %left '+' \"'\"\n %nonassoc NEG\n %start sum\n" ++
    " sum : sum '|' sum %prec NEG\n\t# no rule\n | NUM |"

theorem parse_layout_sums :
    sums.Writable ∧ sums.Layout sumsText ∧ parse sumsText = .ok sums := by
  have hwritable : sums.Writable := by
    refine ⟨by decide +kernel, by decide +kernel, by decide +kernel, ?_⟩
    refine List.forall_mem_singleton.mpr ⟨by decide +kernel, by simp, ?_⟩
    have halternative : ∀ alt ∈ sums.rules.flatMap RuleDecl.alternatives,
        (∀ s ∈ alt.symbols, s.Writable (· ≠ '\n')) ∧
          ∀ tag ∈ alt.tag, RuleText.isName tag = true ∧ alt.symbols ≠ [] := by decide +kernel
    exact fun alt hmem => ⟨(halternative alt hmem).1, (halternative alt hmem).2⟩
  have hlayout : sums.Layout sumsText := by
    have hplus : Symbol.Word (.literal '+') ['\'', '+', '\''] := .literal (Or.inr rfl)
    have hquote : Symbol.Word (.literal '\'') ['"', '\'', '"'] := .literal (Or.inl rfl)
    have hbar : Symbol.Word (.literal '|') ['\'', '|', '\''] := .literal (Or.inr rfl)
    have hsum : Symbol.Word (.nonterminal "sum") "sum".toList := .nonterminal
    have htagged : Alternative.Words
        ⟨[.nonterminal "sum", .literal '|', .nonterminal "sum"], some "NEG"⟩ _ :=
      .tagged (.cons hsum (.cons hbar (.cons hsum .nil)))
    have hnumber : Symbol.Word (.token "NUM") "NUM".toList := .token
    -- the second alternative begins a line, and the last one goes on in it
    have hwords := @RuleDecl.Words.sameLine "sum" [_, _] [_] _ _ _
      (@RuleDecl.Words.nextLine "sum" [_] [_] _ _ (.first htagged) (.plain (.cons hnumber .nil)))
      (.plain .nil)
    have hspace : ∀ word, RuleText.Apart word ' ' := fun _ _ _ _ => by decide +kernel
    have hspaced := Text.Spaced.of_words hspace
    have hneg : Symbol.Word (.token "NEG") "NEG".toList := .token
    have hcomment : Filler "\t# no rule".toList :=
      ⟨by decide, Or.inr ⟨['\t'], " no rule".toList, by simp [Text.Padding], by decide +kernel⟩⟩
    have hblank : Filler [] := ⟨by simp, Or.inl (by simp)⟩
    refine ⟨_, _, .mk (.of_words _)
      (.cons ⟨_, .cons hplus (.cons hquote .nil), .of_words _⟩
        (.cons ⟨_, .cons hneg .nil, .of_words _⟩ .nil))
      (.cons (.of_words _) .nil)
      (.cons ⟨_, hwords, .cons (hspaced _) (.cons (hspaced _) .nil)⟩ .nil),
      .keep (.filler hblank (.keep (.keep (.keep (.keep (.filler hcomment (.keep .nil))))))), ?_⟩
    decide +kernel
  exact ⟨hwritable, hlayout, parse_layout hwritable hlayout⟩

end ShiftReduce.GrammarFile
